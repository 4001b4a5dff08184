/-
Rule files: bytes in UTF-8 that hold one YAML document.
-/
import SvgTree.Markup.Source
import SvgTree.Rule.Step
import SvgTree.Yaml.Document

namespace SvgTree
namespace Rule

def lineFeeds : List Char → List Char
  | '\r' :: '\n' :: rest => '\n' :: lineFeeds rest
  | '\r' :: rest => '\n' :: lineFeeds rest
  | c :: rest => c :: lineFeeds rest
  | [] => []

/-- The text of a file.  A character cut off by the end of the file is told from its own
first byte. -/
def decode (bytes : List UInt8) : Except Fault (List Char) :=
  match Text.decodeUtf8 bytes with
  | .ok cs => .ok (lineFeeds cs)
  | .error e => .error (.notUtf8 (if e.reason = .ending then { e with offset := 0 } else e))

def ofBytes (bytes : List UInt8) : Except Fault (List Step) :=
  match decode bytes with
  | .error e => .error e
  | .ok cs => (Yaml.valueOf cs).bind ofDocument

def ofFile (files : Files) (path : String) : Except Fault (List Step) :=
  match files path with
  | none => .error (.fileNotFound path)
  | some bytes => ofBytes bytes

end Rule
end SvgTree
