/-
Sources: markup as text or as bytes, by itself or in a file, and the raw tree it stands for.
-/
import SvgTree.Markup.Document
import SvgTree.Tree.Build

namespace SvgTree

inductive Source where
  | text (s : String)
  | bytes (bs : List UInt8)

namespace Source

def isBlankByte (b : UInt8) : Bool := (0x09 ≤ b && b ≤ 0x0D) || b == 0x20

def isBlank : Source → Bool
  | text s => Text.isBlank s
  | bytes bs => bs.all isBlankByte

def element (s : Source) : Except Fault Markup.Element :=
  if s.isBlank then .error .emptySource
  else
    let decoded := match s with
      | text t => Markup.decodeText t
      | bytes bs => Markup.decodeDocument bs
    (Markup.parse decoded).mapError .malformed

def toRaw (s : Source) : Except Fault Value := s.element.bind Markup.documentOf

def rootName (e : Markup.Element) : Except Fault String := Markup.qualify (e.tag.getD "")

end Source

def Fault.ofFile (path : String) (e : Fault) : Fault :=
  match e with
  | .emptySource | .malformed _ => .inFile path e
  | other => other

namespace Path

/-- A path without empty parts and parts that stand for the place itself. -/
def normalize (path : String) : String :=
  let cs := path.toList
  let slashes := cs.takeWhile (· == '/')
  let root := if slashes.isEmpty then "" else if slashes.length == 2 then "//" else "/"
  let parts := (Text.splitOn '/' path).filter fun p => !p.isEmpty && p != "."
  let text := root ++ "/".intercalate parts
  if text.isEmpty then "." else text

end Path

abbrev Files := String → Option (List UInt8)

namespace Source

def elementOfFile (files : Files) (path : String) : Except Fault Markup.Element :=
  match files path with
  | none => .error (.fileNotFound path)
  | some bs => (Source.bytes bs).element.mapError (·.ofFile path)

end Source
end SvgTree
