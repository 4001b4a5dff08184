/-
The command that lists what a selector matches in a file.
-/
import SvgTree.Command.Json
import SvgTree.Command.Outcome
import SvgTree.Selector.Query
import SvgTree.Tree.Export

namespace SvgTree
namespace Command
namespace Query

def grammar : Grammar where
  plain := 2
  flags := [
    helpFlag,
    { key := "format", spellings := ["-f", "--format"], takesValue := true
      choices := ["text", "json"] },
    { key := "first", spellings := ["--first"] },
    { key := "verbose", spellings := ["-v", "--verbose"] }]

def describe (f : Forest) (i : NodeId) : String :=
  let n := f.node i
  let pairs := n.attributes.entries.map fun a => a.name ++ "=\"" ++ a.value ++ "\""
  let name := n.name.display .none
  if pairs.isEmpty then "<" ++ name ++ ">" else "<" ++ name ++ " " ++ " ".intercalate pairs ++ ">"

def asJson (f : Forest) (found : List NodeId) : String :=
  Json.text 0 (.list (found.map fun i =>
    let n := f.node i
    .dict [(.text "name", n.name), (.text "attributes", n.attributes.toDict)]))

def warnings (s : Selector) : List String :=
  s.unsupportedParts.map ("Warning: unsupported selector: " ++ ·) ++
    (if s.isSupported then [] else ["Warning: selector cannot match any element"])

def found (t : Loaded) (s : Selector) (firstOnly : Bool) : Except Fault (List NodeId) :=
  if firstOnly then (t.forest.query t.root s).map Option.toList else t.forest.queryAll t.root s

def run (files : Files) (args : List String) : Outcome :=
  match grammar.parse args with
  | .error r => .refused r
  | .ok a =>
    let path := Path.normalize ((a.plain[0]?).getD "")
    let selector := Selector.parse ((a.plain[1]?).getD "")
    if (files path).isNone then failed 1 [] ("SVG file not found: " ++ path)
    else
      match load files path with
      | .error e => failed 1 [] ("Failed to parse SVG: " ++ e.message .none)
      | .ok t =>
        match found t selector (a.has "first") with
        | .error e => failed 1 [] (e.message .none)
        | .ok nodes =>
          let notes := if a.has "verbose" then loadNotes t.rootName else []
          let output :=
            if a.value? "format" == some "json" then asJson t.forest nodes ++ "\n"
            else unlines (nodes.map (describe t.forest) ++
              ["", toString nodes.length ++ " match(es)"])
          .done (if nodes.isEmpty then 3 else 0) output (unlines (notes ++ warnings selector))

end Query
end Command
end SvgTree
