/-
What a command does: the code it ends with, and what it writes.
-/
import SvgTree.Command.Arguments
import SvgTree.Markup.Source
import SvgTree.Rule.Report

namespace SvgTree
namespace Command

inductive Outcome where
  | refused (r : Refused)
  | done (code : Nat) (output errors : String)

def Refused.code : Refused → Nat
  | .help => 0
  | .usage => 2

def Outcome.code : Outcome → Nat
  | refused r => r.code
  | done code .. => code

def unlines (lines : List String) : String := String.join (lines.map (· ++ "\n"))

def failed (code : Nat) (notes : List String) (message : String) : Outcome :=
  .done code "" (unlines (notes ++ ["Error: " ++ message]))

def loadNotes (rootName : String) : List String :=
  ["DEBUG:svg_adapter.xast:Parsed SVG root <" ++ rootName ++ ">",
    "DEBUG:svg_adapter.adapter:Wrapped XAST root with 1 top-level children"]

def resultNotes (r : StepResult) : List String :=
  r.cuts.map (fun c => "DEBUG:svg_adapter.navigator:Spliced <" ++ c.host ++
      ">: removed 1, inserted 0 at " ++ toString c.place) ++
    ["DEBUG:svg_adapter.pipeline:Plugin " ++ r.plugin ++ ": " ++ toString r.changed ++
      " changed, " ++ toString r.warnings.length ++ " warnings, " ++
      toString r.errors.length ++ " errors"] ++
    (if r.hasErrors then
      ["INFO:svg_adapter.pipeline:Stopping pipeline after errors in " ++ r.plugin] else [])

structure Loaded where
  forest : Forest
  root : NodeId
  rootName : String

def load (files : Files) (path : String) : Except Fault Loaded :=
  match Source.elementOfFile files path with
  | .error e => .error e
  | .ok element =>
    match Source.rootName element, Markup.documentOf element with
    | .error e, _ => .error e
    | _, .error e => .error e
    | .ok rootName, .ok raw =>
      match Forest.empty.wrap raw with
      | (_, .error e) => .error e
      | (forest, .ok root) => .ok { forest, root, rootName }

end Command
end SvgTree
