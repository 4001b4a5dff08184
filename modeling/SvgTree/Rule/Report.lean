/-
What a run of plugins reports, and the report as text.
-/
import SvgTree.Text.Blank

namespace SvgTree

/-- A node taken out of the tree: what its parent was called and where it stood. -/
structure Cut where
  host : String
  place : Nat
  deriving DecidableEq

structure StepResult where
  plugin : String
  changed : Int := 0
  warnings : List String := []
  errors : List String := []
  /-- The nodes taken out, in the order of the cuts. -/
  cuts : List Cut := []

def StepResult.hasErrors (r : StepResult) : Bool := !r.errors.isEmpty

structure Report where
  results : List StepResult := []
  skipped : List String := []
  source : String := ""

namespace Report

def hasErrors (r : Report) : Bool := r.results.any (·.hasErrors)

def totalChanged (r : Report) : Int :=
  r.results.foldl (fun total result => total + result.changed) 0

def executed (r : Report) : List String := r.results.map (·.plugin)

def resultLines (r : StepResult) : List String :=
  ["Plugin: " ++ r.plugin, "  Changed: " ++ toString r.changed] ++
    r.warnings.map ("  [WARNING] " ++ ·) ++ r.errors.map ("  [ERROR] " ++ ·) ++ [""]

def lines (r : Report) : List String :=
  let executed := ", ".intercalate r.executed
  (if r.source.isEmpty then [] else ["File: " ++ r.source, ""]) ++
    (if r.skipped.isEmpty then []
      else "Skipped steps:" :: r.skipped.map ("  - " ++ ·) ++ [""]) ++
    r.results.flatMap resultLines ++
    ["Summary:", "  Executed steps: " ++ (if executed.isEmpty then "none" else executed),
      "  Total changed: " ++ toString r.totalChanged] ++
    (if r.hasErrors then ["", "*** ERRORS DETECTED - pipeline stopped ***"] else [])

def text (r : Report) : String := "\n".intercalate r.lines

end Report
end SvgTree
