/-
The command that runs the plugins of a rule file on the tree of a file, and reports what
they did.
-/
import SvgTree.Command.Outcome
import SvgTree.Rule.File
import SvgTree.Rule.Requested
import SvgTree.Rule.Run

namespace SvgTree
namespace Command
namespace Pipeline

def grammar : Grammar where
  plain := 1
  flags := [
    helpFlag,
    { key := "rule", spellings := ["--rule", "-r"], takesValue := true },
    { key := "steps", spellings := ["--steps", "-s"], takesValue := true },
    { key := "verbose", spellings := ["-v", "--verbose"] }]
  required := ["rule"]

/-- Runs a rule on a tree that is read.  The code tells whether a plugin reported errors. -/
def runOn (t : Loaded) (rule : List Step) (requested : Option (List String)) (source : String)
    (verbose : Bool) : Outcome :=
  match t.forest.runRule t.root rule requested with
  | (f, .error e) => failed 1 [] (e.message f.names)
  | (_, .ok report) =>
    let report := { report with source }
    let notes :=
      if verbose then loadNotes t.rootName ++ report.results.flatMap resultNotes else []
    .done (if report.hasErrors then 3 else 0) (report.text ++ "\n") (unlines notes)

/-- Runs a rule file on a file.  What is wrong with the request and the rule comes before
what is wrong with the markup. -/
def run (files : Files) (args : List String) : Outcome :=
  match grammar.parse args with
  | .error r => .refused r
  | .ok a =>
    let path := Path.normalize ((a.plain[0]?).getD "")
    let rulePath := Path.normalize ((a.value? "rule").getD "")
    if (files path).isNone then failed 1 [] ("SVG file not found: " ++ path)
    else if (files rulePath).isNone then failed 1 [] ("Rule file not found: " ++ rulePath)
    else
      match Requested.parse (some ((a.value? "steps").getD "all")) with
      | .error e => failed 2 [] (e.message .none)
      | .ok requested =>
        match Rule.ofFile files rulePath with
        | .error e => failed 2 [] ("Failed to parse rule file: " ++ e.message .none)
        | .ok rule =>
          match load files path with
          | .error e => failed 1 [] ("Failed to parse SVG: " ++ e.message .none)
          | .ok t => runOn t rule requested path (a.has "verbose")

end Pipeline
end Command
end SvgTree
