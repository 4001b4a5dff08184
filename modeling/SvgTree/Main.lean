/-
The program: its first argument names a command, the others are that command's own.
-/
import SvgTree.Command.Pipeline
import SvgTree.Command.Query

namespace SvgTree
namespace Command

def named? : String → Option (Files → List String → Outcome)
  | "query" => some Query.run
  | "pipeline" => some Pipeline.run
  | _ => none

/-- The arguments whose values can be paths: each by itself, and what follows an equals sign
or a letter with a hyphen in it. -/
def mentioned (args : List String) : List String :=
  args.flatMap fun s =>
    [s, String.ofList (s.toList.drop 2), String.ofList ((s.toList.dropWhile (· != '=')).drop 1)]

/-- The bytes of the files that exist among those paths, by their normal paths. -/
def readFiles (paths : List String) : IO (List (String × List UInt8)) :=
  paths.foldlM (fun found path => do
    let name := Path.normalize path
    try
      let bytes ← IO.FS.readBinFile name
      return (name, bytes.toList) :: found
    catch _ => return found) []

end Command
end SvgTree

open SvgTree Command in
def main (args : List String) : IO UInt32 := do
  match args with
  | [] => return 2
  | name :: rest =>
    match named? name with
    | none => return 2
    | some command =>
      let found ← readFiles (mentioned rest)
      match command (fun path => found.lookup path) rest with
      | .refused r => return UInt32.ofNat r.code
      | .done code output errors =>
        IO.print output
        IO.eprint errors
        return UInt32.ofNat code
