/-
The list of steps to run, as it is asked for on a command line.
-/
import SvgTree.Fault
import SvgTree.Text.Lower

namespace SvgTree
namespace Requested

def readNames : List String → Except Fault (List String)
  | [] => .ok []
  | piece :: rest =>
    let name := Text.lower (Text.strip piece)
    match Plugin.ofName? name with
    | none => .error (.unknownStep name)
    | some _ => (readNames rest).map (name :: ·)

/-- Plugin names parted by commas, without regard to case and to white space around them;
nothing, or `all` by itself, asks for every step. -/
def parse (arg : Option String) : Except Fault (Option (List String)) :=
  match arg with
  | none => .ok none
  | some s =>
    if Text.lower s == "all" then .ok none
    else (readNames (Text.splitOn ',' s)).map some

end Requested
end SvgTree
