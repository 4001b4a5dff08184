/-
The declaration at the start of a document: its version, its encoding, and whether it stands
alone.
-/
import SvgTree.Markup.Prolog

namespace SvgTree
namespace Markup

structure Setting where
  name : List Char
  value : List Char
  /-- What follows the opening quote of the value. -/
  here : List Char

def isValueChar (c : Char) : Bool := c.isAlphanum || c == '.' || c == '-' || c == '_'

/-- Reads the next setting, if there is one.  A failure gives the characters from its place
on. -/
def readSetting (cs : List Char) : Except (List Char) (Option (Setting × List Char)) :=
  match cs with
  | [] => .ok none
  | c :: _ =>
    if !isBlank c then .error cs
    else
      match skipBlanks cs with
      | [] => .ok none
      | rest =>
        let (name, after) := rest.span fun c => c.toNat < 0x80 && c != '=' && !isBlank c
        if name.isEmpty then .error rest
        else
          match skipBlanks after with
          | '=' :: more =>
            match skipBlanks more with
            | q :: body =>
              if q == '"' || q == '\'' then
                match body.span isValueChar with
                | (value, e :: tail) =>
                  if e == q then .ok (some (⟨name, value, body⟩, tail)) else .error (e :: tail)
                | (_, []) => .error []
              else .error (q :: body)
            | [] => .error []
          | other => .error other

structure Declaration where
  /-- The name of the encoding with what follows its quote. -/
  encoding : Option (List Char × List Char) := none
  standalone : Bool := false

namespace Declaration

def readStandalone (d : Declaration) (setting : Setting) (rest : List Char) (start : List Char) :
    Except (List Char) Declaration :=
  if setting.name != "standalone".toList then .error start
  else if setting.value == "yes".toList || setting.value == "no".toList then
    match skipBlanks rest with
    | [] => .ok { d with standalone := setting.value == "yes".toList }
    | more => .error more
  else .error setting.here

def read (body : List Char) : Except (List Char) Declaration :=
  match readSetting body with
  | .error here => .error here
  | .ok none => .error body
  | .ok (some (version, rest)) =>
    if version.name != "version".toList then .error (skipBlanks body)
    else
      match readSetting rest with
      | .error here => .error here
      | .ok none => .ok {}
      | .ok (some (second, after)) =>
        if second.name == "encoding".toList then
          if !(second.value.head?.map Char.isAlpha).getD false then .error second.here
          else
            let d : Declaration := { encoding := some (second.value, second.here) }
            match readSetting after with
            | .error here => .error here
            | .ok none => .ok d
            | .ok (some (third, last)) => d.readStandalone third last (skipBlanks after)
        else readStandalone {} second after (skipBlanks rest)

end Declaration
end Markup
end SvgTree
