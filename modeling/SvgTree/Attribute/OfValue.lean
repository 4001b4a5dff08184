/-
Attributes read from values: a mapping of names to texts, or of any keys to attributes.
-/
import SvgTree.Fault

namespace SvgTree

/-- An attribute of that name and value: the name has to be text that is not blank, the
value text. -/
def Attribute.ofValues (name value : Value) : Except Fault Attribute :=
  match name with
  | .text n =>
    if h : Text.isBlank n = false then
      match value with
      | .text v => .ok ⟨n, v, h⟩
      | other => .error (.valueNotText n other)
    else .error (.nameMissing name)
  | other => .error (.nameMissing other)

namespace Attributes

def set (m : Attributes) (name value : Value) : Except Fault Attributes :=
  (Attribute.ofValues name value).map m.insert

def putRecord (m : Attributes) : Value → Except Fault Attributes
  | .attr a => .ok (m.insert a)
  | other => .error (.notAttribute other)

def setAll (m : Attributes) : List (Value × Value) → Except Fault Attributes
  | [] => .ok m
  | (name, value) :: rest =>
    match m.set name value with
    | .ok m' => m'.setAll rest
    | .error e => .error e

def putAll (m : Attributes) : List (Value × Value) → Except Fault Attributes
  | [] => .ok m
  | (_, value) :: rest =>
    match m.putRecord value with
    | .ok m' => m'.putAll rest
    | .error e => .error e

def ofMapping : Value → Except Fault Attributes
  | .dict entries => empty.setAll entries
  | _ => .error .noSuchMember

def ofRecords : Value → Except Fault Attributes
  | .dict entries => empty.putAll entries
  | _ => .error .noSuchMember

/-- Attributes as a node takes them: none, ready ones, or a mapping from names to values. -/
def ofInput : Value → Except Fault Attributes
  | .null => .ok empty
  | .attrs m => .ok m
  | v => ofMapping v

/-- Whether a name given as a value is there; lists and mappings are no names. -/
def getValue? (m : Attributes) (name : Value) : Except Fault (Option Attribute) :=
  match name with
  | .text n => .ok (m.get? n)
  | other => if other.isHashable then .ok none else .error (.unhashable other)

def hasValue (m : Attributes) (name value : Value) : Except Fault Bool :=
  match m.getValue? name with
  | .error e => .error e
  | .ok none => .ok false
  | .ok (some a) =>
    match value with
    | .null => .ok true
    | v => .ok (v.isText a.value)

def eraseValue (m : Attributes) (name : Value) : Except Fault Attributes :=
  match name with
  | .text n => .ok (m.erase n)
  | other => if other.isHashable then .ok m else .error (.unhashable other)

end Attributes
end SvgTree
