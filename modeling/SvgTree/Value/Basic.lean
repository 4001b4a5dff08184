/-
Values: what raw trees and rule files are made of.

A mapping keeps its entries in order, and its keys are values themselves, since a rule file
may have numbers or dates as keys.  A value may also be an attribute, a whole set of
attributes, or a reference to a node of a forest.
-/
import SvgTree.Attribute.Collection
import SvgTree.Number.Shortest
import SvgTree.Value.Date

namespace SvgTree

/-- The number under which a forest keeps a node. -/
abbrev NodeId := Nat

inductive Value where
  | null
  | bool (b : Bool)
  | int (n : Int)
  | float (x : Binary64)
  | text (s : String)
  | bytes (bs : List UInt8)
  | date (d : Date)
  | moment (m : Moment)
  | list (items : List Value)
  | dict (entries : List (Value × Value))
  | attr (a : Attribute)
  | attrs (m : Attributes)
  | node (id : NodeId)
  deriving Inhabited

namespace Value

/-- Whether the value counts as one: null, false, nought and what is empty do not. -/
def isTruthy : Value → Bool
  | null => false
  | bool b => b
  | int n => n != 0
  | float x => !x.isZero
  | text s => !s.isEmpty
  | bytes bs => !bs.isEmpty
  | list items => !items.isEmpty
  | dict entries => !entries.isEmpty
  | attrs m => m.size != 0
  | date _ | moment _ | attr _ | node _ => true

def orElse (v other : Value) : Value := if v.isTruthy then v else other

/-- Whether the value can be a key: lists and mappings cannot. -/
def isHashable : Value → Bool
  | list _ | dict _ => false
  | _ => true

def isText (s : String) : Value → Bool
  | text t => t == s
  | _ => false

theorem isText_iff {s : String} {v : Value} : v.isText s = true ↔ v = .text s := by
  cases v <;> simp [isText]

theorem isHashable_of_text {v : Value} (h : ∃ s, v = .text s) : v.isHashable = true := by
  obtain ⟨s, rfl⟩ := h
  rfl

theorem orElse_empty_text (s : String) : (Value.text s).orElse (.text "") = .text s := by
  rw [orElse, isTruthy]
  by_cases hs : s = ""
  · rw [hs]
    rfl
  · rw [if_pos (by simp [hs])]

instance decidableExistsText (v : Value) : Decidable (∃ s, v = .text s) :=
  match v with
  | .text s => isTrue ⟨s, rfl⟩
  | .null | .bool _ | .int _ | .float _ | .bytes _ | .date _ | .moment _ | .list _ | .dict _
  | .attr _ | .attrs _ | .node _ => isFalse (by rintro ⟨s, ⟨⟩⟩)

/-- A number behind a value; truth values count as one and nought. -/
inductive Number where
  | whole (n : Int)
  | real (x : Binary64)

def number? : Value → Option Number
  | bool b => some (.whole (if b then 1 else 0))
  | int n => some (.whole n)
  | float x => some (.real x)
  | _ => none

def Number.same : Number → Number → Bool
  | whole m, whole n => m == n
  | whole m, real x => x.compareInt m == some .eq
  | real x, whole n => x.compareInt n == some .eq
  -- What is no number is the same key as itself.
  | real x, real y => x.sameValue y || (x == .nan && y == .nan)

/-- Whether two values are one key.  Numbers are compared by value across their kinds. -/
def sameKey (v w : Value) : Bool :=
  match v.number?, w.number? with
  | some m, some n => m.same n
  | none, none =>
    match v, w with
    | null, null => true
    | text s, text t => s == t
    | bytes a, bytes b => a == b
    | date d, date e => d == e
    | moment m, moment n => m == n
    | attr a, attr b => a == b
    | node i, node j => i == j
    | _, _ => false
  | _, _ => false

/-- The entries with one more: a key that is there keeps its place and takes the new value. -/
def putEntry (key value : Value) : List (Value × Value) → List (Value × Value)
  | [] => [(key, value)]
  | (k, v) :: rest =>
    if k.sameKey key then (k, value) :: rest else (k, v) :: putEntry key value rest

def find? (key : Value) : List (Value × Value) → Option Value
  | [] => none
  | (k, v) :: rest => if k.sameKey key then some v else find? key rest

def field? (name : String) : List (Value × Value) → Option Value
  | [] => none
  | (k, v) :: rest => if k.isText name then some v else field? name rest

def field (name : String) (entries : List (Value × Value)) : Value :=
  (field? name entries).getD null

end Value
end SvgTree
