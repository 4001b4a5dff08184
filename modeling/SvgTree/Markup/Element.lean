/-
Elements of a document, and the raw tree they stand for.

An element has text before its first child, and each child has the text that follows it.  A
child without a tag is a comment or an instruction: it is left out, but the text after it is
not.  Text of white space alone is left out everywhere.

The raw nodes are drafted under numbers, and elements wait on a stack for their drafts to be
filled, so that no document is too deep.  The children of one element are drafted from left to
right, and the last of them is filled first.
-/
import SvgTree.Markup.Name

namespace SvgTree
namespace Markup

inductive Element where
  | mk (tag : Option String) (attributes : List (String × String)) (text tail : Option String)
      (children : List Element)

namespace Element

def tag : Element → Option String
  | mk t .. => t

def attributes : Element → List (String × String)
  | mk _ as .. => as

def text : Element → Option String
  | mk _ _ t .. => t

def tail : Element → Option String
  | mk _ _ _ t _ => t

def children : Element → List Element
  | mk _ _ _ _ cs => cs

mutual

def weight : Element → Nat
  | mk _ _ _ _ children => 1 + weightAll children

def weightAll : List Element → Nat
  | [] => 0
  | e :: rest => e.weight + weightAll rest

end

/-- A text, unless there is nothing to see. -/
def visible? (text : Option String) : Option String := text.filter fun s => !Text.isBlank s

/-- Attributes under their usual names.  Of two with one name the first gives the place and
the last the value. -/
def qualifyAll :
    List (String × String) → List (Value × Value) → Except Fault (List (Value × Value))
  | [], done => .ok done
  | (name, value) :: rest, done =>
    match qualify name with
    | .error e => .error e
    | .ok q => qualifyAll rest (Value.putEntry (.text q) (.text value) done)

def rawText (s : String) : Value := .dict [(.text "type", .text "text"), (.text "value", .text s)]

def rawNode (name : String) (attributes : List (Value × Value)) (items : List Value) : Value :=
  .dict [(.text "type", .text "element"), (.text "name", .text name),
    (.text "attributes", .dict attributes), (.text "children", .list items)]

end Element

/-- One item of a raw node that is being made: a text, or a raw node by its number. -/
inductive Piece where
  | text (s : String)
  | node (id : Nat)

def Piece.raw (read : Nat → Value) : Piece → Value
  | text s => Element.rawText s
  | node id => read id

def textPieces (text : Option String) : List Piece := (Element.visible? text).toList.map .text

/-- A raw node that is being made: its name and its attributes at once, its items bit by bit. -/
structure Draft where
  name : String
  attributes : List (Value × Value)
  items : Array Piece

structure Waiting where
  element : Element
  draft : Nat

def Waiting.load : List Waiting → Nat
  | [] => 0
  | w :: rest => w.element.weight + load rest

def Element.draft : Element → Except Fault Draft
  | mk none .. => .error .noSuchMember
  | mk (some tag) attributes .. =>
    match qualify tag, qualifyAll attributes [] with
    | .error e, _ => .error e
    | _, .error e => .error e
    | .ok name, .ok entries => .ok ⟨name, entries, #[]⟩

namespace Draft

def add (d : Draft) (pieces : List Piece) : Draft := { d with items := d.items ++ pieces }

def put (drafts : Array Draft) (host : Nat) (pieces : List Piece) : Array Draft :=
  drafts.modify host (·.add pieces)

/-- Puts the children of an element into its draft, each followed by its text.  Children that
are drafted themselves are put on top of what waits. -/
def putChildren (drafts : Array Draft) (host : Nat) :
    List Element → List Waiting → Except Fault (Array Draft × List Waiting)
  | [], waiting => .ok (drafts, waiting)
  | child :: rest, waiting =>
    if child.tag.isNone then
      putChildren (put drafts host (textPieces child.tail)) host rest waiting
    else
      match child.draft with
      | .error e => .error e
      | .ok draft =>
        let id := drafts.size
        putChildren (put (drafts.push draft) host (.node id :: textPieces child.tail)) host rest
          (⟨child, id⟩ :: waiting)

theorem load_putChildren {drafts filled : Array Draft} {host : Nat} {children : List Element}
    {waiting left : List Waiting}
    (h : putChildren drafts host children waiting = .ok (filled, left)) :
    Waiting.load left ≤ Element.weightAll children + Waiting.load waiting := by
  induction children generalizing drafts waiting with
  | nil =>
    cases h
    exact Nat.le_add_left _ _
  | cons child rest ih =>
    rw [putChildren] at h
    rw [Element.weightAll]
    split at h
    · have hrest := ih h
      omega
    · split at h
      · cases h
      · have hrest := ih h
        simp only [Waiting.load] at hrest
        omega

def fill (drafts : Array Draft) (waiting : List Waiting) : Except Fault (Array Draft) :=
  match waiting with
  | [] => .ok drafts
  | w :: rest =>
    match _h : putChildren (put drafts w.draft (textPieces w.element.text)) w.draft
        w.element.children rest with
    | .error e => .error e
    | .ok (filled, left) => fill filled left
termination_by Waiting.load waiting
decreasing_by
  have hload := load_putChildren _h
  have hweight : w.element.weight = 1 + Element.weightAll w.element.children := by
    cases w.element
    rw [Element.weight, Element.children]
  rw [Waiting.load, hweight]
  omega

/-- The raw node of a draft and of the levels below it down to `depth`. -/
def rawFrom (drafts : Array Draft) : Nat → Nat → Value
  | 0, _ => .null
  | depth + 1, id =>
    match drafts[id]? with
    | none => .null
    | some d =>
      Element.rawNode d.name d.attributes (d.items.toList.map (Piece.raw (rawFrom drafts depth)))

end Draft

/-- The raw tree of an element.  No branch is longer than there are drafts. -/
def Element.toRaw (e : Element) : Except Fault Value :=
  match e.draft with
  | .error f => .error f
  | .ok draft => (Draft.fill #[draft] [⟨e, 0⟩]).map fun drafts => Draft.rawFrom drafts drafts.size 0

def documentOf (element : Element) : Except Fault Value :=
  element.toRaw.map fun raw =>
    .dict [(.text "type", .text "root"), (.text "children", .list [raw])]

end Markup
end SvgTree
