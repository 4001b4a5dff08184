/-
What an element contains, by recursion.

`plain` is the raw tree of an element said without drafts, entry by entry, and `texts` are the
texts in it in document order.  The text nodes of the raw tree, each before what stands behind
it, have these texts for their values.
-/
import SvgTree.Markup.Element
import SvgTree.Proofs.Markup.Name
import SvgTree.Proofs.Tree.NormalForm

namespace SvgTree
namespace Value

mutual

def preorder : Value → List Value
  | .dict entries => .dict entries :: preorderUnder entries
  | _ => []

def preorderUnder : List (Value × Value) → List Value
  | [] => []
  | (k, v) :: rest => if k.isText "children" then preorderOf v else preorderUnder rest

def preorderOf : Value → List Value
  | .list items => preorderAll items
  | _ => []

def preorderAll : List Value → List Value
  | [] => []
  | v :: rest => v.preorder ++ preorderAll rest

end

/-- The values of the text nodes of a raw tree, in the order of its nodes. -/
def textValues (v : Value) : List Value :=
  (v.preorder.filter fun n => (field "type" n.lookups).isText "text").map
    fun n => field "value" n.lookups

theorem preorderAll_eq (l : List Value) : preorderAll l = l.flatMap preorder := by
  induction l with
  | nil => rfl
  | cons v rest ih => rw [preorderAll, ih, List.flatMap_cons]

end Value

namespace Markup

def usualEntry (a : String × String) : Value × Value := (.text (usualName a.1), .text a.2)

namespace Element

def chunk : Option String → List String
  | none => []
  | some s => if s.toList.all Text.isSpace then [] else [s]

def textNodes (text : Option String) : List Value :=
  (chunk text).map fun s => .dict [(.text "type", .text "text"), (.text "value", .text s)]

mutual

/-- The raw tree of an element: its name and its attributes in their usual form, and its
text before what its children stand for. -/
def plain : Element → Value
  | mk tag attributes text _ children => .dict [
      (.text "type", .text "element"),
      (.text "name", .text (usualName (tag.getD ""))),
      (.text "attributes", .dict (Value.collect (attributes.map usualEntry))),
      (.text "children", .list (textNodes text ++ plainAll children))]

/-- The items of children: each one with a tag, and the text after it in any case. -/
def plainAll : List Element → List Value
  | [] => []
  | e :: rest => (if e.tag.isNone then [] else [e.plain]) ++ (textNodes e.tail ++ plainAll rest)

end

mutual

/-- The texts in an element that are more than white space, in document order.  What stands in
a child without a tag is not among them, but the text after it is. -/
def texts : Element → List String
  | mk _ _ text _ children => chunk text ++ textsAll children

def textsAll : List Element → List String
  | [] => []
  | e :: rest => (if e.tag.isNone then [] else e.texts) ++ (chunk e.tail ++ textsAll rest)

end

/-- The element has a tag, and so far as it is read its names can be qualified. -/
inductive WellNamed : Element → Prop where
  | mk {tag : String} {attributes : List (String × String)} {text tail : Option String}
    {children : List Element} :
    ClosedName tag → (∀ a ∈ attributes, ClosedName a.1) →
    (∀ c ∈ children, c.tag.isNone = false → WellNamed c) →
      WellNamed (mk (some tag) attributes text tail children)

/-! ### The text nodes of a raw tree -/

theorem toList_visible? (text : Option String) : (visible? text).toList = chunk text := by
  cases text with
  | none => rfl
  | some s =>
    show (if !s.toList.all Text.isSpace then some s else none).toList = chunk (some s)
    rw [chunk]
    cases s.toList.all Text.isSpace <;> rfl

theorem textNodes_eq (text : Option String) :
    textNodes text = (visible? text).toList.map rawText := by
  rw [toList_visible?, textNodes]
  rfl

theorem textValues_element (name attributes : Value) (items : List Value) :
    (Value.dict [(.text "type", .text "element"), (.text "name", name),
        (.text "attributes", attributes), (.text "children", .list items)]).textValues =
      items.flatMap Value.textValues := by
  have hnodes : (Value.dict [(.text "type", .text "element"), (.text "name", name),
        (.text "attributes", attributes), (.text "children", .list items)]).preorder =
      .dict [(.text "type", .text "element"), (.text "name", name),
        (.text "attributes", attributes), (.text "children", .list items)] ::
          items.flatMap Value.preorder := by
    rw [← Value.preorderAll_eq]
    rfl
  rw [Value.textValues, hnodes, List.filter_cons_of_neg (fun h => Bool.false_ne_true h),
    List.filter_flatMap, List.map_flatMap]
  rfl

theorem flatMap_textNodes (text : Option String) :
    (textNodes text).flatMap Value.textValues = (chunk text).map .text := by
  rw [textNodes, List.flatMap_map]
  exact List.flatMap_pure_eq_map _ _

mutual

/-- The text nodes of the raw tree hold the texts of the element in order. -/
theorem textValues_plain (e : Element) : e.plain.textValues = e.texts.map .text := by
  cases e with
  | mk tag attributes text tail children =>
    rw [plain, textValues_element, List.flatMap_append, flatMap_textNodes, texts, List.map_append,
      textValues_plainAll children]

theorem textValues_plainAll (l : List Element) :
    (plainAll l).flatMap Value.textValues = (textsAll l).map .text := by
  cases l with
  | nil => rfl
  | cons e rest =>
    have hrest := textValues_plainAll rest
    rw [plainAll, textsAll, List.flatMap_append, List.flatMap_append, flatMap_textNodes, hrest,
      List.map_append, List.map_append]
    by_cases hnone : e.tag.isNone = true
    · rw [if_pos hnone, if_pos hnone]
      rfl
    · rw [if_neg hnone, if_neg hnone, List.flatMap_singleton, textValues_plain e]

end

end Element
end Markup
end SvgTree
