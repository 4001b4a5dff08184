/-
The text of a value: as it is shown by itself, and as it is shown quoted or inside another
value.  A value may hold nodes, which are shown by their descriptions.
-/
import SvgTree.Text.Quoted
import SvgTree.Value.Basic

namespace SvgTree

/-- How nodes are named in messages: by the name of their class, and by a short description. -/
structure NodeNames where
  className : NodeId → String
  describe : NodeId → String

def NodeNames.none : NodeNames := ⟨fun _ => "", fun _ => ""⟩

namespace Value

def typeName (names : NodeNames) : Value → String
  | null => "NoneType"
  | bool _ => "bool"
  | int _ => "int"
  | float _ => "float"
  | text _ => "str"
  | bytes _ => "bytes"
  | date _ => "date"
  | moment _ => "datetime"
  | list _ => "list"
  | dict _ => "dict"
  | attr _ => "AttributeRecord"
  | attrs _ => "AttributeMap"
  | node id => names.className id

def braces (inner : String) : String := "\x7b" ++ inner ++ "\x7d"

def attributeText (a : Attribute) : String :=
  "AttributeRecord(name=" ++ Text.quoted a.name ++ ", value=" ++ Text.quoted a.value ++
    ", prefix=" ++ Text.quoted a.label ++ ", local=" ++ Text.quoted a.localName ++ ")"

def attributesText (m : Attributes) : String :=
  let entry := fun (p : String × String) => Text.quoted p.1 ++ ": " ++ Text.quoted p.2
  "AttributeMap(" ++ braces (", ".intercalate (m.toPairs.map entry)) ++ ")"

mutual

/-- The value as it stands in quotes or inside another value. -/
def render (names : NodeNames) : Value → String
  | null => "None"
  | bool b => if b then "True" else "False"
  | int n => toString n
  | float x => x.text
  | text s => Text.quoted s
  | bytes bs => Text.quotedBytes bs
  | date d => d.literal
  | moment m => m.literal
  | list items => "[" ++ ", ".intercalate (renderItems names items) ++ "]"
  | dict entries => braces (", ".intercalate (renderEntries names entries))
  | attr a => attributeText a
  | attrs m => attributesText m
  | node id => names.describe id

def renderItems (names : NodeNames) : List Value → List String
  | [] => []
  | v :: rest => render names v :: renderItems names rest

def renderEntries (names : NodeNames) : List (Value × Value) → List String
  | [] => []
  | (k, v) :: rest => (render names k ++ ": " ++ render names v) :: renderEntries names rest

end

/-- The value by itself: text without quotes, dates in plain digits, all else as inside a
value. -/
def display (names : NodeNames) : Value → String
  | text s => s
  | date d => d.text
  | moment m => m.text
  | v => render names v

mutual

/-- The nodes that are described where the value is shown, in the order of its text. -/
def nodes : Value → List NodeId
  | node id => [id]
  | list items => nodesOfItems items
  | dict entries => nodesOfEntries entries
  | _ => []

def nodesOfItems : List Value → List NodeId
  | [] => []
  | v :: rest => nodes v ++ nodesOfItems rest

def nodesOfEntries : List (Value × Value) → List NodeId
  | [] => []
  | (k, v) :: rest => nodes k ++ nodes v ++ nodesOfEntries rest

end

def elided : Value → String
  | list _ => "[...]"
  | dict _ => braces "..."
  | _ => ""

end Value
end SvgTree
