/-
Tokens of a document.

The indentation of block collections becomes tokens that open and close them.  A key needs
no mark of its own, and shows only by the colon after it: wherever a key can begin, the
place is kept, and the token that marks a key is put there when the colon comes.
-/
import SvgTree.Yaml.Label
import SvgTree.Yaml.Scalar

namespace SvgTree
namespace Yaml

inductive Token where
  | directive (d : Directive)
  | documentStart
  | documentEnd
  -- collections by indentation
  | sequenceOpen
  | mappingOpen
  | close
  -- collections in brackets
  | bracketOpen
  | bracketClose
  | braceOpen
  | braceClose
  | comma
  -- parts of collections
  | entry
  | key
  | value
  -- nodes
  | reference (name : String)
  | anchor (name : String)
  | tag (t : Tag)
  | scalar (plain : Bool) (text : List Char)

/-- A place where a key may have begun, with the number of tokens before it.  A required one
stands at the indent of a block collection and can be nothing else. -/
structure KeyStart where
  count : Nat
  index : Nat
  line : Nat
  column : Nat
  required : Bool

structure Lexer where
  cursor : Cursor
  /-- The tokens so far, the last one first. -/
  tokens : List Token := []
  /-- The indent of the innermost block collection, -1 outside of all. -/
  indent : Int := -1
  outerIndents : List Int := []
  /-- Whether a key without a mark can begin here. -/
  keyAllowed : Bool := true
  keyStart : Option KeyStart := none
  /-- The places where a key may have begun outside each pair of brackets around this place. -/
  outerKeyStarts : List (Option KeyStart) := []

namespace Lexer

def inFlow (x : Lexer) : Bool := !x.outerKeyStarts.isEmpty

def put (t : Token) (x : Lexer) : Lexer := { x with tokens := t :: x.tokens }

def putAfter (count : Nat) (ts : List Token) (x : Lexer) : Lexer :=
  let later := x.tokens.length - count
  { x with tokens := x.tokens.take later ++ ts.reverse ++ x.tokens.drop later }

/-- Closes the block collections that stand right of a column.  Inside brackets the indent
has no meaning. -/
def closeBlocks (column : Int) : List Int → Lexer → Lexer
  | [], x => x
  | outer :: rest, x =>
    if column < x.indent then
      closeBlocks column rest { x.put .close with indent := outer, outerIndents := rest }
    else x

def unwind (column : Int) (x : Lexer) : Lexer :=
  if x.inFlow then x else x.closeBlocks column x.outerIndents

/-- A block collection at a column, where that is right of the innermost one. -/
def deepen (column : Nat) (x : Lexer) : Option Lexer :=
  if x.indent < column then
    some { x with indent := column, outerIndents := x.indent :: x.outerIndents }
  else none

/-- A key without a mark ends on its line and is not long. -/
def isStale (cur : Cursor) (k : KeyStart) : Bool :=
  k.line != cur.line || 1024 < cur.index - k.index

def forget (x : Lexer) : Except Fault Lexer :=
  match x.keyStart with
  | some k => if k.required then .error .notYaml else .ok { x with keyStart := none }
  | none => .ok x

def forgetStale (x : Lexer) : Except Fault Lexer :=
  let stale (k : Option KeyStart) := (k.map (isStale x.cursor)).getD false
  let keep (k : Option KeyStart) := if stale k then none else k
  if (x.keyStart :: x.outerKeyStarts).any fun k => stale k && (k.map (·.required)).getD false then
    .error .notYaml
  else .ok { x with keyStart := keep x.keyStart, outerKeyStarts := x.outerKeyStarts.map keep }

def remember (x : Lexer) : Except Fault Lexer :=
  if !x.keyAllowed then .ok x
  else x.forget.map fun x =>
    let here := x.cursor
    { x with keyStart := some {
        count := x.tokens.length, index := here.index, line := here.line, column := here.column
        required := !x.inFlow && x.indent == here.column } }

def breakOff (x : Lexer) : Except Fault Lexer :=
  (x.unwind (-1)).forget.map fun x => { x with keyAllowed := false }

def skipGaps : Nat → Lexer → Lexer
  | 0, x => x
  | fuel + 1, x =>
    let cur := x.cursor.skipSpaces
    let cur := if cur.peek? == some '#' then cur.skipWhile (!isBreak ·) else cur
    match cur.readBreak? with
    | none => { x with cursor := cur }
    | some (_, cur) =>
      skipGaps fuel { x with cursor := cur, keyAllowed := x.keyAllowed || !x.inFlow }

def mark (t : Token) (keyAllowed : Bool) (x : Lexer) : Except Fault Lexer :=
  x.forget.map fun x => { x.put t with cursor := x.cursor.step, keyAllowed }

def readMarker (t : Token) (x : Lexer) : Except Fault Lexer :=
  x.breakOff.map fun x => { x.put t with cursor := x.cursor.skip 3 }

def openFlow (t : Token) (x : Lexer) : Except Fault Lexer :=
  x.remember.map fun x => { x.put t with
    cursor := x.cursor.step, keyAllowed := true
    keyStart := none, outerKeyStarts := x.keyStart :: x.outerKeyStarts }

def closeFlow (t : Token) (x : Lexer) : Except Fault Lexer :=
  match x.outerKeyStarts with
  | [] => .error .notYaml
  | outer :: rest => x.forget.map fun x => { x.put t with
      cursor := x.cursor.step, keyAllowed := false, keyStart := outer, outerKeyStarts := rest }

/-- An entry or a key with a mark.  In a block it stands where a key is allowed, and may open a
collection. -/
def readPart (t opening : Token) (keyAllowed : Bool) (x : Lexer) : Except Fault Lexer :=
  if x.inFlow then x.mark t keyAllowed
  else if !x.keyAllowed then .error .notYaml
  else
    match x.deepen x.cursor.column with
    | some deeper => (deeper.put opening).mark t keyAllowed
    | none => x.mark t keyAllowed

/-- The colon before a value.  It makes a key of what began at the kept place. -/
def readValueMark (x : Lexer) : Except Fault Lexer :=
  match x.keyStart with
  | none => x.readPart .value .mappingOpen (!x.inFlow)
  | some k =>
    let x := { x with keyStart := none }
    let x := match if x.inFlow then none else x.deepen k.column with
      | some deeper => deeper.putAfter k.count [.mappingOpen, .key]
      | none => x.putAfter k.count [.key]
    .ok { x.put .value with cursor := x.cursor.step, keyAllowed := false }

def readNode {α : Type} (token : α → Token) (read : Cursor → Read α) (x : Lexer) :
    Except Fault Lexer :=
  match x.remember with
  | .error e => .error e
  | .ok x =>
    (read x.cursor).map fun (a, cur) =>
      { x.put (token a) with cursor := cur, keyAllowed := false }

def readBlockScalar (folded : Bool) (x : Lexer) : Except Fault Lexer :=
  match x.forget with
  | .error e => .error e
  | .ok x => (readBlock folded x.indent x.cursor.step).map fun (text, cur) =>
      { x.put (.scalar false text) with cursor := cur, keyAllowed := true }

def readQuotedScalar (quote : Char) : Lexer → Except Fault Lexer :=
  readNode (.scalar false) fun cur => readQuoted quote (cur.rest.length + 1) cur.step []

def readPlainScalar (x : Lexer) : Except Fault Lexer :=
  x.remember.map fun x =>
    let (text, broke, cur) :=
      readPlain x.inFlow (x.indent + 1) (x.cursor.rest.length + 1) x.cursor [] [] false
    { x.put (.scalar true text) with cursor := cur, keyAllowed := broke }

def readToken (c : Char) (x : Lexer) : Except Fault Lexer :=
  let here := x.cursor
  let atGap := x.inFlow || here.gapAt 1
  if c == '%' && here.column == 0 then
    x.breakOff.bind fun x =>
      (readDirective x.cursor.step).map fun (d, cur) =>
        { x.put (.directive d) with cursor := cur }
  else if here.column == 0 && here.atMark '-' then x.readMarker .documentStart
  else if here.column == 0 && here.atMark '.' then x.readMarker .documentEnd
  else if c == '[' then x.openFlow .bracketOpen
  else if c == '{' then x.openFlow .braceOpen
  else if c == ']' then x.closeFlow .bracketClose
  else if c == '}' then x.closeFlow .braceClose
  else if c == ',' then x.mark .comma true
  else if c == '-' && here.gapAt 1 then x.readPart .entry .sequenceOpen true
  else if c == '?' && atGap then x.readPart .key .mappingOpen (!x.inFlow)
  else if c == ':' && atGap then x.readValueMark
  else if c == '*' then x.readNode .reference fun cur => readAnchor cur.step
  else if c == '&' then x.readNode .anchor fun cur => readAnchor cur.step
  else if c == '!' then x.readNode .tag readTag
  else if c == '|' && !x.inFlow then x.readBlockScalar false
  else if c == '>' && !x.inFlow then x.readBlockScalar true
  else if c == '\'' || c == '"' then x.readQuotedScalar c
  else if startsPlain x.inFlow here then x.readPlainScalar
  else .error .notYaml

def run : Nat → Lexer → Except Fault (List Token)
  | 0, _ => .error .notYaml
  | fuel + 1, x =>
    match (x.skipGaps (x.cursor.rest.length + 1)).forgetStale with
    | .error e => .error e
    | .ok x =>
      let x := x.unwind x.cursor.column
      match x.cursor.peek? with
      | none => x.breakOff.map fun x => x.tokens.reverse
      | some c => (x.readToken c).bind (run fuel)

end Lexer

/-- The tokens of a text.  A byte-order mark may stand before it. -/
def tokens (cs : List Char) : Except Fault (List Token) :=
  let start : Cursor := ⟨cs, 0, 0, 0⟩
  let start := if start.peek? == some '\uFEFF' then start.step else start
  Lexer.run (cs.length + 1) { cursor := start }

end Yaml
end SvgTree
