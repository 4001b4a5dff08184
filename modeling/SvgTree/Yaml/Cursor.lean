/-
Places in a text that is read line by line.

Columns count from the start of a line, and a byte-order mark takes none.  Line feeds, next-line
characters and the line and paragraph separators end a line.
-/
import SvgTree.Fault

namespace SvgTree
namespace Yaml

def isBreak (c : Char) : Bool := c == '\n' || c == '\u0085' || c == '\u2028' || c == '\u2029'

def isSpaceOrTab (c : Char) : Bool := c == ' ' || c == '\t'

def isGap (c : Char) : Bool := isSpaceOrTab c || isBreak c

def isWord (c : Char) : Bool := c.isAlphanum || c == '-' || c == '_'

structure Cursor where
  rest : List Char
  index : Nat := 0
  line : Nat := 0
  column : Nat := 0

abbrev Read (α : Type) := Except Fault (α × Cursor)

namespace Cursor

def step (cur : Cursor) : Cursor :=
  match cur.rest with
  | [] => cur
  | c :: rest =>
    if isBreak c then ⟨rest, cur.index + 1, cur.line + 1, 0⟩
    else ⟨rest, cur.index + 1, cur.line, if c == '\uFEFF' then cur.column else cur.column + 1⟩

def skip : Nat → Cursor → Cursor
  | 0, cur => cur
  | n + 1, cur => skip n cur.step

def peek? (cur : Cursor) : Option Char := cur.rest.head?

def readWhile (p : Char → Bool) (cur : Cursor) : List Char × Cursor :=
  let taken := cur.rest.takeWhile p
  (taken, cur.skip taken.length)

def skipWhile (p : Char → Bool) (cur : Cursor) : Cursor := (cur.readWhile p).2

def skipSpaces (cur : Cursor) : Cursor := cur.skipWhile (· == ' ')

/-- Whether the text ends `n` characters on, or goes on with such a character there. -/
def endsOr (p : Char → Bool) (n : Nat) (cur : Cursor) : Bool :=
  ((cur.rest.drop n).head?.map p).getD true

def gapAt (n : Nat) (cur : Cursor) : Bool := cur.endsOr isGap n

def atLineEnd (cur : Cursor) : Bool := cur.endsOr isBreak 0

def atWordEnd (cur : Cursor) : Bool := cur.endsOr (fun c => c == ' ' || isBreak c) 0

/-- Whether three such characters stand here by themselves. -/
def atMark (c : Char) (cur : Cursor) : Bool := [c, c, c].isPrefixOf cur.rest && cur.gapAt 3

def atMarker (cur : Cursor) : Bool := cur.atMark '-' || cur.atMark '.'

/-- Reads the end of a line.  The line and paragraph separators are kept, all else is a line
feed. -/
def readBreak? (cur : Cursor) : Option (Char × Cursor) :=
  match cur.rest with
  | [] => none
  | c :: _ =>
    if isBreak c then
      some (if c == '\u2028' || c == '\u2029' then c else '\n', cur.step)
    else none

def skipBreak (cur : Cursor) : Cursor := ((cur.readBreak?).map (·.2)).getD cur

def skipRemark (cur : Cursor) : Except Fault Cursor :=
  let cur := cur.skipSpaces
  let cur := if cur.peek? == some '#' then cur.skipWhile (!isBreak ·) else cur
  if cur.atLineEnd then .ok cur.skipBreak else .error .notYaml

end Cursor

/-- Line ends inside a scalar that goes on: a single line feed stands for a space, and
further ones for themselves. -/
def foldBreaks (first : Char) (more : List Char) : List Char :=
  if first != '\n' then first :: more else if more.isEmpty then [' '] else more

end Yaml
end SvgTree
