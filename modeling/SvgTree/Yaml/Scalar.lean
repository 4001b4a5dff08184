/-
Scalars as they are written: between quotes, plain, or as a block of lines.
-/
import SvgTree.Markup.Token
import SvgTree.Yaml.Cursor

namespace SvgTree
namespace Yaml

/-! ## Between quotes -/

/-- Reads the ends of lines inside a quoted scalar, with the blanks after each.  No document
may end there. -/
def readQuotedBreaks : Nat → Cursor → Read (List Char)
  | 0, _ => .error .notYaml
  | fuel + 1, cur =>
    if cur.atMarker then .error .notYaml
    else
      let cur := cur.skipWhile isSpaceOrTab
      match cur.readBreak? with
      | none => .ok ([], cur)
      | some (c, cur) => (readQuotedBreaks fuel cur).map fun (cs, cur) => (c :: cs, cur)

def readQuotedGap (fuel : Nat) (cur : Cursor) : Read (List Char) :=
  let (blanks, cur) := cur.readWhile isSpaceOrTab
  match cur.readBreak? with
  | none => .ok (blanks, cur)
  | some (first, cur) =>
    (readQuotedBreaks fuel cur).map fun (more, cur) => (foldBreaks first more, cur)

def escapes : List (Char × Char) :=
  [('0', '\x00'), ('a', '\x07'), ('b', '\x08'), ('t', '\t'), ('\t', '\t'), ('n', '\n'),
   ('v', '\x0B'), ('f', '\x0C'), ('r', '\r'), ('e', '\x1B'), (' ', ' '), ('"', '"'),
   ('\\', '\\'), ('/', '/'), ('N', '\u0085'), ('_', '\u00A0'), ('L', '\u2028'), ('P', '\u2029')]

def codeWidth? (c : Char) : Option Nat := [('x', 2), ('u', 4), ('U', 8)].lookup c

def hexValue? (cs : List Char) : Option Nat :=
  cs.foldlM (fun acc c => (Markup.hexDigit? c).map (acc * 16 + ·)) 0

def readCharCode (width : Nat) (cur : Cursor) : Read (List Char) :=
  let digits := cur.rest.take width
  match hexValue? digits with
  | none => .error .notYaml
  | some n =>
    if digits.length < width then .error .notYaml
    else if 0x110000 ≤ n then .error (.noSuchCharacter n)
    else .ok ([if n.isValidChar then Char.ofNat n else '\uFFFD'], cur.skip width)

def readEscape (fuel : Nat) (cur : Cursor) : Read (List Char) :=
  match cur.peek? with
  | none => .error .notYaml
  | some c =>
    match escapes.lookup c with
    | some d => .ok ([d], cur.step)
    | none =>
      match codeWidth? c with
      | some width => readCharCode width cur.step
      | none => if isBreak c then readQuotedBreaks fuel cur.step else .error .notYaml

/-- Reads a quoted scalar after its opening quote; only double quotes have escapes, and a
single quote is written twice. -/
def readQuoted (quote : Char) : Nat → Cursor → List Char → Read (List Char)
  | 0, _, _ => .error .notYaml
  | fuel + 1, cur, acc =>
    match cur.rest with
    | [] => .error .notYaml
    | c :: rest =>
      if c == quote then
        if quote == '\'' && rest.head? == some '\'' then
          readQuoted quote fuel (cur.skip 2) ('\'' :: acc)
        else .ok (acc.reverse, cur.step)
      else if isGap c then
        match readQuotedGap fuel cur with
        | .error e => .error e
        | .ok (gap, cur) => readQuoted quote fuel cur (gap.reverse ++ acc)
      else if c == '\\' && quote == '"' then
        match readEscape fuel cur.step with
        | .error e => .error e
        | .ok (cs, cur) => readQuoted quote fuel cur (cs.reverse ++ acc)
      else readQuoted quote fuel cur.step (c :: acc)

/-! ## Plain -/

def isFlowMark (c : Char) : Bool := c == ',' || c == '[' || c == ']' || c == '{' || c == '}'

def startsPlain (inFlow : Bool) (cur : Cursor) : Bool :=
  match cur.peek? with
  | none => false
  | some c =>
    let indicator := "-?:,[]\x7b\x7d#&*!|>'\"%@\x60".toList.contains c
    (!isGap c && !indicator) ||
      (!cur.gapAt 1 && (c == '-' || (!inFlow && (c == '?' || c == ':'))))

/-- The characters of a plain scalar up to the next blank, colon or mark that ends it. -/
def plainWord (inFlow : Bool) : List Char → List Char
  | [] => []
  | c :: rest =>
    let colon :=
      c == ':' && (rest.head?.map fun d => isGap d || (inFlow && isFlowMark d)).getD true
    if isGap c || colon || (inFlow && (isFlowMark c || c == '?')) then []
    else c :: plainWord inFlow rest

/-- Reads spaces and line ends after a word of a plain scalar; none where a document ends
there. -/
def readPlainBreaks : Nat → Cursor → Option (List Char) × Cursor
  | 0, cur => (none, cur)
  | fuel + 1, cur =>
    if cur.atMarker then (none, cur)
    else
      let cur := cur.skipSpaces
      match cur.readBreak? with
      | none => (some [], cur)
      | some (c, cur) =>
        let (more, cur) := readPlainBreaks fuel cur
        (more.map (c :: ·), cur)

/-- What stands between two words of a plain scalar; nothing where it ends.  The truth value
tells whether a line ended. -/
def readPlainGap (fuel : Nat) (cur : Cursor) : List Char × Bool × Cursor :=
  let (blanks, cur) := cur.readWhile (· == ' ')
  match cur.readBreak? with
  | none => (blanks, false, cur)
  | some (first, cur) =>
    match readPlainBreaks fuel cur with
    | (none, cur) => ([], true, cur)
    | (some more, cur) => (foldBreaks first more, true, cur)

/-- Reads the words of a plain scalar, each with the gap before it.  Outside brackets its
lines stand at or right of the column `indent`.  The truth value tells whether a line ended
after the last word. -/
def readPlain (inFlow : Bool) (indent : Int) :
    Nat → Cursor → List Char → List Char → Bool → List Char × Bool × Cursor
  | 0, cur, _, acc, broke => (acc.reverse, broke, cur)
  | fuel + 1, cur, gap, acc, broke =>
    let word := plainWord inFlow cur.rest
    if cur.peek? == some '#' || word.isEmpty then (acc.reverse, broke, cur)
    else
      let acc := word.reverse ++ (gap.reverse ++ acc)
      let (gap, broke, cur) := readPlainGap fuel (cur.skip word.length)
      if gap.isEmpty || (!inFlow && (cur.column : Int) < indent) then (acc.reverse, broke, cur)
      else readPlain inFlow indent fuel cur gap acc broke

/-! ## Blocks of lines -/

inductive Chomping where
  | clip
  | strip
  | keep
  deriving DecidableEq

def chomping? (c : Char) : Option Chomping :=
  if c == '+' then some .keep else if c == '-' then some .strip else none

/-- Reads the signs after the mark of a block: how to end it and how far to indent it, in
either order. -/
def readBlockSigns (cur : Cursor) : Read (Chomping × Option Nat) :=
  let width (cur : Cursor) : Option Nat × Cursor :=
    match cur.peek?.bind Markup.digit? with
    | some n => (some n, cur.step)
    | none => (none, cur)
  let (sign, n, cur) := match cur.peek?.bind chomping? with
    | some sign =>
      let (n, cur) := width cur.step
      (sign, n, cur)
    | none =>
      let (n, cur) := width cur
      match n.bind fun _ => cur.peek?.bind chomping? with
      | some sign => (sign, n, cur.step)
      | none => (.clip, n, cur)
  if n == some 0 || !cur.atWordEnd then .error .notYaml else .ok ((sign, n), cur)

/-- Reads blank lines up to the first line that holds something, and finds the widest of
their indents and its own. -/
def readLeadingBreaks : Nat → Cursor → List Char → Nat → List Char × Nat × Cursor
  | 0, cur, acc, width => (acc.reverse, width, cur)
  | fuel + 1, cur, acc, width =>
    let cur := cur.skipSpaces
    let width := max width cur.column
    match cur.readBreak? with
    | none => (acc.reverse, width, cur)
    | some (c, cur) => readLeadingBreaks fuel cur (c :: acc) width

def skipIndent (indent : Nat) : Nat → Cursor → Cursor
  | 0, cur => cur
  | n + 1, cur =>
    if cur.column < indent && cur.peek? == some ' ' then skipIndent indent n cur.step else cur

def readBlockBreaks (indent : Nat) : Nat → Cursor → List Char → List Char × Cursor
  | 0, cur, acc => (acc.reverse, cur)
  | fuel + 1, cur, acc =>
    let cur := skipIndent indent indent cur
    match cur.readBreak? with
    | none => (acc.reverse, cur)
    | some (c, cur) => readBlockBreaks indent fuel cur (c :: acc)

/-- The end of a line inside a block.  A folded block joins two lines by a space, unless one
of them begins with a blank or blank lines are between. -/
def blockBreak (folded : Bool) (lineEnd : List Char) (blankStart blankNext : Bool)
    (breaks : List Char) : List Char :=
  if folded && lineEnd == ['\n'] && !blankStart && !blankNext then
    if breaks.isEmpty then [' '] else []
  else lineEnd

def startsBlank (cur : Cursor) : Bool := (cur.peek?.map isSpaceOrTab).getD false

/-- Reads the lines of a block at one indent.  `lineEnd` is the end of the line before,
`breaks` the blank lines after it. -/
def readBlockLines (folded : Bool) (sign : Chomping) (indent : Nat) :
    Nat → Cursor → (lineEnd breaks acc : List Char) → List Char × Cursor
  | 0, cur, _, _, acc => (acc.reverse, cur)
  | fuel + 1, cur, lineEnd, breaks, acc =>
    if cur.column == indent && !cur.rest.isEmpty then
      let blankStart := startsBlank cur
      let (line, cur) := cur.readWhile (!isBreak ·)
      let acc := line.reverse ++ (breaks.reverse ++ acc)
      let (lineEnd, cur) := match cur.readBreak? with
        | some (c, cur) => ([c], cur)
        | none => ([], cur)
      let (breaks, cur) := readBlockBreaks indent fuel cur []
      if cur.column == indent && !cur.rest.isEmpty then
        let joint := blockBreak folded lineEnd blankStart (startsBlank cur) breaks
        readBlockLines folded sign indent fuel cur lineEnd breaks (joint.reverse ++ acc)
      else (closed lineEnd breaks acc, cur)
    else (closed lineEnd breaks acc, cur)
where
  closed (lineEnd breaks acc : List Char) : List Char :=
    (match sign with
      | .strip => acc
      | .clip => lineEnd.reverse ++ acc
      | .keep => breaks.reverse ++ (lineEnd.reverse ++ acc)).reverse

def readBlock (folded : Bool) (outer : Int) (cur : Cursor) : Read (List Char) :=
  match readBlockSigns cur with
  | .error e => .error e
  | .ok ((sign, width), cur) =>
    match cur.skipRemark with
    | .error e => .error e
    | .ok cur =>
      let least := (max (outer + 1) 1).toNat
      let fuel := cur.rest.length + 1
      match width with
      | some n =>
        let indent := least + n - 1
        let (breaks, cur) := readBlockBreaks indent fuel cur []
        .ok (readBlockLines folded sign indent fuel cur [] breaks [])
      | none =>
        let (breaks, found, cur) := readLeadingBreaks fuel cur [] 0
        .ok (readBlockLines folded sign (max least found) fuel cur [] breaks [])

end Yaml
end SvgTree
