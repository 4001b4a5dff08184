/-
The tokens of a document's content, and the pieces they are made of.

Every reader takes the characters from a place on and gives what it read with the characters
after it.  A reader that fails tells the characters from the first one that cannot go on, or
that the source ended.
-/
import SvgTree.Markup.Letters

namespace SvgTree
namespace Markup

inductive Halt where
  | invalid (here : List Char)
  | cut
  | unfinished

abbrev Scan (α : Type) := Except Halt (α × List Char)

def stuck : List Char → Halt
  | [] => .unfinished
  | c :: cs =>
    if c == cutMark then .cut else if c == oddMark then .unfinished else .invalid (c :: cs)

def skipBlanks (cs : List Char) : List Char := cs.dropWhile isBlank

def expect (c : Char) : List Char → Except Halt (List Char)
  | [] => .error .unfinished
  | d :: rest => if d == c then .ok rest else .error (stuck (d :: rest))

def readName : List Char → Scan (List Char)
  | [] => .error .unfinished
  | c :: rest =>
    if isNameStart c then
      let (more, rest) := rest.span isNameChar
      .ok (c :: more, rest)
    else .error (stuck (c :: rest))

/-- Reads a name with at most one colon, which parts two names. -/
def readLabelled (cs : List Char) : Scan (List Char) :=
  match readName cs with
  | .error h => .error h
  | .ok (first, ':' :: rest) =>
    match readName rest with
    | .error h => .error h
    | .ok (second, rest) => .ok (first ++ ':' :: second, rest)
  | done => done

inductive Reference where
  | entity (name : List Char)
  | code (n : Nat)

def hexDigit? (c : Char) : Option Nat :=
  if c.isDigit then some (c.toNat - 48)
  else if 'a' ≤ c && c ≤ 'f' then some (c.toNat - 87)
  else if 'A' ≤ c && c ≤ 'F' then some (c.toNat - 55)
  else none

def digit? (c : Char) : Option Nat := if c.isDigit then some (c.toNat - 48) else none

/-- Reads digits up to a semicolon; numbers beyond all characters are as good as the first
of them. -/
def readDigits (base : Nat) (digit : Char → Option Nat) (acc : Nat) :
    List Char → Except Halt (Nat × List Char)
  | [] => .error .unfinished
  | c :: rest =>
    match digit c with
    | some d => readDigits base digit (min (acc * base + d) 0x110000) rest
    | none => if c == ';' then .ok (acc, rest) else .error (stuck (c :: rest))

def readCode (base : Nat) (digit : Char → Option Nat) (cs : List Char) : Scan Reference :=
  match cs with
  | [] => .error .unfinished
  | c :: _ =>
    if (digit c).isSome then
      (readDigits base digit 0 cs).map fun (n, rest) => (.code n, rest)
    else .error (stuck cs)

def readReference (cs : List Char) : Scan Reference :=
  match cs with
  | '#' :: 'x' :: rest => readCode 16 hexDigit? rest
  | '#' :: rest => readCode 10 digit? rest
  | cs =>
    match readName cs with
    | .error h => .error h
    | .ok (name, rest) => (expect ';' rest).map fun rest => (.entity name, rest)

def charOf? (n : Nat) : Option Char :=
  if h : n.isValidChar then
    let c := Char.ofNatAux n h
    if isAllowed c then some c else none
  else none

def predefined? (name : List Char) : Option Char :=
  [("lt", '<'), ("gt", '>'), ("amp", '&'), ("quot", '"'), ("apos", '\'')].lookup
    (String.ofList name)

/-- A part of an attribute value; a reference comes with the characters from its ampersand
on. -/
inductive Part where
  | char (c : Char)
  | reference (r : Reference) (here : List Char)

/-- Reads one part of an attribute value.  White space becomes spaces, a carriage return
with a line feed one of them. -/
def readPart : List Char → Scan Part
  | [] => .error .unfinished
  | '\r' :: '\n' :: rest => .ok (.char ' ', rest)
  | c :: rest =>
    if c == '&' then
      (readReference rest).map fun (r, after) => (.reference r (c :: rest), after)
    else if c == '<' || !isAllowed c then .error (stuck (c :: rest))
    else .ok (.char (if isBlank c then ' ' else c), rest)

def readValue (quote : Char) : Nat → List Char → List Part → Scan (List Part)
  | 0, _, _ => .error .unfinished
  | fuel + 1, cs, acc =>
    if cs.head? == some quote then .ok (acc.reverse, cs.drop 1)
    else
      match readPart cs with
      | .error h => .error h
      | .ok (part, rest) => readValue quote fuel rest (part :: acc)

/-- The parts of a text up to the first that cannot be read, and whether that is its end. -/
def partsOf : Nat → List Char → List Part → List Part × Bool
  | 0, _, acc => (acc.reverse, false)
  | _ + 1, [], acc => (acc.reverse, true)
  | fuel + 1, cs, acc =>
    match readPart cs with
    | .error _ => (acc.reverse, false)
    | .ok (part, rest) => partsOf fuel rest (part :: acc)

structure RawAttribute where
  name : List Char
  here : List Char
  value : List Part

def readTagEnd (cs : List Char) : Scan Bool :=
  match cs with
  | '>' :: rest => .ok (false, rest)
  | '/' :: rest => (expect '>' rest).map fun rest => (true, rest)
  | cs => .error (stuck cs)

def readAttribute (cs : List Char) : Scan RawAttribute :=
  match readLabelled cs with
  | .error h => .error h
  | .ok (name, rest) =>
    match expect '=' (skipBlanks rest) with
    | .error h => .error h
    | .ok rest =>
      match skipBlanks rest with
      | [] => .error .unfinished
      | q :: rest =>
        if q == '"' || q == '\'' then
          (readValue q (rest.length + 1) rest []).map fun (value, after) =>
            (⟨name, cs, value⟩, after)
        else .error (stuck (q :: rest))

def readAttributes : Nat → List Char → List RawAttribute → Scan (List RawAttribute × Bool)
  | 0, _, _ => .error .unfinished
  | fuel + 1, cs, acc =>
    match cs with
    | [] => .error .unfinished
    | c :: _ =>
      if isNameStart c then
        match readAttribute cs with
        | .error h => .error h
        | .ok (a, rest) =>
          match rest with
          | [] => .error .unfinished
          | d :: _ =>
            if isBlank d then readAttributes fuel (skipBlanks rest) (a :: acc)
            else if d != '>' && d != '/' then
              .error (if d == oddMark then .unfinished else .invalid rest)
            else
              (readTagEnd rest).map fun (single, after) => (((a :: acc).reverse, single), after)
      else (readTagEnd cs).map fun (single, after) => ((acc.reverse, single), after)

/-- A token of content.  The name of an end tag comes with the characters from it on. -/
inductive Token where
  | start (name : List Char) (attributes : List RawAttribute) (single : Bool)
  | close (name here : List Char)
  | reference (r : Reference)
  | cdata
  | skipped
  | declaration
  | char (c : Char)

def readStart (cs : List Char) : Scan Token :=
  match readLabelled cs with
  | .error h => .error h
  | .ok (name, rest) =>
    match rest with
    | [] => .error .unfinished
    | c :: _ =>
      if isBlank c then
        (readAttributes (rest.length + 1) (skipBlanks rest) []).map
          fun ((attributes, single), after) => (.start name attributes single, after)
      else (readTagEnd rest).map fun (single, after) => (.start name [] single, after)

/-- Reads an end tag after its slash.  Its name may hold any number of colons. -/
def readClose (cs : List Char) : Scan Token :=
  match cs with
  | [] => .error .unfinished
  | c :: _ =>
    if isNameStart c then
      let (name, rest) := cs.span fun c => isNameChar c || c == ':'
      (expect '>' (skipBlanks rest)).map fun after => (.close name cs, after)
    else .error (stuck cs)

def readComment : List Char → Except Halt (List Char)
  | [] => .error .unfinished
  | '-' :: '-' :: '>' :: rest => .ok rest
  | '-' :: '-' :: rest => .error (stuck rest)
  | c :: rest => if isAllowed c then readComment rest else .error (stuck (c :: rest))

def readBody : List Char → List Char → Scan (List Char)
  | [], _ => .error .unfinished
  | '?' :: '>' :: rest, acc => .ok (acc.reverse, rest)
  | c :: rest, acc => if isAllowed c then readBody rest (c :: acc) else .error (stuck (c :: rest))

/-- An instruction by its target and what follows that; `xml` in lower case is the
declaration. -/
structure Instruction where
  target : List Char
  body : List Char

def Instruction.isDeclaration (i : Instruction) : Bool := i.target == "xml".toList

/-- Reads an instruction after its question mark.  No target is `xml` with a capital letter. -/
def readInstruction (cs : List Char) : Scan Instruction :=
  match readName cs with
  | .error h => .error h
  | .ok (target, rest) =>
    let reserved := target.map Char.toLower == "xml".toList && target != "xml".toList
    match rest with
    | [] => .error .unfinished
    | c :: more =>
      if isBlank c || c == '?' then
        if reserved then .error (stuck rest)
        else if isBlank c then
          (readBody more []).map fun (body, after) => (⟨target, c :: body⟩, after)
        else (expect '>' more).map fun after => (⟨target, []⟩, after)
      else .error (stuck rest)

/-- Reads the opening of literal text after its first bracket.  It is looked at only where
as many bytes follow as it has.  What cannot be read may stand for any number of bytes. -/
def readCdata (cs : List Char) : Scan Token :=
  let opening := "CDATA[".toList
  let start := cs.take opening.length
  if !start.contains badMark && (String.ofList start).utf8ByteSize < opening.length then
    .error .unfinished
  else
    let rec go : List Char → List Char → Scan Token
      | [], cs => .ok (.cdata, cs)
      | _ :: _, [] => .error .unfinished
      | o :: os, c :: cs => if o == c then go os cs else .error (stuck (c :: cs))
    go opening cs

def readMarkup (cs : List Char) : Scan Token :=
  match cs with
  | '!' :: '-' :: rest =>
    match expect '-' rest with
    | .error h => .error h
    | .ok rest => (readComment rest).map fun after => (.skipped, after)
  | '!' :: '[' :: rest => readCdata rest
  | '!' :: rest => .error (stuck rest)
  | '?' :: rest =>
    (readInstruction rest).map fun (i, after) =>
      (if i.isDeclaration then .declaration else .skipped, after)
  | '/' :: rest => readClose rest
  | cs => readStart cs

/-- Reads a token of content.  Line ends become line feeds. -/
def readContent (cs : List Char) : Scan Token :=
  match cs with
  | [] => .error .unfinished
  | '<' :: rest => readMarkup rest
  | '&' :: rest => (readReference rest).map fun (r, after) => (.reference r, after)
  | ']' :: ']' :: '>' :: rest => .error (.invalid ('>' :: rest))
  | '\r' :: '\n' :: rest => .ok (.char '\n', rest)
  | '\r' :: rest => .ok (.char '\n', rest)
  | c :: rest => if isAllowed c then .ok (.char c, rest) else .error (stuck (c :: rest))

end Markup
end SvgTree
