/-
The tokens before and after the root element, and the document type declaration.

Only entities declared in the document itself are kept.  A declaration that refers to a part
outside the document makes unknown entities permissible, since they could be declared there.
-/
import SvgTree.Markup.Problem
import SvgTree.Markup.Token

namespace SvgTree
namespace Markup

inductive Outer where
  | blanks
  | skipped
  | declaration (i : Instruction)
  | declare (keyword : List Char)
  | element
  | name (text : List Char)
  | literal (text : List Char)
  | closing
  | opening
  | ending
  | percent
  | parameter
  | other

def readDeclare (cs : List Char) : Scan Outer :=
  match cs with
  | '-' :: rest =>
    match expect '-' rest with
    | .error h => .error h
    | .ok rest => (readComment rest).map fun after => (.skipped, after)
  | '[' :: rest => .ok (.other, rest)
  | c :: _ =>
    if c.isAlpha then
      let (keyword, rest) := cs.span Char.isAlpha
      match rest with
      | [] => .error .unfinished
      | '%' :: more =>
        match more with
        | [] => .error .unfinished
        | d :: _ =>
          if isBlank d || d == '%' then .error (.invalid rest) else .ok (.declare keyword, rest)
      | d :: _ => if isBlank d then .ok (.declare keyword, rest) else .error (stuck rest)
    else .error (stuck cs)
  | [] => .error .unfinished

def readLiteral (quote : Char) : List Char → List Char → Scan Outer
  | [], _ => .error .unfinished
  | c :: rest, acc =>
    if c == quote then
      match rest with
      | [] => .ok (.literal acc.reverse, [])
      | d :: _ =>
        if isBlank d || d == '>' || d == '%' || d == '[' then .ok (.literal acc.reverse, rest)
        else .error (.invalid rest)
    else if isAllowed c then readLiteral quote rest (c :: acc)
    else .error (stuck (c :: rest))

def endsName (c : Char) : Bool :=
  isBlank c || c == '>' || c == ')' || c == ',' || c == '|' || c == '[' || c == '%'

/-- Reads what follows the characters of a name: a mark of repetition, or nothing that
belongs to it. -/
def readNameEnd (cs : List Char) (word : Outer) : Scan Outer :=
  match cs with
  | [] => .ok (word, [])
  | c :: rest =>
    if endsName c || c == oddMark then .ok (word, cs)
    else if c == '+' || c == '*' || c == '?' then
      match word with
      | .name _ => .ok (.other, rest)
      | _ => .error (.invalid cs)
    else .error (stuck cs)

def readWord (cs : List Char) : Scan Outer :=
  let run := fun (c : Char) => isNameChar c || c == ':'
  let (first, rest) := cs.span isNameChar
  let named := (first.head?.map isNameStart).getD false
  match named, rest with
  | true, [':'] => .error .unfinished
  | true, ':' :: c :: more =>
    let (second, after) := (c :: more).span isNameChar
    if second.isEmpty then
      readNameEnd ((c :: more).dropWhile run) .other
    else match after with
      | ':' :: _ => readNameEnd (after.dropWhile run) .other
      | _ => readNameEnd after (.name (first ++ ':' :: second))
  | true, _ => readNameEnd rest (.name first)
  | false, _ => readNameEnd (cs.dropWhile run) .other

def readOuter (cs : List Char) : Scan Outer :=
  match cs with
  | [] => .error .unfinished
  | '<' :: '!' :: rest => readDeclare rest
  | '<' :: '?' :: rest =>
    (readInstruction rest).map fun (i, after) =>
      (if i.isDeclaration then .declaration i else .skipped, after)
  | '<' :: rest =>
    match rest with
    | [] => .error .unfinished
    | c :: _ =>
      -- Whether a character beyond ASCII can start a name is left to the reader of the element.
      if isNameStart c || (0x80 ≤ c.toNat && c != badMark) then .ok (.element, cs)
      else .error (stuck rest)
  | '"' :: rest => readLiteral '"' rest []
  | '\'' :: rest => readLiteral '\'' rest []
  | '%' :: rest =>
    match rest with
    | [] => .error .unfinished
    | c :: _ =>
      if isBlank c || c == '%' then .ok (.percent, rest)
      else
        match readName rest with
        | .error h => .error h
        | .ok (_, rest) => (expect ';' rest).map fun after => (.parameter, after)
  | ']' :: ']' :: [] => .error .unfinished
  | ']' :: ']' :: '>' :: rest => .ok (.other, rest)
  | ']' :: rest => .ok (.ending, rest)
  | ')' :: rest =>
    match rest with
    | [] => .ok (.other, rest)
    | c :: more =>
      if c == '*' || c == '?' || c == '+' then .ok (.other, more)
      else if isBlank c || c == '>' || c == ',' || c == '|' || c == ')' then .ok (.other, rest)
      else .error (stuck rest)
  | '#' :: rest =>
    match readName rest with
    | .error h => .error h
    | .ok (_, after) =>
      match after with
      | [] => .ok (.other, [])
      | c :: _ =>
        if isBlank c || c == ')' || c == '>' || c == '%' || c == '|' then .ok (.other, after)
        else .error (stuck after)
  | '>' :: rest => .ok (.closing, rest)
  | '[' :: rest => .ok (.opening, rest)
  | ',' :: rest | '(' :: rest | '|' :: rest => .ok (.other, rest)
  | c :: _ =>
    if isBlank c then .ok (.blanks, skipBlanks cs)
    else if isNameChar c || c == ':' then readWord cs
    else .error (stuck cs)

structure Stop where
  problem : Problem
  here : List Char

/-- The problem behind the failure of a reader that began at `start`. -/
def Halt.stop (start : List Char) : Halt → Stop
  | .invalid here => ⟨.invalidToken, here⟩
  | .cut => ⟨.cutCharacter, start⟩
  | .unfinished => ⟨.unclosedToken, start⟩

/-- What an entity stands for: text in the document, or something outside it. -/
inductive Entity where
  | internal (text : List Char)
  | outside

structure Doctype where
  entities : List (List Char × Entity) := []
  /-- Whether declarations may exist outside the document. -/
  isOpen : Bool := false

namespace Doctype

def find? (d : Doctype) (name : List Char) : Option Entity :=
  (d.entities.find? (·.1 == name)).map (·.2)

def declare (d : Doctype) (name : List Char) (e : Entity) : Doctype :=
  if (d.find? name).isSome then d else { d with entities := d.entities ++ [(name, e)] }

/-- The text of an entity from its literal: references to characters are replaced, those to
entities stay, and line ends become line feeds.  What is wrong comes with the characters
from its place on. -/
def entityText : Nat → List Char → List Char → Except (Problem × List Char) (List Char)
  | 0, _, acc => .ok acc.reverse
  | _ + 1, [], acc => .ok acc.reverse
  | fuel + 1, c :: rest, acc =>
    if c == '&' then
      match readReference rest with
      | .error (.invalid here) => .error (.invalidToken, here)
      | .error _ => .error (.invalidToken, c :: rest)
      | .ok (.code n, after) =>
        match charOf? n with
        | none => .error (.badCharacterNumber, c :: rest)
        | some d => entityText fuel after (d :: acc)
      | .ok (.entity name, after) => entityText fuel after (';' :: name.reverse ++ '&' :: acc)
    else if c == '%' then
      match readOuter (c :: rest) with
      | .ok (.parameter, _) => .error (.parameterEntity, c :: rest)
      | .ok _ => .error (.invalidToken, rest)
      | .error (.invalid here) => .error (.invalidToken, here)
      | .error _ => .error (.invalidToken, c :: rest)
    else if c == '\r' then
      let rest := match rest with
        | '\n' :: more => more
        | _ => rest
      entityText fuel rest ('\n' :: acc)
    else entityText fuel rest (c :: acc)

def isPublicChar (c : Char) : Bool :=
  c.isAlphanum || " \r\n-'()+,./:=?;!*#@$_%".toList.contains c

inductive State where
  | root
  | afterRoot
  | publicId
  | systemId
  | afterIds
  | subset
  | afterSubset
  | entity
  | entityValue (name : List Char)
  | entityPublic (name : List Char)
  | entitySystem (name : List Char)
  | entityEnd
  | declared

/-- The next state after a token, with what is known by then; none where the token may not
come. -/
def step (d : Doctype) (state : State) (token : Outer) : Option (Doctype × State) :=
  match state, token with
  | _, .blanks => some (d, state)
  | .root, .name _ => some (d, .afterRoot)
  | .afterRoot, .opening => some (d, .subset)
  | .afterRoot, .name word =>
    if word == "SYSTEM".toList then some (d, .systemId)
    else if word == "PUBLIC".toList then some (d, .publicId)
    else none
  | .publicId, .literal _ => some (d, .systemId)
  | .systemId, .literal _ => some ({ d with isOpen := true }, .afterIds)
  | .afterIds, .opening => some (d, .subset)
  | .subset, .skipped => some (d, .subset)
  | .subset, .parameter => some ({ d with isOpen := true }, .subset)
  | .subset, .ending => some (d, .afterSubset)
  | .subset, .declare keyword =>
    if keyword == "ENTITY".toList then some (d, .entity)
    else if ["ELEMENT", "ATTLIST", "NOTATION"].any (·.toList == keyword) then some (d, .declared)
    else none
  | .entity, .name name => some (d, .entityValue name)
  | .entity, .percent => some (d, .declared)
  | .entityValue name, .literal text =>
    match entityText text.length text [] with
    | .ok t => some (d.declare name (.internal t), .entityEnd)
    | .error _ => none
  | .entityValue name, .name word =>
    if word == "SYSTEM".toList then some (d, .entitySystem name)
    else if word == "PUBLIC".toList then some (d, .entityPublic name)
    else none
  | .entityPublic name, .literal _ => some (d, .entitySystem name)
  | .entitySystem name, .literal _ => some (d.declare name .outside, .declared)
  | .entityEnd, .closing => some (d, .subset)
  | .declared, .closing => some (d, .subset)
  | .declared, .skipped | .declared, .declaration _ | .declared, .declare _
  | .declared, .element => none
  | .declared, _ => some (d, .declared)
  | _, _ => none

def flaw? (state : State) (token : Outer) : Option (Problem × List Char) :=
  match state, token with
  | .entityValue _, .literal text =>
    match entityText text.length text [] with
    | .ok _ => none
    | .error e => some e
  | .publicId, .literal text | .entityPublic _, .literal text =>
    match text.dropWhile isPublicChar with
    | [] => none
    | here => some (.publicCharacter, here)
  | _, _ => none

def State.mayClose : State → Bool
  | .afterRoot | .afterIds | .afterSubset => true
  | _ => false

def read (d : Doctype) (state : State) : Nat → List Char → Except Stop (Doctype × List Char)
  | 0, cs => .error ⟨.noElement, cs⟩
  | _ + 1, [] => .error ⟨.noElement, []⟩
  | fuel + 1, cs =>
    match readOuter cs with
    | .error h => .error (h.stop cs)
    | .ok (token, rest) =>
      match token, state.mayClose, flaw? state token with
      | .closing, true, _ => .ok (d, rest)
      | _, _, some (problem, here) =>
        -- The literal and its closing quote end where the rest begins.
        .error ⟨problem, cs.drop (cs.length - rest.length - 1 - here.length)⟩
      | _, _, none =>
        match d.step state token with
        | some (d, state) => d.read state fuel rest
        | none =>
          let problem := match token with
            | .parameter => .parameterEntity
            | .declaration _ => .misplacedDeclaration
            | _ => .syntaxError
          .error ⟨problem, cs⟩

end Doctype
end Markup
end SvgTree
