/-
Documents: from the characters of a source to the element at its root.

The elements that are open are kept on a stack, each with what it holds so far.  The text of
an entity is read like content of its own, in which every element that is opened has to be
closed; whatever is wrong there is put down to the reference in the document.
-/
import SvgTree.Markup.Element
import SvgTree.Markup.Encoding
import SvgTree.Markup.Namespace

namespace SvgTree
namespace Markup

inductive Item where
  | text (reversed : List Char)
  | child (e : Element)

structure Frame where
  rawName : List Char
  tag : List Char
  attributes : List (String × String)
  scope : Scope
  items : List Item

namespace Item

def push (c : Char) : List Item → List Item
  | .text cs :: rest => .text (c :: cs) :: rest
  | items => .text [c] :: items

/-- The children, and the text before them, from content whose last piece comes first. -/
def assemble : List Item → List Element → Option String → Option String × List Element
  | [], children, before => (before, children)
  | .text cs :: rest, children, _ => assemble rest children (some (String.ofList cs.reverse))
  | .child (.mk tag attributes lead _ inner) :: rest, children, after =>
    assemble rest (.mk tag attributes lead after inner :: children) none

end Item

def Frame.element (f : Frame) : Element :=
  let (text, children) := Item.assemble f.items [] none
  .mk (some (String.ofList f.tag)) f.attributes text none children

abbrev Trouble := Problem × Option (List Char)

/-- The value of an attribute from its parts.  Entities are followed `depth` levels deep;
one that leads further than there are entities leads back to itself. -/
def valueOf (d : Doctype) (strict : Bool) :
    Nat → List Part → List Char → Except Trouble (List Char)
  | _, [], acc => .ok acc.reverse
  | depth, .char c :: rest, acc => valueOf d strict depth rest (c :: acc)
  | depth, .reference (.code n) here :: rest, acc =>
    match charOf? n with
    | some c => valueOf d strict depth rest (c :: acc)
    | none => .error (.badCharacterNumber, some here)
  | depth, .reference (.entity name) here :: rest, acc =>
    match predefined? name, d.find? name with
    | some c, _ => valueOf d strict depth rest (c :: acc)
    | none, none =>
      if strict then .error (.undefinedEntity, none) else valueOf d strict depth rest acc
    | none, some .outside => .error (.externalEntityInAttribute, some here)
    | none, some (.internal text) =>
      match depth with
      | 0 => .error (.recursiveEntity, some here)
      | depth + 1 =>
        let (parts, whole) := partsOf (text.length + 1) text []
        match valueOf d strict depth parts [] with
        | .error (problem, _) => .error (problem, none)
        | .ok inner =>
          if whole then valueOf d strict (depth + 1) rest (inner.reverse ++ acc)
          else .error (.invalidToken, none)
termination_by depth parts => (depth, parts.length)

/-- The attributes of a start tag with their values, and the labels that it binds. -/
def readBindings (d : Doctype) (strict : Bool) :
    List RawAttribute → List (List Char) → List (List Char × List Char) → Scope →
      Except Trouble (List (List Char × List Char) × Scope)
  | [], _, done, scope => .ok (done.reverse, scope)
  | a :: rest, seen, done, scope =>
    if seen.contains a.name then .error (.duplicateAttribute, some a.here)
    else
      match valueOf d strict d.entities.length a.value [] with
      | .error t => .error t
      | .ok value =>
        match boundLabel? a.name with
        | none => readBindings d strict rest (a.name :: seen) ((a.name, value) :: done) scope
        | some label =>
          match bindingProblem label value with
          | some problem => .error (problem, none)
          | none => readBindings d strict rest (a.name :: seen) done ((label, value) :: scope)

def expandKeys (scope : Scope) :
    List (List Char × List Char) → List (List Char) → Except Problem (List (String × String))
  | [], _ => .ok []
  | (name, value) :: rest, seen =>
    match scope.expandKey? name with
    | none => .error .unboundLabel
    | some key =>
      if seen.contains key then .error .duplicateAttribute
      else (expandKeys scope rest (key :: seen)).map
        ((String.ofList key, String.ofList value) :: ·)

def openFrame (d : Doctype) (strict : Bool) (scope : Scope) (name : List Char)
    (attributes : List RawAttribute) : Except Trouble Frame :=
  match readBindings d strict attributes [] [] scope with
  | .error t => .error t
  | .ok (pairs, scope) =>
    match expandKeys scope pairs [], scope.expandTag? name with
    | .error problem, _ => .error (problem, none)
    | _, none => .error (.unboundLabel, none)
    | .ok attributes, some tag => .ok ⟨name, tag, attributes, scope, []⟩

def addChild (e : Element) : List Frame → List Frame
  | [] => []
  | f :: rest => { f with items := .child e :: f.items } :: rest

def addChar (c : Char) : List Frame → List Frame
  | [] => []
  | f :: rest => { f with items := Item.push c f.items } :: rest

def readLiteralText (frames : List Frame) : List Char → Except Stop (List Frame × List Char)
  | [] => .error ⟨.unclosedCdata, []⟩
  | [']'] => .error ⟨.unclosedCdata, [']']⟩
  | [']', ']'] => .error ⟨.unclosedCdata, [']', ']']⟩
  | ['\r'] => .error ⟨.unclosedCdata, ['\r']⟩
  | ']' :: ']' :: '>' :: rest => .ok (frames, rest)
  | '\r' :: '\n' :: rest => readLiteralText (addChar '\n' frames) rest
  | c :: rest =>
    if isAllowed c then readLiteralText (addChar (if c == '\r' then '\n' else c) frames) rest
    else
      match stuck (c :: rest) with
      | .unfinished => .error ⟨.unclosedCdata, c :: rest⟩
      | h => .error (h.stop (c :: rest))

/-- How far reading content came: to the end of the root element, or through the text of an
entity. -/
inductive Reached where
  | closed (root : Element) (rest : List Char)
  | through (frames : List Frame)

/-- Where content is read: in the document itself, or in an entity referred to from some
place while so many elements were open. -/
inductive Within where
  | document
  | entity (reference : List Char) (level : Nat)

/-- A problem at a place, or at the reference through which the place was reached. -/
def Within.stop (w : Within) (problem : Problem) (here : List Char) : Stop :=
  match w with
  | .document => ⟨problem, here⟩
  | .entity reference _ => ⟨problem, reference⟩

def Within.isLevel (w : Within) (frames : List Frame) : Bool :=
  match w with
  | .document => false
  | .entity _ level => frames.length == level

/-- Reads content while elements are open. -/
def content (d : Doctype) (strict : Bool) :
    Nat → Nat → Within → List Frame → List Char → Except Stop Reached
  | _, 0, w, _, cs => .error (w.stop .noElement cs)
  | _, _ + 1, w, frames, [] =>
    match w with
    | .document => .error ⟨.noElement, []⟩
    | .entity .. =>
      if w.isLevel frames then .ok (.through frames) else .error (w.stop .asynchronousEntity [])
  | depth, fuel + 1, w, frames, cs =>
    match w, cs with
    | .document, ['\r'] => .error ⟨.noElement, cs⟩
    | _, _ =>
      match readContent cs with
      | .error h =>
        let s := h.stop cs
        .error (w.stop s.problem s.here)
      | .ok (token, rest) =>
        match token with
        | .skipped => content d strict depth fuel w frames rest
        | .declaration => .error (w.stop .misplacedDeclaration cs)
        | .char c => content d strict depth fuel w (addChar c frames) rest
        | .cdata =>
          match readLiteralText frames rest with
          | .error s => .error (w.stop s.problem s.here)
          | .ok (frames, rest) => content d strict depth fuel w frames rest
        | .start name attributes single =>
          let scope := (frames.head?.map (·.scope)).getD Scope.initial
          match openFrame d strict scope name attributes with
          | .error (problem, here) => .error (w.stop problem (here.getD cs))
          | .ok frame =>
            if single then
              match frames with
              | [] => .ok (.closed frame.element rest)
              | _ => content d strict depth fuel w (addChild frame.element frames) rest
            else content d strict depth fuel w (frame :: frames) rest
        | .close name here =>
          if w.isLevel frames then .error (w.stop .asynchronousEntity cs)
          else
            match frames with
            | [] => .error (w.stop .noElement cs)
            | frame :: outer =>
              if frame.rawName != name then .error (w.stop .mismatchedTag here)
              else
                match outer with
                | [] => .ok (.closed frame.element rest)
                | _ => content d strict depth fuel w (addChild frame.element outer) rest
        | .reference (.code n) =>
          match charOf? n with
          | none => .error (w.stop .badCharacterNumber cs)
          | some c => content d strict depth fuel w (addChar c frames) rest
        | .reference (.entity name) =>
          match predefined? name, d.find? name with
          | some c, _ => content d strict depth fuel w (addChar c frames) rest
          | none, none =>
            let problem :=
              if strict then .undefinedEntity else .skippedEntity (String.ofList name)
            .error (w.stop problem cs)
          | none, some .outside => .error (w.stop (.skippedEntity (String.ofList name)) cs)
          | none, some (.internal text) =>
            match depth with
            | 0 => .error (w.stop .recursiveEntity cs)
            | depth + 1 =>
              let inner := Within.entity (w.stop .noElement cs).here frames.length
              match content d strict depth (text.length + 1) inner frames text with
              | .error s => .error s
              | .ok (.closed root after) => .ok (.closed root after)
              | .ok (.through frames) => content d strict (depth + 1) fuel w frames rest
termination_by depth fuel => (depth, fuel)

def epilog : Nat → List Char → Option Stop
  | 0, _ => none
  | _ + 1, [] => none
  | fuel + 1, cs =>
    match readOuter cs with
    | .error h => some (h.stop cs)
    | .ok (.blanks, rest) | .ok (.skipped, rest) => epilog fuel rest
    | .ok _ => some ⟨.junkAfterDocument, cs⟩

def declarationStop (actual : Option Encoding) (i : Instruction) (cs : List Char) :
    Except Stop Declaration :=
  let place := fun (here : List Char) => cs.drop (i.body.length - here.length)
  match Declaration.read i.body with
  | .error here => .error ⟨.malformedDeclaration, place here⟩
  | .ok d =>
    match d.encoding, actual with
    | some (name, here), some e =>
      match e.objection name with
      | some problem => .error ⟨problem, place here⟩
      | none => .ok d
    | _, _ => .ok d

def document (actual : Option Encoding) :
    Nat → (first : Bool) → (standalone : Bool) → Option Doctype → List Char → Except Stop Element
  | 0, _, _, _, cs => .error ⟨.noElement, cs⟩
  | _ + 1, _, _, _, [] => .error ⟨.noElement, []⟩
  | fuel + 1, first, standalone, doctype, cs =>
    match readOuter cs with
    | .error h => .error (h.stop cs)
    | .ok (token, rest) =>
      match token with
      | .blanks | .skipped => document actual fuel false standalone doctype rest
      | .declaration i =>
        if first then
          match declarationStop actual i (cs.drop 5) with
          | .error s => .error s
          | .ok d => document actual fuel false d.standalone doctype rest
        else .error ⟨.misplacedDeclaration, cs⟩
      | .declare keyword =>
        if keyword == "DOCTYPE".toList && doctype.isNone then
          match Doctype.read {} .root (rest.length + 1) rest with
          | .error s => .error s
          | .ok (d, rest) => document actual fuel false standalone (some d) rest
        else .error ⟨.syntaxError, cs⟩
      | .element =>
        let d := doctype.getD {}
        let strict := standalone || !d.isOpen
        match content d strict d.entities.length (cs.length + 1) .document [] cs with
        | .error s => .error s
        | .ok (.through _) => .error ⟨.noElement, []⟩
        | .ok (.closed root rest) =>
          match epilog (rest.length + 1) rest with
          | some s => .error s
          | none => .ok root
      | .parameter => .error ⟨.parameterEntity, cs⟩
      | _ => .error ⟨.syntaxError, cs⟩

/-- The place after some characters.  A carriage return ends a line together with a line
feed after it. -/
def Position.after : Position → List Char → Position
  | p, [] => p
  | p, '\r' :: '\n' :: rest => Position.after ⟨p.line + 1, 0⟩ rest
  | p, c :: rest =>
    if c == '\n' || c == '\r' then Position.after ⟨p.line + 1, 0⟩ rest
    else Position.after ⟨p.line, p.column + 1⟩ rest

def parse (d : Decoded) : Except Complaint Element :=
  match document d.encoding (d.body.length + 1) true false none d.body with
  | .ok root => .ok root
  | .error s =>
    let start := Position.after ⟨1, 0⟩ d.mark
    .error ⟨s.problem, start.after (d.body.take (d.body.length - s.here.length))⟩

end Markup
end SvgTree
