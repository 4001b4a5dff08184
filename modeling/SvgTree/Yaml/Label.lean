/-
Labels: the names of anchors, tags with their handles, and the directives that declare handles.
-/
import SvgTree.Markup.Token
import SvgTree.Yaml.Cursor

namespace SvgTree
namespace Yaml

structure Tag where
  handle : Option String
  suffix : String

/-- What a directive says: the major version, or the text that a handle stands for. -/
inductive Directive where
  | version (major : Nat)
  | handle (name stands : String)
  | other

def readWord (cur : Cursor) : Read String :=
  let (name, cur) := cur.readWhile isWord
  if name.isEmpty then .error .notYaml else .ok (String.ofList name, cur)

def readAnchor (cur : Cursor) : Read String :=
  match readWord cur with
  | .error e => .error e
  | .ok (name, cur) =>
    if cur.endsOr (fun c => isGap c || "?:,]\x7d%@\x60".toList.contains c) 0 then .ok (name, cur)
    else .error .notYaml

def isTagChar (c : Char) : Bool := c.isAlphanum || "-;/?:@&=+$,_.!~*'()[]".toList.contains c

def readTagBytes : Nat → Cursor → List UInt8 → Read (List UInt8)
  | 0, _, _ => .error .notYaml
  | fuel + 1, cur, acc =>
    match cur.rest with
    | '%' :: a :: b :: _ =>
      match Markup.hexDigit? a, Markup.hexDigit? b with
      | some m, some n => readTagBytes fuel (cur.skip 3) (UInt8.ofNat (m * 16 + n) :: acc)
      | _, _ => .error .notYaml
    | '%' :: _ => .error .notYaml
    | _ => .ok (acc.reverse, cur)

def readTagText : Nat → Cursor → List Char → Read String
  | 0, _, _ => .error .notYaml
  | fuel + 1, cur, acc =>
    match cur.rest with
    | [] => finish cur acc
    | '%' :: _ =>
      match readTagBytes fuel cur [] with
      | .error e => .error e
      | .ok (bytes, cur) =>
        match Text.decodeUtf8 bytes with
        | .error _ => .error .notYaml
        | .ok cs => readTagText fuel cur (cs.reverse ++ acc)
    | c :: _ => if isTagChar c then readTagText fuel cur.step (c :: acc) else finish cur acc
where
  finish (cur : Cursor) (acc : List Char) : Read String :=
    if acc.isEmpty then .error .notYaml else .ok (String.ofList acc.reverse, cur)

def readHandle (cur : Cursor) : Read String :=
  if cur.peek? != some '!' then .error .notYaml
  else if cur.step.peek? == some ' ' then .ok ("!", cur.step)
  else
    let (name, after) := cur.step.readWhile isWord
    if after.peek? == some '!' then .ok (String.ofList ('!' :: name ++ ['!']), after.step)
    else .error .notYaml

def readTag (cur : Cursor) : Read Tag :=
  let start := cur.step
  let read : Read Tag :=
    if start.peek? == some '<' then
      (readTagText (start.rest.length + 1) start.step []).bind fun (text, cur) =>
        if cur.peek? == some '>' then .ok (⟨none, text⟩, cur.step) else .error .notYaml
    else if start.gapAt 0 then .ok (⟨none, "!"⟩, start)
    else
      let word := start.rest.takeWhile fun c => !(c == ' ' || isBreak c)
      let handle : Read String := if word.contains '!' then readHandle cur else .ok ("!", start)
      handle.bind fun (handle, cur) =>
        (readTagText (cur.rest.length + 1) cur []).map fun (text, cur) =>
          (⟨some handle, text⟩, cur)
  read.bind fun (tag, cur) => if cur.atWordEnd then .ok (tag, cur) else .error .notYaml

def readVersionPart (cur : Cursor) : Read Nat :=
  let (digits, cur) := cur.readWhile Char.isDigit
  if digits.isEmpty then .error .notYaml
  else .ok (digits.foldl (fun n d => n * 10 + (d.toNat - 48)) 0, cur)

def readVersion (cur : Cursor) : Read Directive :=
  match readVersionPart cur.skipSpaces with
  | .error e => .error e
  | .ok (major, cur) =>
    if cur.peek? != some '.' then .error .notYaml
    else (readVersionPart cur.step).bind fun (_, cur) =>
      if cur.atWordEnd then .ok (.version major, cur) else .error .notYaml

def readHandleText (cur : Cursor) : Read Directive :=
  match readHandle cur.skipSpaces with
  | .error e => .error e
  | .ok (name, cur) =>
    if cur.peek? != some ' ' then .error .notYaml
    else
      let cur := cur.skipSpaces
      (readTagText (cur.rest.length + 1) cur []).bind fun (text, cur) =>
        if cur.atWordEnd then .ok (.handle name text, cur) else .error .notYaml

def readDirective (cur : Cursor) : Read Directive :=
  match readWord cur with
  | .error e => .error e
  | .ok (name, cur) =>
    if !cur.atWordEnd then .error .notYaml
    else
      let read :=
        if name == "YAML" then readVersion cur
        else if name == "TAG" then readHandleText cur
        else .ok (.other, cur.skipWhile (!isBreak ·))
      read.bind fun (d, cur) => (cur.skipRemark).map fun cur => (d, cur)

end Yaml
end SvgTree
