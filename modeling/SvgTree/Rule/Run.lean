/-
Running plugins on a tree.

Each plugin finds the nodes it is about before it changes any, the renaming of elements
apart, which walks the tree while it changes names.  A refused attribute or edit ends the
plugin and becomes the only thing it reports; what it changed before stays.
-/
import SvgTree.Rule.Raster
import SvgTree.Rule.Report
import SvgTree.Rule.Step
import SvgTree.Selector.Query
import SvgTree.Tree.Splice
import SvgTree.Tree.Walk

namespace SvgTree
namespace Forest

/-- The nodes from `root` down that match a selector given as a value; one that does not
count matches as the empty text does.  Only legacy nodes answer. -/
def select (f : Forest) (root : NodeId) (selector : Value) : Except Fault (List NodeId) :=
  match (f.node root).ofClass, selector.orElse (.text "") with
  | .legacy, .text s => f.queryAll root (Selector.parse s)
  | _, _ => .error .noSuchMember

def cutOf (f : Forest) (i : NodeId) : List Cut :=
  match f.parent? i, f.indexInParent? i with
  | some p, some place =>
    let n := f.node p
    [⟨(n.name.orElse n.kind).display .none, place⟩]
  | _, _ => []

/-- Detaches the nodes that are still below `root` when their turn comes, and counts them. -/
def detachAll (f : Forest) (root : NodeId) :
    List NodeId → Nat → List Cut → Forest × Except Fault (Nat × List Cut)
  | [], count, cuts => (f, .ok (count, cuts))
  | i :: rest, count, cuts =>
    if f.isAncestor root i then
      match f.detach i with
      | .error e => (f, .error e)
      | .ok g => g.detachAll root rest (count + 1) (cuts ++ f.cutOf i)
    else f.detachAll root rest count cuts

/-- The reference of an image, `href` before `xlink:href`. -/
def reference? (m : Attributes) : Option String :=
  ((m.get? "href").or (m.get? "xlink:href")).map (·.value)

def isRasterImage (n : Fields) : Bool :=
  ((reference? n.attributes).map Raster.isReference).getD false

def removeRasterImages (f : Forest) (root : NodeId) (step : Step) :
    Forest × Except Fault StepResult :=
  match f.select root (.text "image") with
  | .error e => (f, .error e)
  | .ok images =>
    let raster := images.filter fun i => isRasterImage (f.node i).toFields
    let (g, done) := f.detachAll root raster 0 []
    (g, done.map fun (count, cuts) => { plugin := step.plugin.name, changed := count, cuts })

def nothingMatched (step : Step) : StepResult :=
  { plugin := step.plugin.name
    warnings := ["Selector '" ++ step.selector.display .none ++ "' matched no elements"] }

def removeElements (f : Forest) (root : NodeId) (step : Step) :
    Forest × Except Fault StepResult :=
  match f.select root step.selector with
  | .error e => (f, .error e)
  | .ok [] => (f, .ok (nothingMatched step))
  | .ok found =>
    let warnings := if found.contains root then ["Refusing to remove the root node"] else []
    let (g, done) := f.detachAll root (found.filter (· != root)) 0 []
    (g, done.map fun (count, cuts) =>
      { plugin := step.plugin.name, changed := count, warnings, cuts })

/-- The item of a list at a place given as a value.  A place below nought counts from the
end. -/
def itemAt (items : List Value) (place : Value) : Except Fault Value :=
  match place.number? with
  | some (.whole n) =>
    let k := if n < 0 then n + items.length else n
    if k < 0 then .error .outOfRange
    else ((items[k.toNat]?).map .ok).getD (.error .outOfRange)
  | _ => .error .wrongOperand

/-- What a mapping gives for a name.  Names can also be looked for in lists and texts; one
that is found there is taken for a place, which a text never has. -/
def newName? (mapping name : Value) : Except Fault (Option Value) :=
  match mapping with
  | .dict entries =>
    if name.isHashable then .ok (Value.find? name entries) else .error (.unhashable name)
  | .list items =>
    if items.any (·.sameKey name) then (itemAt items name).map some else .ok none
  | .text s =>
    match name with
    | .text t =>
      if Text.occursIn t.toList s.toList then .error .wrongOperand else .ok none
    | _ => .error .wrongOperand
  | _ => .error .wrongOperand

def renameVisit (mapping : Value) (i : NodeId) (v : Visit Nat) : Visit Nat × Option Fault :=
  let n := v.forest.node i
  if !n.kind.isHashable then (v, some (.unhashable n.kind))
  else if n.isElement then
    match newName? mapping n.name with
    | .error e => (v, some e)
    | .ok none => (v, none)
    | .ok (some name) => (⟨v.forest.setName i name, v.state + 1⟩, none)
  else (v, none)

def renameElements (f : Forest) (root : NodeId) (step : Step) :
    Forest × Except Fault StepResult :=
  match traverse (renameVisit (step.mapping.orElse (.dict []))) f.size [root] ⟨f, 0⟩ with
  | (v, some e) => (v.forest, .error e)
  | (v, none) => (v.forest, .ok { plugin := step.plugin.name, changed := v.state })

/-- The names that a value lists: the items of a list, the keys of a mapping, the characters
of a text. -/
def listedNames (v : Value) : Except Fault (List Value) :=
  match v with
  | .list items => .ok items
  | .dict entries => .ok (entries.map (·.1))
  | .text s => .ok (s.toList.map fun c => .text (String.singleton c))
  | other => if other.isTruthy then .error .wrongOperand else .ok []

def eraseNames (f : Forest) (i : NodeId) : List Value → Nat → Forest × Except Fault Nat
  | [], count => (f, .ok count)
  | name :: rest, count =>
    let m := (f.node i).attributes
    match m.hasValue name .null with
    | .error e => (f, .error e)
    | .ok false => f.eraseNames i rest count
    | .ok true =>
      match m.eraseValue name with
      | .error e => (f, .error e)
      | .ok m' => (f.setAttributes i m').eraseNames i rest (count + 1)

def eraseEach (f : Forest) (names : Value) : List NodeId → Nat → Forest × Except Fault Nat
  | [], count => (f, .ok count)
  | i :: rest, count =>
    match listedNames names with
    | .error e => (f, .error e)
    | .ok listed =>
      match f.eraseNames i listed count with
      | (g, .error e) => (g, .error e)
      | (g, .ok n) => g.eraseEach names rest n

def elements (f : Forest) : List NodeId → Except Fault (List NodeId)
  | [] => .ok []
  | i :: rest =>
    let n := f.node i
    if n.kind.isHashable then
      (f.elements rest).map fun found => if n.isElement then i :: found else found
    else .error (.unhashable n.kind)

def removeAttributes (f : Forest) (root : NodeId) (step : Step) :
    Forest × Except Fault StepResult :=
  let targets := if step.selector.isTruthy then f.select root step.selector
    else f.elements (f.walk root)
  match targets with
  | .error e => (f, .error e)
  | .ok found =>
    let (g, done) := f.eraseEach step.attributes found 0
    (g, done.map fun count => { plugin := step.plugin.name, changed := count })

def setEntries (f : Forest) (i : NodeId) : List (Value × Value) → Nat → Forest × Except Fault Nat
  | [], count => (f, .ok count)
  | (name, value) :: rest, count =>
    let m := (f.node i).attributes
    match m.hasValue name value with
    | .error e => (f, .error e)
    | .ok true => f.setEntries i rest count
    | .ok false =>
      match m.set name value with
      | .error e => (f, .error e)
      | .ok m' => (f.setAttributes i m').setEntries i rest (count + 1)

def setEach (f : Forest) (entries : List (Value × Value)) :
    List NodeId → Nat → Forest × Except Fault Nat
  | [], count => (f, .ok count)
  | i :: rest, count =>
    match f.setEntries i entries count with
    | (g, .error e) => (g, .error e)
    | (g, .ok n) => g.setEach entries rest n

def setAttributesOf (f : Forest) (root : NodeId) (step : Step) :
    Forest × Except Fault StepResult :=
  match f.select root step.selector with
  | .error e => (f, .error e)
  | .ok [] => (f, .ok (nothingMatched step))
  | .ok found =>
    let entries := match step.attributes with
      | .dict entries => entries
      | _ => []
    let (g, done) := f.setEach entries found 0
    (g, done.map fun count => { plugin := step.plugin.name, changed := count })

def shapes : String := "path, rect, circle, ellipse, line, polyline, polygon"

def fillEach (f : Forest) (color : Value) : List NodeId → Nat → Forest × Except Fault Nat
  | [], count => (f, .ok count)
  | i :: rest, count =>
    let m := (f.node i).attributes
    if m.has "fill" none then f.fillEach color rest count
    else
      match m.set (.text "fill") color with
      | .error e => (f, .error e)
      | .ok m' => (f.setAttributes i m').fillEach color rest (count + 1)

def defaultFill (f : Forest) (root : NodeId) (step : Step) : Forest × Except Fault StepResult :=
  match f.select root (.text shapes) with
  | .error e => (f, .error e)
  | .ok found =>
    let (g, done) := f.fillEach step.color found 0
    (g, done.map fun count => { plugin := step.plugin.name, changed := count })

def perform (f : Forest) (root : NodeId) (step : Step) : Forest × Except Fault StepResult :=
  match step.plugin with
  | .removeRasterImages => f.removeRasterImages root step
  | .removeElements => f.removeElements root step
  | .renameElements => f.renameElements root step
  | .removeAttributes => f.removeAttributes root step
  | .setAttributes => f.setAttributesOf root step
  | .defaultFill => f.defaultFill root step

/-- Runs the plugin of a step.  A refusal becomes the one error of the result. -/
def runStep (f : Forest) (root : NodeId) (step : Step) : Forest × Except Fault StepResult :=
  match f.perform root step with
  | (g, .error e) =>
    if e.isRefusal then
      (g, .ok { plugin := step.plugin.name, errors := [e.message g.names] })
    else (g, .error e)
  | done => done

def isRequested (requested : Option (List String)) (step : Step) : Bool :=
  (requested.map (·.contains step.plugin.name)).getD true

/-- Runs steps in order, up to and including the first that reports errors, and adds to the
report. -/
def runSteps (f : Forest) (root : NodeId) (requested : Option (List String)) :
    List Step → Report → Forest × Except Fault Report
  | [], report => (f, .ok report)
  | step :: rest, report =>
    if isRequested requested step then
      match f.runStep root step with
      | (g, .error e) => (g, .error e)
      | (g, .ok result) =>
        let report := { report with results := report.results ++ [result] }
        if result.hasErrors then (g, .ok report) else g.runSteps root requested rest report
    else
      let note := step.plugin.name ++ " (not requested)"
      f.runSteps root requested rest { report with skipped := report.skipped ++ [note] }

def runRule (f : Forest) (root : NodeId) (rule : List Step) (requested : Option (List String)) :
    Forest × Except Fault Report :=
  f.runSteps root requested rule {}

end Forest
end SvgTree
