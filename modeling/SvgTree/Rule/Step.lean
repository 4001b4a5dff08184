/-
Steps: one plugin with its parameters, as a rule lists them.

Reading a step checks its shape and turns every parameter into text: a selector, a colour,
the names of attributes, and the keys and values of mappings.
-/
import SvgTree.Fault

namespace SvgTree

/-- A plugin with its parameters.  A parameter that is missing is null, but there is always
a colour. -/
structure Step where
  plugin : Plugin
  selector : Value := .null
  attributes : Value := .null
  mapping : Value := .null
  color : Value := .text "#000000"

namespace Step

def asText (v : Value) : Value := .text (v.display .none)

/-- A mapping with keys and values as text.  Of two keys with one text the first gives the
place and the last the value. -/
def asTexts (entries : List (Value × Value)) : Value :=
  .dict (entries.foldl (fun acc e => Value.putEntry (asText e.1) (asText e.2) acc) [])

def readPlugin (name : Value) : Except Fault Plugin :=
  match name with
  | .text s =>
    match Plugin.ofName? s with
    | some p => .ok p
    | none => .error (.unknownPlugin name)
  | other => .error (if other.isHashable then .unknownPlugin other else .unhashable other)

def missing? (plugin : Plugin) (entries : List (Value × Value)) : Option String :=
  plugin.required.find? fun p => (Value.field? p entries).isNone

def readMapping (plugin : Plugin) : Option Value → Except Fault Value
  | none => .ok .null
  | some (.dict entries) => .ok (asTexts entries)
  | some _ => .error (.mappingNotDict plugin)

def readAttributes (plugin : Plugin) : Option Value → Except Fault Value
  | none => .ok .null
  | some (.dict entries) =>
    if plugin = .setAttributes then .ok (asTexts entries) else .error (.namesNotList plugin)
  | some (.list items) =>
    if plugin = .setAttributes then .error .settingsNotDict else .ok (.list (items.map asText))
  | some _ =>
    .error (if plugin = .setAttributes then .settingsNotDict else .namesNotList plugin)

def ofValue (data : Value) : Except Fault Step :=
  match data with
  | .dict entries =>
    match Value.field? "name" entries with
    | none => .error .stepWithoutName
    | some name =>
      match readPlugin name with
      | .error e => .error e
      | .ok plugin =>
        match missing? plugin entries with
        | some parameter => .error (.missingParameter plugin parameter)
        | none =>
          match readMapping plugin (Value.field? "mapping" entries) with
          | .error e => .error e
          | .ok mapping =>
            match readAttributes plugin (Value.field? "attributes" entries) with
            | .error e => .error e
            | .ok attributes => .ok {
                plugin
                selector := ((Value.field? "selector" entries).map asText).getD .null
                attributes
                mapping
                color := ((Value.field? "color" entries).map asText).getD (.text "#000000") }
  | _ => .error .stepNotMapping

def fieldNames : List String := ["name", "selector", "attributes", "mapping", "color"]

def ofFields (entries : List (Value × Value)) : Except Fault Step :=
  if !entries.all (fun e => fieldNames.any fun n => e.1.isText n) then .error .wrongOperand
  else
    match Value.field? "name" entries with
    | none => .error .wrongOperand
    | some (.text s) =>
      match Plugin.ofName? s with
      | none => .error (.noSuchPlugin (Value.text s))
      | some plugin => .ok {
          plugin
          selector := Value.field "selector" entries
          attributes := Value.field "attributes" entries
          mapping := Value.field "mapping" entries
          color := (Value.field? "color" entries).getD (.text "#000000") }
    | some other => .error (if other.isHashable then .noSuchPlugin other else .unhashable other)

end Step

namespace Rule

def readSteps : List Value → Except Fault (List Step)
  | [] => .ok []
  | v :: rest =>
    match Step.ofValue v with
    | .error e => .error e
    | .ok step => (readSteps rest).map (step :: ·)

def ofSection (data : Value) : Except Fault (List Step) :=
  match data with
  | .dict entries =>
    match Value.field? "plugins" entries with
    | none => .ok []
    | some (.list items) => readSteps items
    | some _ => .error .pluginsNotList
  | _ => .error .noSuchMember

def ofDocument (data : Value) : Except Fault (List Step) :=
  match data with
  | .dict _ => ofSection data
  | _ => .error .ruleNotDict

end Rule
end SvgTree
