/-
What can go wrong, by cause.  The wording of every cause is in `Fault.message`.
-/
import SvgTree.Markup.Problem
import SvgTree.Rule.Plugin
import SvgTree.Text.Utf8
import SvgTree.Value.Display

namespace SvgTree

inductive Fault where
  -- attributes
  | nameMissing (got : Value)
  | valueNotText (name : String) (got : Value)
  | notAttribute (got : Value)
  -- edits of the tree
  | adoptCycle (child : NodeId)
  | insertCycle (item : NodeId)
  | insertedTwice (item : NodeId)
  | negativeCount (count : Value)
  | notInsertable (item host : Value)
  -- raw trees and markup
  | noTree
  | notMapping (got : Value)
  | emptySource
  | malformed (complaint : Markup.Complaint)
  | inFile (path : String) (cause : Fault)
  | unclosedNamespace
  | noLocalName
  -- steps and rules
  | stepNotMapping
  | stepWithoutName
  | unknownPlugin (name : Value)
  | missingParameter (plugin : Plugin) (parameter : String)
  | mappingNotDict (plugin : Plugin)
  | settingsNotDict
  | namesNotList (plugin : Plugin)
  | pluginsNotList
  | ruleNotDict
  | unknownStep (step : String)
  | badNumber (base : Nat) (digits : String)
  | badDate (reason : String)
  | noSuchCharacter (code : Nat)
  -- files
  | fileNotFound (path : String)
  | notUtf8 (e : Text.Utf8Error)
  | notYaml
  -- values of a kind that the operation does not take
  | wrongOperand
  | unhashable (key : Value)
  | endlessText
  | noSuchMember
  | noSuchPlugin (name : Value)
  | outOfRange

namespace Fault

/-- Whether an attribute or an edit of the tree was refused; a plugin run reports these. -/
def isRefusal : Fault → Bool
  | nameMissing _ | valueNotText _ _ | notAttribute _ => true
  | adoptCycle _ | insertCycle _ | insertedTwice _ | negativeCount _ | notInsertable _ _ => true
  | _ => false

def utf8Text (e : Text.Utf8Error) : String :=
  let which := if e.span == 1 then
      "byte 0x" ++ String.ofList (Text.hex 2 e.byte.toNat) ++ " in position " ++ toString e.offset
    else
      "bytes in position " ++ toString e.offset ++ "-" ++ toString (e.offset + e.span - 1)
  "'utf-8' codec can't decode " ++ which ++ ": " ++ e.reason.text

def message (names : NodeNames) : Fault → String
  | nameMissing got => "Attribute name must be a non-empty string, got " ++ got.render names
  | valueNotText name got =>
    "Attribute '" ++ name ++ "' must have a string value, got " ++ got.render names
  | notAttribute got => "Expected an AttributeRecord, got " ++ got.typeName names
  | adoptCycle child => "Cannot adopt " ++ names.describe child ++ " into its own subtree"
  | insertCycle item => "Cannot insert " ++ names.describe item ++ " into its own subtree"
  | insertedTwice item => names.describe item ++ " is inserted more than once"
  | negativeCount count => "remove_count must be >= 0, got " ++ count.display names
  | notInsertable item host =>
    "Cannot insert " ++ item.typeName names ++ " into <" ++ host.display names ++ ">"
  | noTree => "Parser produced no tree"
  | notMapping got => "Expected an XAST mapping, got " ++ got.typeName names
  | emptySource => "SVG source is empty"
  | malformed complaint => "Failed to parse SVG: " ++ complaint.text
  | inFile path cause => path ++ ": " ++ cause.message names
  | unclosedNamespace => "not enough values to unpack (expected 2, got 1)"
  | noLocalName => "list index out of range"
  | stepNotMapping => "Each plugin entry must be a dictionary"
  | stepWithoutName => "Each plugin entry must have 'name' field"
  | unknownPlugin name =>
    "Unknown plugin '" ++ name.display names ++ "'. Valid plugins: " ++ Plugin.listed
  | missingParameter plugin parameter =>
    "Plugin '" ++ plugin.name ++ "' requires '" ++ parameter ++ "' field"
  | mappingNotDict plugin => "Plugin '" ++ plugin.name ++ "': mapping must be a dictionary"
  | settingsNotDict =>
    "Plugin '" ++ Plugin.setAttributes.name ++ "': attributes must be a dictionary"
  | namesNotList plugin => "Plugin '" ++ plugin.name ++ "': attributes must be a list"
  | pluginsNotList => "'plugins' must be a list"
  | ruleNotDict => "Rule file must be a YAML dictionary"
  | unknownStep step =>
    "Invalid step '" ++ step ++ "'. Valid steps: " ++ Plugin.listed ++ ", all"
  | badNumber base digits =>
    "invalid literal for int() with base " ++ toString base ++ ": " ++ Text.quoted digits
  | badDate reason => reason
  | noSuchCharacter _ => "chr() arg not in range(0x110000)"
  | fileNotFound path => "[Errno 2] No such file or directory: " ++ Text.quoted path
  | notUtf8 e => utf8Text e
  | notYaml => "not a YAML document"
  | wrongOperand => "unsupported operand"
  | unhashable key => "unhashable type: '" ++ key.typeName names ++ "'"
  | endlessText => "maximum recursion depth exceeded"
  | noSuchMember => "no such member"
  | noSuchPlugin name => name.render names
  | outOfRange => "index out of range"

end Fault
end SvgTree
