/-
Attributes: a name that is not blank and a text value.

The name of an attribute is split at its first colon into a namespace label and a local
part; a colon at the very start splits nothing.
-/
import SvgTree.Text.Blank

namespace SvgTree

structure Attribute where
  name : String
  value : String
  visible : Text.isBlank name = false
  deriving DecidableEq

namespace Attribute

instance : Inhabited Attribute := ⟨⟨"x", "", by decide⟩⟩

/-- The characters before and after the first colon; without a colon, or with nothing before
it, all is the local part. -/
def splitChars (cs : List Char) : List Char × List Char :=
  match cs.takeWhile (· != ':'), cs.dropWhile (· != ':') with
  | label, _ :: rest => if label.isEmpty then ([], cs) else (label, rest)
  | _, [] => ([], cs)

def splitName (name : String) : String × String :=
  let (label, rest) := splitChars name.toList
  (String.ofList label, String.ofList rest)

def label (a : Attribute) : String := (splitName a.name).1

def localName (a : Attribute) : String := (splitName a.name).2

def qualifiedName (a : Attribute) : String :=
  if a.label.isEmpty then a.localName else a.label ++ ":" ++ a.localName

def ofTexts? (name value : String) : Option Attribute :=
  if h : Text.isBlank name = false then some ⟨name, value, h⟩ else none

end Attribute
end SvgTree
