/-
Namespaces: the labels bound at an element, and names with their namespace in braces.
-/
import SvgTree.Markup.Name
import SvgTree.Markup.Problem

namespace SvgTree
namespace Markup

/-- Labels with their namespaces, the innermost first.  The empty label is that of names
without one. -/
abbrev Scope := List (List Char × List Char)

def xmlnsNamespace : List Char := "http://www.w3.org/2000/xmlns/".toList

def Scope.initial : Scope := [("xml".toList, xmlNamespace.toList)]

def bindingProblem (label uri : List Char) : Option Problem :=
  let isXml := uri == xmlNamespace.toList
  let mustBeXml := label == "xml".toList
  if uri.isEmpty && !label.isEmpty then some .undeclaredLabel
  else if label == "xmlns".toList then some .reservedXmlns
  else if uri.contains '}' then some .syntaxError
  else if mustBeXml && !isXml then some .reservedXml
  else if isXml && !mustBeXml then some .reservedNamespace
  else if uri == xmlnsNamespace then some .reservedNamespace
  else none

def boundLabel? (name : List Char) : Option (List Char) :=
  let keyword := "xmlns".toList
  if name == keyword then some []
  else if (keyword ++ [':']).isPrefixOf name then some (name.drop (keyword.length + 1))
  else none

def splitLabel (name : List Char) : Option (List Char) × List Char :=
  match name.span (· != ':') with
  | (label, _ :: rest) => (some label, rest)
  | (_, []) => (none, name)

def inBraces (uri rest : List Char) : List Char := '{' :: uri ++ '}' :: rest

namespace Scope

/-- The name of an element with its namespace; none if its label is not bound. -/
def expandTag? (scope : Scope) (name : List Char) : Option (List Char) :=
  match splitLabel name with
  | (some label, rest) => (scope.lookup label).map (inBraces · rest)
  | (none, rest) =>
    match scope.lookup [] with
    | some (c :: uri) => some (inBraces (c :: uri) rest)
    | _ => some rest

/-- The name of an attribute with its namespace; one without a label has none. -/
def expandKey? (scope : Scope) (name : List Char) : Option (List Char) :=
  match splitLabel name with
  | (some label, rest) => (scope.lookup label).map (inBraces · rest)
  | (none, rest) => some rest

end Scope
end Markup
end SvgTree
