/-
What can be wrong with markup, and where.
-/

namespace SvgTree
namespace Markup

/-- A place in the markup: lines count from one, columns from nought, in characters. -/
structure Position where
  line : Nat
  column : Nat
  deriving DecidableEq, Inhabited

inductive Problem where
  | syntaxError
  | noElement
  | invalidToken
  | unclosedToken
  | cutCharacter
  | mismatchedTag
  | duplicateAttribute
  | junkAfterDocument
  | parameterEntity
  | publicCharacter
  | undefinedEntity
  | skippedEntity (name : String)
  | recursiveEntity
  | asynchronousEntity
  | badCharacterNumber
  | externalEntityInAttribute
  | misplacedDeclaration
  | unknownEncoding
  | wrongEncoding
  | unclosedCdata
  | unboundLabel
  | undeclaredLabel
  | malformedDeclaration
  | reservedXml
  | reservedXmlns
  | reservedNamespace
  deriving DecidableEq

def Problem.text : Problem → String
  | syntaxError => "syntax error"
  | noElement => "no element found"
  | invalidToken => "not well-formed (invalid token)"
  | unclosedToken => "unclosed token"
  | cutCharacter => "partial character"
  | mismatchedTag => "mismatched tag"
  | duplicateAttribute => "duplicate attribute"
  | junkAfterDocument => "junk after document element"
  | parameterEntity => "illegal parameter entity reference"
  | publicCharacter => "illegal character(s) in public id"
  | undefinedEntity => "undefined entity"
  | skippedEntity name => "undefined entity &" ++ name ++ ";"
  | recursiveEntity => "recursive entity reference"
  | asynchronousEntity => "asynchronous entity"
  | badCharacterNumber => "reference to invalid character number"
  | externalEntityInAttribute => "reference to external entity in attribute"
  | misplacedDeclaration => "XML or text declaration not at start of entity"
  | unknownEncoding => "unknown encoding"
  | wrongEncoding => "encoding specified in XML declaration is incorrect"
  | unclosedCdata => "unclosed CDATA section"
  | unboundLabel => "unbound prefix"
  | undeclaredLabel => "must not undeclare prefix"
  | malformedDeclaration => "XML declaration not well-formed"
  | reservedXml =>
    "reserved prefix (xml) must not be undeclared or bound to another namespace name"
  | reservedXmlns => "reserved prefix (xmlns) must not be declared or undeclared"
  | reservedNamespace => "prefix must not be bound to one of the reserved namespace names"

structure Complaint where
  problem : Problem
  place : Position
  deriving DecidableEq

def Complaint.text (c : Complaint) : String :=
  c.problem.text ++ ": line " ++ toString c.place.line ++ ", column " ++ toString c.place.column

end Markup
end SvgTree
