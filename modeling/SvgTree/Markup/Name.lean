/-
Names with namespaces: from the expanded form, a namespace in braces before the local name,
to the form with a usual label.

The namespace of SVG gets no label; a namespace without a usual label leaves the name as it
is.
-/
import SvgTree.Fault

namespace SvgTree
namespace Markup

def svgNamespace : String := "http://www.w3.org/2000/svg"

def xmlNamespace : String := "http://www.w3.org/XML/1998/namespace"

def usualLabels : List (String × String) :=
  [("http://www.inkscape.org/namespaces/inkscape", "inkscape"),
    ("http://sodipodi.sourceforge.net/DTD/sodipodi-0.dtd", "sodipodi"),
    ("http://www.w3.org/1999/xlink", "xlink"),
    (xmlNamespace, "xml")]

def splitBraces (cs : List Char) : Option (List Char × List Char) :=
  match cs.span (· != '}') with
  | (uri, _ :: rest) => some (uri, rest)
  | (_, []) => none

def afterLastColon (cs : List Char) : List Char := (cs.reverse.takeWhile (· != ':')).reverse

def localName (tag : String) : Except Fault String :=
  match tag.toList with
  | '{' :: cs =>
    match splitBraces cs with
    | some (_, rest) => .ok (String.ofList rest)
    | none => .error .noLocalName
  | cs => .ok (String.ofList (afterLastColon cs))

def qualify (tag : String) : Except Fault String :=
  match tag.toList with
  | '{' :: cs =>
    match splitBraces cs with
    | none => .error .unclosedNamespace
    | some (uri, rest) =>
      let uri := String.ofList uri
      if uri == svgNamespace then .ok (String.ofList rest)
      else match usualLabels.lookup uri with
        | none => .ok tag
        | some label => .ok (label ++ ":" ++ String.ofList rest)
  | _ => .ok tag

end Markup
end SvgTree
