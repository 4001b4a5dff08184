/-
References to raster images: data of one of three media types, or a name with one of their
endings.
-/
import SvgTree.Text.Blank

namespace SvgTree
namespace Raster

/-- A letter without regard to case.  The two letters that differ from `i` by their dot
alone count as `i`. -/
def fold (c : Char) : Char :=
  if c == 'İ' || c == 'ı' then 'i' else c.toLower

def endings : List (List Char) :=
  ["png".toList, "jpg".toList, "jpeg".toList, "gif".toList]

/-- Whether the text is data of a raster type: the type is followed by a semicolon or a
comma. -/
def isData (cs : List Char) : Bool :=
  let start := "data:image/".toList
  start.isPrefixOf cs && endings.any fun e =>
    let rest := cs.drop start.length
    e.isPrefixOf rest && ((rest.drop e.length).head?.map fun c => c == ';' || c == ',').getD false

def hasEnding (cs : List Char) : Bool := endings.any fun e => ('.' :: e).isSuffixOf cs

def isReference (href : String) : Bool :=
  let cs := (Text.stripChars href.toList).map fold
  isData cs || hasEnding cs

end Raster
end SvgTree
