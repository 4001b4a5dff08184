/-
The plugins a rule can name, and the parameters each of them needs.
-/

namespace SvgTree

inductive Plugin where
  | removeRasterImages
  | removeElements
  | renameElements
  | removeAttributes
  | setAttributes
  | defaultFill
  deriving DecidableEq, Inhabited

namespace Plugin

def all : List Plugin :=
  [removeRasterImages, removeElements, renameElements, removeAttributes, setAttributes,
    defaultFill]

def name : Plugin → String
  | removeRasterImages => "remove_raster_images"
  | removeElements => "remove_elements"
  | renameElements => "rename_elements"
  | removeAttributes => "remove_attributes"
  | setAttributes => "set_attributes"
  | defaultFill => "default_fill"

def ofName? (s : String) : Option Plugin := all.find? (·.name == s)

def required : Plugin → List String
  | removeRasterImages | defaultFill => []
  | removeElements => ["selector"]
  | renameElements => ["mapping"]
  | removeAttributes => ["attributes"]
  | setAttributes => ["selector", "attributes"]

def listed : String := ", ".intercalate (all.map name)

end Plugin
end SvgTree
