import Mathlib.Algebra.Order.Ring.Unbundled.Rat
import UniDocs.Lib.Tree

/-!
# Layers of a PSD document

The document of the PSD editor and the lookups of `model/tree.ts` in its tree of layers. A layer has its identifier, its type
and, for a group, its children; every other property is kept under its name, since the operations write what they are given.
A lookup that returns a layer or a list to write to returns its position.
-/

namespace UniDocs.Psd

open Lib

/-! ## Values -/

/-- A number; the sums of the program are exact here. -/
inductive Number where
  | finite (value : Rat)
  | infinite (negative : Bool)
  | nan
  deriving DecidableEq, Repr

namespace Number

def add : Number → Number → Number
  | finite a, finite b => finite (a + b)
  | nan, _ => nan
  | _, nan => nan
  | infinite a, infinite b => if a = b then infinite a else nan
  | infinite a, finite _ => infinite a
  | finite _, infinite b => infinite b

def neg : Number → Number
  | finite a => finite (-a)
  | infinite negative => infinite (!negative)
  | nan => nan

def sub (a b : Number) : Number := a.add b.neg

end Number

/-- What a property of a layer, or a field of an operation's payload, can hold. -/
inductive Value where
  | undefined
  | null
  | bool (value : Bool)
  | number (value : Number)
  | string (value : String)
  | bytes (value : List UInt8)
  | array (items : List Value)
  | object (entries : List (String × Value))

namespace Value

/-- The property of an object under a name. -/
def get (key : String) : Value → Value
  | object entries => (entries.lookup key).getD undefined
  | _ => undefined

/-- The conversion to a boolean. -/
def truthy : Value → Bool
  | undefined | null => false
  | bool value => value
  | number (.finite value) => value ≠ 0
  | number (.infinite _) => true
  | number .nan => false
  | string value => value ≠ ""
  | bytes _ | array _ | object _ => true

/-- `null` or `undefined`. -/
def nullish : Value → Bool
  | undefined | null => true
  | _ => false

/-- `typeof value === "object"` for a value that is not `null`. -/
def isObject : Value → Bool
  | bytes _ | array _ | object _ => true
  | _ => false

def isString : Value → Bool
  | string _ => true
  | _ => false

end Value

/-- The entries of an object with one of them written. -/
def setEntry (key : String) (value : Value) : List (String × Value) → List (String × Value)
  | [] => [(key, value)]
  | (k, v) :: entries => if k = key then (k, value) :: entries else (k, v) :: setEntry key value entries

/-- The entries of an object with one of them deleted. -/
def deleteEntry (key : String) (entries : List (String × Value)) : List (String × Value) :=
  entries.filter fun entry => entry.1 ≠ key

/-! ## The document -/

inductive LayerType where
  | raster
  | adjustment
  | fill
  | text
  | smartObject
  | group
  deriving DecidableEq, Repr

/-- The properties of a `Layer` apart from its children. -/
structure LayerFields where
  id : String
  type : LayerType
  props : List (String × Value)

abbrev Layer : Type := RoseTree LayerFields

/-- The property of a layer under a name. -/
def LayerFields.get (key : String) (fields : LayerFields) : Value := (fields.props.lookup key).getD .undefined

def LayerFields.set (key : String) (value : Value) (fields : LayerFields) : LayerFields :=
  { fields with props := setEntry key value fields.props }

def LayerFields.delete (key : String) (fields : LayerFields) : LayerFields :=
  { fields with props := deleteEntry key fields.props }

structure FontRef where
  postScriptName : String
  blob : Value

/-- `PsdDoc`; the canvas by its entries. -/
structure PsdDoc where
  canvas : List (String × Value)
  layers : List Layer
  fonts : Option (List FontRef) := none

/-- The identifiers of all the layers of a list and below it. -/
def ids (layers : List Layer) : List String := (RoseTree.values layers).map LayerFields.id

/-! ## Lookups -/

mutual

/-- `findLayer` in the children of a layer, where it has any. -/
def findBelow : Layer → String → Option (Position × Layer)
  | .node _ none, _ => none
  | .node _ (some children), id => findLayer children id

/-- `findLayer`: the first layer in preorder, with its position. -/
def findLayer : List Layer → String → Option (Position × Layer)
  | [], _ => none
  | layer :: layers, id =>
    if layer.value.id = id then some (⟨[], 0⟩, layer)
    else match findBelow layer id with
      | some found => some (found.1.inFirst, found.2)
      | none => (findLayer layers id).map fun found => (found.1.inRest, found.2)

end

/-- The index in a list of the first layer with an identifier. -/
def indexIn (layers : List Layer) (id : String) : Option Nat := layers.findIdx? fun layer => layer.value.id = id

mutual

/-- `findParentList` in the children of a layer, where it has any. -/
def findListBelow : Layer → String → Option Position
  | .node _ none, _ => none
  | .node _ (some children), id =>
    match indexIn children id with
    | some index => some ⟨[], index⟩
    | none => findInChildren children id

/-- The loop of `findParentList` over the layers of a list. -/
def findInChildren : List Layer → String → Option Position
  | [], _ => none
  | layer :: layers, id =>
    match findListBelow layer id with
    | some found => some found.inFirst
    | none => (findInChildren layers id).map Position.inRest

end

/-- `findParentList`: a list is searched before the children of its layers. -/
def findParentList (layers : List Layer) (id : String) : Option Position :=
  match indexIn layers id with
  | some index => some ⟨[], index⟩
  | none => findInChildren layers id

/-- `removeById`: the layer that was taken out, and what is left. -/
def removeById (layers : List Layer) (id : String) : Option (Layer × List Layer) :=
  (findParentList layers id).bind fun position =>
    (RoseTree.get? layers position).map fun layer => (layer, RoseTree.remove layers position)

/-- `insertAt`; a fraction is cut off as `splice` does. -/
def insertAt (list : List Layer) (layer : Layer) (index : Option Rat) : List Layer :=
  match index with
  | none => list ++ [layer]
  | some index =>
    if (list.length : Rat) ≤ index then list ++ [layer]
    else list.insertIdx (max 0 index).floor.toNat layer

mutual

def isDescendant : Layer → String → Bool
  | .node _ none, _ => false
  | .node _ (some children), id => hasId children id

/-- Some layer of a list is, or has as a descendant, the layer with an identifier. -/
def hasId : List Layer → String → Bool
  | [], _ => false
  | layer :: layers, id => (layer.value.id = id || isDescendant layer id) || hasId layers id

end

/-- `topIndexOf`, the top-level layer that is or holds the layer. -/
def topIndexOf (layers : List Layer) (id : String) : Option Nat :=
  layers.findIdx? fun layer => layer.value.id = id || isDescendant layer id

end UniDocs.Psd

/-!
## Loading a PSD file

What `psd/load.ts` does with the document that `readPsd` reads. The identifiers, the nesting and the checks of the header are
as in the source; how the other properties of a layer are mapped is a parameter.
-/

namespace UniDocs.Psd

open Lib

variable {Extra : Type}

/-- A layer of `readPsd` apart from its children: its name, and what its other properties are mapped from. -/
structure AgFields (Extra : Type) where
  name : Option String
  extra : Extra

/-- A layer of `readPsd`. -/
abbrev AgLayer (Extra : Type) : Type := RoseTree (AgFields Extra)

/-- The document of `readPsd`. -/
structure AgPsd (Extra : Type) where
  width : Nat
  height : Nat
  bitsPerChannel : Option Nat
  colorMode : Option Nat
  children : Option (List (AgLayer Extra))

/-- How the type of a layer without children and the properties of any layer are mapped, on a canvas of some size. -/
structure PropertyMapping (Extra : Type) where
  type : Extra → LayerType
  props : Extra → Bool → Nat → Nat → List (String × Value)

/-- `\s` of a regular expression. -/
def isWhitespace (c : Char) : Bool :=
  [0x09, 0x0a, 0x0b, 0x0c, 0x0d, 0x20, 0xa0, 0x1680, 0x2028, 0x2029, 0x202f, 0x205f, 0x3000, 0xfeff].contains c.toNat ||
    (0x2000 ≤ c.toNat && c.toNat ≤ 0x200a)

/-- `replace(/\s+/g, "_")`, inside or outside a run. -/
def replaceWhitespace : Bool → List Char → List Char
  | _, [] => []
  | inRun, c :: cs =>
    if isWhitespace c then
      if inRun then replaceWhitespace true cs else '_' :: replaceWhitespace true cs
    else c :: replaceWhitespace false cs

/-- The identifier of a layer: its index among its siblings and its name. -/
def layerId (i : Nat) (name : Option String) : String :=
  String.ofList (replaceWhitespace false ("l" ++ toString i ++ "_" ++ name.getD "layer").toList)

/-- What `mapLayer` makes of a layer apart from its children. -/
def mapFields (mapping : PropertyMapping Extra) (cw ch : Nat) (a : AgFields Extra) (i : Nat) (isGroup : Bool) : LayerFields where
  id := layerId i a.name
  type := if isGroup then .group else mapping.type a.extra
  props := setEntry "name" (.string (a.name.getD "")) (mapping.props a.extra isGroup cw ch)

mutual

def mapLayer (mapping : PropertyMapping Extra) (cw ch : Nat) : AgLayer Extra → Nat → Layer
  | .node a none, i => .node (mapFields mapping cw ch a i false) none
  | .node a (some children), i => .node (mapFields mapping cw ch a i true) (some (mapLayers mapping cw ch children 0))

/-- `mapLayer` over a list of siblings, from an index. -/
def mapLayers (mapping : PropertyMapping Extra) (cw ch : Nat) : List (AgLayer Extra) → Nat → List Layer
  | [], _ => []
  | layer :: layers, i => mapLayer mapping cw ch layer i :: mapLayers mapping cw ch layers (i + 1)

end

/-- A number of the canvas. -/
def natValue (n : Nat) : Value := .number (.finite n)

/-- `load`, from the document `readPsd` reads. -/
def load (mapping : PropertyMapping Extra) (psd : AgPsd Extra) : Except String PsdDoc :=
  if psd.bitsPerChannel.any fun bits => bits ≠ 0 ∧ bits ≠ 8 then
    .error s!"unsupported bit depth: {psd.bitsPerChannel.getD 0} (only 8-bit RGB)"
  else if psd.colorMode.any fun mode => mode ≠ 3 then
    .error s!"unsupported color mode: {psd.colorMode.getD 0} (only RGB)"
  else .ok {
    canvas := [("width", natValue psd.width), ("height", natValue psd.height), ("colorMode", .string "RGB"),
      ("depth", natValue 8), ("resolution", natValue 72), ("profile", .string "sRGB")]
    layers := mapLayers mapping psd.width psd.height (psd.children.getD []) 0 }

end UniDocs.Psd
