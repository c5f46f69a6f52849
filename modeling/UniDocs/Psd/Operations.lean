import Mathlib.Algebra.GroupWithZero.Nat
import UniDocs.Psd.Layer

/-!
# Operations on a PSD document

The handlers of `ops/` and `applyOne`. The document is cloned before a handler runs, so an operation that throws leaves it as
it was. A failure carries the text of the message up to the value the message ends in.
-/

namespace UniDocs.Psd

open Lib

/-- The message of a thrown error, and the value it shows. -/
structure Failure where
  message : String
  got : Option Value := none

/-- Throws unless a condition holds. -/
def require (condition : Bool) (message : String) : Except Failure Unit :=
  if condition then .ok () else .error ⟨message, none⟩

/-- Throws unless a condition holds, showing a value. -/
def requireOf (condition : Bool) (message : String) (got : Value) : Except Failure Unit :=
  if condition then .ok () else .error ⟨message, some got⟩

/-! ## Checks of properties -/

def blendModes : List String :=
  ["normal", "dissolve", "darken", "multiply", "color-burn", "linear-burn", "lighten", "screen", "color-dodge",
    "linear-dodge", "overlay", "soft-light", "hard-light", "vivid-light", "linear-light", "difference", "exclusion",
    "subtract", "divide", "hue", "saturation", "color", "luminosity", "pass-through"]

def settableProps : List String :=
  ["name", "opacity", "blendMode", "visible", "locked", "clipping", "fillOpacity", "stroke", "colorOverlay", "dropShadow"]

/-- Effects that accept `null` to mean "remove this effect". -/
def effectProps : List String := ["stroke", "colorOverlay", "dropShadow"]

def strokePositions : List String := ["inside", "outside", "center"]

def isFiniteNum : Value → Bool
  | .number (.finite _) => true
  | _ => false

/-- A finite number with a property. -/
def isNumWhere (p : Rat → Bool) : Value → Bool
  | .number (.finite value) => p value
  | _ => false

def isUnit : Value → Bool := isNumWhere fun n => 0 ≤ n ∧ n ≤ 1

def isByte : Value → Bool := isNumWhere fun n => 0 ≤ n ∧ n ≤ 255

def isNonNegative : Value → Bool := isNumWhere fun n => 0 ≤ n

def isRgb (v : Value) : Bool := v.isObject && isByte (v.get "r") && isByte (v.get "g") && isByte (v.get "b")

/-- The value is one of some texts. -/
def isOneOf (texts : List String) : Value → Bool
  | .string value => texts.contains value
  | _ => false

def validateStroke (s : Value) : Except Failure Unit := do
  require s.isObject "stroke must be an object or null"
  require (isRgb (s.get "color")) "stroke.color must be \x7br,g,b\x7d in 0..255"
  requireOf (isUnit (s.get "opacity")) "stroke.opacity out of range 0..1: " (s.get "opacity")
  requireOf (isNonNegative (s.get "size")) "stroke.size must be >= 0: " (s.get "size")
  requireOf (isOneOf strokePositions (s.get "position")) "invalid stroke.position: " (s.get "position")
  requireOf (isOneOf blendModes (s.get "blendMode")) "invalid stroke.blendMode: " (s.get "blendMode")

def validateColorOverlay (c : Value) : Except Failure Unit := do
  require c.isObject "colorOverlay must be an object or null"
  require (isRgb c) "colorOverlay must carry \x7br,g,b\x7d in 0..255"
  requireOf (isUnit (c.get "opacity")) "colorOverlay.opacity out of range 0..1: " (c.get "opacity")

def validateDropShadow (d : Value) : Except Failure Unit := do
  require d.isObject "dropShadow must be an object or null"
  require (isRgb (d.get "color")) "dropShadow.color must be \x7br,g,b\x7d in 0..255"
  requireOf (isUnit (d.get "opacity")) "dropShadow.opacity out of range 0..1: " (d.get "opacity")
  requireOf (isOneOf blendModes (d.get "blendMode")) "invalid dropShadow.blendMode: " (d.get "blendMode")
  require (isFiniteNum (d.get "angle")) "dropShadow.angle must be a finite number"
  require (isFiniteNum (d.get "distance")) "dropShadow.distance must be a finite number"
  require (isFiniteNum (d.get "size")) "dropShadow.size must be a finite number"
  require (isFiniteNum (d.get "choke")) "dropShadow.choke must be a finite number"
  require (isNonNegative (d.get "size") && isNonNegative (d.get "choke"))
    "dropShadow.size and dropShadow.choke must be >= 0"

/-- Four finite numbers. -/
def isBounds : Value → Bool
  | .array items => items.length = 4 && items.all isFiniteNum
  | _ => false

/-- A property that is missing takes its default. -/
def LayerFields.default (key : String) (value : Value) (fields : LayerFields) : LayerFields :=
  if (fields.get key).nullish then fields.set key value else fields

/-- The soft defaults of `validateAndNormalizeLayer`. -/
def withDefaults (fields : LayerFields) : LayerFields :=
  ((fields.default "opacity" (.number (.finite 1))).default "visible" (.bool true)).default "blendMode" (.string "normal")

def isBool : Value → Bool
  | .bool _ => true
  | _ => false

/-- A buffer, or anything else with a numeric `length`. -/
def hasLength : Value → Bool
  | .bytes _ | .array _ => true
  | .string value => value ≠ ""
  | .object entries => match entries.lookup "length" with
    | some (.number _) => true
    | _ => false
  | _ => false

/-- Pixels that are resident or referenced by their hash. -/
def isPixelSource (p : Value) : Bool :=
  isFiniteNum (p.get "width") && isFiniteNum (p.get "height") &&
    ((p.get "hash").isString || hasLength (p.get "data"))

/-- The checks of `validateAndNormalizeLayer` on a layer with its defaults. -/
def checkNormalized (out : LayerFields) : Except Failure Unit := do
  requireOf (isUnit (out.get "opacity")) "layer.opacity must be a number 0..1" (out.get "opacity")
  require (isBool (out.get "visible")) "layer.visible must be a boolean"
  requireOf (isOneOf blendModes (out.get "blendMode")) "invalid blendMode: " (out.get "blendMode")
  require (out.type ≠ .raster || (out.get "pixels").truthy)
    "raster layer requires pixels (a solid-color fill must be supplied as raster pixels)"
  require (out.type ≠ .adjustment || ((out.get "adjustType").isString && (out.get "adjustType").truthy))
    "adjustment layer requires an adjustType string (e.g. 'brit'); note the field is adjustType, not adjustmentType"
  require (!(out.get "pixels").truthy || isPixelSource (out.get "pixels"))
    "layer.pixels must have numeric width/height and either a data buffer or a CAS hash"

/-- What `validateAndNormalizeLayer` does with a layer apart from its children. -/
def normalizeFields (fields : LayerFields) : Except Failure LayerFields := do
  require (fields.id ≠ "") "layer.id must be a non-empty string"
  requireOf (isBounds (fields.get "bounds")) "layer.bounds must be [top,left,bottom,right] numbers" (fields.get "bounds")
  checkNormalized (withDefaults fields)
  return withDefaults fields

mutual

/-- `validateAndNormalizeLayer`: only the children of a group are looked at. -/
def validateAndNormalizeLayer : Layer → Except Failure Layer
  | .node fields none => do return .node (← normalizeFields fields) none
  | .node fields (some children) => do
    let out ← normalizeFields fields
    if out.type = .group then
      let children ← validateAndNormalizeLayers children
      return .node out (some children)
    else return .node out (some children)

/-- `validateAndNormalizeLayer` over a list. -/
def validateAndNormalizeLayers : List Layer → Except Failure (List Layer)
  | [] => return []
  | layer :: layers => do
    let layer ← validateAndNormalizeLayer layer
    let layers ← validateAndNormalizeLayers layers
    return layer :: layers

end

/-! ## The handlers of the tree -/

/-- `targetList`: the list to insert to. -/
def targetList (layers : List Layer) (parentId : Option String) : Except Failure (List Nat) :=
  match parentId with
  | none => .ok []
  | some parentId =>
    match findLayer layers parentId with
    | none => .error ⟨"parent not found: " ++ parentId, none⟩
    | some (position, parent) =>
      if parent.value.type ≠ .group then .error ⟨"parent is not a group: " ++ parentId, none⟩
      else .ok position.childList

/-- `insertAt(targetList(doc, parentId), layer, index)`. -/
def insertLayer (layers : List Layer) (layer : Layer) (parentId : Option String) (index : Option Rat) :
    Except Failure (List Layer) := do
  let path ← targetList layers parentId
  return RoseTree.modifyList (fun list => insertAt list layer index) path layers

def addLayer (doc : PsdDoc) (layer : Layer) (parentId : Option String) (index : Option Rat) : Except Failure PsdDoc := do
  let layer ← validateAndNormalizeLayer layer
  require (findLayer doc.layers layer.value.id).isNone ("layer id already exists: " ++ layer.value.id)
  let layers ← insertLayer doc.layers layer parentId index
  return { doc with layers }

def removeLayer (doc : PsdDoc) (layerId : String) : Except Failure PsdDoc :=
  match removeById doc.layers layerId with
  | none => .error ⟨"layer not found: " ++ layerId, none⟩
  | some (_, layers) => .ok { doc with layers }

/-- The parent is the layer itself or below it. -/
def wouldCycle (layer : Layer) (layerId : String) (parentId : Option String) : Bool :=
  match parentId with
  | none => false
  | some parentId => parentId = layerId || isDescendant layer parentId

def reorder (doc : PsdDoc) (layerId : String) (parentId : Option String) (index : Option Rat) : Except Failure PsdDoc :=
  match findLayer doc.layers layerId with
  | none => .error ⟨"layer not found: " ++ layerId, none⟩
  | some (_, layer) => do
    require (!wouldCycle layer layerId parentId)
      ("reorder would create a cycle: " ++ layerId ++ " into " ++ parentId.getD "")
    let rest := match removeById doc.layers layerId with
      | some (_, rest) => rest
      | none => doc.layers
    let layers ← insertLayer rest layer parentId index
    return { doc with layers }

/-! ## The handlers of properties -/

/-- Writes to the layer with an identifier. -/
def editLayer (doc : PsdDoc) (layerId : String) (notFound : String) (edit : Layer → Except Failure Layer) :
    Except Failure PsdDoc :=
  match findLayer doc.layers layerId with
  | none => .error ⟨notFound ++ layerId, none⟩
  | some (position, layer) => do
    let layer ← edit layer
    return { doc with layers := RoseTree.modifyAt (fun _ => layer) position doc.layers }

/-- Writes properties of a layer and leaves its children. -/
def editFields (edit : LayerFields → Except Failure LayerFields) : Layer → Except Failure Layer
  | .node fields children => do return .node (← edit fields) children

/-- The validation of one entry of `set_props`. -/
def validateProp (key : String) (value : Value) : Except Failure Unit := do
  requireOf (key ≠ "opacity" || isUnit value) "opacity out of range: " value
  requireOf (key ≠ "fillOpacity" || isUnit value) "fillOpacity out of range: " value
  requireOf (key ≠ "blendMode" || isOneOf blendModes value) "invalid blendMode: " value
  if key = "stroke" then validateStroke value
  else if key = "colorOverlay" then validateColorOverlay value
  else if key = "dropShadow" then validateDropShadow value
  else return ()

/-- One entry of `set_props`. -/
def setProp (fields : LayerFields) (entry : String × Value) : Except Failure LayerFields :=
  if ¬ settableProps.contains entry.1 then .error ⟨"immutable or unknown prop: " ++ entry.1, none⟩
  else if effectProps.contains entry.1 ∧ entry.2.nullish then .ok (fields.delete entry.1)
  else do
    validateProp entry.1 entry.2
    return fields.set entry.1 entry.2

def setProps (doc : PsdDoc) (layerId : String) (props : List (String × Value)) : Except Failure PsdDoc :=
  editLayer doc layerId "layer not found: " (editFields fun fields => props.foldlM setProp fields)

/-- The entries of an object, none of anything else. -/
def entriesOf : Value → List (String × Value)
  | .object entries => entries
  | _ => []

/-- `adjust`: the parameters are merged into those of the layer. -/
def adjust (doc : PsdDoc) (layerId : String) (params : List (String × Value)) : Except Failure PsdDoc :=
  editLayer doc layerId "layer not found: " (editFields fun fields => do
    require (fields.type = .adjustment) ("not an adjustment layer: " ++ layerId)
    return fields.set "params"
      (.object (params.foldl (fun entries entry => setEntry entry.1 entry.2 entries) (entriesOf (fields.get "params")))))

def maskEdit (doc : PsdDoc) (layerId : String) (mask : Value) : Except Failure PsdDoc :=
  editLayer doc layerId "layer not found: " (editFields fun fields => .ok (fields.set "mask" mask))

/-- The number at an index of an array. -/
def coordinate (v : Value) (i : Nat) : Number :=
  match v with
  | .array items => match items[i]? with
    | some (.number n) => n
    | _ => .nan
  | _ => .nan

def shiftBounds (b : Value) (dx dy : Number) : Value :=
  .array [.number ((coordinate b 0).add dy), .number ((coordinate b 1).add dx), .number ((coordinate b 2).add dy),
    .number ((coordinate b 3).add dx)]

/-- What `shiftLayer` does with a layer apart from its children. -/
def shiftFields (dx dy : Number) (fields : LayerFields) : LayerFields :=
  let moved := fields.set "bounds" (shiftBounds (fields.get "bounds") dx dy)
  match moved.get "mask" with
  | .object entries =>
    moved.set "mask" (.object (setEntry "bounds" (shiftBounds ((moved.get "mask").get "bounds") dx dy) entries))
  | _ => moved

mutual

def shiftLayer (dx dy : Number) : Layer → Layer
  | .node fields none => .node (shiftFields dx dy fields) none
  | .node fields (some children) => .node (shiftFields dx dy fields) (some (shiftLayers dx dy children))

/-- `shiftLayer` over a list. -/
def shiftLayers (dx dy : Number) : List Layer → List Layer
  | [] => []
  | layer :: layers => shiftLayer dx dy layer :: shiftLayers dx dy layers

end

/-- `crop` to `[top, left, bottom, right]`. -/
def crop (doc : PsdDoc) (top left bottom right : Number) : PsdDoc :=
  { doc with
    canvas := setEntry "height" (.number (bottom.sub top)) (setEntry "width" (.number (right.sub left)) doc.canvas)
    layers := shiftLayers left.neg top.neg doc.layers }

/-- A dimension as a count of pixels. -/
def pixelCount : Value → Nat
  | .number (.finite n) => n.ceil.toNat
  | _ => 0

/-- `flipPixels` on the buffer of an image with four bytes a pixel. -/
def flipPixels (width height : Nat) (data : List UInt8) (dir : Value) : List UInt8 :=
  (List.range data.length).map fun k =>
    let x := k / 4 % width
    let y := k / 4 / width
    let sx := if isOneOf ["h"] dir then width - 1 - x else x
    let sy := if isOneOf ["v"] dir then height - 1 - y else y
    if 0 < width ∧ y < height then data.getD ((sy * width + sx) * 4 + k % 4) 0 else 0

def isRef (pixels : Value) : Bool :=
  ((entriesOf pixels).lookup "hash").isSome && ((entriesOf pixels).lookup "data").isNone

/-- The flip of `transform`; a layer that has no pixels is left. -/
def flipFields (flip : Value) (fields : LayerFields) : Except Failure LayerFields :=
  let pixels := fields.get "pixels"
  if ¬ (flip.truthy ∧ pixels.truthy) then .ok fields
  else if isRef pixels then
    .error ⟨"transform flip: pixels not resolved (PixelRef) — resolve before edit", none⟩
  else match pixels, pixels.get "data" with
    | .object entries, .bytes data =>
      let flipped := flipPixels (pixelCount (pixels.get "width")) (pixelCount (pixels.get "height")) data flip
      .ok (fields.set "pixels" (.object (setEntry "data" (.bytes flipped) entries)))
    | _, _ => .ok fields

def transform (doc : PsdDoc) (layerId : String) (op : List (String × Value)) : Except Failure PsdDoc :=
  editLayer doc layerId "layer not found: " fun layer => do
    require (!((op.lookup "scale").isSome || (op.lookup "rotate").isSome))
      "transform scale/rotate not supported in MVP (needs deterministic resampler)"
    let t := (Value.object op).get "translate"
    let moved := if t.truthy then shiftLayer (coordinate t 0) (coordinate t 1) layer else layer
    editFields (flipFields ((Value.object op).get "flip")) moved

/-- `generativeFill`: the layer is inserted with its provenance. -/
def generativeFill (doc : PsdDoc) (layer : Layer) (parentId : Option String) (index : Option Rat) (provenance : Value) :
    Except Failure PsdDoc := do
  require (layer.value.get "pixels").truthy "generative_fill: layer.pixels missing — result must be pre-resolved"
  addLayer doc (.node (layer.value.set "provenance" provenance) layer.children) parentId index

/-! ## Text -/

def textBakedDegradation : String := "文字层已栅格化"

structure SetTextPayload where
  layerId : String
  text : Value
  pixels : Value
  bounds : Value
  provenance : Value
  fonts : Option (List FontRef) := none

/-- The `length` of a string, in UTF-16 units. -/
def utf16Length (s : String) : Nat := (s.toList.map fun c => if c.toNat < 0x10000 then 1 else 2).sum

/-- The property `length` of a value. -/
def lengthOf : Value → Value
  | .string text => natValue (utf16Length text)
  | .bytes bytes => natValue bytes.length
  | .array items => natValue items.length
  | value => value.get "length"

/-- The `length` of a run as a number to add: `null` counts nothing, and what is no number makes no number of the sum. -/
def runLength (run : Value) : Number :=
  match lengthOf run with
  | .number n => n
  | .null => .finite 0
  | .bool value => .finite (if value then 1 else 0)
  | _ => .nan

/-- The numbers that `reduce` adds up; a list of bytes has no lengths, and what is no list has no `reduce`. -/
def runLengths : Value → Option (List Number)
  | .array items => some (items.map runLength)
  | .bytes bytes => some (if bytes = [] then [] else [.nan])
  | _ => none

/-- The lengths of runs add up to the length of the content; runs that are missing are not checked. -/
def checkRuns (name : String) (runs : Value) (length : Nat) : Except Failure Unit :=
  if !runs.truthy then .ok ()
  else
    match runLengths runs with
    | none => .error ⟨"text." ++ name ++ ".reduce is not a function", none⟩
    | some lengths =>
      let total := lengths.foldl Number.add (.finite 0)
      requireOf (total = .finite length) ("set_text: " ++ name ++ " length ") (.number total)

/-- The record of baked text is dropped from a layer's degradations, the others stay. -/
def dropBakedText (fields : LayerFields) : LayerFields :=
  match fields.get "degraded" with
  | .array records =>
    let rest := records.filter fun record => !isOneOf [textBakedDegradation] (record.get "reason")
    if rest = [] then fields.delete "degraded" else fields.set "degraded" (.array rest)
  | _ => fields

/-- What `setText` writes to the layer. -/
def setTextFields (p : SetTextPayload) (fields : LayerFields) : Except Failure LayerFields := do
  require (fields.type = .text) ("set_text: layer " ++ p.layerId ++ " is not a text layer")
  require ((p.text.get "content").isString) "set_text: text.content must be a string"
  let length := match p.text.get "content" with
    | .string content => utf16Length content
    | _ => 0
  checkRuns "runs" (p.text.get "runs") length
  checkRuns "paragraphRuns" (p.text.get "paragraphRuns") length
  require (isBounds p.bounds) "set_text: bounds must be four finite numbers [top,left,bottom,right]"
  return dropBakedText ((((fields.set "text" p.text).set "pixels" p.pixels).set "bounds" p.bounds).set "provenance"
    p.provenance)

/-- A font under its name, in a map that keeps the order of its first entries. -/
def putFont (font : FontRef) : List FontRef → List FontRef
  | [] => [font]
  | f :: fonts => if f.postScriptName = font.postScriptName then font :: fonts else f :: putFont font fonts

/-- The fonts of the document, and those of the payload whose name is not among them. -/
def mergeFonts (fonts : Option (List FontRef)) (added : List FontRef) : List FontRef :=
  added.foldl (fun byName font =>
    if byName.any fun f => f.postScriptName = font.postScriptName then byName else byName ++ [font])
    ((fonts.getD []).foldl (fun byName font => putFont font byName) [])

def setText (doc : PsdDoc) (p : SetTextPayload) : Except Failure PsdDoc := do
  let doc ← editLayer doc p.layerId "set_text: layer not found: " (editFields (setTextFields p))
  return match p.fonts with
    | none | some [] => doc
    | some fonts => { doc with fonts := some (mergeFonts doc.fonts fonts) }

/-! ## Applying an operation -/

/-- The field `layers` of an `init` payload. -/
inductive InitLayers where
  | absent
  | notArray
  | array (layers : List Layer)

/-- `init`: the document is replaced, and its layers are taken as they are. -/
def init (doc : PsdDoc) (canvas : Value) (layers : InitLayers) : Except Failure PsdDoc := do
  require canvas.isObject "init: malformed payload — canvas must be a non-null object"
  require (isFiniteNum (canvas.get "width")) "init: malformed payload — canvas.width must be a finite number"
  require (isFiniteNum (canvas.get "height")) "init: malformed payload — canvas.height must be a finite number"
  match layers with
  | .notArray => .error ⟨"init: malformed payload — layers must be an array when present", none⟩
  | .absent => .ok { doc with canvas := entriesOf canvas, layers := [] }
  | .array layers => .ok { doc with canvas := entriesOf canvas, layers := layers }

/-- `PsdOp`, by its kind. -/
inductive PsdOp where
  | init (canvas : Value) (layers : InitLayers)
  | addLayer (layer : Layer) (parentId : Option String) (index : Option Rat)
  | removeLayer (layerId : String)
  | reorder (layerId : String) (parentId : Option String) (index : Option Rat)
  | setProps (layerId : String) (props : List (String × Value))
  | crop (top left bottom right : Number)
  | transform (layerId : String) (op : List (String × Value))
  | adjust (layerId : String) (params : List (String × Value))
  | maskEdit (layerId : String) (mask : Value)
  | generativeFill (layer : Layer) (parentId : Option String) (index : Option Rat) (provenance : Value)
  | setText (payload : SetTextPayload)
  | unknown (kind : String)

def applyOne (doc : PsdDoc) : PsdOp → Except Failure PsdDoc
  | .init canvas layers => init doc canvas layers
  | .addLayer layer parentId index => addLayer doc layer parentId index
  | .removeLayer layerId => removeLayer doc layerId
  | .reorder layerId parentId index => reorder doc layerId parentId index
  | .setProps layerId props => setProps doc layerId props
  | .crop top left bottom right => .ok (crop doc top left bottom right)
  | .transform layerId op => transform doc layerId op
  | .adjust layerId params => adjust doc layerId params
  | .maskEdit layerId mask => maskEdit doc layerId mask
  | .generativeFill layer parentId index provenance => generativeFill doc layer parentId index provenance
  | .setText payload => setText doc payload
  | .unknown kind => .error ⟨"unknown op: " ++ kind, none⟩

/-- The document after an operation; one that throws leaves it. -/
def step (doc : PsdDoc) (op : PsdOp) : PsdDoc :=
  match applyOne doc op with
  | .ok doc' => doc'
  | .error _ => doc

end UniDocs.Psd
