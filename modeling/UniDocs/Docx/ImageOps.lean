import UniDocs.Lib.Tree

/-!
# Image operations on a DOCX body

The body is a tree of XML nodes. Image containers are the inline and anchored drawings that embed a picture, collected in
document order with the element above their drawing. Elements are references in the source; here they are positions in the
forest of the body's children.
-/

namespace UniDocs.Docx

open Lib

/-- What an XML node is, apart from its children. -/
inductive XmlLabel where
  | element (namespaceUri : Option String) (localName : String) (attributes : List ((Option String × String) × String))
  | text (content : String)
  | other
  deriving DecidableEq, Repr

/-- An XML node; only elements have children. -/
abbrev XmlNode := RoseTree XmlLabel

def wmlNs : String := "http://schemas.openxmlformats.org/wordprocessingml/2006/main"

def wpNs : String := "http://schemas.openxmlformats.org/drawingml/2006/wordprocessingDrawing"

def aNs : String := "http://schemas.openxmlformats.org/drawingml/2006/main"

def rNs : String := "http://schemas.openxmlformats.org/officeDocument/2006/relationships"

namespace XmlLabel

def isElement : XmlLabel → Bool
  | element _ _ _ => true
  | _ => false

/-- An element with this name in this namespace. -/
def named (namespaceUri localName : String) : XmlLabel → Bool
  | element ns name _ => name == localName && ns == some namespaceUri
  | _ => false

/-- `getAttributeNs`. -/
def attributeNs (namespaceUri localName : String) : XmlLabel → Option String
  | element _ _ attributes => attributes.lookup (some namespaceUri, localName)
  | _ => none

end XmlLabel

mutual

/-- The first `a:blip` at a node or below it. -/
def findBlipAt : XmlNode → Option XmlLabel
  | .node label none => if label.named aNs "blip" then some label else none
  | .node label (some children) =>
    if label.named aNs "blip" then some label
    else if label.isElement then findBlip children
    else none

/-- Find the `a:blip` element (depth-first search). -/
def findBlip : List XmlNode → Option XmlLabel
  | [] => none
  | child :: rest =>
    match findBlipAt child with
    | some blip => some blip
    | none => findBlip rest

end

/-- A drawing's child that holds a picture. -/
def isContainer (node : XmlNode) : Bool :=
  (node.value.named wpNs "inline" || node.value.named wpNs "anchor") &&
    match findBlip node.kids with
    | some blip => (blip.attributeNs rNs "embed").isSome
    | none => false

/-- An image container, where it stands, and the element above its drawing: a position in the same forest, or the node
whose children the forest is. -/
structure ImageContainer where
  container : XmlNode
  place : Position
  run : Option Position

namespace ImageContainer

/-- A container among the children of the first node of a forest. -/
def inFirst (c : ImageContainer) : ImageContainer :=
  ⟨c.container, c.place.inFirst, some (match c.run with
    | none => ⟨[], 0⟩
    | some position => position.inFirst)⟩

/-- A container in the nodes after the first. -/
def inRest (c : ImageContainer) : ImageContainer := ⟨c.container, c.place.inRest, c.run.map Position.inRest⟩

end ImageContainer

/-- The containers among the children of a drawing that stands first in its list. -/
def drawingContainers (children : List XmlNode) : List ImageContainer :=
  (children.zipIdx.filter fun entry => isContainer entry.1).map fun entry => ⟨entry.1, ⟨[0], entry.2⟩, none⟩

mutual

/-- The containers at the first node of a list and below it. -/
def walkChild : XmlNode → List ImageContainer
  | .node _ none => []
  | .node label (some children) =>
    if label.named wmlNs "drawing" then drawingContainers children
    else if label.isElement then (walk children).map ImageContainer.inFirst
    else []

/-- `collectImageContainers` over the children of an element. -/
def walk : List XmlNode → List ImageContainer
  | [] => []
  | child :: rest => walkChild child ++ (walk rest).map ImageContainer.inRest

end

/-- `collectImageContainers`; the body is given by its children. -/
def collectImageContainers (body : List XmlNode) : List ImageContainer := walk body

/-- `deleteImage`: the element above the drawing leaves its parent. Where this is the body itself, the document is left
without a body, if the body has a parent, and as it was otherwise. -/
def deleteImage (bodyHasParent : Bool) (body : List XmlNode) (index : Int) : Except String (Option (List XmlNode)) :=
  let containers := collectImageContainers body
  match if index < 0 then none else containers[index.toNat]? with
  | none => .error s!"Image index {index} out of range (0-{(containers.length : Int) - 1})"
  | some c =>
    match c.run with
    | some position => .ok (some (RoseTree.remove body position))
    | none => .ok (if bodyHasParent then none else some body)

mutual

/-- The text nodes at a node and below it. -/
def textsAt : XmlNode → List String
  | .node (.text content) _ => [content]
  | .node (.element _ _ _) (some children) => texts children
  | .node _ _ => []

/-- The text nodes of a forest in document order. -/
def texts : List XmlNode → List String
  | [] => []
  | child :: rest => textsAt child ++ texts rest

end

end UniDocs.Docx
