/-!
# Documents as trees

The entries of a mapping stand in the order of the text, repeated keys included. A
scalar keeps the style it was written in: `true` and `"true"` are different scalars.
A reference stands for an anchored node, which may come after it or around it, so a
document has its anchored nodes beside its tree.
-/
namespace BackendRouting.Yaml

inductive Style where
  | plain
  | quoted
  | literal
  | folded
  deriving DecidableEq, Repr

/-- `cut` stands where the text cannot be read on; what stands before it was read. -/
inductive Node where
  | scalar (style : Style) (tag? : Option String) (text : String)
  | sequence (items : List Node)
  | mapping (entries : List (Node × Node))
  | reference (anchor : Nat)
  | cut

/-- How much of a node was read: its marks, and whether the text breaks off in it. A
scalar and a reference are one mark each, a collection has one at its start and one
at its end. -/
structure Extent where
  marks : Nat
  hasCut : Bool
  deriving DecidableEq, Repr

namespace Extent

def append (a b : Extent) : Extent := ⟨a.marks + b.marks, a.hasCut || b.hasCut⟩

/-- A collection that breaks off has no end. -/
def enclose (a : Extent) : Extent := ⟨a.marks + (if a.hasCut then 1 else 2), a.hasCut⟩

end Extent

namespace Node

def plain (text : String) : Node := .scalar .plain none text

def quoted (text : String) : Node := .scalar .quoted none text

/-- What stands where nothing is written. -/
def absent : Node := plain ""

mutual

def extent : Node → Extent
  | scalar _ _ _ | reference _ => ⟨1, false⟩
  | sequence items => (extentItems items).enclose
  | mapping entries => (extentEntries entries).enclose
  | cut => ⟨0, true⟩

def extentItems : List Node → Extent
  | [] => ⟨0, false⟩
  | item :: items => (extent item).append (extentItems items)

def extentEntries : List (Node × Node) → Extent
  | [] => ⟨0, false⟩
  | entry :: entries => (extentPair entry).append (extentEntries entries)

def extentPair : Node × Node → Extent
  | (key, value) => (extent key).append (extent value)

end

end Node

/-- `whole` tells whether the text ends with its only document. Of two nodes of one
anchor the first in the list counts. -/
structure Document where
  root : Node
  anchors : List (Nat × Node)
  whole : Bool

namespace Document

/-- A document without anchors. -/
def ofNode (root : Node) : Document := ⟨root, [], true⟩

/-- As many references may be followed in reading a document. -/
def referenceLimit (d : Document) : Nat :=
  100 * d.root.extent.marks

end Document
end BackendRouting.Yaml
