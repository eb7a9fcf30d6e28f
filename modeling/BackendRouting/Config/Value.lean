import BackendRouting.Config.Fault
import BackendRouting.Yaml.Integer
import BackendRouting.Yaml.Node

/-!
# Values of the fields of a configuration

A text is a scalar of any style. A flag and a number have to be plain, or a literal
block with the tag of their kind. A mapping may be left out: where nothing is written
it has no entries.

A reference is followed where a value is read. Following references is counted: too
many of them in one document are a fault.
-/
namespace BackendRouting

namespace Config

/-- The anchored nodes of the document, and how many references may be followed. -/
structure Scope where
  anchors : List (Nat × Yaml.Node)
  limit : Nat

/-- The state is the number of references that have been followed. -/
abbrev Decoder := ReaderT Scope (StateT Nat (Except Fault))

/-- Decode a whole document. -/
def Decoder.run {α : Type} (decoder : Yaml.Node → Decoder α) (d : Yaml.Document) :
    Except Fault α :=
  (ReaderT.run (decoder d.root) ⟨d.anchors, d.referenceLimit⟩).run' 0

end Config

namespace Yaml.Node

open Config (Decoder)

/-- What a reference stands for; any other node stands for itself. -/
def target : Node → Decoder Node
  | reference anchor => do
    let scope ← read
    let followed := (← get) + 1
    set followed
    if scope.limit < followed then throw .overused
    match scope.anchors.lookup anchor with
    | some node => return node
    | none => throw .malformed
  | node => return node

def asText (n : Node) : Decoder String := do
  match ← n.target with
  | scalar _ _ text => return text
  | cut => throw .malformed
  | _ => throw .mistyped

/-- The text of a scalar that is written as a value of some kind, not as a text. -/
def asWord (tag : String) (n : Node) : Decoder String := do
  match ← n.target with
  | scalar .plain _ text => return text
  | scalar .literal (some t) text => if t = tag then return text else throw .mistyped
  | cut => throw .malformed
  | _ => throw .mistyped

def asFlag (n : Node) : Decoder Bool := do
  let word ← n.asWord "tag:yaml.org,2002:bool"
  if word ∈ ["true", "True", "TRUE"] then return true
  else if word ∈ ["false", "False", "FALSE"] then return false
  else throw .mistyped

def asInt32 (n : Node) : Decoder Int32 := do
  let word ← n.asWord "tag:yaml.org,2002:int"
  match int32? word with
  | some value => return value
  | none => throw .mistyped

def asMapping (n : Node) : Decoder (List (Node × Node)) := do
  match ← n.target with
  | mapping entries => return entries
  | scalar .plain _ "" => return []
  | cut => throw .malformed
  | _ => throw .mistyped

/-- Any value will do, if the text does not break off in it. References in it are not
followed. -/
def asAnything (n : Node) : Decoder Unit :=
  if n.extent.hasCut then throw .malformed else return

end Yaml.Node
end BackendRouting
