import BackendRouting.Attribute

/-!
# The attribute values of a message

An attribute that is not set is absent; a comparison with an absent attribute is
false.
-/
namespace BackendRouting

@[ext]
structure Message where
  get? : Attribute → Option String

namespace Message

def empty : Message := ⟨fun _ => none⟩

/-- Set an attribute, in place of any value it had. -/
def set (m : Message) (a : Attribute) (value : String) : Message :=
  ⟨fun b => if b = a then some value else m.get? b⟩

def erase (m : Message) (a : Attribute) : Message :=
  ⟨fun b => if b = a then none else m.get? b⟩

/-- Of two values for one attribute the later one stays. -/
def ofList (values : List (Attribute × String)) : Message :=
  values.foldl (fun m (a, value) => m.set a value) empty

/-- The number of attributes that are present. -/
def size (m : Message) : Nat :=
  Attribute.all.countP fun a => (m.get? a).isSome

instance : DecidableEq Message := fun m n =>
  decidable_of_iff (∀ a ∈ Attribute.all, m.get? a = n.get? a)
    ⟨fun h => Message.ext (funext fun a => h a (Attribute.mem_all a)), fun h a _ => by rw [h]⟩

end Message
end BackendRouting
