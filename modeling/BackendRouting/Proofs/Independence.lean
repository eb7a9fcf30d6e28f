import BackendRouting.Proofs.History

/-!
# Operations that do not get in each other's way

An operation concerns one aspect of one domain: the default backend, the switch, or the rule of
one id. Two operations on different domains, or on different aspects of a registered domain, can
be done in either order. The one exception are two additions of new ids: their order is the
order in which the rules are kept.

* `place_comm`, `eraseP_place_comm`: rules of different ids, placed and removed.
* `Domain.after_comm`, `Domain.get?_after`: different aspects of one domain.
* `Operation.leaves_comm`, `Operation.reply_leaves`: the same, with refusals.
* `independent_operations_commute`: two operations on a registry.
-/
namespace BackendRouting

/-- What an operation is about, in its domain. -/
inductive Aspect where
  | backend
  | switch
  | rule (id : RuleId)
  deriving DecidableEq

namespace Operation

def aspect : Operation → Aspect
  | register _ _ | setBackend _ _ => .backend
  | setEnabled _ _ => .switch
  | add _ rule => .rule rule.id
  | remove _ id => .rule id

/-- The operation adds a rule of an id that the domain does not have. -/
def bringsIn (d : Domain) : Operation → Bool
  | add _ rule => (d.get? rule.id).isNone
  | _ => false

end Operation

/-- The operations are about different domains, or about different aspects of one registered
domain; but they do not both bring in new ids. -/
inductive Registry.Independent (r : Registry) (a b : Operation) : Prop where
  | domains (h : a.domain ≠ b.domain)
  | aspects {d : Domain} (hsame : a.domain = b.domain) (hd : r.get? a.domain = some d)
      (haspect : a.aspect ≠ b.aspect) (hnew : ¬ (a.bringsIn d = true ∧ b.bringsIn d = true))

/-! ## Rules of different ids -/

namespace Domain

variable {r s : Rule} {rules : List Rule} {id id' : RuleId}

/-- Only if both ids are new does it matter which rule is placed first. -/
theorem place_comm (hne : r.id ≠ s.id)
    (h : r.id ∈ rules.map Rule.id ∨ s.id ∈ rules.map Rule.id) :
    place s (place r rules) = place r (place s rules) := by
  induction rules with
  | nil => simp at h
  | cons x rules ih =>
    by_cases hr : x.id = r.id
    · have hs : x.id ≠ s.id := hr ▸ hne
      simp [place, hr, hne]
    · by_cases hs : x.id = s.id
      · simp [place, hs, Ne.symm hne]
      · have hrest : r.id ∈ rules.map Rule.id ∨ s.id ∈ rules.map Rule.id := by
          simpa [Ne.symm hr, Ne.symm hs] using h
        simp [place, hr, hs, ih hrest]

theorem eraseP_place_comm (hne : r.id ≠ id) :
    (place r rules).eraseP (·.id == id) = place r (rules.eraseP (·.id == id)) := by
  induction rules with
  | nil => simp [place, hne]
  | cons x rules ih =>
    by_cases hr : x.id = r.id
    · simp [place, hr, hne]
    · by_cases hid : x.id = id
      · simp [place, hid, Ne.symm hne]
      · simp [place, hr, hid, ih]

theorem find?_eraseP_of_ne (hne : id ≠ id') :
    (rules.eraseP (·.id == id)).find? (·.id == id') = rules.find? (·.id == id') := by
  induction rules with
  | nil => rfl
  | cons x rules ih =>
    by_cases hid : x.id = id
    · simp [hid, hne]
    · simp [hid, List.find?_cons, ih]

/-! ## Different aspects of a domain -/

variable {d : Domain} {a b op : Operation}

/-- An operation on another aspect leaves the rule of an id as it is. -/
theorem get?_after (h : op.aspect ≠ .rule id) : (d.after op).get? id = d.get? id := by
  cases op with
  | add name rule =>
    have hne : rule.id ≠ id := fun heq => h (congrArg Aspect.rule heq)
    exact (find?_place ..).trans (if_neg hne)
  | remove name id' =>
    have hne : id' ≠ id := fun heq => h (congrArg Aspect.rule heq)
    rw [after_remove]
    exact find?_eraseP_of_ne hne
  | _ => rfl

theorem bringsIn_add_iff {name : String} :
    (Operation.add name r).bringsIn d = true ↔ r.id ∉ d.added.map Rule.id := by
  simp [Operation.bringsIn, get?]

theorem add_comm (hne : r.id ≠ s.id)
    (h : ¬ (r.id ∉ d.added.map Rule.id ∧ s.id ∉ d.added.map Rule.id)) :
    (d.add r).add s = (d.add s).add r := by
  refine congrArg d.resort (place_comm hne ?_)
  by_cases hr : r.id ∈ d.added.map Rule.id
  · exact .inl hr
  · exact .inr (Decidable.byContradiction fun hs => h ⟨hr, hs⟩)

theorem remove_add (hne : r.id ≠ id) : ((d.add r).remove id).2 = (d.remove id).2.add r := by
  rw [snd_remove, snd_remove]
  exact congrArg d.resort (eraseP_place_comm hne)

theorem remove_comm (hne : id ≠ id') :
    ((d.remove id).2.remove id').2 = ((d.remove id').2.remove id).2 := by
  simp only [snd_remove, added_resort, resort_resort]
  refine congrArg d.resort (List.eraseP_comm fun rule _ => ?_)
  by_cases hid : rule.id = id
  · exact .inr (by simpa [hid] using hne)
  · exact .inl (by simpa using hid)

theorem after_comm (haspect : a.aspect ≠ b.aspect)
    (hnew : ¬ (a.bringsIn d = true ∧ b.bringsIn d = true)) :
    (d.after a).after b = (d.after b).after a := by
  cases a with
  | register name backend | setBackend name backend =>
    cases b with
    | register name' backend' | setBackend name' backend' => exact absurd rfl haspect
    | remove name' id => simp only [after_remove]; rfl
    | _ => rfl
  | setEnabled name enabled =>
    cases b with
    | setEnabled name' enabled' => exact absurd rfl haspect
    | remove name' id => simp only [after_remove]; rfl
    | _ => rfl
  | add name rule =>
    cases b with
    | add name' rule' =>
      rw [bringsIn_add_iff, bringsIn_add_iff] at hnew
      exact add_comm (fun heq => haspect (congrArg Aspect.rule heq)) hnew
    | remove name' id => exact remove_add fun heq => haspect (congrArg Aspect.rule heq)
    | _ => rfl
  | remove name id =>
    cases b with
    | add name' rule =>
      exact (remove_add fun heq => haspect (congrArg Aspect.rule heq.symm)).symm
    | remove name' id' => exact remove_comm fun heq => haspect (congrArg Aspect.rule heq)
    | _ => simp only [after_remove]; rfl

end Domain

/-! ## With refusals -/

namespace Operation

variable {d : Domain} {a b : Operation}

theorem leaves_some (op : Operation) (d : Domain) :
    op.leaves (some d) = some (if op.isBlank then d else d.after op) := by
  unfold leaves
  split <;> rfl

theorem leaves_comm (haspect : a.aspect ≠ b.aspect)
    (hnew : ¬ (a.bringsIn d = true ∧ b.bringsIn d = true)) :
    b.leaves (a.leaves (some d)) = a.leaves (b.leaves (some d)) := by
  simp only [leaves_some]
  cases a.isBlank with
  | true => rfl
  | false =>
    cases b.isBlank with
    | true => rfl
    | false => exact congrArg some (Domain.after_comm haspect hnew)

/-- The answer about a domain stays the same when another aspect of it has changed. -/
theorem reply_leaves (haspect : a.aspect ≠ b.aspect) :
    b.reply (a.leaves (some d)) = b.reply (some d) := by
  rw [leaves_some]
  split
  · rfl
  · cases b with
    | remove name id =>
      exact congrArg (Except.ok ∘ Answer.removed) (Domain.get?_after haspect)
    | _ => rfl

end Operation

namespace Registry

variable {r : Registry} {a b : Operation}

theorem Independent.symm (h : r.Independent a b) : r.Independent b a := by
  cases h with
  | domains h => exact .domains (Ne.symm h)
  | aspects hsame hd haspect hnew =>
    exact .aspects hsame.symm (hsame ▸ hd) (Ne.symm haspect) fun h => hnew h.symm

theorem Independent.answer_step (h : r.Independent a b) :
    ((r.step a).registry.step b).answer = (r.step b).answer := by
  rw [Registry.answer_step, Registry.answer_step, get?_step]
  cases h with
  | domains h => rw [if_neg (Ne.symm h)]
  | aspects hsame hd haspect hnew =>
    rw [if_pos hsame.symm, ← hsame, hd, Operation.reply_leaves haspect]

theorem Independent.registry_step (h : r.Independent a b) :
    ((r.step a).registry.step b).registry = ((r.step b).registry.step a).registry := by
  refine ext_get? fun name => ?_
  simp only [get?_step]
  cases h with
  | domains h =>
    by_cases ha : name = a.domain
    · have hb : name ≠ b.domain := ha ▸ h
      rw [if_neg hb, if_pos ha, if_neg hb, if_pos ha]
    · rw [if_neg ha, if_neg ha]
  | aspects hsame hd haspect hnew =>
    by_cases ha : name = a.domain
    · have hb : name = b.domain := ha.trans hsame
      rw [if_pos ha, if_pos hb, if_pos hb, if_pos ha, ha, hd,
        Operation.leaves_comm haspect hnew]
    · have hb : name ≠ b.domain := hsame ▸ ha
      simp only [if_neg ha, if_neg hb]

/-- **Independent operations.** Two operations on different domains, or on different aspects of
a registered domain, are answered the same in either order, and the registry is the same in the
end, unless both bring in new ids. An operation on one domain leaves every other domain and
where it sends its messages as they are. -/
theorem independent_operations_commute (r : Registry) :
    (∀ a b, r.Independent a b →
      ((r.step a).registry.step b).answer = (r.step b).answer ∧
      ((r.step b).registry.step a).answer = (r.step a).answer ∧
      ((r.step a).registry.step b).registry = ((r.step b).registry.step a).registry) ∧
    ∀ op name, op.domain ≠ name → (r.step op).registry.get? name = r.get? name ∧
      ∀ m, (r.step op).registry.link? name m = r.link? name m := by
  refine ⟨fun a b h => ⟨h.answer_step, h.symm.answer_step, h.registry_step⟩,
    fun op name h => ⟨get?_step_of_ne h, fun m => ?_⟩⟩
  rw [link?_eq, link?_eq, get?_step_of_ne h]

/-- One rule is replaced, and another one comes in. -/
theorem replacement_and_addition_commute :
    let r := empty.run [.register "lane" "D", .add "lane" (sampleRule "a" "A")]
    let replace : Operation := .add "lane" (sampleRule "a" "A2")
    let bringIn : Operation := .add "lane" (sampleRule "b" "B")
    r.Independent replace bringIn ∧ r.run [replace, bringIn] = r.run [bringIn, replace] ∧
      ((r.run [bringIn, replace]).get? "lane").map Domain.added =
        some [sampleRule "a" "A2", sampleRule "b" "B"] := by
  intro r replace bringIn
  have hindependent : r.Independent replace bringIn :=
    .aspects (d := (Domain.new "D").add (sampleRule "a" "A")) rfl rfl (by decide) (by decide)
  exact ⟨hindependent, ((independent_operations_commute r).1 _ _ hindependent).2.2, rfl⟩

/-- Of two rules that come in the later one is kept behind the other. -/
example :
    let r := empty.run [.register "lane" "D"]
    r.run [.add "lane" (sampleRule "a" "A"), .add "lane" (sampleRule "b" "B")] ≠
      r.run [.add "lane" (sampleRule "b" "B"), .add "lane" (sampleRule "a" "A")] := by
  intro r h
  have hadded := congrArg (fun r => (r.get? "lane").map fun d => d.added.map Rule.id) h
  exact absurd hadded (by decide)

end Registry
end BackendRouting
