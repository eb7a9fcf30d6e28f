import BackendRouting.Config.Document

/-!
# What a document can give

A decoder gives a value or fails, depending on the anchors of its document and on the references
that have been followed (`Decoder.Gives`, `Decoder.Fails`). What it gives can be relied on
(`Decoder.GivesIn`). Such promises are made for the reader of one field and kept along a whole
mapping.

* `gives_bind_iff`, `Gives.bind_fails`: two steps, one after the other.
* `GivesIn.bind`, `GivesIn.foldlM`: the promise of a reader is put together from those of its parts.
* `GivesIn.of_run`: what is promised of the root holds of what a document gives.
-/
namespace BackendRouting.Config

/-- No two of the entries have the same id. -/
def RulesDistinct (rules : List (String × RuleEntry)) : Prop :=
  (rules.map Prod.fst).Nodup

def DomainsDistinct (domains : Directory DomainEntry) : Prop :=
  ∀ entry ∈ domains.entries, RulesDistinct entry.2.rules

/-- No domain has two rule entries of one id. -/
def IdsDistinct (c : Config) : Prop :=
  DomainsDistinct c.domains

instance (c : Config) : Decidable c.IdsDistinct :=
  inferInstanceAs (Decidable (∀ entry ∈ c.domains.entries, (entry.2.rules.map Prod.fst).Nodup))

theorem RulesDistinct.of_append {rules rules' : List (String × RuleEntry)}
    (h : RulesDistinct (rules ++ rules')) : RulesDistinct rules :=
  h.sublist (List.map_append ▸ List.sublist_append_left _ _)

/-! ## Runs of a decoder -/

/-- In a document with this scope the decoder gives `a`, and the references that have been followed
are then `followed'`. -/
def Decoder.Gives {α : Type} (x : Decoder α) (scope : Scope) (followed : Nat) (a : α)
    (followed' : Nat) : Prop :=
  (ReaderT.run x scope).run followed = .ok (a, followed')

def Decoder.Fails {α : Type} (x : Decoder α) (scope : Scope) (followed : Nat) (fault : Fault) :
    Prop :=
  (ReaderT.run x scope).run followed = .error fault

namespace Decoder

variable {α β : Type} {x : Decoder α} {f : α → Decoder β} {scope : Scope}
  {followed followed' followed'' : Nat} {a : α} {b : β} {fault : Fault}

theorem gives_pure : Gives (pure a) scope followed a followed := rfl

theorem fails_throw : Fails (throw fault : Decoder α) scope followed fault := rfl

theorem gives_pure_iff {a' : α} :
    Gives (pure a) scope followed a' followed' ↔ a = a' ∧ followed = followed' := by
  constructor
  · intro h
    cases h
    exact ⟨rfl, rfl⟩
  · intro h
    obtain ⟨rfl, rfl⟩ := h
    exact gives_pure

theorem Gives.run_bind (h : x.Gives scope followed a followed') :
    (ReaderT.run (x >>= f) scope).run followed = (ReaderT.run (f a) scope).run followed' := by
  rw [ReaderT.run_bind, StateT.run_bind, h]
  rfl

theorem Gives.bind (hx : x.Gives scope followed a followed')
    (hf : (f a).Gives scope followed' b followed'') : (x >>= f).Gives scope followed b followed'' :=
  hx.run_bind.trans hf

theorem Gives.bind_fails (hx : x.Gives scope followed a followed')
    (hf : (f a).Fails scope followed' fault) : (x >>= f).Fails scope followed fault :=
  hx.run_bind.trans hf

theorem Fails.bind (h : x.Fails scope followed fault) : (x >>= f).Fails scope followed fault := by
  rw [Fails, ReaderT.run_bind, StateT.run_bind, h]
  rfl

theorem Fails.not_gives (h : x.Fails scope followed fault) :
    ¬ x.Gives scope followed a followed' := by
  intro hgives
  rw [Gives, h] at hgives
  cases hgives

theorem gives_bind_iff : (x >>= f).Gives scope followed b followed'' ↔
    ∃ a followed', x.Gives scope followed a followed' ∧
      (f a).Gives scope followed' b followed'' := by
  constructor
  · intro h
    cases hx : (ReaderT.run x scope).run followed with
    | error fault => exact absurd h (Fails.bind hx).not_gives
    | ok res => exact ⟨res.1, res.2, hx, (Gives.run_bind hx).symm.trans h⟩
  · intro h
    obtain ⟨a, followed', hx, hf⟩ := h
    exact hx.bind hf

@[simp] theorem map_throw (g : α → β) : g <$> (throw fault : Decoder α) = throw fault := rfl

@[simp] theorem throw_bind : ((throw fault : Decoder α) >>= f) = throw fault := rfl

end Decoder

/-! ## Promises -/

/-- What the decoder gives in a document with this scope, if it gives anything, has the
property. -/
def Decoder.GivesIn {α : Type} (x : Decoder α) (scope : Scope) (P : α → Prop) : Prop :=
  ∀ followed a followed', (ReaderT.run x scope).run followed = .ok (a, followed') → P a

namespace Decoder

variable {α β : Type} {x : Decoder α} {f : α → Decoder β} {scope : Scope} {P : α → Prop}
  {Q : β → Prop}

theorem givesIn_true (x : Decoder α) : x.GivesIn scope fun _ => True :=
  fun _ _ _ _ => trivial

theorem givesIn_pure {a : α} (h : P a) : GivesIn (pure a) scope P := by
  intro followed b followed' hrun
  cases hrun
  exact h

theorem givesIn_throw (fault : Fault) : GivesIn (throw fault : Decoder α) scope P := by
  intro followed b followed' hrun
  cases hrun

theorem GivesIn.bind (hx : x.GivesIn scope P) (hf : ∀ a, P a → (f a).GivesIn scope Q) :
    (x >>= f).GivesIn scope Q := by
  intro followed b followed'' hrun
  obtain ⟨a, followed', ha, hb⟩ := gives_bind_iff.1 hrun
  exact hf a (hx followed a followed' ha) followed' b followed'' hb

theorem givesIn_throw_bind (fault : Fault) :
    ((throw fault : Decoder α) >>= f).GivesIn scope Q := by
  rw [throw_bind]
  exact givesIn_throw fault

/-- What may be relied on of the elements taken so far may be relied on of all at the end. -/
theorem GivesIn.foldlM {f : β → α → Decoder β} {Q : List α → β → Prop} {l : List α} {b : β}
    (hb : Q [] b) (hf : ∀ taken b a, Q taken b → (f b a).GivesIn scope (Q (taken ++ [a]))) :
    (l.foldlM f b).GivesIn scope (Q l) := by
  have key : ∀ taken b, Q taken b → (l.foldlM f b).GivesIn scope (Q (taken ++ l)) := by
    induction l with
    | nil =>
      intro taken b hb
      rw [List.append_nil]
      exact givesIn_pure hb
    | cons a l ih =>
      intro taken b hb
      rw [List.foldlM_cons, List.append_cons]
      exact (hf taken b a hb).bind (ih (taken ++ [a]))
  exact key [] b hb

theorem GivesIn.of_run {decoder : Yaml.Node → Decoder α} {d : Yaml.Document} {a : α}
    (h : (decoder d.root).GivesIn ⟨d.anchors, d.referenceLimit⟩ P)
    (hrun : Decoder.run decoder d = .ok a) : P a := by
  unfold Decoder.run StateT.run' at hrun
  cases hres : (ReaderT.run (decoder d.root) ⟨d.anchors, d.referenceLimit⟩).run 0 with
  | error fault => rw [StateT.run] at hres; rw [hres] at hrun; cases hrun
  | ok res =>
    rw [StateT.run] at hres
    rw [hres] at hrun
    obtain rfl : res.1 = a := Except.ok.inj hrun
    exact h _ _ _ hres

end Decoder

theorem run_decode_of_ofDocument {document : Yaml.Document} {c : Config}
    (h : ofDocument document = .ok c) : Decoder.run decode document = .ok c := by
  unfold ofDocument at h
  cases hrun : Decoder.run decode document with
  | error fault => rw [hrun] at h; cases h
  | ok c' =>
    rw [hrun] at h
    simp only [bind, Except.bind] at h
    split at h
    · exact h
    · cases h

end BackendRouting.Config
