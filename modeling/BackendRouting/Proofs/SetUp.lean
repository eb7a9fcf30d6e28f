import BackendRouting.Config.Loading
import BackendRouting.Proofs.Step

/-!
# Setting up a registry

Setting up a configuration either ends before it begins, because some domain has no default
backend, or goes through: no registration, no switch and no rule is refused on the way. What
comes of it, and what is told of it, is that of its domains one after the other, and each
domain depends on its own entry alone (`DomainEntry.built`, `DomainEntry.setupEvents`).

* `Work.run_forM_add`: several rules are added to a domain that is there.
* `DomainEntry.run_setUp`, `run_setUpNext`: one domain is set up, and then all of them.
* `on_setUp`: the answer, the registry and the events of a whole configuration.
* `build_of_backed`, `build_of_unbacked`, `get?_build`: what is built.
-/
namespace BackendRouting

/-- Rules are added to a domain that is there, and told one by one. -/
theorem Work.run_forM_add {name : String} {d : Domain} {s : Progress}
    (h : s.registry.get? name = some d) (rules : List Rule) :
    (forM rules (add name)).run s = .ok () ⟨s.registry.insert name (rules.foldl Domain.add d),
      s.events ++ rules.map (.adding name)⟩ := by
  induction rules generalizing s d with
  | nil =>
    rw [List.foldl_nil, Registry.insert_of_get? h, List.map_nil, List.append_nil]
    rfl
  | cons rule rules ih =>
    have hadd : (s.registry.insert name (d.add rule)).get? name = some (d.add rule) := by simp
    rw [List.forM_cons, EStateM.run_bind, run_add, h]
    dsimp only
    rw [ih hadd]
    simp only [Registry.insert_insert, List.foldl_cons, List.map_cons, List.append_assoc,
      List.singleton_append]

namespace Config

/-! ## One domain -/

/-- The domain that an entry makes: a new one, with its rules added one by one. -/
def DomainEntry.built (d : DomainEntry) : Domain :=
  d.load.rules.foldl Domain.add { Domain.new d.defaultBackend with enabled := d.enabled }

/-- What is told in setting up a domain: its registration, its rejected entries, its rules. -/
def DomainEntry.setupEvents (name : String) (d : DomainEntry) : List Event :=
  .registered name d.defaultBackend :: (d.load.events ++ d.load.rules.map (.adding name))

/-- A new domain is set up whatever its rules are. -/
theorem DomainEntry.run_setUp {d : DomainEntry} {name : String} {s : Progress}
    (hback : Text.isBlank d.defaultBackend = false) (hnew : s.registry.get? name = none) :
    (d.setUp name).run s = .ok d.load.rejected
      ⟨s.registry.insert name d.built, s.events ++ d.setupEvents name⟩ := by
  have hget (r : Registry) (d : Domain) : (r.insert name d).get? name = some d := by simp
  simp only [setUp, EStateM.run_bind, Work.run_register, hback, hnew, Option.map_none,
    Option.getD_none, Bool.false_eq_true, if_false, Work.run_setEnabled, hget, Work.run_tell]
  rw [Work.run_forM_add (hget ..)]
  simp only [Registry.insert_insert, setupEvents, List.append_assoc, List.singleton_append]
  rfl

/-! ## All domains -/

/-- The registry with the domains of these entries. -/
def having (r : Registry) (entries : List (String × DomainEntry)) : Registry :=
  entries.foldl (fun r entry => r.insert entry.1 entry.2.built) r

theorem having_cons (r : Registry) (entry : String × DomainEntry)
    (entries : List (String × DomainEntry)) :
    having r (entry :: entries) = having (r.insert entry.1 entry.2.built) entries := rfl

theorem get?_having {entries : List (String × DomainEntry)}
    (hnames : entries.Pairwise fun a b => a.1 < b.1) (r : Registry) (name : String) :
    (having r entries).get? name =
      ((entries.lookup name).map DomainEntry.built).or (r.get? name) := by
  induction entries generalizing r with
  | nil => rfl
  | cons entry entries ih =>
    obtain ⟨hlt, hnames⟩ := List.pairwise_cons.1 hnames
    rw [having_cons, ih hnames, Registry.get?_insert, Directory.lookup_entry]
    by_cases heq : name = entry.1
    · have hnone : entries.lookup name = none := List.lookup_eq_none_iff.2 fun other hother => by
        have hne : entry.1 ≠ other.1 := fun h => String.lt_irrefl _ (h ▸ hlt other hother)
        simpa [heq] using hne
      simp [heq, heq ▸ hnone]
    · simp [heq]

/-- New domains are set up one after the other. -/
theorem run_setUpNext {entries : List (String × DomainEntry)} {s : Progress}
    (hback : ∀ entry ∈ entries, Text.isBlank entry.2.defaultBackend = false)
    (hnames : entries.Pairwise fun a b => a.1 < b.1)
    (hnew : ∀ entry ∈ entries, s.registry.get? entry.1 = none) (rejected : List Rejection) :
    (entries.foldlM setUpNext rejected).run s =
      .ok (rejected ++ entries.flatMap (·.2.load.rejected)) ⟨having s.registry entries,
        s.events ++ entries.flatMap fun entry => entry.2.setupEvents entry.1⟩ := by
  induction entries generalizing s rejected with
  | nil => simp [having]
  | cons entry entries ih =>
    obtain ⟨hb, hback⟩ := List.forall_mem_cons.1 hback
    obtain ⟨hn, hnew⟩ := List.forall_mem_cons.1 hnew
    obtain ⟨hlt, hnames⟩ := List.pairwise_cons.1 hnames
    have hrest : ∀ other ∈ entries,
        (s.registry.insert entry.1 entry.2.built).get? other.1 = none := fun other hother => by
      rw [Registry.get?_insert, if_neg, hnew other hother]
      exact fun heq => String.lt_irrefl _ (heq ▸ hlt other hother)
    rw [List.foldlM_cons, EStateM.run_bind, setUpNext, EStateM.run_bind,
      DomainEntry.run_setUp hb hn]
    simp only [EStateM.run_pure]
    rw [ih hback hnames hrest]
    simp only [having_cons, List.flatMap_cons, List.append_assoc]

/-! ## Whole configurations -/

variable {c : Config}

theorem unbacked?_eq_none_iff : c.unbacked? = none ↔
    ∀ name d, c.domains.get? name = some d → Text.isBlank d.defaultBackend = false := by
  simp only [unbacked?, Option.map_eq_none_iff, List.find?_eq_none, Directory.get?_eq_some_iff]
  simp

/-- What comes of a configuration in which every domain has a default backend. -/
theorem on_setUp (h : c.unbacked? = none) :
    c.setUp.on .empty = ⟨.ok (c.domains.entries.flatMap (·.2.load.rejected)),
      having .empty c.domains.entries,
      c.domains.entries.flatMap fun entry => entry.2.setupEvents entry.1⟩ := by
  have hback := unbacked?_eq_none_iff.1 h
  have hrun := run_setUpNext (s := ⟨.empty, []⟩)
    (fun entry hentry => hback _ _ (Directory.get?_eq_some_iff.2 hentry)) c.domains.sorted
    (fun entry hentry => rfl) []
  have hvalid : (ofExcept c.validate : Work Unit) = pure () := by rw [validate, h]; rfl
  rw [Work.on, setUp, hvalid, pure_bind, hrun]
  rfl

theorem build_of_backed (h : c.unbacked? = none) : c.build = .ok
    ⟨having .empty c.domains.entries, c.domains.entries.flatMap (·.2.load.rejected)⟩ := by
  rw [build, on_setUp h]
  rfl

theorem build_of_unbacked {name : String} (h : c.unbacked? = some name) :
    c.build = .error (.noBackend name) := by
  have hrefused : (ofExcept c.validate : Work Unit) = throw (.noBackend name) := by
    rw [validate, h]
    rfl
  rw [build, setUp, hrefused]
  rfl

/-- A registry that has been built has the domains that the entries make. -/
theorem get?_build {setup : Setup} (h : c.build = .ok setup) (name : String) :
    setup.registry.get? name = (c.domains.get? name).map DomainEntry.built := by
  cases hunbacked : c.unbacked? with
  | some other => rw [build_of_unbacked hunbacked] at h; cases h
  | none =>
    rw [build_of_backed hunbacked] at h
    obtain rfl := Except.ok.inj h
    exact (get?_having c.domains.sorted .empty name).trans (Option.or_none ..)

end Config
end BackendRouting
