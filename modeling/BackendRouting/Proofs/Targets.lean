import BackendRouting.Proofs.Acceptance
import BackendRouting.Proofs.History

/-!
# No message goes to a blank target

A message goes to the default backend of its domain or to the link of one of its rules. That
neither is blank is looked at in four places: when a configuration is loaded, when a backend is
set, and when a rule is made from an entry or from a definition. Together they keep every domain
`Targeted`.

* `RuleEntry.rule_linked`, `Definition.Makes.rule_linked`: rules that are accepted have a link.
* `Domain.Targeted.after`, `Domain.Targeted.route`: an operation keeps the targets of a domain,
  and a message goes to one of them.
* `Registry.Targeted.step`, `.run`: so does one operation on a registry, and a history of them.
* `mem_names_run_iff`: the domains that are there have been registered, and they stay.
* `targeted_build`: a configuration that is accepted sets up domains with targets.
* `no_blank_target`: where the messages go, after any history.
-/
namespace BackendRouting

/-- The link is not blank. -/
def Rule.Linked (r : Rule) : Prop := Text.isBlank r.link = false

instance (r : Rule) : Decidable r.Linked := inferInstanceAs (Decidable (_ = _))

/-- A rule that is added has a link. -/
def Operation.Linked (op : Operation) : Prop := ∀ rule ∈ op.rule?, rule.Linked

instance (op : Operation) : Decidable op.Linked := inferInstanceAs (Decidable (∀ _ ∈ _, _))

/-! ## Rules that are accepted -/

theorem Config.RuleEntry.rule_linked {entry : RuleEntry} {id : String} {rule : Rule}
    (h : entry.rule id = .ok rule) : rule.Linked := by
  obtain ⟨hlink, e, -, rfl⟩ := RuleEntry.rule_eq_ok_iff.1 h
  exact hlink

theorem Definition.Makes.rule_linked {d : Definition} {fresh : RuleId} {rule : Rule}
    (h : d.Makes fresh rule) : rule.Linked := by
  rw [Rule.Linked, h.same]
  exact h.linked

theorem RuleSet.linked_of_define {definitions : List Definition} {rs : RuleSet}
    (h : define definitions = .ok rs) : ∀ rule ∈ rs.rules, rule.Linked := by
  obtain ⟨rules, hrules, rfl⟩ := define_eq_ok_iff.1 h
  have hlinked := (List.forall₂_and_left rules _).1 (hrules.flip.imp fun rule d hmakes =>
    ⟨hmakes.rule_linked, hmakes⟩)
  exact fun rule hrule => hlinked.1 rule (RuleSet.mem_rules.1 hrule)

/-! ## The targets of a domain -/

/-- Neither the default backend nor the link of a rule is blank. -/
structure Domain.Targeted (d : Domain) : Prop where
  backend : Text.isBlank d.defaultBackend = false
  links : ∀ rule ∈ d.added, rule.Linked

namespace Domain

variable {d : Domain} {op : Operation}

theorem eq_or_mem_of_mem_place {rule r : Rule} {rules : List Rule} (h : r ∈ place rule rules) :
    r = rule ∨ r ∈ rules := by
  induction rules with
  | nil => exact .inl (List.mem_singleton.1 h)
  | cons s rules ih =>
    rw [place] at h
    split at h
    · exact (List.mem_cons.1 h).imp_right (List.mem_cons_of_mem _)
    · rcases List.mem_cons.1 h with rfl | h
      · exact .inr List.mem_cons_self
      · exact (ih h).imp_right (List.mem_cons_of_mem _)

theorem Targeted.new {backend : String} (h : Text.isBlank backend = false) :
    (Domain.new backend).Targeted where
  backend := h
  links _ hmem := nomatch hmem

theorem Targeted.add {rule : Rule} (hd : d.Targeted) (hrule : rule.Linked) :
    (d.add rule).Targeted where
  backend := hd.backend
  links r hr := by
    rcases eq_or_mem_of_mem_place hr with rfl | hr
    · exact hrule
    · exact hd.links r hr

theorem Targeted.after (hd : d.Targeted) (hblank : op.isBlank = false) (hop : op.Linked) :
    (d.after op).Targeted := by
  cases op with
  | register name backend => exact ⟨hblank, hd.links⟩
  | setBackend name backend => exact ⟨hblank, hd.links⟩
  | setEnabled name enabled => exact ⟨hd.backend, hd.links⟩
  | add name rule => exact hd.add (hop rule rfl)
  | remove name id =>
    rw [after_remove]
    exact ⟨hd.backend, fun r hr => hd.links r (List.mem_of_mem_eraseP hr)⟩

/-- Whatever is selected, the message goes to one of the targets. -/
theorem Targeted.route (hd : d.Targeted) (m : Message) :
    Text.isBlank (d.route m).link = false := by
  unfold Domain.route
  split
  · cases hsel : d.ruleSet.select? m with
    | none => exact hd.backend
    | some rule =>
      rw [d.sorted] at hsel
      exact hd.links rule (RuleSet.mem_of_select? hsel)
  · exact hd.backend

end Domain

/-- An operation that is done leaves its domain with targets, new or not. -/
theorem Operation.Linked.result? {op : Operation} {d? : Option Domain} {d : Domain}
    (hop : op.Linked) (hblank : op.isBlank = false) (hd? : ∀ d, d? = some d → d.Targeted)
    (h : op.result? d? = some d) : d.Targeted := by
  cases d? with
  | some current =>
    obtain rfl : current.after op = d := Option.some.inj h
    exact (hd? current rfl).after hblank hop
  | none =>
    cases op with
    | register name backend =>
      obtain rfl : Domain.new backend = d := Option.some.inj h
      exact .new hblank
    | _ => cases h

/-! ## The targets of a registry -/

namespace Registry

variable {r r' : Registry} {op : Operation} {ops : List Operation}

def Targeted (r : Registry) : Prop := ∀ name d, r.get? name = some d → d.Targeted

theorem Targeted.empty : Registry.empty.Targeted := fun _ _ h => nomatch h

theorem Targeted.step (hr : r.Targeted) (hop : op.Linked) : (r.step op).registry.Targeted := by
  obtain ⟨-, hsame⟩ | ⟨d, -, hblank, hd, hnext⟩ := step_cases r op
  · rwa [hsame]
  · rw [hnext]
    intro name d' hget
    rw [get?_insert] at hget
    split at hget
    · obtain rfl := Option.some.inj hget
      exact hop.result? hblank (hr op.domain) hd
    · exact hr name d' hget

theorem Targeted.run (hr : r.Targeted) (hops : ∀ op ∈ ops, op.Linked) : (r.run ops).Targeted := by
  induction ops generalizing r with
  | nil => exact hr
  | cons op ops ih =>
    obtain ⟨hop, hops⟩ := List.forall_mem_cons.1 hops
    exact ih (hr.step hop) hops

end Registry

/-! ## The domains that are there -/

/-- Only for want of a registration is there no domain. -/
theorem Operation.leaves_eq_none_iff {op : Operation} {d? : Option Domain} :
    op.leaves d? = none ↔
      d? = none ∧ ¬ ∃ name backend, op = .register name backend ∧ Text.isBlank backend = false := by
  cases d? with
  | some d =>
    unfold leaves
    split <;> simp [result?]
  | none =>
    cases op with
    | register name backend =>
      cases h : Text.isBlank backend <;> simp [leaves, result?, isBlank, backend?, h]
    | _ => simp [leaves, result?]

namespace Registry

variable {r : Registry} {op : Operation} {ops : List Operation} {name : String}

theorem mem_names_step_iff : name ∈ (r.step op).registry.names ↔
    name ∈ r.names ∨ ∃ backend, op = .register name backend ∧ Text.isBlank backend = false := by
  rw [← not_iff_not, not_mem_names_iff, get?_step, not_or, not_mem_names_iff]
  by_cases hname : name = op.domain
  · subst hname
    rw [if_pos rfl, Operation.leaves_eq_none_iff]
    cases op <;> simp [Operation.domain]
  · rw [if_neg hname]
    refine (and_iff_left fun hreg => ?_).symm
    obtain ⟨backend, rfl, -⟩ := hreg
    exact hname rfl

/-- A domain that has been registered once stays. -/
theorem mem_names_run_iff : name ∈ (r.run ops).names ↔
    name ∈ r.names ∨ ∃ backend, .register name backend ∈ ops ∧ Text.isBlank backend = false := by
  induction ops generalizing r with
  | nil => simp [run]
  | cons op ops ih =>
    have hrun : name ∈ (r.run (op :: ops)).names ↔ _ := ih
    rw [hrun, mem_names_step_iff]
    simp only [List.mem_cons, or_and_right, exists_or, or_assoc, eq_comm]

end Registry

/-! ## Setting up -/

namespace Config

theorem DomainEntry.linked_load {d : DomainEntry} {rule : Rule} (h : rule ∈ d.load.rules) :
    rule.Linked := by
  rw [load, rules_ofEntries] at h
  obtain ⟨entry, -, hentry⟩ := List.mem_filterMap.1 h
  exact RuleEntry.rule_linked (loaded?_eq_some_iff.1 hentry)

theorem DomainEntry.targeted_built {d : DomainEntry} (h : Text.isBlank d.defaultBackend = false) :
    d.built.Targeted :=
  List.foldlRecOn d.load.rules Domain.add ⟨h, fun _ hmem => nomatch hmem⟩
    fun _ hd _ hrule => hd.add (linked_load hrule)

theorem targeted_build {c : Config} {setup : Setup} (h : c.build = .ok setup) :
    setup.registry.Targeted := by
  intro name d hd
  rw [get?_build h] at hd
  obtain ⟨entry, hentry, rfl⟩ := Option.map_eq_some_iff.1 hd
  cases hunbacked : c.unbacked? with
  | some other => rw [build_of_unbacked hunbacked] at h; cases h
  | none => exact DomainEntry.targeted_built (unbacked?_eq_none_iff.1 hunbacked name entry hentry)

end Config

namespace Registry

/-- Where a history begins: without domains, or with those of a configuration. -/
inductive Start : Registry → Prop where
  | empty : Start .empty
  | built {c : Config} {setup : Config.Setup} (h : c.build = .ok setup) : Start setup.registry

theorem Start.targeted {r : Registry} (h : r.Start) : r.Targeted := by
  cases h with
  | empty => exact .empty
  | built h => exact Config.targeted_build h

/-- **Targets.** A rule that is made from a configuration entry or from a definition has a link
that is not blank. When only such rules are added, to no domains or to those of a configuration,
then no default backend is ever blank. Every message goes to a target that is not blank if its
domain is registered, whether the domain is enabled or not, and nowhere if it is not. Registered
are the domains of the start and those that were asked for with a backend that is not blank. -/
theorem no_blank_target :
    (∀ (entry : Config.RuleEntry) id rule, entry.rule id = .ok rule → rule.Linked) ∧
    (∀ definitions rs, RuleSet.define definitions = .ok rs → ∀ rule ∈ rs.rules, rule.Linked) ∧
    ∀ (start : Registry) (ops : List Operation), start.Start → (∀ op ∈ ops, op.Linked) →
      (∀ name d, (start.run ops).get? name = some d → Text.isBlank d.defaultBackend = false) ∧
      (∀ name m, name ∈ (start.run ops).names →
        ∃ link, (start.run ops).link? name m = some link ∧ Text.isBlank link = false) ∧
      (∀ name m, (start.run ops).link? name m = none ↔ name ∉ (start.run ops).names) ∧
      ∀ name, name ∈ (start.run ops).names ↔ name ∈ start.names ∨
        ∃ backend, .register name backend ∈ ops ∧ Text.isBlank backend = false := by
  refine ⟨fun entry id rule => Config.RuleEntry.rule_linked,
    fun definitions rs => RuleSet.linked_of_define, fun start ops hstart hops => ?_⟩
  have hr : (start.run ops).Targeted := hstart.targeted.run hops
  refine ⟨fun name d hget => (hr name d hget).backend, fun name m hname => ?_, fun name m => ?_,
    fun name => mem_names_run_iff⟩
  · obtain ⟨d, hget⟩ := (Directory.mem_names_iff _ name).1 hname
    refine ⟨(d.route m).link, ?_, (hr name d hget).route m⟩
    rw [link?_eq, Registry.get?, hget]
    rfl
  · simp [not_mem_names_iff, link?_eq]

/-- The only rule entry of this configuration has no link. -/
def sampleConfig : Config := ⟨.ofList [("lane", ⟨true, "D", [("b", ⟨" ", "", 0, ""⟩)]⟩)]⟩

def sampleDefinition : Definition := ⟨"A", [.clause (.condition (.test .equals .action "x"))]⟩

/-- In a configured domain a blank backend is refused, and then a rule that has been defined is
added. -/
theorem targets_of_defined_rule :
    ∃ rs setup, RuleSet.define [sampleDefinition] = .ok rs ∧ sampleConfig.build = .ok setup ∧
      let r := setup.registry.run (.setBackend "lane" " " :: rs.rules.map (.add "lane"))
      (∀ m, ∃ link, r.link? "lane" m = some link ∧ Text.isBlank link = false) ∧
        r.link? "lane" (.ofList [(.action, "x")]) = some "A" ∧
        ∀ m, r.link? "other" m = none := by
  obtain ⟨-, hdefine, htargets⟩ := no_blank_target
  have hops (rs : RuleSet) (hrs : RuleSet.define [sampleDefinition] = .ok rs) :
      ∀ op ∈ Operation.setBackend "lane" " " :: rs.rules.map (.add "lane"), op.Linked := by
    refine List.forall_mem_cons.2 ⟨by decide, List.forall_mem_map.2 fun rule hrule r hr => ?_⟩
    exact Option.some.inj hr ▸ hdefine _ rs hrs rule hrule
  refine ⟨_, _, rfl, rfl, ?_⟩
  obtain ⟨-, hlinks, hnowhere, -⟩ := htargets _ _ (.built (c := sampleConfig) rfl) (hops _ rfl)
  exact ⟨fun m => hlinks _ m (by decide +kernel), by decide +kernel,
    fun m => (hnowhere _ m).2 (by decide +kernel)⟩

end Registry
end BackendRouting
