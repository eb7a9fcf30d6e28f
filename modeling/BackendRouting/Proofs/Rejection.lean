import BackendRouting.Proofs.Loading
import BackendRouting.Proofs.ReadBack
import Mathlib.Data.List.Forall2

/-!
# Rules and rejections

Loading takes each entry of a domain to a rule or to a rejection. Which of the two, and why, is
told by the entry alone (`RuleEntry.Acceptable`, `RuleEntry.Faulty`), so the entries fall into two
lists, and the rules and the rejections stand in the order of their entries.

* `RuleEntry.acceptable_iff`, `RuleEntry.faulty_of_rule`: what becomes of one entry.
* `forall₂_ofEntries`: the rules and the rejections match the two lists, one by one.
* `forall₂_warnings`: every rejection is told by one warning. A clause that cannot be read has
  just one syntax error, so there are no more.
* `events_ofEntries`, `warnings_buildEvents`: loading and setting up tell no other warnings.
* `every_entry_is_accounted_for`: all this, and that a whole configuration is loaded without loss.
-/
namespace BackendRouting

/-- Only blank text is no pattern, and a text that cannot be read has one syntax error. -/
theorem Pattern.ofValidText_eq_error {text : String} {err : RuleError}
    (h : ofValidText text = .error err) :
    (Text.isBlank text = true ∧ err = .emptyPattern) ∨
      ∃ e, read? text = some (.error [e]) ∧ err = .invalidPattern text [e] := by
  unfold ofValidText ofText at h
  cases hblank : Text.isBlank text with
  | true =>
    have hnone : read? text = none := by simp [read?, Lexicon.tokens?, hblank]
    rw [hnone] at h
    exact .inl ⟨rfl, (Except.error.inj h).symm⟩
  | false =>
    rw [read?_of_not_isBlank hblank] at h ⊢
    cases hread : Condition.ofTokens (Lexicon.standard.scan 0 text.toList) with
    | ok e => rw [hread] at h; cases h
    | error e =>
      rw [hread] at h
      exact .inr ⟨e, rfl, (Except.error.inj h).symm⟩

namespace Config

/-! ## One entry -/

namespace RuleEntry

/-- Neither the link nor the clause is blank, and the clause spells a condition. -/
structure Acceptable (entry : RuleEntry) : Prop where
  linked : Text.isBlank entry.link = false
  stated : Text.isBlank entry.clause = false
  spelled : ∃ e : Condition, e.SpelledBy entry.clause

/-- The rule has what its entry says, and the condition that the clause spells. -/
structure Makes (entry : RuleEntry) (id : String) (rule : Rule) : Prop where
  id : rule.id = .given id
  link : rule.link = entry.link
  clause : rule.pattern.text = entry.clause
  condition : ∃ e, rule.pattern.outcome = .ok e ∧ e.SpelledBy entry.clause
  priority : rule.priority = entry.priority
  description : rule.description = entry.description
  source : rule.source = .environment
  live : rule.deleted = false

/-- What is told of an entry that makes no rule: first of its link, then of its clause. -/
inductive Faulty (entry : RuleEntry) (id : String) : RuleError → Prop where
  | blankLink (hlink : Text.isBlank entry.link = true) : Faulty entry id (.emptyLink (.given id))
  | blankClause (hlink : Text.isBlank entry.link = false)
      (hclause : Text.isBlank entry.clause = true) : Faulty entry id .emptyPattern
  | invalidClause {e : SyntaxError} (hlink : Text.isBlank entry.link = false)
      (hclause : Pattern.read? entry.clause = some (.error [e])) :
      Faulty entry id (.invalidPattern entry.clause [e])

variable {entry : RuleEntry} {id : String} {rule : Rule} {err : RuleError}

theorem acceptable_iff (id : String) : entry.Acceptable ↔ ∃ rule, entry.rule id = .ok rule := by
  constructor
  · intro h
    obtain ⟨e, he⟩ := h.spelled
    exact ⟨_, rule_eq_ok_iff.2 ⟨h.linked, e, Pattern.read?_eq_ok_iff.2 he, rfl⟩⟩
  · intro h
    obtain ⟨rule, hrule⟩ := h
    obtain ⟨hlink, e, he, -⟩ := rule_eq_ok_iff.1 hrule
    exact ⟨hlink, Pattern.not_isBlank_of_read? he, e, Pattern.read?_eq_ok_iff.1 he⟩

instance : Decidable entry.Acceptable :=
  decidable_of_iff ((entry.rule "").isOk = true) <| by
    rw [acceptable_iff ""]
    cases entry.rule "" <;> simp [Except.isOk, Except.toBool]

theorem makes_of_rule (h : entry.rule id = .ok rule) : entry.Makes id rule := by
  obtain ⟨-, e, he, rfl⟩ := rule_eq_ok_iff.1 h
  exact ⟨rfl, rfl, rfl, ⟨e, rfl, Pattern.read?_eq_ok_iff.1 he⟩, rfl, rfl, rfl, rfl⟩

theorem faulty_of_rule (h : entry.rule id = .error err) : entry.Faulty id err := by
  unfold RuleEntry.rule at h
  cases hlink : Text.isBlank entry.link with
  | true =>
    rw [hlink] at h
    obtain rfl := Except.error.inj h
    exact .blankLink hlink
  | false =>
    rw [hlink] at h
    cases hpattern : Pattern.ofValidText entry.clause with
    | ok pattern => rw [hpattern] at h; cases h
    | error err' =>
      rw [hpattern] at h
      obtain rfl : err' = err := Except.error.inj h
      rcases Pattern.ofValidText_eq_error hpattern with ⟨hclause, rfl⟩ | ⟨e, hclause, rfl⟩
      · exact .blankClause hlink hclause
      · exact .invalidClause hlink hclause

end RuleEntry

/-- The rejection is one of this entry. -/
def RejectedFor (entry : String × RuleEntry) (r : Rejection) : Prop :=
  r.id = entry.1 ∧ entry.2.Faulty entry.1 r.error

/-- Each entry makes a rule or is rejected, and neither rules nor rejections change places. -/
theorem forall₂_ofEntries (entries : List (String × RuleEntry)) :
    List.Forall₂ (fun entry rule => entry.2.Makes entry.1 rule)
      (entries.filter (·.2.Acceptable)) (Loaded.ofEntries entries).rules ∧
    List.Forall₂ RejectedFor
      (entries.filter fun entry => ¬ entry.2.Acceptable) (Loaded.ofEntries entries).rejected := by
  induction entries with
  | nil => exact ⟨.nil, .nil⟩
  | cons entry entries ih =>
    obtain ⟨id, entry⟩ := entry
    rw [List.filter_cons, List.filter_cons, Loaded.ofEntries]
    cases hrule : entry.rule id with
    | ok rule =>
      have hacc : entry.Acceptable := (RuleEntry.acceptable_iff id).2 ⟨rule, hrule⟩
      rw [if_pos (by simpa using hacc), if_neg (by simpa using hacc)]
      exact ⟨.cons (RuleEntry.makes_of_rule hrule) ih.1, ih.2⟩
    | error err =>
      have hacc : ¬ entry.Acceptable := fun h => by
        obtain ⟨rule, hok⟩ := (RuleEntry.acceptable_iff id).1 h
        rw [hrule] at hok
        cases hok
      rw [if_neg (by simpa using hacc), if_pos (by simpa using hacc)]
      exact ⟨ih.1, .cons ⟨rfl, RuleEntry.faulty_of_rule hrule⟩ ih.2⟩

/-! ## Warnings -/

/-- The event is a warning that the entry has been rejected. -/
structure Rejection.WarnedBy (r : Rejection) (event : Event) : Prop where
  level : event.level = .warn
  message : "rejected routing rule".toList <+: event.message.toList
  rule : event.fields.head? = some ("rule", r.id)

theorem RejectedFor.exists_warning {entry : String × RuleEntry} {r : Rejection}
    (h : RejectedFor entry r) : ∃ event, r.events = [event] ∧ r.WarnedBy event := by
  obtain ⟨id, err⟩ := r
  obtain ⟨rfl, hfault⟩ := h
  cases hfault with
  | blankLink =>
    exact ⟨.rejected (.given entry.1) (.emptyLink (.given entry.1)), rfl, rfl,
      List.prefix_rfl, rfl⟩
  | blankClause =>
    exact ⟨.rejected (.given entry.1) .emptyPattern, rfl, rfl, List.prefix_rfl, rfl⟩
  | @invalidClause e =>
    have hmessage : "rejected routing rule".toList <+: "rejected routing rule:\n".toList := by
      decide
    refine ⟨.rejectedSyntax (.given entry.1) entry.2.clause e, rfl, rfl, hmessage.trans ?_, rfl⟩
    exact ⟨(e.render entry.2.clause).toList, (String.toList_append ..).symm⟩

/-- What is told in loading are the events of the rejections, in their order. -/
theorem events_ofEntries (entries : List (String × RuleEntry)) : (Loaded.ofEntries entries).events =
    (Loaded.ofEntries entries).rejected.flatMap Rejection.events := by
  induction entries with
  | nil => rfl
  | cons entry entries ih =>
    rw [Loaded.ofEntries]
    cases entry.2.rule entry.1 with
    | ok rule => exact ih
    | error err => exact congrArg (Rejection.events ⟨entry.1, err⟩ ++ ·) ih

/-- Rejections that are due to entries are told one by one. -/
theorem forall₂_warnings {rejected : List Rejection}
    (h : ∀ r ∈ rejected, ∃ entry, RejectedFor entry r) :
    List.Forall₂ Rejection.WarnedBy rejected (rejected.flatMap Rejection.events) := by
  induction rejected with
  | nil => exact .nil
  | cons r rejected ih =>
    obtain ⟨⟨entry, hr⟩, hrest⟩ := List.forall_mem_cons.1 h
    obtain ⟨event, hevents, hwarned⟩ := hr.exists_warning
    rw [List.flatMap_cons, hevents]
    exact .cons hwarned (ih hrest)

theorem exists_rejectedFor {d : DomainEntry} {r : Rejection} (h : r ∈ d.load.rejected) :
    ∃ entry, RejectedFor entry r := by
  obtain ⟨i, hi, rfl⟩ := List.getElem_of_mem h
  have hall := (forall₂_ofEntries d.rules).2
  exact ⟨_, hall.get (by rw [hall.length_eq]; exact hi) hi⟩

/-! ## Whole configurations -/

/-- Nothing else that is told in setting up a domain is a warning. -/
theorem warnings_setupEvents (name : String) (d : DomainEntry) :
    (d.setupEvents name).filter (·.level = .warn) = d.load.rejected.flatMap Rejection.events := by
  have hwarn : ∀ event ∈ d.load.events, event.level = .warn := by
    intro event hevent
    rw [DomainEntry.load, events_ofEntries] at hevent
    obtain ⟨r, hr, hevent⟩ := List.mem_flatMap.1 hevent
    obtain ⟨entry, hentry⟩ := exists_rejectedFor hr
    obtain ⟨event', hevents, hwarned⟩ := hentry.exists_warning
    rw [hevents, List.mem_singleton] at hevent
    exact hevent ▸ hwarned.level
  have hadding : (d.load.rules.map (Event.adding name)).filter (·.level = .warn) = [] := by
    simp [List.filter_eq_nil_iff, Event.level]
  rw [DomainEntry.setupEvents, List.filter_cons_of_neg (by simp [Event.level]), List.filter_append,
    hadding, List.append_nil, List.filter_eq_self.2 (by simpa using hwarn)]
  exact events_ofEntries d.rules

theorem warnings_buildEvents {c : Config} (h : c.unbacked? = none) :
    c.buildEvents.filter (·.level = .warn) =
      (c.domains.entries.flatMap (·.2.load.rejected)).flatMap Rejection.events := by
  rw [buildEvents, on_setUp h, List.filter_flatMap, List.flatMap_assoc]
  simp only [warnings_setupEvents]

/-- **Rules and rejections.** The rules that are loaded for a domain are those of its acceptable
entries, and its rejections are those of the other entries, both in the order of the document; each
rejection is told by one warning, and nothing else is. If no domain repeats an id or is without a
default backend, then the whole configuration is loaded: its rejections are those of the domains,
one domain after the other, again with one warning each, and every domain has its loaded rules. -/
theorem every_entry_is_accounted_for :
    (∀ d : DomainEntry,
      List.Forall₂ (fun entry rule => entry.2.Makes entry.1 rule)
        (d.rules.filter (·.2.Acceptable)) d.load.rules ∧
      List.Forall₂ RejectedFor
        (d.rules.filter fun entry => ¬ entry.2.Acceptable) d.load.rejected ∧
      List.Forall₂ Rejection.WarnedBy d.load.rejected d.load.events) ∧
    ∀ c : Config, c.IdsDistinct →
      (∀ name d, c.domains.get? name = some d → Text.isBlank d.defaultBackend = false) →
      ∃ setup, c.build = .ok setup ∧
        setup.rejected = c.domains.entries.flatMap (·.2.load.rejected) ∧
        List.Forall₂ Rejection.WarnedBy setup.rejected (c.buildEvents.filter (·.level = .warn)) ∧
        ∀ name d, c.domains.get? name = some d →
          (setup.registry.rules name).Perm d.load.rules := by
  refine ⟨fun d => ?_, fun c hids hbacked => ?_⟩
  · obtain ⟨hrules, hrejected⟩ := forall₂_ofEntries d.rules
    refine ⟨hrules, hrejected, ?_⟩
    rw [DomainEntry.load, events_ofEntries]
    exact forall₂_warnings fun r => exists_rejectedFor
  · have hnone := unbacked?_eq_none_iff.2 hbacked
    have hbuild := build_of_backed hnone
    refine ⟨_, hbuild, rfl, ?_, fun name d hd => ?_⟩
    · rw [warnings_buildEvents hnone]
      refine forall₂_warnings fun r hr => ?_
      obtain ⟨entry, -, hr⟩ := List.mem_flatMap.1 hr
      exact exists_rejectedFor hr
    · rw [Registry.rules, get?_build hbuild, hd, Option.map_some,
        built_eq (hids _ (Directory.get?_eq_some_iff.1 hd))]
      exact RuleSet.perm_rules _

/-- The clause of the first domain breaks off; in the second one an entry has neither a link nor a
clause, one has no clause, and the two at the ends are acceptable. -/
def mixed : Config :=
  ⟨.ofList [
    ("mail", ⟨true, "M", [("x", ⟨"X", "not(equals(Action", 0, ""⟩)]⟩),
    ("shop", ⟨true, "S", [
      ("a", ⟨"A", "equals(Action,'x')", 0, "first"⟩),
      ("b", ⟨" ", "", 0, ""⟩),
      ("c", ⟨"C", "\t", 0, ""⟩),
      ("d", ⟨"D", "not(equals(Action,'x'))", 7, ""⟩)]⟩)]⟩

/-- Three entries are rejected, with as many warnings, and the other two are there. -/
theorem accounts_of_mixed :
    mixed.IdsDistinct ∧
    (∀ name d, mixed.domains.get? name = some d → Text.isBlank d.defaultBackend = false) ∧
    ∃ setup, mixed.build = .ok setup ∧ setup.rejected.map Rejection.id = ["x", "b", "c"] ∧
      List.Forall₂ Rejection.WarnedBy setup.rejected (mixed.buildEvents.filter (·.level = .warn)) ∧
      ((setup.registry.rules "shop").map Rule.id).Perm [.given "a", .given "d"] := by
  have hids : mixed.IdsDistinct := by decide +kernel
  have hbacked := unbacked?_eq_none_iff.1 (show mixed.unbacked? = none by decide +kernel)
  obtain ⟨setup, hbuild, hrejected, hwarnings, hrules⟩ :=
    every_entry_is_accounted_for.2 mixed hids hbacked
  refine ⟨hids, hbacked, setup, hbuild, ?_, hwarnings, ((hrules "shop" _ rfl).map Rule.id).trans ?_⟩
  · rw [hrejected]
    decide +kernel
  · exact List.Perm.of_eq (by decide +kernel)

end Config
end BackendRouting
