import BackendRouting.Proofs.Rejection
import BackendRouting.Rule.Definition
import Mathlib.Data.List.Induction

/-!
# Definitions that are accepted

A rule is defined by settings, and of each kind the last one counts (`Definition.last?`). These tell
whether the definition is acceptable, the rule it makes, and what is wrong with it otherwise. A list
of definitions makes the rule set of its rules, or else it ends with the error of the first
definition that is not acceptable; what stands behind this one is not looked at.

The entries of a configuration are checked in another place and in another order, first the link and
then the clause. Whether a rule is accepted, and which, is the same.

* `draft_eq`: the last settings count.
* `Clause.pattern_eq_ok_iff`, `rule_eq_ok_iff`, `faulty_of_rule`: what becomes of one definition.
* `SaysAs.rule_eq_ok_iff`: a definition and an entry that say the same make the same rule.
* `define_of_first_fault`: the first definition that is not acceptable.
* `definitions_are_accepted_like_entries`: all of this.
-/
namespace BackendRouting

theorem exists_of_bind_eq_ok {α β ε : Type} {x : Except ε α} {f : α → Except ε β} {b : β}
    (h : x >>= f = .ok b) : ∃ a, x = .ok a ∧ f a = .ok b := by
  cases x with
  | error e => cases h
  | ok a => exact ⟨a, rfl, h⟩

/-! ## Settings that count -/

namespace Setting

def clause? : Setting → Option Clause
  | clause c => some c
  | _ => none

def id? : Setting → Option String
  | id name => some name
  | _ => none

def priority? : Setting → Option Int32
  | priority p => some p
  | _ => none

def description? : Setting → Option String
  | description text => some text
  | _ => none

def source? : Setting → Option Source
  | source s => some s
  | _ => none

end Setting

namespace Definition

/-- The last setting of a kind. -/
def last? {α : Type} (d : Definition) (kind? : Setting → Option α) : Option α :=
  (d.settings.filterMap kind?).getLast?

def ruleId (d : Definition) (fresh : RuleId) : RuleId :=
  (d.last? Setting.id?).elim fresh .given

def source (d : Definition) : Source :=
  (d.last? Setting.source?).getD .implementation

/-- The rule with this pattern and with the last setting of each kind. -/
def ruleOf (d : Definition) (fresh : RuleId) (pattern : Pattern) : Rule where
  id := d.ruleId fresh
  link := d.link
  pattern
  priority := (d.last? Setting.priority?).getD 0
  description := (d.last? Setting.description?).getD ""
  source := d.source
  deleted := false

theorem draft_eq (d : Definition) : d.draft = {
    clause? := d.last? Setting.clause?
    id? := d.last? Setting.id?
    priority := (d.last? Setting.priority?).getD 0
    description := (d.last? Setting.description?).getD ""
    source := d.source } := by
  obtain ⟨link, settings⟩ := d
  simp only [draft, last?, source]
  -- the fold goes on at the end of the list, where the last setting stands
  induction settings using List.reverseRecOn with
  | nil => rfl
  | append_singleton settings s ih =>
    rw [List.foldl_append, ih]
    cases s <;> simp [List.filterMap_append, Draft.make, Setting.clause?, Setting.id?,
      Setting.priority?, Setting.description?, Setting.source?]

end Definition

/-! ## Clauses -/

/-- The pattern that a clause means: a text has to spell a condition, and the values of a condition
have to be quotable. -/
inductive Clause.States : Clause → Pattern → Prop where
  | text {t : String} {e : Condition} : e.SpelledBy t → States (.text t) ⟨t, .ok e⟩
  | condition {e : Condition} : (∀ value ∈ e.values, Pattern.isQuotable value = true) →
      States (.condition e) ⟨e.render, .ok e⟩

/-- What is told of a clause that means no pattern. -/
inductive Clause.Faulty : Clause → RuleError → Prop where
  | blank {t : String} : Text.isBlank t = true → Faulty (.text t) .emptyPattern
  | invalid {t : String} {e : SyntaxError} : Pattern.read? t = some (.error [e]) →
      Faulty (.text t) (.invalidPattern t [e])
  | unquotable {e : Condition} {value : String} : e.unquotable? = some value →
      Faulty (.condition e) (.invalidValue value)

namespace Clause

variable {c : Clause} {p : Pattern} {err : RuleError}

theorem pattern_eq_ok_iff : c.pattern = .ok p ↔ c.States p := by
  cases c with
  | text t =>
    rw [pattern, Pattern.ofValidText_eq_ok_iff]
    constructor
    · intro h
      obtain ⟨e, he, rfl⟩ := h
      exact .text (Pattern.read?_eq_ok_iff.1 he)
    · intro h
      cases h with
      | text he => exact ⟨_, Pattern.read?_eq_ok_iff.2 he, rfl⟩
  | condition e =>
    rw [pattern, Pattern.ofCondition]
    cases hvalue : e.unquotable? with
    | none =>
      constructor
      · intro h
        cases h
        exact .condition (Condition.unquotable?_eq_none_iff.1 hvalue)
      · intro h
        cases h
        rfl
    | some value =>
      constructor
      · intro h
        cases h
      · intro h
        cases h with
        | condition he =>
          rw [Condition.unquotable?_eq_none_iff.2 he] at hvalue
          cases hvalue

theorem faulty_of_pattern (h : c.pattern = .error err) : c.Faulty err := by
  cases c with
  | text t =>
    rcases Pattern.ofValidText_eq_error h with ⟨hblank, rfl⟩ | ⟨e, he, rfl⟩
    · exact .blank hblank
    · exact .invalid he
  | condition e =>
    rw [pattern, Pattern.ofCondition] at h
    cases hvalue : e.unquotable? with
    | none =>
      rw [hvalue] at h
      cases h
    | some value =>
      rw [hvalue] at h
      obtain rfl := Except.error.inj h
      exact .unquotable hvalue

end Clause

/-! ## One definition -/

namespace Definition

/-- The link is not blank, and the clause means a pattern. -/
structure Acceptable (d : Definition) : Prop where
  linked : Text.isBlank d.link = false
  stated : ∃ c p, d.last? Setting.clause? = some c ∧ c.States p

/-- The definition is acceptable, and the rule has the last setting of each kind. -/
structure Makes (d : Definition) (fresh : RuleId) (rule : Rule) : Prop where
  linked : Text.isBlank d.link = false
  stated : ∃ c, d.last? Setting.clause? = some c ∧ c.States rule.pattern
  same : rule = d.ruleOf fresh rule.pattern

/-- What is told of a definition that is not acceptable: first of its clause, then of its link. -/
inductive Faulty (d : Definition) (fresh : RuleId) : RuleError → Prop where
  | missingClause (hnone : d.last? Setting.clause? = none) :
      Faulty d fresh (.missingPattern d.link)
  | faultyClause {c : Clause} {err : RuleError} (hclause : d.last? Setting.clause? = some c)
      (hfault : c.Faulty err) : Faulty d fresh err
  | blankLink {c : Clause} {p : Pattern} (hclause : d.last? Setting.clause? = some c)
      (hstates : c.States p) (hlink : Text.isBlank d.link = true) :
      Faulty d fresh (.emptyLink (d.ruleId fresh))

variable {d : Definition} {fresh : RuleId} {rule : Rule} {err : RuleError}

theorem rule_of_none (h : d.last? Setting.clause? = none) :
    d.rule fresh = .error (.missingPattern d.link) := by
  rw [rule, draft_eq]
  simp only [h]
  rfl

theorem rule_of_some {c : Clause} (h : d.last? Setting.clause? = some c) :
    d.rule fresh = c.pattern.bind fun p =>
      if Text.isBlank d.link = true then .error (.emptyLink (d.ruleId fresh))
      else .ok (d.ruleOf fresh p) := by
  rw [rule, draft_eq]
  simp only [h]
  cases c.pattern with
  | error err => rfl
  | ok p =>
    cases hid : d.last? Setting.id? <;> cases hlink : Text.isBlank d.link <;>
      simp [bind, Except.bind, pure, Except.pure, throw, throwThe, MonadExceptOf.throw, ruleOf,
        ruleId, hid]

theorem rule_eq_ok_iff : d.rule fresh = .ok rule ↔ d.Makes fresh rule := by
  cases hclause : d.last? Setting.clause? with
  | none =>
    rw [rule_of_none hclause]
    constructor
    · intro h
      cases h
    · intro h
      obtain ⟨c, hc, -⟩ := h.stated
      rw [hclause] at hc
      cases hc
  | some c =>
    rw [rule_of_some hclause]
    constructor
    · intro h
      obtain ⟨p, hp, h⟩ := exists_of_bind_eq_ok h
      split at h
      · cases h
      · rename_i hlink
        obtain rfl := Except.ok.inj h
        exact ⟨Bool.eq_false_iff.2 hlink, ⟨c, hclause, Clause.pattern_eq_ok_iff.1 hp⟩, rfl⟩
    · intro h
      obtain ⟨c', hc', hstates⟩ := h.stated
      rw [hclause] at hc'
      obtain rfl := Option.some.inj hc'
      rw [Clause.pattern_eq_ok_iff.2 hstates, Except.bind, if_neg (by simp [h.linked]), ← h.same]

theorem acceptable_iff (fresh : RuleId) : d.Acceptable ↔ ∃ rule, d.rule fresh = .ok rule := by
  constructor
  · intro h
    obtain ⟨c, p, hclause, hstates⟩ := h.stated
    exact ⟨d.ruleOf fresh p, rule_eq_ok_iff.2 ⟨h.linked, ⟨c, hclause, hstates⟩, rfl⟩⟩
  · intro h
    obtain ⟨rule, hrule⟩ := h
    have hmakes := rule_eq_ok_iff.1 hrule
    obtain ⟨c, hclause, hstates⟩ := hmakes.stated
    exact ⟨hmakes.linked, c, _, hclause, hstates⟩

theorem faulty_of_rule (h : d.rule fresh = .error err) : d.Faulty fresh err := by
  cases hclause : d.last? Setting.clause? with
  | none =>
    rw [rule_of_none hclause] at h
    obtain rfl := Except.error.inj h
    exact .missingClause hclause
  | some c =>
    rw [rule_of_some hclause] at h
    cases hpattern : c.pattern with
    | error err' =>
      rw [hpattern] at h
      obtain rfl := Except.error.inj h
      exact .faultyClause hclause (Clause.faulty_of_pattern hpattern)
    | ok p =>
      rw [hpattern, Except.bind] at h
      split at h
      · rename_i hlink
        obtain rfl := Except.error.inj h
        exact .blankLink hclause (Clause.pattern_eq_ok_iff.1 hpattern) hlink
      · cases h

end Definition

/-! ## An entry that says the same -/

open Config (RuleEntry)

namespace Definition

/-- The definition and the entry have the same id, link, text, priority and description. -/
structure SaysAs (d : Definition) (id : String) (entry : RuleEntry) : Prop where
  link : d.link = entry.link
  clause : d.last? Setting.clause? = some (.text entry.clause)
  id : d.last? Setting.id? = some id
  priority : (d.last? Setting.priority?).getD 0 = entry.priority
  description : (d.last? Setting.description?).getD "" = entry.description

variable {d : Definition} {id : String} {entry : RuleEntry} {fresh : RuleId} {rule : Rule}

theorem SaysAs.rule_eq_ok_iff (h : d.SaysAs id entry) : d.rule fresh = .ok rule ↔
    ∃ rule', entry.rule id = .ok rule' ∧ rule = { rule' with source := d.source } := by
  rw [Definition.rule_eq_ok_iff]
  constructor
  · intro hmakes
    obtain ⟨c, hclause, hstates⟩ := hmakes.stated
    rw [h.clause] at hclause
    obtain rfl := Option.some.inj hclause
    have hsame := hmakes.same
    generalize rule.pattern = p at hstates hsame
    cases hstates with
    | @text t e he =>
      refine ⟨_, RuleEntry.rule_eq_ok_iff.2
        ⟨h.link ▸ hmakes.linked, e, Pattern.read?_eq_ok_iff.2 he, rfl⟩, ?_⟩
      simp [hsame, ruleOf, ruleId, h.link, h.id, h.priority, h.description]
  · intro hentry
    obtain ⟨rule', hrule', rfl⟩ := hentry
    obtain ⟨hlink, e, he, rfl⟩ := RuleEntry.rule_eq_ok_iff.1 hrule'
    refine ⟨h.link ▸ hlink, ⟨_, h.clause, .text (Pattern.read?_eq_ok_iff.1 he)⟩, ?_⟩
    simp [ruleOf, ruleId, h.link, h.id, h.priority, h.description]

end Definition

/-! ## Lists of definitions -/

section

variable {α β ε : Type} {f : α → Except ε β} {l before after : List α} {l' : List β} {a : α} {e : ε}

theorem mapM_eq_ok_iff : l.mapM f = .ok l' ↔ List.Forall₂ (fun a b => f a = .ok b) l l' := by
  induction l generalizing l' with
  | nil =>
    rw [List.forall₂_nil_left_iff]
    exact ⟨fun h => (Except.ok.inj h).symm, fun h => congrArg Except.ok h.symm⟩
  | cons a l ih =>
    rw [List.mapM_cons]
    constructor
    · intro h
      obtain ⟨b, hb, h⟩ := exists_of_bind_eq_ok h
      obtain ⟨bs, hbs, h⟩ := exists_of_bind_eq_ok h
      obtain rfl := Except.ok.inj h
      exact .cons hb (ih.1 hbs)
    · intro h
      cases h with
      | cons hb hbs =>
        rw [hb, ih.2 hbs]
        rfl

theorem exists_mapM_iff : (∃ l', l.mapM f = .ok l') ↔ ∀ a ∈ l, ∃ b, f a = .ok b := by
  induction l with
  | nil => exact ⟨fun _ => by simp, fun _ => ⟨[], rfl⟩⟩
  | cons a l ih =>
    rw [List.forall_mem_cons, ← ih, List.mapM_cons]
    constructor
    · intro h
      obtain ⟨l', h⟩ := h
      obtain ⟨b, hb, h⟩ := exists_of_bind_eq_ok h
      obtain ⟨bs, hbs, -⟩ := exists_of_bind_eq_ok h
      exact ⟨⟨b, hb⟩, bs, hbs⟩
    · intro h
      obtain ⟨⟨b, hb⟩, bs, hbs⟩ := h
      exact ⟨b :: bs, by rw [hb, hbs]; rfl⟩

/-- A traversal ends with the first error, and what stands behind it is not looked at. -/
theorem mapM_of_first_error (hbefore : ∀ b ∈ before, ∃ c, f b = .ok c) (ha : f a = .error e) :
    (before ++ a :: after).mapM f = .error e := by
  obtain ⟨cs, hcs⟩ := exists_mapM_iff.2 hbefore
  rw [List.mapM_append, hcs, List.mapM_cons, ha]
  rfl

end

namespace RuleSet

variable {definitions before : List Definition} {rs : RuleSet} {d : Definition} {err : RuleError}

theorem define_eq (definitions : List Definition) : define definitions =
    (definitions.zipIdx.mapM fun d => d.1.rule (.generated d.2)) >>= fun rules =>
      .ok (.ofList rules) := rfl

theorem define_eq_ok_iff : define definitions = .ok rs ↔ ∃ rules,
    List.Forall₂ (fun d rule => d.1.Makes (.generated d.2) rule) definitions.zipIdx rules ∧
      rs = .ofList rules := by
  simp only [← Definition.rule_eq_ok_iff, ← mapM_eq_ok_iff]
  rw [define_eq]
  constructor
  · intro h
    obtain ⟨rules, hrules, h⟩ := exists_of_bind_eq_ok h
    exact ⟨rules, hrules, (Except.ok.inj h).symm⟩
  · intro h
    obtain ⟨rules, hrules, rfl⟩ := h
    rw [hrules]
    rfl

theorem exists_define_iff : (∃ rs, define definitions = .ok rs) ↔
    ∀ d ∈ definitions, d.Acceptable := by
  have hmapM : (∃ rs, define definitions = .ok rs) ↔
      ∃ rules, definitions.zipIdx.mapM (fun d => d.1.rule (.generated d.2)) = .ok rules := by
    simp only [define_eq_ok_iff, ← Definition.rule_eq_ok_iff, ← mapM_eq_ok_iff]
    exact ⟨fun h => h.elim fun _ h => h.imp fun _ h => h.1,
      fun h => h.elim fun _ h => ⟨_, _, h, rfl⟩⟩
  rw [hmapM, exists_mapM_iff]
  constructor
  · intro h d hd
    obtain ⟨i, hi⟩ := List.getElem?_of_mem hd
    exact (Definition.acceptable_iff _).2 (h (d, i) (List.mem_zipIdx_iff_getElem?.2 hi))
  · intro h d hd
    exact (Definition.acceptable_iff _).1 (h d.1 (List.fst_mem_of_mem_zipIdx hd))

theorem define_of_first_fault (hbefore : ∀ b ∈ before, b.Acceptable)
    (hd : d.rule (.generated before.length) = .error err) (after : List Definition) :
    define (before ++ d :: after) = .error err := by
  have hzip : (before ++ d :: after).zipIdx =
      before.zipIdx ++ (d, before.length) :: after.zipIdx (before.length + 1) := by
    simp [List.zipIdx_append]
  have hmapM : (before ++ d :: after).zipIdx.mapM (fun d => d.1.rule (.generated d.2)) =
      .error err := by
    rw [hzip]
    refine mapM_of_first_error (fun b hb => ?_) hd
    exact (Definition.acceptable_iff _).1 (hbefore b.1 (List.fst_mem_of_mem_zipIdx hb))
  rw [define_eq, hmapM]
  rfl

theorem ofList_singleton (rule : Rule) : ofList [rule] = ⟨[rule]⟩ :=
  ofList_of_sorted (List.pairwise_singleton _ _)

theorem define_singleton_iff : define [d] = .ok rs ↔
    ∃ rule, d.rule (.generated 0) = .ok rule ∧ rs = ⟨[rule]⟩ := by
  rw [define_eq_ok_iff]
  constructor
  · intro h
    obtain ⟨rules, hrules, rfl⟩ := h
    obtain ⟨rule, rules, hrule, hnil, rfl⟩ := List.forall₂_cons_left_iff.1 hrules
    obtain rfl := List.forall₂_nil_left_iff.1 hnil
    exact ⟨rule, Definition.rule_eq_ok_iff.2 hrule, ofList_singleton rule⟩
  · intro h
    obtain ⟨rule, hrule, rfl⟩ := h
    exact ⟨[rule], .cons (Definition.rule_eq_ok_iff.1 hrule) .nil, (ofList_singleton rule).symm⟩

/-- **Definitions.** A definition whose clause is a text makes the same rule as the entry of a
configuration that says the same, apart from the source of the rule, and one is accepted just if the
other is. A list of definitions makes a rule set exactly if every definition has a clause that
states a pattern, which is its last one, and a link that is not blank. The set has their rules, in
their order, each with the last setting of each kind. Otherwise what is told is the fault of the
first definition that is not acceptable, of its clause before its link, whatever stands behind
it. -/
theorem definitions_are_accepted_like_entries :
    (∀ (d : Definition) (id : String) (entry : RuleEntry), d.SaysAs id entry → ∀ rs,
      define [d] = .ok rs ↔
        ∃ rule, entry.rule id = .ok rule ∧ rs = ⟨[{ rule with source := d.source }]⟩) ∧
    (∀ definitions, (∃ rs, define definitions = .ok rs) ↔ ∀ d ∈ definitions, d.Acceptable) ∧
    (∀ definitions rs, define definitions = .ok rs ↔ ∃ rules,
      List.Forall₂ (fun d rule => d.1.Makes (.generated d.2) rule) definitions.zipIdx rules ∧
        rs = .ofList rules) ∧
    ∀ (before : List Definition) (d : Definition), (∀ b ∈ before, b.Acceptable) →
      ¬ d.Acceptable → ∃ err, d.Faulty (.generated before.length) err ∧
        ∀ after, define (before ++ d :: after) = .error err := by
  refine ⟨fun d id entry h rs => ?_, fun _ => exists_define_iff, fun _ _ => define_eq_ok_iff,
    fun before d hbefore hd => ?_⟩
  · rw [define_singleton_iff]
    simp only [h.rule_eq_ok_iff]
    constructor
    · intro hrule
      obtain ⟨_, ⟨rule, hrule, rfl⟩, rfl⟩ := hrule
      exact ⟨rule, hrule, rfl⟩
    · intro hrule
      obtain ⟨rule, hrule, rfl⟩ := hrule
      exact ⟨_, ⟨rule, hrule, rfl⟩, rfl⟩
  · cases hrule : d.rule (.generated before.length) with
    | ok rule => exact absurd ((Definition.acceptable_iff _).2 ⟨rule, hrule⟩) hd
    | error err => exact ⟨err, Definition.faulty_of_rule hrule, define_of_first_fault hbefore hrule⟩

/-- The second clause takes the place of the first one, which cannot be quoted. -/
def secondThoughts : Definition :=
  ⟨"A", [.clause (.condition (.test .equals .action "")), .priority 1, .id "x",
    .clause (.text "equals(Action,'x')"), .description "first", .id "a", .priority 5]⟩

/-- The link is blank too, but it is the clause that is told, the second one. -/
def twoFaults : Definition :=
  ⟨" ", [.clause (.text "equals(Action,'x')"),
    .clause (.condition (.test .equals .action "it's"))]⟩

/-- The first definition makes the rule of its entry, and the second one is refused, with any others
behind it. -/
theorem second_thoughts_and_two_faults :
    secondThoughts.SaysAs "a" ⟨"A", "equals(Action,'x')", 5, "first"⟩ ∧
    secondThoughts.Acceptable ∧ ¬ twoFaults.Acceptable ∧
    (∃ rule rs, RuleEntry.rule "a" ⟨"A", "equals(Action,'x')", 5, "first"⟩ = .ok rule ∧
      define [secondThoughts] = .ok rs ∧ rs.rules = [{ rule with source := .implementation }]) ∧
    ∀ after, define (secondThoughts :: twoFaults :: after) = .error (.invalidValue "it's") := by
  obtain ⟨hentry, haccepted, -, hfault⟩ := definitions_are_accepted_like_entries
  have hsame : secondThoughts.SaysAs "a" ⟨"A", "equals(Action,'x')", 5, "first"⟩ :=
    ⟨rfl, rfl, rfl, rfl, rfl⟩
  have hspelled : (Condition.test .equals .action "x").SpelledBy "equals(Action,'x')" :=
    Pattern.read?_eq_ok_iff.1 (by decide +kernel)
  have hacceptable : secondThoughts.Acceptable := ⟨by decide, _, _, rfl, .text hspelled⟩
  have hunacceptable : ¬ twoFaults.Acceptable := fun h => absurd h.linked (by decide)
  obtain ⟨rs, hrs⟩ := (haccepted [secondThoughts]).2 (by simpa using hacceptable)
  obtain ⟨rule, hrule, rfl⟩ := (hentry _ _ _ hsame rs).1 hrs
  obtain ⟨err, herr, hdefine⟩ := hfault [secondThoughts] twoFaults (by simpa using hacceptable)
    hunacceptable
  refine ⟨hsame, hacceptable, hunacceptable, ⟨rule, _, hrule, hrs, rfl⟩, ?_⟩
  have hclause : twoFaults.last? Setting.clause? =
      some (.condition (.test .equals .action "it's")) := rfl
  have hvalue : (Condition.test .equals .action "it's").unquotable? = some "it's" := by decide
  cases herr with
  | missingClause hnone => cases hclause.symm.trans hnone
  | faultyClause hsome hunquotable =>
    obtain rfl := Option.some.inj (hclause.symm.trans hsome)
    cases hunquotable with
    | unquotable hvalue' =>
      obtain rfl := Option.some.inj (hvalue.symm.trans hvalue')
      exact hdefine
  | blankLink hsome hstates =>
    obtain rfl := Option.some.inj (hclause.symm.trans hsome)
    cases hstates with
    | condition hquotable => exact absurd (hquotable "it's" (by decide)) (by decide)

end RuleSet
end BackendRouting
