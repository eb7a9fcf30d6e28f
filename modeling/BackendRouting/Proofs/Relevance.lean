import BackendRouting.Proofs.Selection
import BackendRouting.Rule.Report

/-!
# Which attributes count

A message is looked at through the rules that are evaluated for it, and through these only at the
attributes that their conditions test. Two messages that agree there are routed alike, and the
second one stops the evaluation at the same rule although nothing is known of the rules behind it.

* `Condition.holds_congr`: a condition tells no two messages apart that agree on its attributes.
* `evaluated_cons`: evaluation, rule by rule.
* `irrelevant_attributes`: selection and report depend on nothing else.
-/
namespace BackendRouting

/-! ## Attributes that are tested -/

namespace Condition

def attributes : Condition → List Attribute
  | join _ left right => left.attributes ++ right.attributes
  | negate inner => inner.attributes
  | test _ attr _ => [attr]

theorem holds_congr {e : Condition} {m m' : Message}
    (h : ∀ a ∈ e.attributes, m.get? a = m'.get? a) : e.holds m = e.holds m' := by
  induction e with
  | join c left right ihl ihr =>
    obtain ⟨hl, hr⟩ := List.forall_mem_append.1 h
    rw [holds, holds, ihl hl, ihr hr]
  | negate inner ih => rw [holds, holds, ih h]
  | test c attr value => rw [holds, holds, h attr List.mem_cons_self]

end Condition

namespace Pattern

/-- The attributes that the condition tests; a pattern with syntax errors has no condition. -/
def attributes (p : Pattern) : List Attribute :=
  p.condition?.elim [] Condition.attributes

theorem holds_congr {p : Pattern} {m m' : Message}
    (h : ∀ a ∈ p.attributes, m.get? a = m'.get? a) : p.holds m = p.holds m' := by
  unfold attributes at h
  unfold holds
  cases hc : p.condition? with
  | none => rfl
  | some e =>
    rw [hc] at h
    exact Condition.holds_congr h

end Pattern

/-! ## Rules that are evaluated -/

namespace RuleSet

variable {m m' : Message}

/-- The rules that are evaluated for a message: up to the selected one, and it too, or else all
of them; deleted rules are passed over. -/
def evaluated (rs : RuleSet) (m : Message) : List Rule :=
  (rs.rules.takeWhile (!·.appliesTo m) ++ (rs.select? m).toList).filter (!·.deleted)

theorem evaluated_cons (r : Rule) (rules : List Rule) (m : Message) :
    evaluated ⟨r :: rules⟩ m =
      if r.deleted then evaluated ⟨rules⟩ m
      else if r.pattern.holds m then [r] else r :: evaluated ⟨rules⟩ m := by
  cases hdel : r.deleted with
  | true => simp [evaluated, select?, Rule.appliesTo, hdel]
  | false =>
    cases hholds : r.pattern.holds m <;>
      simp [evaluated, select?, Rule.appliesTo, hdel, hholds]

/-- The report names the rules that are evaluated. -/
theorem ids_evaluated (rs : RuleSet) (m : Message) :
    (rs.report m).evaluated = (rs.evaluated m).map Rule.id := by
  obtain ⟨rules⟩ := rs
  unfold report
  induction rules with
  | nil => rfl
  | cons r rules ih =>
    rw [evaluated_cons, Report.ofRules]
    split
    · exact ih
    · split
      · rfl
      · rw [List.map_cons, ← ih]
        rfl

/-- Evaluation goes the same way for two messages that agree on what the first one is asked for. -/
theorem evaluation_congr {rs : RuleSet}
    (h : ∀ r ∈ rs.evaluated m, ∀ a ∈ r.pattern.attributes, m.get? a = m'.get? a) :
    rs.select? m = rs.select? m' ∧ rs.evaluated m = rs.evaluated m' ∧
      rs.report m = rs.report m' := by
  obtain ⟨rules⟩ := rs
  induction rules with
  | nil => exact ⟨rfl, rfl, rfl⟩
  | cons r rules ih =>
    rw [evaluated_cons] at h
    simp only [evaluated_cons, select?, report, Report.ofRules, List.find?_cons, Rule.appliesTo]
    cases hdel : r.deleted with
    | true =>
      rw [if_pos hdel] at h
      exact ih h
    | false =>
      rw [hdel, if_neg Bool.false_ne_true] at h
      -- the rule is evaluated, so it says the same of both messages
      have hmem : r ∈ if r.pattern.holds m then [r] else r :: evaluated ⟨rules⟩ m := by
        split <;> exact List.mem_cons_self
      have hr : r.pattern.holds m = r.pattern.holds m' := Pattern.holds_congr (h r hmem)
      rw [← hr]
      cases hholds : r.pattern.holds m with
      | true => exact ⟨rfl, rfl, rfl⟩
      | false =>
        rw [hholds, if_neg Bool.false_ne_true] at h
        obtain ⟨hselect, hevaluated, hreport⟩ :=
          ih fun s hs => h s (List.mem_cons_of_mem _ hs)
        simp only [select?, report, Rule.appliesTo] at hselect hreport
        simp [hselect, hevaluated, hreport]

/-- **Irrelevant attributes.** Two messages may agree on just the attributes that are tested by the
rules evaluated for the first one: the same rule is selected for both, and the reports are the
same, with its id and link and with the rules that were evaluated. These are the rules of whose
tests agreement was asked. -/
theorem irrelevant_attributes (rules : List Rule) (m m' : Message)
    (h : ∀ r ∈ (ofList rules).evaluated m, ∀ a ∈ r.pattern.attributes, m.get? a = m'.get? a) :
    (ofList rules).select? m = (ofList rules).select? m' ∧
    (ofList rules).report m = (ofList rules).report m' ∧
    ((ofList rules).report m).evaluated = ((ofList rules).evaluated m).map Rule.id := by
  obtain ⟨hselect, -, hreport⟩ := evaluation_congr h
  exact ⟨hselect, hreport, ids_evaluated _ m⟩

/-- Four rules in the order of evaluation. The first one is deleted and the last one ranks behind
the one that applies, and only these two test the action. -/
def actionAtTheEnds : List Rule :=
  let rule (id : String) (e : Condition) (priority : Int32) (deleted : Bool) : Rule :=
    { Rule.new (.given id) id ⟨e.render, .ok e⟩ with priority, deleted }
  [rule "gone" (.test .equals .action "a") Priority.first true,
    rule "miss" (.test .equals .serviceName "y") 5 false,
    rule "hit" (.negate (.test .equals .serviceName "y")) 0 false,
    rule "late" (.test .equals .action "b") Priority.last false]

/-- The action of the message does not count, though the rules at both ends ask for it. -/
theorem action_is_irrelevant :
    let m := Message.ofList [(.serviceName, "x"), (.action, "a")]
    let m' := Message.ofList [(.serviceName, "x"), (.action, "b")]
    (∀ r ∈ (ofList actionAtTheEnds).evaluated m, ∀ a ∈ r.pattern.attributes,
      m.get? a = m'.get? a) ∧
    (ofList actionAtTheEnds).select? m = (ofList actionAtTheEnds).select? m' ∧
    (ofList actionAtTheEnds).report m = (ofList actionAtTheEnds).report m' ∧
    ((ofList actionAtTheEnds).report m').evaluated = [.given "miss", .given "hit"] := by
  intro m m'
  have hsorted : ofList actionAtTheEnds = ⟨actionAtTheEnds⟩ := ofList_of_sorted (by decide)
  have hagree : ∀ r ∈ (ofList actionAtTheEnds).evaluated m, ∀ a ∈ r.pattern.attributes,
      m.get? a = m'.get? a := by
    rw [hsorted]
    decide
  obtain ⟨hselect, hreport, hids⟩ := irrelevant_attributes actionAtTheEnds m m' hagree
  refine ⟨hagree, hselect, hreport, ?_⟩
  rw [← hreport, hids, hsorted]
  decide

end RuleSet
end BackendRouting
