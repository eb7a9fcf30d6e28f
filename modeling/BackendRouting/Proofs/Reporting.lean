import BackendRouting.Proofs.Relevance
import Mathlib.Data.List.TakeWhile

/-!
# The report and the selection

Selection looks for the first rule that applies. The report goes through the rules by itself: it
passes over the deleted ones, names each of the others and stops at the first pattern that holds.
Both stop at the same rule, because a rule applies exactly if it is not deleted and its pattern
holds.

* `selected?_report`: the report names the selected rule and its link.
* `evaluated_of_select?_eq_none`, `evaluated_of_split`: the rules that are evaluated, told by where
  the selected one stands.
* `report_agrees_with_selection`: report and selection say the same of the supplied rules.
-/
namespace BackendRouting.RuleSet

variable {rs : RuleSet} {m : Message} {r : Rule} {before after : List Rule}

theorem selected?_report (rs : RuleSet) (m : Message) :
    (rs.report m).selected? = (rs.select? m).map fun r => (r.id, r.link) := by
  obtain ⟨rules⟩ := rs
  unfold report select?
  induction rules with
  | nil => rfl
  | cons r rules ih =>
    rw [Report.ofRules, List.find?_cons, Rule.appliesTo]
    cases hdel : r.deleted with
    | true => exact ih
    | false =>
      cases hholds : r.pattern.holds m with
      | true => rfl
      | false => exact ih

theorem appliesTo_eq_false_of_select? (h : rs.select? m = none) :
    ∀ r ∈ rs.rules, r.appliesTo m = false := by
  intro r hr
  simpa using List.find?_eq_none.1 h r hr

/-- The selected rule stands behind rules that do not apply. -/
theorem exists_split_of_select? (h : rs.select? m = some r) :
    r.appliesTo m = true ∧ ∃ before after, rs.rules = before ++ r :: after ∧
      ∀ s ∈ before, s.appliesTo m = false := by
  obtain ⟨happ, before, after, hcut, hbefore⟩ := List.find?_eq_some_iff_append.1 h
  exact ⟨happ, before, after, hcut, fun s hs => by simpa using hbefore s hs⟩

theorem evaluated_of_select?_eq_none (h : rs.select? m = none) :
    rs.evaluated m = rs.rules.filter (!·.deleted) := by
  have hnone := appliesTo_eq_false_of_select? h
  have hall : rs.rules.takeWhile (!·.appliesTo m) = rs.rules := by
    rw [List.takeWhile_eq_self_iff]
    intro r hr
    rw [hnone r hr]
    rfl
  rw [evaluated, h, hall, Option.toList_none, List.append_nil]

theorem evaluated_of_split (hcut : rs.rules = before ++ r :: after)
    (hbefore : ∀ s ∈ before, s.appliesTo m = false) (h : r.appliesTo m = true) :
    rs.evaluated m = (before ++ [r]).filter (!·.deleted) := by
  have hselect : rs.select? m = some r :=
    List.find?_eq_some_iff_append.2 ⟨h, before, after, hcut, fun s hs => by simp [hbefore s hs]⟩
  have hwhile : rs.rules.takeWhile (!·.appliesTo m) = before := by
    rw [hcut, List.takeWhile_append_of_pos fun s hs => by simp [hbefore s hs],
      List.takeWhile_cons_of_neg (by simp [h]), List.append_nil]
  rw [evaluated, hselect, hwhile, Option.toList_some]

/-- **The report.** It names the id and the link of the selected rule, or neither. The rules that
it lists are those that are not deleted, in the order of evaluation: up to the selected one with
this one last, or all of them if none is selected. None of them applies, the selected one apart.
Rules are told apart by where they stand, so their ids may repeat. -/
theorem report_agrees_with_selection (rules : List Rule) (m : Message) :
    let rs := ofList rules
    let report := rs.report m
    report.selected?.map Prod.fst = (rs.select? m).map Rule.id ∧
    report.selected?.map Prod.snd = (rs.select? m).map Rule.link ∧
    match rs.select? m with
    | none =>
      report.evaluated = (rs.rules.filter (!·.deleted)).map Rule.id ∧
        ∀ r ∈ rs.rules, r.appliesTo m = false
    | some r => ∃ before after, rs.rules = before ++ r :: after ∧
      report.evaluated = ((before ++ [r]).filter (!·.deleted)).map Rule.id ∧
        r.appliesTo m = true ∧ ∀ s ∈ before, s.appliesTo m = false := by
  intro rs report
  have hselected : report.selected? = (rs.select? m).map fun r => (r.id, r.link) :=
    selected?_report rs m
  refine ⟨by rw [hselected, Option.map_map]; rfl, by rw [hselected, Option.map_map]; rfl, ?_⟩
  cases hselect : rs.select? m with
  | none =>
    exact ⟨by rw [ids_evaluated, evaluated_of_select?_eq_none hselect],
      appliesTo_eq_false_of_select? hselect⟩
  | some r =>
    obtain ⟨happ, before, after, hcut, hbefore⟩ := exists_split_of_select? hselect
    exact ⟨before, after, hcut, by rw [ids_evaluated, evaluated_of_split hcut hbefore happ],
      happ, hbefore⟩

/-- Three rules of one id, of which the first one does not apply: the id is listed twice. -/
example :
    let rule (link : String) (e : Condition) : Rule := .new (.given "a") link ⟨e.render, .ok e⟩
    let x : Condition := .test .equals .action "x"
    let report := RuleSet.report ⟨[rule "A" (.negate x), rule "B" x, rule "C" x]⟩
      (Message.ofList [(.action, "x")])
    report.selected? = some (.given "a", "B") ∧
      report.evaluated = [.given "a", .given "a"] := by
  decide

end BackendRouting.RuleSet
