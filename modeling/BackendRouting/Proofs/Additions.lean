import BackendRouting.Proofs.History
import BackendRouting.Proofs.Refusal
import BackendRouting.Rule.Report
import Mathlib.Data.List.Nodup

/-!
# Adding rules in any order

A domain keeps its rules in the order in which they came in, and goes back to that order where
ranks are equal. Different priorities have different ranks, so between rules of different
priorities the order in which they were added is never asked for.

* `RuleSet.ofList_of_perm`: rules of different priorities have one order of evaluation, however
  they are supplied.
* `Registry.step_add`, `Registry.run_add`: one rule added to a registered domain, and several.
* `Registry.additions_in_any_order`: rules, links and reports do not tell the order of adding.
-/
namespace BackendRouting

theorem RuleSet.ofList_of_perm {rules rules' : List Rule} (hperm : rules'.Perm rules)
    (hpriorities : (rules.map Rule.priority).Nodup) : ofList rules' = ofList rules := by
  have hsame : (ofList rules').rules.Perm (ofList rules).rules :=
    ((perm_rules rules').trans hperm).trans (perm_rules rules).symm
  refine congrArg RuleSet.mk (List.Perm.eq_of_pairwise (fun r s hr hs hrs hsr => ?_)
    (sorted_rules rules') (sorted_rules rules) hsame)
  have hrank : r.rank = s.rank := Int.le_antisymm hsr hrs
  exact List.inj_on_of_nodup_map hpriorities (hperm.mem_iff.1 (mem_rules.1 hr)) (mem_rules.1 hs)
    (Priority.rank_injective hrank)

namespace Registry

variable {r : Registry} {name : String} {d : Domain} {rules rules' : List Rule}

theorem step_add (hd : r.get? name = some d) (rule : Rule) :
    (r.step (.add name rule)).answer = .ok .done ∧
      (r.step (.add name rule)).registry.get? name = some (d.add rule) := by
  have hget : r.get? (Operation.add name rule).domain = some d := hd
  refine ⟨?_, ?_⟩
  · rw [answer_step, hget]
    rfl
  · rw [get?_step, hd]
    exact if_pos rfl

theorem run_add (hd : r.get? name = some d) (rules : List Rule) :
    (∀ answer ∈ r.answers (rules.map (.add name)), answer = .ok .done) ∧
      (r.run (rules.map (.add name))).get? name = some (rules.foldl Domain.add d) := by
  induction rules generalizing r d with
  | nil => exact ⟨by simp [answers], hd⟩
  | cons rule rules ih =>
    obtain ⟨hanswer, hget⟩ := step_add hd rule
    obtain ⟨hanswers, hrun⟩ := ih hget
    exact ⟨List.forall_mem_cons.2 ⟨hanswer, hanswers⟩, hrun⟩

theorem exists_get?_of_rules_eq_nil (hreg : name ∈ r.names) (hnone : r.rules name = []) :
    ∃ d, r.get? name = some d ∧ d.added = [] := by
  obtain ⟨d, hd⟩ := (r.domains.mem_names_iff name).1 hreg
  have hget : r.get? name = some d := hd
  have hrules : d.rules = [] := by simpa [Registry.rules, hget] using hnone
  have hperm : d.added.Perm d.rules := d.rules_eq ▸ (RuleSet.perm_rules d.added).symm
  rw [hrules] at hperm
  exact ⟨d, hget, hperm.eq_nil⟩

/-- **Adding in any order.** Rules of different ids and different priorities are added to a
registered domain that has no rules. In whatever order this is done, all of them are added, the
domain has the same rules in the same order of evaluation, it sends every message to the same link,
and the reports are the same. Different priorities never tie, nor do the two set apart. -/
theorem additions_in_any_order (r : Registry) (name : String) (rules rules' : List Rule)
    (hreg : name ∈ r.names) (hnone : r.rules name = [])
    (hids : (rules.map Rule.id).Nodup) (hpriorities : (rules.map Rule.priority).Nodup)
    (hperm : rules'.Perm rules) :
    let s := r.run (rules.map (.add name))
    let s' := r.run (rules'.map (.add name))
    (∀ answer ∈ r.answers (rules'.map (.add name)), answer = .ok .done) ∧
    (s'.rules name).Perm rules ∧ s'.rules name = s.rules name ∧
    (∀ m, s'.link? name m = s.link? name m) ∧
    (∃ d d', s.get? name = some d ∧ s'.get? name = some d' ∧
      ∀ m, d'.ruleSet.report m = d.ruleSet.report m) ∧
    ∀ p q, p ≠ q → Priority.rank p ≠ Priority.rank q := by
  intro s s'
  obtain ⟨d, hd, hadded⟩ := exists_get?_of_rules_eq_nil hreg hnone
  have hset : RuleSet.ofList rules' = RuleSet.ofList rules :=
    RuleSet.ofList_of_perm hperm hpriorities
  have hkeeps {rules : List Rule} (hids : (rules.map Rule.id).Nodup) :
      (r.run (rules.map (.add name))).get? name = some (d.resort rules) := by
    rw [(run_add hd rules).2, Domain.foldl_add (by rwa [hadded, List.nil_append]), hadded,
      List.nil_append]
  have hs : s.get? name = some (d.resort rules) := hkeeps hids
  have hs' : s'.get? name = some (d.resort rules') :=
    hkeeps ((hperm.map Rule.id).nodup_iff.2 hids)
  have hrules : s.rules name = (RuleSet.ofList rules).rules := by rw [Registry.rules, hs]; rfl
  have hrules' : s'.rules name = (RuleSet.ofList rules').rules := by rw [Registry.rules, hs']; rfl
  refine ⟨(run_add hd rules').1, ?_, ?_, fun m => ?_, ⟨_, _, hs, hs', fun m => ?_⟩,
    fun p q hne heq => hne (Priority.rank_injective heq)⟩
  · rw [hrules']
    exact (RuleSet.perm_rules rules').trans hperm
  · rw [hrules, hrules', hset]
  · simp only [link?_eq, hs, hs', Option.map_some, Domain.route, Domain.resort, hset]
  · simp only [Domain.resort, hset]

/-- A rule at each end of the order of evaluation and one between them, the last one first. -/
def threeRanks : List Rule :=
  [{ sampleRule "low" "L" with priority := Priority.last },
    { sampleRule "mid" "M" with priority := 1999 },
    { sampleRule "high" "H" with priority := Priority.first }]

/-- Added the last one first, they go by rank all the same. -/
theorem three_ranks_in_any_order :
    let r := empty.run [.register "lane" "D"]
    let s := r.run (threeRanks.map (.add "lane"))
    "lane" ∈ r.names ∧ r.rules "lane" = [] ∧ (threeRanks.map Rule.id).Nodup ∧
      (threeRanks.map Rule.priority).Nodup ∧ s.rules "lane" = threeRanks.reverse ∧
      s.link? "lane" (.ofList [(.action, "x")]) = some "H" := by
  intro r s
  have hreg : "lane" ∈ r.names := by decide
  have hnone : r.rules "lane" = [] := rfl
  have hids : (threeRanks.map Rule.id).Nodup := by decide
  have hpriorities : (threeRanks.map Rule.priority).Nodup := by decide
  have hperm : threeRanks.Perm threeRanks.reverse := (List.reverse_perm threeRanks).symm
  obtain ⟨-, -, hrules, hlink, -, -⟩ := additions_in_any_order r "lane" threeRanks.reverse
    threeRanks hreg hnone (by decide) (by decide) hperm
  have hsorted : RuleSet.ofList threeRanks.reverse = ⟨threeRanks.reverse⟩ :=
    RuleSet.ofList_of_sorted (by decide)
  have hget : (r.run (threeRanks.reverse.map (.add "lane"))).get? "lane" =
      some ((Domain.new "D").resort threeRanks.reverse) := rfl
  refine ⟨hreg, hnone, hids, hpriorities, ?_, ?_⟩
  · rw [hrules, Registry.rules, hget]
    exact congrArg RuleSet.rules hsorted
  · rw [hlink, link?_eq, hget]
    simp only [Option.map_some, Domain.route, Domain.resort, hsorted]
    decide

end Registry
end BackendRouting
