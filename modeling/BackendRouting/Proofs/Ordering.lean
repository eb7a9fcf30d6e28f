import BackendRouting.Proofs.Selection
import BackendRouting.Rule.Report

/-!
# The order of evaluation

There is one way to put the supplied rules by descending rank if the rules of one rank are to stay
as they were supplied (`Arranges`). So whatever is arranged like that is the order of evaluation,
and the laws of the order follow without looking at how it is made: rules may be taken out before
or after sorting, and sorting once more changes nothing.

* `filter_rank_rules`: the rules of one rank stay as they were supplied.
* `eq_of_sorted`: sorted rules are told by the rules of each rank.
* `arranges_iff`: the order of evaluation is the only arrangement.
* `ofList_filter`: taking rules out before or after sorting is the same.
* `evaluation_order_is_unique`: all of this, and what it means for deleted rules.
-/
namespace BackendRouting.RuleSet

variable {rules rules' order : List Rule} {r s : Rule} {m : Message}

/-- `order` has each rule as often as it is supplied, by descending rank, and the rules of one rank
as they were supplied. -/
structure Arranges (order rules : List Rule) : Prop where
  perm : order.Perm rules
  sorted : order.Pairwise fun r s => s.rank ≤ r.rank
  stable : ∀ k : Int, order.filter (·.rank = k) = rules.filter (·.rank = k)

theorem filter_rank_rules (rules : List Rule) (k : Int) :
    (ofList rules).rules.filter (·.rank = k) = rules.filter (·.rank = k) := by
  induction rules with
  | nil => simp [ofList]
  | cons r rules ih =>
    obtain ⟨before, after, hcons, hrest, hbefore, -⟩ := exists_rules_cons r rules
    rw [hrest, List.filter_append] at ih
    rw [hcons, List.filter_append]
    by_cases hk : r.rank = k
    · -- all that stands before the rule ranks higher
      have hnone : before.filter (·.rank = k) = [] := List.filter_eq_nil_iff.2 fun s hs => by
        have := hbefore s hs
        simp only [decide_eq_true_eq]
        omega
      rw [hnone, List.nil_append] at ih
      rw [hnone, List.nil_append, List.filter_cons_of_pos (by simpa using hk),
        List.filter_cons_of_pos (by simpa using hk), ih]
    · rw [List.filter_cons_of_neg (by simpa using hk), List.filter_cons_of_neg (by simpa using hk),
        ih]

theorem rank_le_of_filter (hs : ∀ t ∈ rules', t.rank ≤ s.rank)
    (hranks : ∀ k : Int, (r :: rules).filter (·.rank = k) = (s :: rules').filter (·.rank = k)) :
    r.rank ≤ s.rank := by
  have hmem : r ∈ (s :: rules').filter (·.rank = r.rank) := by
    rw [← hranks]
    exact List.mem_filter.2 ⟨List.mem_cons_self, by simp⟩
  rcases List.mem_cons.1 (List.mem_filter.1 hmem).1 with rfl | hmem
  · exact Int.le_refl _
  · exact hs r hmem

/-- The first one of sorted rules is the first one of the highest rank. -/
theorem eq_of_sorted (h : rules.Pairwise fun r s => s.rank ≤ r.rank)
    (h' : rules'.Pairwise fun r s => s.rank ≤ r.rank)
    (hranks : ∀ k : Int, rules.filter (·.rank = k) = rules'.filter (·.rank = k)) :
    rules = rules' := by
  induction rules generalizing rules' with
  | nil =>
    cases rules' with
    | nil => rfl
    | cons s rules' => simpa using hranks s.rank
  | cons r rules ih =>
    cases rules' with
    | nil => simpa using hranks r.rank
    | cons s rules' =>
      obtain ⟨hr, hrules⟩ := List.pairwise_cons.1 h
      obtain ⟨hs, hrules'⟩ := List.pairwise_cons.1 h'
      have hrank : s.rank = r.rank := Int.le_antisymm
        (rank_le_of_filter hr fun k => (hranks k).symm) (rank_le_of_filter hs hranks)
      have hfirst := hranks r.rank
      rw [List.filter_cons_of_pos (by simp), List.filter_cons_of_pos (by simpa using hrank)]
        at hfirst
      obtain rfl : r = s := (List.cons.inj hfirst).1
      refine congrArg (r :: ·) (ih hrules hrules' fun k => ?_)
      have hk := hranks k
      simp only [List.filter_cons] at hk
      split at hk
      · exact (List.cons.inj hk).2
      · exact hk

theorem arranges_iff : Arranges order rules ↔ order = (ofList rules).rules := by
  constructor
  · intro h
    exact eq_of_sorted h.sorted (sorted_rules rules) fun k =>
      (h.stable k).trans (filter_rank_rules rules k).symm
  · intro h
    subst h
    exact ⟨perm_rules rules, sorted_rules rules, filter_rank_rules rules⟩

theorem Arranges.filter (h : Arranges order rules) (p : Rule → Bool) :
    Arranges (order.filter p) (rules.filter p) where
  perm := h.perm.filter p
  sorted := h.sorted.filter p
  stable k := calc
    (order.filter p).filter (·.rank = k) = (order.filter (·.rank = k)).filter p := by
      simp only [List.filter_filter, Bool.and_comm]
    _ = (rules.filter (·.rank = k)).filter p := by rw [h.stable k]
    _ = (rules.filter p).filter (·.rank = k) := by
      simp only [List.filter_filter, Bool.and_comm]

theorem ofList_filter (p : Rule → Bool) (rules : List Rule) :
    ofList (rules.filter p) = ⟨(ofList rules).rules.filter p⟩ :=
  congrArg RuleSet.mk (arranges_iff.1 ((arranges_iff.2 rfl).filter p)).symm

/-! ## Deleted rules -/

theorem select?_filter_live (rules : List Rule) (m : Message) :
    select? ⟨rules.filter (!·.deleted)⟩ m = select? ⟨rules⟩ m := by
  simp only [select?, List.find?_filter]
  refine congrArg (rules.find? ·) (funext fun r => ?_)
  cases hdel : r.deleted <;> simp [Rule.appliesTo, hdel]

theorem report_filter_live (rules : List Rule) (m : Message) :
    report ⟨rules.filter (!·.deleted)⟩ m = report ⟨rules⟩ m := by
  simp only [report]
  induction rules with
  | nil => rfl
  | cons r rules ih =>
    cases hdel : r.deleted <;> simp [Report.ofRules, hdel, ih]

/-- **The order of evaluation.** It is the one arrangement of the supplied rules by descending rank
in which the rules of one rank stay as they were supplied, with no rule lost or doubled. So rules
can be taken out before or after sorting: it is the same whether deleted rules are never in the set
or passed over, for the selection and for the report. A set made from its own rules is the same
set. -/
theorem evaluation_order_is_unique (rules : List Rule) :
    (∀ order, Arranges order rules ↔ order = (ofList rules).rules) ∧
    (∀ p : Rule → Bool, ofList (rules.filter p) = ⟨(ofList rules).rules.filter p⟩) ∧
    (∀ m, (ofList (rules.filter (!·.deleted))).select? m = (ofList rules).select? m ∧
      (ofList (rules.filter (!·.deleted))).report m = (ofList rules).report m) ∧
    ofList (ofList rules).rules = ofList rules := by
  refine ⟨fun order => arranges_iff, fun p => ofList_filter p rules, fun m => ?_,
    ofList_of_sorted (sorted_rules rules)⟩
  rw [ofList_filter]
  exact ⟨select?_filter_live _ m, report_filter_live _ m⟩

end BackendRouting.RuleSet
