import BackendRouting.Rule.Set

/-!
# The selected rule

A rule set sorts its rules and selects the first one that applies. Sorting is stable, so one
rule more in front of the supplied rules goes right before the rules of its rank
(`exists_rules_cons`), and everything about the order of evaluation follows by induction over
the supplied rules.

* `pairwise_rules`: rules of equal rank keep any relation in which they were supplied.
* `select?_eq_some_iff`: the selected rule ranks above the rules that apply and were supplied
  before it, and not below those after it.
* `exists_leading_iff`: the same told by places in a list.
* `selects_highest_then_earliest`: selection in terms of ranks and places of the supplied rules.
-/
namespace BackendRouting

namespace RuleSet

variable {rules : List Rule} {r s : Rule} {m : Message}

/-! ## The order of evaluation -/

theorem perm_rules (rules : List Rule) : (ofList rules).rules.Perm rules :=
  List.mergeSort_perm ..

@[simp] theorem mem_rules : r ∈ (ofList rules).rules ↔ r ∈ rules :=
  (perm_rules rules).mem_iff

theorem rank_trans (r s t : Rule) (hrs : decide (s.rank ≤ r.rank) = true)
    (hst : decide (t.rank ≤ s.rank) = true) : decide (t.rank ≤ r.rank) = true := by
  simp only [decide_eq_true_eq] at *
  omega

theorem rank_total (r s : Rule) :
    (decide (s.rank ≤ r.rank) || decide (r.rank ≤ s.rank)) = true := by
  simp only [Bool.or_eq_true, decide_eq_true_eq]
  omega

theorem sorted_rules (rules : List Rule) :
    (ofList rules).rules.Pairwise fun r s => s.rank ≤ r.rank :=
  (List.pairwise_mergeSort rank_trans rank_total rules).imp fun hrs => by simpa using hrs

/-- Rules that are supplied in the order of evaluation stay as they are. -/
theorem ofList_of_sorted (h : rules.Pairwise fun r s => s.rank ≤ r.rank) :
    ofList rules = ⟨rules⟩ :=
  congrArg RuleSet.mk (List.mergeSort_of_pairwise (h.imp fun hrs => decide_eq_true hrs))

/-- A rule in front of all others goes behind the rules of higher rank, and before the rest. -/
theorem exists_rules_cons (r : Rule) (rules : List Rule) :
    ∃ before after, (ofList (r :: rules)).rules = before ++ r :: after ∧
      (ofList rules).rules = before ++ after ∧ (∀ s ∈ before, r.rank < s.rank) ∧
      ∀ s ∈ after, s.rank ≤ r.rank := by
  obtain ⟨before, after, hcons, hrest, hbefore⟩ :=
    List.mergeSort_cons rank_trans rank_total r rules
  refine ⟨before, after, hcons, hrest, fun s hs => ?_, ?_⟩
  · simpa using hbefore s hs
  · have hsorted := sorted_rules (r :: rules)
    rw [show (ofList (r :: rules)).rules = before ++ r :: after from hcons] at hsorted
    exact (List.pairwise_cons.1 (List.pairwise_append.1 hsorted).2.1).1

/-- Sorting is stable. -/
theorem pairwise_rules {R : Rule → Rule → Prop} (h : rules.Pairwise R) :
    (ofList rules).rules.Pairwise fun r s => s.rank < r.rank ∨ (s.rank = r.rank ∧ R r s) := by
  induction rules with
  | nil => simp [ofList]
  | cons r rules ih =>
    obtain ⟨hr, hrules⟩ := List.pairwise_cons.1 h
    obtain ⟨before, after, hcons, hrest, hbefore, hafter⟩ := exists_rules_cons r rules
    have ih := ih hrules
    rw [hrest] at ih
    obtain ⟨hbb, haa, hba⟩ := List.pairwise_append.1 ih
    rw [hcons]
    refine List.pairwise_append.2 ⟨hbb, List.pairwise_cons.2 ⟨fun s hs => ?_, haa⟩, ?_⟩
    · have hmem : s ∈ rules := by
        rw [← @mem_rules rules, hrest]
        exact List.mem_append_right _ hs
      have := hafter s hs
      by_cases heq : s.rank = r.rank
      · exact .inr ⟨heq, hr s hmem⟩
      · left; omega
    · intro s hs t ht
      rcases List.mem_cons.1 ht with rfl | ht
      · exact .inl (hbefore s hs)
      · exact hba s hs t ht

/-! ## Selection -/

theorem mem_of_select? (h : (ofList rules).select? m = some r) : r ∈ rules :=
  mem_rules.1 (List.mem_of_find?_eq_some h)

theorem appliesTo_of_select? (h : (ofList rules).select? m = some r) : r.appliesTo m = true := by
  simpa using List.find?_some h

theorem select?_eq_none_iff :
    (ofList rules).select? m = none ↔ ∀ r ∈ rules, r.appliesTo m = false := by
  simp [select?, List.find?_eq_none]

theorem select?_cons (r : Rule) (rules : List Rule) (m : Message) :
    (ofList (r :: rules)).select? m =
      match (ofList rules).select? m with
      | none => if r.appliesTo m then some r else none
      | some s => if r.appliesTo m ∧ s.rank ≤ r.rank then some r else some s := by
  obtain ⟨before, after, hcons, hrest, hbefore, hafter⟩ := exists_rules_cons r rules
  simp only [select?, hcons, hrest, List.find?_append, List.find?_cons]
  cases hb : before.find? (·.appliesTo m) with
  | some s =>
    have := hbefore s (List.mem_of_find?_eq_some hb)
    have hlt : ¬ s.rank ≤ r.rank := by omega
    simp [hlt]
  | none =>
    cases hr : r.appliesTo m with
    | false => cases after.find? (·.appliesTo m) <;> simp
    | true =>
      cases ha : after.find? (·.appliesTo m) with
      | none => simp
      | some s =>
        have := hafter s (List.mem_of_find?_eq_some ha)
        simp [this]

/-- The selected rule is the first of the highest rank among the rules that apply. -/
theorem select?_eq_some_iff : (ofList rules).select? m = some r ↔
    ∃ before after, rules = before ++ r :: after ∧ r.appliesTo m = true ∧
      (∀ s ∈ before, s.appliesTo m = true → s.rank < r.rank) ∧
      ∀ s ∈ after, s.appliesTo m = true → s.rank ≤ r.rank := by
  constructor
  · intro h
    induction rules generalizing r with
    | nil => simp [select?, ofList] at h
    | cons x rules ih =>
      rw [select?_cons] at h
      cases hrest : (ofList rules).select? m with
      | none =>
        rw [hrest] at h
        simp only [Option.ite_none_right_eq_some, Option.some.injEq] at h
        obtain ⟨hx, rfl⟩ := h
        refine ⟨[], rules, rfl, hx, by simp, fun s hs happ => ?_⟩
        rw [select?_eq_none_iff.1 hrest s hs] at happ
        cases happ
      | some t =>
        obtain ⟨before, after, rfl, ht, hbefore, hafter⟩ := ih hrest
        rw [hrest] at h
        dsimp only at h
        split at h
        · rename_i hx
          obtain rfl := Option.some.inj h
          refine ⟨[], _, rfl, hx.1, by simp, fun s hs happ => ?_⟩
          rcases List.mem_append.1 hs with hs | hs
          · have := hbefore s hs happ; omega
          · rcases List.mem_cons.1 hs with rfl | hs
            · exact hx.2
            · have := hafter s hs happ; omega
        · rename_i hx
          obtain rfl := Option.some.inj h
          refine ⟨x :: before, after, rfl, ht, fun s hs happ => ?_, hafter⟩
          rcases List.mem_cons.1 hs with rfl | hs
          · have : ¬ t.rank ≤ s.rank := fun hle => hx ⟨happ, hle⟩
            omega
          · exact hbefore s hs happ
  · intro h
    obtain ⟨before, after, rfl, hr, hbefore, hafter⟩ := h
    induction before with
    | nil =>
      rw [List.nil_append, select?_cons]
      cases hrest : (ofList after).select? m with
      | none => simp [hr]
      | some s =>
        have := hafter s (mem_of_select? hrest) (appliesTo_of_select? hrest)
        simp [hr, this]
    | cons x before ih =>
      obtain ⟨hx, hbefore⟩ := List.forall_mem_cons.1 hbefore
      rw [List.cons_append, select?_cons, ih hbefore]
      have hnot : ¬ (x.appliesTo m = true ∧ r.rank ≤ x.rank) := fun h => by
        have := hx h.1; omega
      simp [hnot]

end RuleSet

/-! ## Ranks and places -/

/-- The order of evaluation as it is meant: `first` is above every other priority, `last` below
every other one, and the rest goes by number. -/
def Priority.Below (p q : Int32) : Prop :=
  (q = first ∧ p ≠ first) ∨ (p = last ∧ q ≠ last) ∨
    (p ≠ first ∧ p ≠ last ∧ q ≠ first ∧ q ≠ last ∧ p < q)

theorem Priority.rank_lt_rank_iff {p q : Int32} : rank p < rank q ↔ Below p q := by
  by_cases hq : q = first
  · subst hq
    by_cases hp : p = first
    · simp [Below, hp]
    · simp [Below, hp, rank_lt_rank_first hp]
  by_cases hp : p = last
  · subst hp
    by_cases hq' : q = last
    · simp [Below, hq']
    · simp [Below, hq', rank_last_lt_rank hq']
  by_cases hp' : p = first
  · subst hp'
    have hlt : ¬ rank first < rank q := by
      have := rank_lt_rank_first hq
      omega
    simp [Below, hq, hp, hlt]
  by_cases hq' : q = last
  · subst hq'
    have hlt : ¬ rank p < rank last := by
      have := rank_last_lt_rank hp
      omega
    simp [Below, hq, hp, hlt]
  rw [rank_of_ne hp' hp, rank_of_ne hq hq']
  simp [Below, hp, hp', hq, hq', Int32.lt_iff_toInt_lt]

/-- The rule is not deleted, and its pattern is valid and its condition holds. -/
structure Rule.Eligible (r : Rule) (m : Message) : Prop where
  live : r.deleted = false
  holds : ∃ e, r.pattern.outcome = .ok e ∧ e.holds m = true

theorem Pattern.holds_eq_true_iff {p : Pattern} {m : Message} :
    p.holds m = true ↔ ∃ e, p.outcome = .ok e ∧ e.holds m = true := by
  cases h : p.outcome <;> simp [holds, condition?, h, Except.toOption]

theorem Rule.appliesTo_iff {r : Rule} {m : Message} : r.appliesTo m = true ↔ r.Eligible m := by
  rw [appliesTo, Bool.and_eq_true, Bool.not_eq_true', Pattern.holds_eq_true_iff]
  exact ⟨fun h => ⟨h.1, h.2⟩, fun h => ⟨h.live, h.holds⟩⟩

/-- An element with what stands before and after it, told by places. -/
theorem exists_split_iff {α : Type} {l : List α} {x : α} {P Q : α → Prop} :
    (∃ before after, l = before ++ x :: after ∧ (∀ y ∈ before, P y) ∧ ∀ y ∈ after, Q y) ↔
      ∃ i : Nat, l[i]? = some x ∧
        ∀ (j : Nat) (y : α), l[j]? = some y → (j < i → P y) ∧ (i < j → Q y) := by
  constructor
  · intro h
    obtain ⟨before, after, rfl, hbefore, hafter⟩ := h
    refine ⟨before.length, by simp, fun j y hj => ⟨fun hlt => ?_, fun hlt => ?_⟩⟩
    · rw [List.getElem?_append_left hlt] at hj
      exact hbefore y (List.mem_of_getElem? hj)
    · rw [List.getElem?_append_right (by omega),
        show j - before.length = (j - before.length - 1) + 1 by omega,
        List.getElem?_cons_succ] at hj
      exact hafter y (List.mem_of_getElem? hj)
  · intro h
    obtain ⟨i, hi, hall⟩ := h
    obtain ⟨hlt, rfl⟩ := List.getElem?_eq_some_iff.1 hi
    refine ⟨l.take i, l.drop (i + 1), ?_, fun y hy => ?_, fun y hy => ?_⟩
    · rw [← List.drop_eq_getElem_cons hlt, List.take_append_drop]
    · obtain ⟨j, hj, rfl⟩ := List.mem_take_iff_getElem.1 hy
      exact (hall j _ (List.getElem?_eq_getElem _)).1 (by omega)
    · obtain ⟨j, hj, rfl⟩ := List.mem_drop_iff_getElem.1 hy
      exact (hall (i + 1 + j) _ (List.getElem?_eq_getElem _)).2 (by omega)

/-- With `f` for the rank: an element that is above what stands before it and not below what
stands after it is the first of the highest rank. -/
theorem exists_leading_iff {α : Type} {l : List α} {x : α} {f : α → Int} {P : α → Prop} :
    (∃ before after, l = before ++ x :: after ∧ (∀ y ∈ before, P y → f y < f x) ∧
      ∀ y ∈ after, P y → f y ≤ f x) ↔
    ∃ i : Nat, l[i]? = some x ∧ ∀ (j : Nat) (y : α), j ≠ i → l[j]? = some y → P y →
      f y < f x ∨ (f y = f x ∧ i < j) := by
  rw [exists_split_iff]
  constructor
  · intro h
    obtain ⟨i, hi, hall⟩ := h
    refine ⟨i, hi, fun j y hne hj hy => ?_⟩
    obtain ⟨hlt, hgt⟩ := hall j y hj
    rcases Nat.lt_or_gt_of_ne hne with h | h
    · exact .inl (hlt h hy)
    · have := hgt h hy
      omega
  · intro h
    obtain ⟨i, hi, hall⟩ := h
    refine ⟨i, hi, fun j y hj => ⟨fun h hy => ?_, fun h hy => ?_⟩⟩
    · have := hall j y (by omega) hj hy
      omega
    · have := hall j y (by omega) hj hy
      omega

/-- **Selection.** No rule is selected exactly if none of the supplied ones is eligible.
Otherwise it is the eligible one that ranks highest, and of several the one supplied first:
every other eligible one ranks lower, or equal and was supplied later. -/
theorem RuleSet.selects_highest_then_earliest (rules : List Rule) (m : Message) :
    ((ofList rules).select? m = none ↔ ∀ r ∈ rules, ¬ r.Eligible m) ∧
    (∀ r, (ofList rules).select? m = some r ↔ ∃ i : Nat, rules[i]? = some r ∧ r.Eligible m ∧
      ∀ (j : Nat) (s : Rule), j ≠ i → rules[j]? = some s → s.Eligible m →
        s.rank < r.rank ∨ (s.rank = r.rank ∧ i < j)) ∧
    ∀ p q, Priority.rank p < Priority.rank q ↔ Priority.Below p q := by
  refine ⟨?_, fun r => ?_, fun p q => Priority.rank_lt_rank_iff⟩
  · rw [select?_eq_none_iff]
    simp only [← Rule.appliesTo_iff, Bool.not_eq_true]
  · rw [select?_eq_some_iff]
    simp only [Rule.appliesTo_iff]
    have hleading := @exists_leading_iff Rule rules r Rule.rank (Rule.Eligible · m)
    constructor
    · intro h
      obtain ⟨before, after, hcut, hr, hs⟩ := h
      obtain ⟨i, hi, hall⟩ := hleading.1 ⟨before, after, hcut, hs⟩
      exact ⟨i, hi, hr, hall⟩
    · intro h
      obtain ⟨i, hi, hr, hall⟩ := h
      obtain ⟨before, after, hcut, hs⟩ := hleading.2 ⟨i, hi, hall⟩
      exact ⟨before, after, hcut, hr, hs⟩

end BackendRouting
