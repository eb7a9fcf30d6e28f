import BackendRouting.Proofs.Joined

/-!
# Patterns that can be built

Patterns come from texts and conditions, and two patterns are joined into one. However a
pattern is built, what it holds is what reading its text gives (`Built.read?_text`), though
two of the ways do not read any text.

* `Built.outcome_of_text`: the text of a pattern determines all there is to it.
* `Built.both_valid_iff`: two patterns joined are valid if both of them are, or if their
  texts are interlocked. In the second case neither of them is valid: the errors of both
  are lost.
-/
namespace BackendRouting.Pattern

/-- The patterns that the operations on patterns give. -/
inductive Built : Pattern → Prop where
  | ofText {text p} : Pattern.ofText text = .ok p → Built p
  | ofValidText {text p} : Pattern.ofValidText text = .ok p → Built p
  | ofCondition {e p} : Pattern.ofCondition e = .ok p → Built p
  | checked {p q} : Built p → p.checked = .ok q → Built q
  | both {p q} : Built p → Built q → Built (p.both q)

theorem text_both (p q : Pattern) : (p.both q).text = joined p.text q.text := by
  unfold both
  split <;> rfl

theorem not_isBlank_joined (A B : String) : Text.isBlank (joined A B) = false :=
  not_isBlank_of_mem (c := '&') (by rw [toList_joined]; simp) (by decide)

theorem eq_of_checked {p q : Pattern} (h : p.checked = .ok q) : p = q := by
  unfold checked at h
  split at h
  · cases h; rfl
  · cases h

theorem read?_of_ofText {text : String} {p : Pattern} (h : ofText text = .ok p) :
    read? p.text = some p.outcome := by
  unfold ofText at h
  split at h
  · rename_i hread
    cases h; exact hread
  · cases h

/-- If both sides are valid the trees are joined without reading the joined text; it reads as
the joined tree all the same. -/
theorem read?_both {p q : Pattern} (hp : read? p.text = some p.outcome)
    (hq : read? q.text = some q.outcome) : read? (p.both q).text = some (p.both q).outcome := by
  rw [text_both]
  unfold both
  split
  · rename_i l r hl hr
    rw [hl] at hp; rw [hr] at hq
    exact read?_eq_ok_iff.2 (spelledBy_joined_iff.2
      ⟨l, r, rfl, .inl ⟨read?_eq_ok_iff.1 hp, read?_eq_ok_iff.1 hq⟩⟩)
  · show read? (joined p.text q.text) = some ((read? (joined p.text q.text)).getD _)
    rw [read?_of_not_isBlank (not_isBlank_joined ..), Option.getD_some]

theorem holds_and {l r : Condition} {m : Message} :
    (Condition.join .and l r).holds m = true ↔ l.holds m = true ∧ r.holds m = true := by
  simp [Condition.holds, Connective.apply]

namespace Built

variable {p q : Pattern}

/-- A pattern holds what reading its text gives. -/
theorem read?_text (hp : p.Built) : read? p.text = some p.outcome := by
  induction hp with
  | ofText h => exact read?_of_ofText h
  | @ofValidText text p h =>
    unfold Pattern.ofValidText at h
    cases ht : Pattern.ofText text with
    | error err => rw [ht] at h; cases h
    | ok p' =>
      rw [ht] at h
      obtain rfl := eq_of_checked h
      exact read?_of_ofText ht
  | @ofCondition e p h =>
    unfold Pattern.ofCondition at h
    split at h
    · cases h
    · rename_i hnone
      cases h
      exact Condition.read?_render_iff.2 hnone
  | checked _ h ih => rw [← eq_of_checked h]; exact ih
  | both _ _ ihp ihq => exact read?_both ihp ihq

/-- A pattern has the condition that its text spells. -/
theorem condition?_eq_some_iff (hp : p.Built) {e : Condition} :
    p.condition? = some e ↔ e.SpelledBy p.text := by
  rw [← read?_eq_ok_iff, hp.read?_text, condition?]
  cases p.outcome <;> simp [Except.toOption]

theorem isValid_iff (hp : p.Built) :
    p.isValid = true ↔ ∃ e : Condition, e.SpelledBy p.text := by
  rw [isValid, Option.isSome_iff_exists]
  simp only [hp.condition?_eq_some_iff]

theorem holds_iff (hp : p.Built) {m : Message} :
    p.holds m = true ↔ ∃ e : Condition, e.SpelledBy p.text ∧ e.holds m = true := by
  rw [holds, Option.any_eq_true]
  simp only [hp.condition?_eq_some_iff]

end Built

/-- The beginning of a comparison. -/
def cutLeft : Pattern := ⟨"equals(Action", .error [.endsEarly 13 [.comma]]⟩

/-- The rest of that comparison, and another one. -/
def cutRight : Pattern :=
  ⟨"'x'),equals(ServiceName,'y')",
    .error [.unexpected ⟨.value, "'x'", 0, 3⟩ Reading.operators]⟩

theorem built_cutLeft : cutLeft.Built :=
  @Built.ofText "equals(Action" _ (by decide +kernel)

theorem built_cutRight : cutRight.Built :=
  @Built.ofText "'x'),equals(ServiceName,'y')" _ (by decide +kernel)

/-! ## The text of a pattern -/

/-- **The text tells it all.** A pattern is not blank and holds exactly what reading its text
gives: the condition, or the one syntax error. So patterns of the same text agree in all that
can be asked of them, and the text of two joined patterns can always be read. -/
theorem Built.outcome_of_text {p : Pattern} (hp : p.Built) :
    Text.isBlank p.text = false ∧ read? p.text = some p.outcome ∧
      (∀ errors, p.outcome = .error errors → ∃ err, errors = [err]) ∧
      (∀ q : Pattern, q.Built → p.sameText q = true →
        p.isValid = q.isValid ∧ p.condition? = q.condition? ∧ p.errors = q.errors ∧
          ∀ m, p.holds m = q.holds m) ∧
      ∀ q : Pattern, q.Built → (read? (p.both q).text).isSome = true := by
  have hread := hp.read?_text
  have hblank := not_isBlank_of_read? hread
  refine ⟨hblank, hread, ?_, ?_, ?_⟩
  · intro errors herr
    rw [herr, read?_of_not_isBlank hblank, Option.some.injEq] at hread
    cases ho : Condition.ofTokens (Lexicon.standard.scan 0 p.text.toList) with
    | ok e => rw [ho] at hread; cases hread
    | error err =>
      rw [ho] at hread
      cases hread
      exact ⟨err, rfl⟩
  · intro q hq hsame
    have htext : p.text = q.text := by simpa [sameText] using hsame
    have hout : p.outcome = q.outcome := by
      have hreadq := hq.read?_text
      rw [← htext, hread] at hreadq
      exact Option.some.inj hreadq
    have hpq : p = q := by
      cases p; cases q
      simp_all
    subst hpq
    exact ⟨rfl, rfl, rfl, fun _ => rfl⟩
  · intro q hq
    rw [read?_both hread hq.read?_text]
    rfl

/-- The joined text is read, and what the joined pattern holds is what it reads. -/
theorem outcome_of_cut_texts :
    (cutLeft.both cutRight).Built ∧
      read? (cutLeft.both cutRight).text = some (cutLeft.both cutRight).outcome :=
  have h := built_cutLeft.both built_cutRight
  ⟨h, h.outcome_of_text.2.1⟩

/-! ## Joined patterns -/

/-- **Joined patterns.** Two patterns joined are valid if both are, and also if their texts are
interlocked; they hold for a message if both hold for it, or if both sides of the conjunction
do that the interlocked texts are cut from. Interlocked patterns are both invalid, so with
them the errors of both sides are lost; otherwise no error is. -/
theorem Built.both_valid_iff {p q : Pattern} (hp : p.Built) (hq : q.Built) :
    ((p.both q).isValid = true ↔
      (p.isValid = true ∧ q.isValid = true) ∨ ∃ l r, Interlocked l r p.text q.text) ∧
    (∀ m, (p.both q).holds m = true ↔ (p.holds m = true ∧ q.holds m = true) ∨
      ∃ l r, Interlocked l r p.text q.text ∧ l.holds m = true ∧ r.holds m = true) ∧
    ∀ l r, Interlocked l r p.text q.text → p.isValid = false ∧ q.isValid = false := by
  refine ⟨?_, ?_, ?_⟩
  · rw [(hp.both hq).isValid_iff, hp.isValid_iff, hq.isValid_iff, text_both]
    simp only [spelledBy_joined_iff]
    constructor
    · intro h
      obtain ⟨e, l, r, rfl, h | h⟩ := h
      · exact .inl ⟨⟨l, h.1⟩, ⟨r, h.2⟩⟩
      · exact .inr ⟨l, r, h⟩
    · intro h
      obtain ⟨⟨l, hl⟩, ⟨r, hr⟩⟩ | ⟨l, r, h⟩ := h
      · exact ⟨_, l, r, rfl, .inl ⟨hl, hr⟩⟩
      · exact ⟨_, l, r, rfl, .inr h⟩
  · intro m
    rw [(hp.both hq).holds_iff, hp.holds_iff, hq.holds_iff, text_both]
    simp only [spelledBy_joined_iff]
    constructor
    · intro h
      obtain ⟨e, ⟨l, r, rfl, h⟩, hm⟩ := h
      obtain ⟨hl, hr⟩ := holds_and.1 hm
      obtain h | h := h
      · exact .inl ⟨⟨l, h.1, hl⟩, ⟨r, h.2, hr⟩⟩
      · exact .inr ⟨l, r, h, hl, hr⟩
    · intro h
      obtain ⟨⟨l, h, hl⟩, ⟨r, h', hr⟩⟩ | ⟨l, r, h, hl, hr⟩ := h
      · exact ⟨_, ⟨l, r, rfl, .inl ⟨h, h'⟩⟩, holds_and.2 ⟨hl, hr⟩⟩
      · exact ⟨_, ⟨l, r, rfl, .inr h⟩, holds_and.2 ⟨hl, hr⟩⟩
  · intro l r h
    refine ⟨Bool.eq_false_iff.2 fun hv => ?_, Bool.eq_false_iff.2 fun hv => ?_⟩
    · obtain ⟨e, he⟩ := hp.isValid_iff.1 hv
      exact (h.not_spelledBy e).1 he
    · obtain ⟨e, he⟩ := hq.isValid_iff.1 hv
      exact (h.not_spelledBy e).2 he

/-- The two texts are interlocked. -/
theorem interlocked_cut_texts :
    cutLeft.Built ∧ cutRight.Built ∧ ∃ l r, Interlocked l r cutLeft.text cutRight.text := by
  refine ⟨built_cutLeft, built_cutRight, ?_⟩
  have hvalid : (cutLeft.both cutRight).isValid = true := by decide +kernel
  obtain ⟨hleft, -⟩ | h := (built_cutLeft.both_valid_iff built_cutRight).1.1 hvalid
  · cases hleft
  · exact h

/-- **Counterexample.** Joining can hide errors: both sides are invalid, and what they are
joined to is valid and holds for a message. -/
theorem joined_hides_errors :
    cutLeft.Built ∧ cutRight.Built ∧ cutLeft.isValid = false ∧ cutRight.isValid = false ∧
      (cutLeft.both cutRight).isValid = true ∧
      (cutLeft.both cutRight).holds (.ofList [(.action, "x"), (.serviceName, "y")]) = true ∧
      ¬ ∀ p q : Pattern, p.Built → q.Built →
        ((p.both q).isValid = true ↔ p.isValid = true ∧ q.isValid = true) := by
  have hvalid : (cutLeft.both cutRight).isValid = true := by decide +kernel
  refine ⟨built_cutLeft, built_cutRight, rfl, rfl, hvalid, by decide +kernel, fun h => ?_⟩
  have hleft := ((h _ _ built_cutLeft built_cutRight).1 hvalid).1
  cases hleft

end BackendRouting.Pattern
