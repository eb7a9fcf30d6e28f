import BackendRouting.Pattern.Basic
import BackendRouting.Proofs.Reading
import Mathlib.Control.Monad.Basic

/-!
# Texts and conditions

A text is read as a condition exactly if it spells the lexemes of that condition and every
value in it can be quoted (`Condition.SpelledBy`). The canonical text always spells them,
so whether a condition reads back depends on its values alone.

* `reads_exactly_the_grammar`: the language of patterns, and no text spells two conditions.
* `accepted_iff_reads_back`: a condition is made into a pattern exactly if its canonical
  text reads back as it; otherwise the first value that cannot be quoted is told.
-/
namespace BackendRouting

open Pattern (isValueChar isQuotable)

deriving instance DecidableEq for Pattern

/-- The grammar of patterns: all values are non-empty runs of value characters, and the text
is the lexemes of the condition with runs of spaces before, between and after them. -/
structure Condition.SpelledBy (e : Condition) (text : String) : Prop where
  quotable : ∀ value ∈ e.values, isQuotable value = true
  written : Written e.lexemes text.toList

theorem Condition.SpelledBy.readable {e : Condition} {text : String} (h : e.SpelledBy text) :
    ∀ x ∈ e.lexemes, x.Readable :=
  Condition.readable_lexemes_iff.2 h.quotable

namespace Pattern

theorem not_isBlank_of_mem {text : String} {c : Char} (hc : c ∈ text.toList)
    (hw : Text.isWhiteSpace c = false) : Text.isBlank text = false := by
  refine Bool.eq_false_iff.2 fun h => ?_
  have := List.all_eq_true.1 h c hc
  rw [hw] at this; cases this

theorem not_isBlank_of_written {text : String} {e : Condition}
    (h : Written e.lexemes text.toList) : Text.isBlank text = false := by
  refine not_isBlank_of_mem (c := '(') ?_ (by decide)
  exact h.chars_subset e.opening_mem_lexemes (by decide)

/-- Text that is not blank is read, with a condition or with one syntax error. -/
theorem read?_of_not_isBlank {text : String} (h : Text.isBlank text = false) :
    read? text = some
      ((Condition.ofTokens (Lexicon.standard.scan 0 text.toList)).mapError ([·])) := by
  simp [read?, Lexicon.tokens?, h]

theorem not_isBlank_of_read? {text : String} {outcome : Except (List SyntaxError) Condition}
    (h : read? text = some outcome) : Text.isBlank text = false := by
  refine Bool.eq_false_iff.2 fun hb => ?_
  simp [read?, Lexicon.tokens?, hb] at h

theorem read?_eq_ok_iff {text : String} {e : Condition} :
    read? text = some (.ok e) ↔ e.SpelledBy text := by
  have hill : Lexeme.word .illegal ∉ e.lexemes := fun h =>
    nomatch Condition.hasOneLexeme_of_mem h
  have hscan : Token.lexemesOf (Lexicon.standard.scan 0 text.toList) = e.lexemes ↔ _ :=
    lexemes_scan_iff hill
  constructor
  · intro h
    rw [read?_of_not_isBlank (not_isBlank_of_read? h), Option.some.injEq] at h
    have ho : Condition.ofTokens (Lexicon.standard.scan 0 text.toList) = .ok e := by
      cases ho : Condition.ofTokens (Lexicon.standard.scan 0 text.toList) with
      | error err => rw [ho] at h; cases h
      | ok e' => rw [ho] at h; cases h; rfl
    obtain ⟨hr, hw⟩ := hscan.1 (ofTokens_eq_ok_iff.1 ho)
    exact ⟨Condition.readable_lexemes_iff.1 hr, hw⟩
  · intro h
    have ho := ofTokens_eq_ok_iff.2 (hscan.2 ⟨h.readable, h.written⟩)
    rw [read?_of_not_isBlank (not_isBlank_of_written h.written), ho]
    rfl

/-- **The language of patterns.** A text is read as a condition exactly if it spells it, and
it spells no other one. -/
theorem reads_exactly_the_grammar (text : String) :
    (∀ e : Condition, read? text = some (.ok e) ↔ e.SpelledBy text) ∧
      ∀ e e' : Condition, e.SpelledBy text → e'.SpelledBy text → e = e' := by
  refine ⟨fun e => read?_eq_ok_iff, fun e e' h h' => ?_⟩
  have := (read?_eq_ok_iff.2 h).symm.trans (read?_eq_ok_iff.2 h')
  simpa using this

/-- Lexemes may stand close together or far apart, and the longer attribute is read. -/
example : read? " equals(FromPartyIdType , 'x')\n" =
    some (.ok (.test .equals .fromPartyIdType "x")) := by
  decide +kernel

end Pattern

/-! ## Canonical texts -/

namespace Condition

theorem values_eq (e : Condition) : e.values = e.lexemes.filterMap Lexeme.value? := by
  induction e with
  | join c left right ihl ihr =>
    simp [values, lexemes, Lexeme.value?, List.filterMap_cons, ihl, ihr]
  | negate inner ih => simp [values, lexemes, Lexeme.value?, List.filterMap_cons, ih]
  | test c attr value => simp [values, lexemes, Lexeme.value?, List.filterMap_cons]

theorem unquotable?_eq_none_iff {e : Condition} :
    e.unquotable? = none ↔ ∀ value ∈ e.values, isQuotable value = true := by
  simp [unquotable?]

/-- The value that is told is the first one in the canonical text that cannot be quoted. -/
theorem first_of_unquotable? {e : Condition} {value : String} (h : e.unquotable? = some value) :
    ∃ before after, e.lexemes = before ++ .quoted value :: after ∧ isQuotable value = false ∧
      ∀ v, .quoted v ∈ before → isQuotable v = true := by
  obtain ⟨hbad, us, vs, hsplit, hus⟩ := List.find?_eq_some_iff_append.1 h
  rw [values_eq, List.filterMap_eq_append_iff] at hsplit
  obtain ⟨xs, ys, hxy, hxs, hys⟩ := hsplit
  obtain ⟨ys, y, zs, rfl, hnone, hy, -⟩ := List.filterMap_eq_cons_iff.1 hys
  have hyv : y = .quoted value := by
    cases y with
    | word k => cases hy
    | quoted v => cases hy; rfl
  refine ⟨xs ++ ys, zs, by simp [hxy, hyv], by simpa using hbad, fun v hv => ?_⟩
  rcases List.mem_append.1 hv with hv | hv
  · have : v ∈ us := hxs ▸ List.mem_filterMap.2 ⟨_, hv, rfl⟩
    simpa using hus v this
  · cases hnone _ hv

theorem read?_render_iff {e : Condition} :
    Pattern.read? e.render = some (.ok e) ↔ e.unquotable? = none := by
  rw [Pattern.read?_eq_ok_iff, unquotable?_eq_none_iff]
  exact ⟨fun h => h.quotable, fun h => ⟨h, e.written_render⟩⟩

/-- **Reading back.** A condition is made into a pattern exactly if none of its values is
told as unquotable, and exactly if its canonical text is read as the condition again. The
pattern then has that text and that condition; otherwise the error carries the first value,
in the order of the canonical text, that is empty or has a character outside the class. -/
theorem accepted_iff_reads_back (e : Condition) :
    (Pattern.read? e.render = some (.ok e) ↔ e.unquotable? = none) ∧
      (e.unquotable? = none ↔ ∃ p, Pattern.ofCondition e = .ok p) ∧
      match Pattern.ofCondition e with
      | .ok p => p.text = e.render ∧ p.outcome = .ok e ∧ Pattern.read? p.text = some (.ok e)
      | .error err => ∃ value before after, err = .invalidValue value ∧
          e.lexemes = before ++ .quoted value :: after ∧
          e.render.toList = before.flatMap Lexeme.canonical ++ (Lexeme.quoted value).chars ++
            after.flatMap Lexeme.canonical ∧
          (value = "" ∨ ∃ c ∈ value.toList, isValueChar c = false) ∧
          ∀ v, .quoted v ∈ before → v ≠ "" ∧ ∀ c ∈ v.toList, isValueChar c = true := by
  cases h : e.unquotable? with
  | none =>
    have hof : Pattern.ofCondition e = .ok ⟨e.render, .ok e⟩ := by rw [Pattern.ofCondition, h]
    have hread := read?_render_iff.2 h
    rw [hof]
    exact ⟨by simp [hread], by simp, rfl, rfl, hread⟩
  | some value =>
    have hof : Pattern.ofCondition e = .error (.invalidValue value) := by
      rw [Pattern.ofCondition, h]
    have hread : Pattern.read? e.render ≠ some (.ok e) := fun hread => by
      rw [read?_render_iff.1 hread] at h; cases h
    obtain ⟨before, after, hsplit, hbad, hbefore⟩ := first_of_unquotable? h
    rw [hof]
    refine ⟨by simp [hread], by simp, value, before, after, rfl, hsplit, ?_, ?_, ?_⟩
    · simp [toList_render, hsplit, Lexeme.canonical]
    · by_cases hempty : value = ""
      · exact .inl hempty
      · right
        simpa [isQuotable, hempty] using hbad
    · intro v hv
      obtain ⟨hne, hall⟩ := isQuotable_iff.1 (hbefore v hv)
      exact ⟨by simpa using hne, hall⟩

end Condition

end BackendRouting
