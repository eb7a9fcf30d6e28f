import BackendRouting.Proofs.ReadBack
import BackendRouting.Proofs.Tiling

/-!
# Where the marker of an error stands

An error is shown below its pattern, with a caret that marks the column. The column counts all the
characters before the failure, line feeds included, and the caret is put below the last line. So in
a pattern on one line the caret stands right below the failure (`Spot.below`). In a pattern on
several lines it does not: it stands below the last line, not below the line of the failure, and as
many characters too far to the right as there are in the lines before that line.

* `column_le_of_run`: the column is a place in the text.
* `caretAt_render`, `CaretAt.unique`: the line and the index at which the caret stands.
* `marker_is_right_iff_one_line`: when this is right below the failure.
-/
namespace BackendRouting

/-! ## Lines -/

namespace Text

/-- A place in a text as it is seen: the lines above it, and the characters before it in its own
line. -/
structure Spot where
  line : Nat
  index : Nat
  deriving DecidableEq, Repr

/-- One line down. -/
def Spot.below (p : Spot) : Spot := { p with line := p.line + 1 }

/-- Where a text goes on behind these characters. A line ends with its line feed. -/
def spotAfter (cs : List Char) : Spot :=
  ⟨cs.count '\n', (cs.reverse.takeWhile (· ≠ '\n')).length⟩

/-- The last caret of a text stands at this spot. -/
def CaretAt (cs : List Char) (p : Spot) : Prop :=
  ∃ before after, cs = before ++ '^' :: after ∧ '^' ∉ after ∧ spotAfter before = p

variable {cs line : List Char} {p q : Spot}

theorem spotAfter_line (h : '\n' ∉ line) :
    spotAfter (cs ++ '\n' :: line) = ⟨cs.count '\n' + 1, line.length⟩ := by
  have hrun : (line.reverse ++ '\n' :: cs.reverse).takeWhile (· ≠ '\n') = line.reverse :=
    takeWhile_run (fun c hc => by
      simpa using fun heq : c = '\n' => h (heq ▸ List.mem_reverse.1 hc)) (by simp)
  unfold spotAfter
  rw [List.reverse_append, List.reverse_cons, List.append_assoc, List.singleton_append, hrun,
    List.length_reverse, List.count_append, List.count_cons_self, List.count_eq_zero.2 h]

theorem spotAfter_of_not_mem (h : '\n' ∉ cs) : spotAfter cs = ⟨0, cs.length⟩ := by
  have hall : cs.reverse.takeWhile (· ≠ '\n') = cs.reverse := by
    refine List.takeWhile_eq_self_iff.2 fun c hc => ?_
    simpa using fun heq : c = '\n' => h (heq ▸ List.mem_reverse.1 hc)
  unfold spotAfter
  rw [hall, List.length_reverse, List.count_eq_zero.2 h]

/-- Only in the first line there are as many characters before a place in its line as in all. -/
theorem not_mem_of_index_spotAfter (h : (spotAfter cs).index = cs.length) : '\n' ∉ cs := by
  intro hmem
  have hall : cs.reverse.takeWhile (· ≠ '\n') = cs.reverse :=
    (List.takeWhile_prefix _).eq_of_length (h.trans List.length_reverse.symm)
  have hline := List.takeWhile_eq_self_iff.1 hall '\n' (List.mem_reverse.2 hmem)
  simp at hline

theorem CaretAt.unique (h : CaretAt cs p) (h' : CaretAt cs q) : p = q := by
  obtain ⟨before, after, rfl, hafter, rfl⟩ := h
  obtain ⟨before', after', hcs, hafter', rfl⟩ := h'
  rcases append_eq_append_cons hcs with ⟨b, rfl, hb⟩ | ⟨b, rfl, rfl⟩
  · cases b with
    | nil => rw [List.append_nil]
    | cons c b =>
      obtain ⟨rfl, rfl⟩ := List.cons.inj hb
      exact absurd (List.mem_append_right b List.mem_cons_self) hafter
  · exact absurd (List.mem_append_right b List.mem_cons_self) hafter'

end Text

open Text (Spot spotAfter CaretAt)

/-! ## The column -/

/-- An error stands where a token starts, or where the last one that was taken ends. -/
theorem Reading.column_le_of_run {r : Reading} {n limit : Nat} {ts : List Token} {err : SyntaxError}
    (hn : n ≤ limit) (hts : ∀ t ∈ ts, t.start ≤ limit ∧ t.stop ≤ limit)
    (h : r.run n ts = .error err) : err.column ≤ limit := by
  have hfinish : ∀ {r : Reading} {n : Nat}, n ≤ limit → r.finish n = .error err →
      err.column ≤ limit := by
    intro r n hn h
    unfold finish at h
    split at h
    · cases h
    · cases h
      exact hn
  induction ts generalizing r n with
  | nil => exact hfinish hn h
  | cons t ts ih =>
    obtain ⟨⟨hstart, hstop⟩, hts⟩ := List.forall_mem_cons.1 hts
    rw [run] at h
    split at h
    · exact hfinish hn h
    · split at h
      · exact ih hstop hts h
      · cases h
        exact hstart

namespace SyntaxError

/-- The error is shown under its pattern, and no other caret stands behind the one of the marker. -/
theorem caretAt_render (err : SyntaxError) (s : String) :
    CaretAt (err.render s).toList ⟨s.toList.count '\n' + 1, err.column⟩ := by
  have hlabel : '^' ∉ "---- Column: ".toList ++ (toString err.column).toList := by
    intro hmem
    rcases List.mem_append.1 hmem with hmem | hmem
    · exact absurd hmem (by decide)
    · rw [Nat.toString_eq_repr, Nat.toList_repr] at hmem
      exact absurd (Nat.isDigit_of_mem_toDigits (by decide) (by decide) hmem) (by decide)
  have hspaces : '\n' ∉ List.replicate err.column ' ' := by simp
  refine ⟨s.toList ++ '\n' :: List.replicate err.column ' ', _, ?_, hlabel, ?_⟩
  · simp [render]
  · rw [Text.spotAfter_line hspaces, List.length_replicate]

end SyntaxError

/-- **Markers.** A text that is not blank and is no pattern has one error, at a place inside the
text or at its end. The error is shown below the text, with a caret below the last line; before the
caret in its line there are as many characters as before the failure in the whole text. This is
right below the failure exactly if the text has only one line. -/
theorem marker_is_right_iff_one_line (s : String) (hblank : Text.isBlank s = false)
    (hfail : ∀ e, Pattern.read? s ≠ some (.ok e)) :
    ∃ err, Pattern.read? s = some (.error [err]) ∧ err.column ≤ s.toList.length ∧
      s.toList ++ ['\n'] <+: (err.render s).toList ∧
      CaretAt (err.render s).toList ⟨s.toList.count '\n' + 1, err.column⟩ ∧
      (CaretAt (err.render s).toList (spotAfter (s.toList.take err.column)).below ↔
        '\n' ∉ s.toList) := by
  have hread := Pattern.read?_of_not_isBlank hblank
  cases hrun : Condition.ofTokens (Lexicon.standard.scan 0 s.toList) with
  | ok e =>
    rw [hrun] at hread
    exact absurd hread (hfail e)
  | error err =>
    rw [hrun] at hread
    have htiled : Tiled s.toList 0 _ := (Lexicon.lexed_scan 0 s.toList).tiled [] rfl
    have hcolumn : err.column ≤ s.toList.length := by
      refine Reading.column_le_of_run (Nat.zero_le _) (fun t ht => ?_) hrun
      obtain ⟨-, hstart, hstop⟩ := htiled.inside t ht
      exact ⟨hstart.trans hstop, hstop⟩
    have hcaret := err.caretAt_render s
    refine ⟨err, hread, hcolumn, ?_, hcaret, fun h => ?_, fun h => ?_⟩
    · simp [SyntaxError.render]
    · have hspot := hcaret.unique h
      have hlength : (s.toList.take err.column).length = err.column :=
        List.length_take_of_le hcolumn
      have hbefore : '\n' ∉ s.toList.take err.column :=
        Text.not_mem_of_index_spotAfter ((congrArg Spot.index hspot).symm.trans hlength.symm)
      have hlines : s.toList.count '\n' + 1 = (s.toList.take err.column).count '\n' + 1 :=
        congrArg Spot.line hspot
      rw [List.count_eq_zero.2 hbefore] at hlines
      exact List.count_eq_zero.1 (Nat.succ.inj hlines)
    · have hbefore : '\n' ∉ s.toList.take err.column := fun hmem => h (List.mem_of_mem_take hmem)
      rw [Text.spotAfter_of_not_mem hbefore, List.length_take_of_le hcolumn, Spot.below]
      rwa [List.count_eq_zero.2 h] at hcaret

/-- A line feed behind the pattern is enough: the caret is one line too low. -/
theorem marker_below_trailing_line :
    Text.isBlank "equals(Action 'x')\n" = false ∧
    (∀ e, Pattern.read? "equals(Action 'x')\n" ≠ some (.ok e)) ∧
    ∃ err, Pattern.read? "equals(Action 'x')\n" = some (.error [err]) ∧ err.column = 14 ∧
      CaretAt (err.render "equals(Action 'x')\n").toList ⟨2, 14⟩ ∧
      ¬ CaretAt (err.render "equals(Action 'x')\n").toList ⟨1, 14⟩ := by
  have hread : Pattern.read? "equals(Action 'x')\n" =
      some (.error [.unexpected ⟨.value, "'x'", 14, 17⟩ [.comma]]) := by decide +kernel
  have hblank : Text.isBlank "equals(Action 'x')\n" = false := by decide
  have hfail : ∀ e, Pattern.read? "equals(Action 'x')\n" ≠ some (.ok e) := fun e he => by
    rw [hread] at he
    cases he
  obtain ⟨err, herr, -, -, hcaret, hright⟩ := marker_is_right_iff_one_line _ hblank hfail
  obtain rfl : SyntaxError.unexpected ⟨.value, "'x'", 14, 17⟩ [.comma] = err := by
    simpa [hread] using herr
  exact ⟨hblank, hfail, _, hread, rfl, hcaret, fun h => absurd (hright.1 h) (by decide)⟩

/-- **Counterexample.** The failure is in the second line behind 16 characters. The caret stands in
the line below it, but behind 21 characters. -/
theorem marker_misses_later_line :
    ∃ s err, Pattern.read? s = some (.error [err]) ∧ s = "not(\n  equals(Action 'x'))" ∧
      spotAfter (s.toList.take err.column) = ⟨1, 16⟩ ∧
      CaretAt (err.render s).toList ⟨2, 21⟩ ∧
      ¬ ∀ s err, Pattern.read? s = some (.error [err]) →
        CaretAt (err.render s).toList (spotAfter (s.toList.take err.column)).below := by
  have hread : Pattern.read? "not(\n  equals(Action 'x'))" =
      some (.error [.unexpected ⟨.value, "'x'", 21, 24⟩ [.comma]]) := by decide +kernel
  have hcaret := (SyntaxError.unexpected ⟨.value, "'x'", 21, 24⟩ [.comma]).caretAt_render
    "not(\n  equals(Action 'x'))"
  refine ⟨_, _, hread, rfl, by decide, hcaret, fun h => ?_⟩
  have hspot := hcaret.unique (h _ _ hread)
  exact absurd hspot (by decide)

end BackendRouting
