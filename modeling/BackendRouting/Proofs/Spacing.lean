import BackendRouting.Proofs.ReadBack
import BackendRouting.Proofs.Tiling

/-!
# Spaces do not matter

Lexemes can be written one after the other with any runs of spaces before, between and after them
(`Spacing`). Whatever the runs are, also if there are none, the tokens are those lexemes at their
places, and a text of other form has no end among its tokens. So the runs only shift the tokens,
and a reading does not look at places.

* `scan_charsOf`: a scan takes the written lexemes apart again.
* `Lexed.exists_spacing`: a text that is read up to its end is written that way.
* `run_congr`: tokens that differ in their places alone are read alike.
* `tokens_iff_spacing`: all of this for the tokens and the outcome of a text.
-/
namespace BackendRouting

/-! ## Ways to write lexemes -/

/-- Lexemes of the language, each with the run of spaces before it, and the run behind the last. -/
structure Spacing where
  items : List (List Char × Lexeme)
  rest : List Char
  gaps : ∀ item ∈ items, Spaces item.1
  readable : ∀ item ∈ items, item.2.Readable
  blank : Spaces rest

namespace Spacing

def charsOf : List (List Char × Lexeme) → (rest : List Char) → List Char
  | [], rest => rest
  | (gap, x) :: items, rest => gap ++ (x.chars ++ charsOf items rest)

/-- The lexemes as tokens where they stand, behind the first `n` characters, and the end. -/
def tokensOf (n : Nat) : List (List Char × Lexeme) → (rest : List Char) → List Token
  | [], rest => [Token.ending (n + rest.length)]
  | (gap, x) :: items, rest =>
    x.token (n + gap.length) :: tokensOf (n + gap.length + x.chars.length) items rest

variable (w : Spacing)

def lexemes : List Lexeme := w.items.map Prod.snd

def text : String := String.ofList (charsOf w.items w.rest)

def tokens : List Token := tokensOf 0 w.items w.rest

end Spacing

namespace Spacing

variable {items : List (List Char × Lexeme)} {rest : List Char}

theorem written_charsOf (hgaps : ∀ item ∈ items, Spaces item.1) (hrest : Spaces rest) :
    Written (items.map Prod.snd) (charsOf items rest) := by
  induction items with
  | nil => exact .nil hrest
  | cons item items ih =>
    obtain ⟨hgap, hgaps⟩ := List.forall_mem_cons.1 hgaps
    exact .cons hgap (ih hgaps)

/-- No lexeme is cut, as none starts with the rest of another one, so each is taken where it
stands. -/
theorem scan_charsOf {n : Nat} (hgaps : ∀ item ∈ items, Spaces item.1)
    (hread : ∀ item ∈ items, item.2.Readable) (hrest : Spaces rest) :
    Lexicon.standard.scan n (charsOf items rest) = tokensOf n items rest := by
  induction items generalizing n with
  | nil =>
    have hscan : Lexicon.standard.scan n (rest ++ []) = _ := Lexicon.scan_spaces hrest
    rwa [List.append_nil, Lexicon.scan_nil] at hscan
  | cons item items ih =>
    obtain ⟨hgap, hgaps⟩ := List.forall_mem_cons.1 hgaps
    obtain ⟨hx, hread⟩ := List.forall_mem_cons.1 hread
    have hcut : ¬ item.2.Cut (charsOf items rest) :=
      (written_charsOf hgaps hrest).not_cut (List.forall_mem_map.2 hread)
    rw [charsOf, Lexicon.scan_spaces hgap, Lexicon.scan_lexeme hx hcut, ih hgaps hread]
    rfl

end Spacing

/-! ## Texts that are read to their end -/

theorem Lexed.ne_nil {n : Nat} {cs : List Char} {ts : List Token} (h : Lexed n cs ts) :
    ts ≠ [] := by
  cases h <;> exact List.cons_ne_nil _ _

theorem Lexed.exists_spacing {n : Nat} {cs : List Char} {ts : List Token} (h : Lexed n cs ts)
    (hend : ts.getLast?.map Token.kind = some .stop) :
    ∃ w : Spacing, Spacing.charsOf w.items w.rest = cs ∧
      Spacing.tokensOf n w.items w.rest = ts := by
  induction h with
  | @blank n g hg => exact ⟨⟨[], g, by simp, by simp, hg⟩, rfl, rfl⟩
  | stuck hg hne hnone => cases hend
  | @lexeme n g x cs ts hg hx hcut hlexed ih =>
    rw [List.getLast?_cons_of_ne_nil hlexed.ne_nil] at hend
    obtain ⟨w, rfl, rfl⟩ := ih hend
    exact ⟨⟨(g, x) :: w.items, w.rest, List.forall_mem_cons.2 ⟨hg, w.gaps⟩,
      List.forall_mem_cons.2 ⟨hx, w.readable⟩, w.blank⟩, rfl, rfl⟩

theorem Lexeme.exists_not_isWhiteSpace {x : Lexeme} (hx : x.Readable) :
    ∃ c ∈ x.chars, Text.isWhiteSpace c = false := by
  cases x with
  | word k =>
    -- as a test of each word: the decision must not run through all characters
    have key : ∀ k ∈ Kind.words, k.display.toList.any (!Text.isWhiteSpace ·) = true := by
      decide +kernel
    simpa [chars] using key k (Kind.mem_words hx)
  | quoted value => exact ⟨'\'', List.mem_cons_self, by decide⟩

namespace Spacing

variable (w : Spacing)

theorem last_tokensOf (n : Nat) (items : List (List Char × Lexeme)) (rest : List Char) :
    (tokensOf n items rest).getLast?.map Token.kind = some .stop := by
  induction items generalizing n with
  | nil => rfl
  | cons item items ih =>
    have hne : tokensOf (n + item.1.length + item.2.chars.length) items rest ≠ [] := by
      cases items <;> exact List.cons_ne_nil _ _
    rw [tokensOf, List.getLast?_cons_of_ne_nil hne]
    exact ih _

theorem isBlank_text_iff : Text.isBlank w.text = true ↔ w.lexemes = [] := by
  have hw : Written w.lexemes w.text.toList := by
    rw [text, String.toList_ofList]
    exact written_charsOf w.gaps w.blank
  constructor
  · intro hblank
    refine List.eq_nil_iff_forall_not_mem.2 fun x hx => ?_
    obtain ⟨item, hitem, rfl⟩ := List.mem_map.1 hx
    obtain ⟨c, hc, hwhite⟩ := Lexeme.exists_not_isWhiteSpace (w.readable item hitem)
    rw [Pattern.not_isBlank_of_mem (hw.chars_subset hx hc) hwhite] at hblank
    cases hblank
  · intro hnil
    rw [hnil] at hw
    cases hw with
    | nil hg => exact Text.isBlank_of_spaces hg

theorem tokens?_text (h : w.lexemes ≠ []) :
    Lexicon.standard.tokens? w.text = some w.tokens := by
  have hblank : Text.isBlank w.text = false :=
    Bool.eq_false_iff.2 fun hblank => h (w.isBlank_text_iff.1 hblank)
  rw [Lexicon.tokens?, hblank, text, String.toList_ofList,
    scan_charsOf w.gaps w.readable w.blank]
  rfl

end Spacing

/-! ## Readings do not look at places -/

/-- The token without its place. -/
def Token.bare (t : Token) : Kind × String := (t.kind, t.text)

/-- The errors may differ in their columns alone. -/
structure SyntaxError.Alike (e e' : SyntaxError) : Prop where
  cause : e.cause = e'.cause
  expected : e.expected = e'.expected
  found : e.found?.map Token.bare = e'.found?.map Token.bare

namespace Reading

variable {r : Reading}

theorem finish_congr (n n' : Nat) : (∃ e, r.finish n = .ok e ∧ r.finish n' = .ok e) ∨
    ∃ err err', r.finish n = .error err ∧ r.finish n' = .error err' ∧ err.Alike err' := by
  unfold finish
  cases r.condition? with
  | some e => exact .inl ⟨e, rfl, rfl⟩
  | none => exact .inr ⟨_, _, rfl, rfl, rfl, rfl, rfl⟩

theorem run_congr {n n' : Nat} {ts ts' : List Token}
    (h : ts.map Token.bare = ts'.map Token.bare) :
    (∃ e, r.run n ts = .ok e ∧ r.run n' ts' = .ok e) ∨
      ∃ err err', r.run n ts = .error err ∧ r.run n' ts' = .error err' ∧ err.Alike err' := by
  induction ts generalizing r n n' ts' with
  | nil =>
    obtain rfl : ts' = [] := List.map_eq_nil_iff.1 h.symm
    exact finish_congr n n'
  | cons t ts ih =>
    obtain ⟨t', ts', rfl, ht, hts⟩ := List.map_eq_cons_iff.1 h.symm
    obtain ⟨hkind, htext⟩ := Prod.mk.inj ht
    rw [run, run, hkind]
    by_cases hstop : t.kind = .stop
    · rw [if_pos hstop, if_pos hstop]
      exact finish_congr n n'
    · rw [if_neg hstop, if_neg hstop]
      have htake : r.take? t' = r.take? t :=
        take?_congr hkind fun _ => by rw [Token.unquoted, Token.unquoted, htext]
      rw [htake]
      cases r.take? t with
      | some next => exact ih hts.symm
      | none =>
        refine .inr ⟨_, _, rfl, rfl, ?_, rfl, congrArg some ht.symm⟩
        simp only [SyntaxError.cause, hkind]

end Reading

namespace Spacing

theorem bare_tokensOf (n : Nat) (items : List (List Char × Lexeme)) (rest : List Char) :
    (tokensOf n items rest).map Token.bare =
      (items.map Prod.snd).map (fun x => (x.kind, String.ofList x.chars)) ++ [(.stop, "")] := by
  induction items generalizing n with
  | nil => rfl
  | cons item items ih =>
    rw [tokensOf, List.map_cons, ih]
    rfl

theorem read?_text {w : Spacing} (h : w.lexemes ≠ []) :
    Pattern.read? w.text = some ((Condition.ofTokens w.tokens).mapError ([·])) := by
  rw [Pattern.read?, w.tokens?_text h]
  rfl

/-- **Spaces.** The words of the language are the literals of the lexicon. A text has tokens with
the end of the pattern behind them exactly if it is such words and quoted values, at least one,
with any runs of spaces before, between and after them, and then the tokens are these lexemes where
they stand. Two such texts with the same lexemes are read as the same condition, or else with two
errors that differ in the column alone. -/
theorem tokens_iff_spacing :
    (∀ k word, (k, Matcher.literal word) ∈ Lexicon.standard ↔
      (Lexeme.word k).Readable ∧ word.toList = (Lexeme.word k).chars) ∧
    (∀ s ts, Lexicon.standard.tokens? s = some ts ∧ ts.getLast?.map Token.kind = some .stop ↔
      ∃ w : Spacing, w.lexemes ≠ [] ∧ w.text = s ∧ w.tokens = ts) ∧
    ∀ v w : Spacing, v.lexemes = w.lexemes → v.lexemes ≠ [] →
      (∃ e, Pattern.read? v.text = some (.ok e) ∧ Pattern.read? w.text = some (.ok e)) ∨
      ∃ err err', Pattern.read? v.text = some (.error [err]) ∧
        Pattern.read? w.text = some (.error [err']) ∧ err.Alike err' := by
  refine ⟨fun k word => ?_, fun s ts => ⟨fun h => ?_, fun h => ?_⟩, fun v w hvw hv => ?_⟩
  · simp [mem_standard_iff, Lexeme.Readable, Lexeme.chars, String.toList_inj]
  · obtain ⟨htokens, hend⟩ := h
    unfold Lexicon.tokens? at htokens
    split at htokens
    · cases htokens
    · rename_i hblank
      obtain rfl := Option.some.inj htokens
      obtain ⟨w, hchars, hts⟩ := (Lexicon.lexed_scan 0 s.toList).exists_spacing hend
      have htext : w.text = s := by rw [text, hchars, String.ofList_toList]
      refine ⟨w, fun hnil => hblank ?_, htext, hts⟩
      rw [← htext]
      exact w.isBlank_text_iff.2 hnil
  · obtain ⟨w, hw, rfl, rfl⟩ := h
    exact ⟨w.tokens?_text hw, last_tokensOf ..⟩
  · have hbare : v.tokens.map Token.bare = w.tokens.map Token.bare := by
      rw [tokens, tokens, bare_tokensOf, bare_tokensOf]
      exact congrArg (fun xs => xs.map (fun x => (x.kind, String.ofList x.chars)) ++ [_]) hvw
    rw [read?_text hv, read?_text (hvw ▸ hv), Condition.ofTokens, Condition.ofTokens]
    rcases Reading.run_congr hbare with ⟨e, hrun, hrun'⟩ | ⟨err, err', hrun, hrun', halike⟩
    · rw [hrun, hrun']
      exact .inl ⟨e, rfl, rfl⟩
    · rw [hrun, hrun']
      exact .inr ⟨err, err', rfl, rfl, halike⟩

/-- One attribute right behind another one whose name it begins with, where an operator is due. -/
def misplaced : List Lexeme :=
  [.word .negation, .word .opening, .word (.attr .fromPartyId), .word (.attr .fromPartyIdType)]

/-- The same run of spaces everywhere. -/
def ofMisplaced (gap : List Char) (hgap : Spaces gap) : Spacing where
  items := misplaced.map (gap, ·)
  rest := gap
  gaps := List.forall_mem_map.2 fun _ _ => hgap
  readable := List.forall_mem_map.2 (by simp [misplaced, Lexeme.Readable, Kind.hasOneLexeme])
  blank := hgap

/-- Without spaces the two attributes are still two tokens, and with spaces the error is the same
one at another column. -/
theorem misplaced_with_and_without_spaces :
    ∃ v w : Spacing, v.lexemes = w.lexemes ∧ v.lexemes ≠ [] ∧
      v.text = "not(FromPartyIdFromPartyIdType" ∧
      w.text = "\tnot\t(\tFromPartyId\tFromPartyIdType\t" ∧
      (∃ ts, Lexicon.standard.tokens? v.text = some ts ∧ ts.map Token.start = [0, 3, 4, 15, 30]) ∧
      ∃ err err', Pattern.read? v.text = some (.error [err]) ∧
        Pattern.read? w.text = some (.error [err']) ∧ err.Alike err' ∧
        err.column = 4 ∧ err'.column = 7 := by
  let v := ofMisplaced [] .nil
  let w := ofMisplaced ['\t'] (by simp [Spaces, Pattern.isSpace])
  have hv : v.lexemes ≠ [] := by decide
  have hread : Pattern.read? v.text =
      some (.error [.unexpected ⟨.attr .fromPartyId, "FromPartyId", 4, 15⟩ Reading.operators]) := by
    decide +kernel
  have hread' : Pattern.read? w.text =
      some (.error [.unexpected ⟨.attr .fromPartyId, "FromPartyId", 7, 18⟩ Reading.operators]) := by
    decide +kernel
  obtain ⟨-, htokens, houtcome⟩ := tokens_iff_spacing
  refine ⟨v, w, rfl, hv, by decide +kernel, by decide +kernel,
    ⟨v.tokens, ((htokens _ _).2 ⟨v, hv, rfl, rfl⟩).1, by decide +kernel⟩, _, _, hread, hread', ?_,
    rfl, rfl⟩
  rcases houtcome v w rfl hv with ⟨e, he, -⟩ | ⟨err, err', herr, herr', halike⟩
  · rw [hread] at he
    cases he
  · rw [hread] at herr
    rw [hread'] at herr'
    cases herr
    cases herr'
    exact halike

end Spacing
end BackendRouting
