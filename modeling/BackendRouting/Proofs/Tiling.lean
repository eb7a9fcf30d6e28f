import BackendRouting.Proofs.Lexing
import Mathlib.Data.List.DropRight

/-!
# The tokens tile their text

The tokens of a text stand in it one behind the other, each with just the characters it covers,
and nothing but spaces is left in between (`Tiled`). Nothing is lost that way: the gaps and the
tokens, one after the other, are the text.

All places are counted from the start of the whole text, so a scan that has come to the middle
of it is told together with the characters before that place.

* `Tiled.weave_gaps`: a text is put together from its gaps and its tokens.
* `Lexed.tiled`, `Lexed.exists_last`: where the tokens stand, and what they are.
* `tokens_tile_text`: all of this for the tokens of a pattern; only blank text has none.
-/
namespace BackendRouting

open Pattern (isSpace)

/-! ## Blank text -/

namespace Text

/-- What is left without the white space at both ends. -/
def trimmed (s : String) : List Char :=
  (s.toList.dropWhile isWhiteSpace).rdropWhile isWhiteSpace

theorem isBlank_iff_trimmed {s : String} : isBlank s = true ↔ trimmed s = [] := by
  rw [isBlank, trimmed, List.all_eq_true, List.rdropWhile_eq_nil_iff]
  constructor
  · intro h c hc
    exact h c ((List.dropWhile_sublist _).subset hc)
  · intro h c hc
    rw [← List.takeWhile_append_dropWhile (p := isWhiteSpace) (l := s.toList)] at hc
    rcases List.mem_append.1 hc with hc | hc
    · exact List.all_eq_true.1 List.all_takeWhile c hc
    · exact h c hc

theorem isWhiteSpace_of_isSpace {c : Char} (h : isSpace c = true) : isWhiteSpace c = true := by
  simp only [isSpace, Bool.or_eq_true, beq_iff_eq, Bool.and_eq_true, decide_eq_true_eq] at h
  rcases h with rfl | ⟨hlo, hhi⟩
  · decide
  · simp [isWhiteSpace, whiteSpace, hlo, hhi]

theorem isBlank_of_spaces {s : String} (h : Spaces s.toList) : isBlank s = true :=
  List.all_eq_true.2 fun c hc => isWhiteSpace_of_isSpace (h c hc)

end Text

/-! ## Gaps -/

namespace Token

/-- The characters that no token covers: those in front of each token, from the place that was
reached before it, and those behind the last one. -/
def gaps (cs : List Char) : (reached : Nat) → List Token → List (List Char)
  | reached, [] => [cs.drop reached]
  | reached, t :: ts => cs.extract reached t.start :: gaps cs t.stop ts

/-- Gaps and tokens, one after the other. -/
def weave : List (List Char) → List Token → List Char
  | gap :: gaps, t :: ts => gap ++ (t.text.toList ++ weave gaps ts)
  | gaps, _ => gaps.flatten

end Token

/-- The tokens stand in the text one behind the other, from the place `reached` on; each covers
the characters it has for its text, and there are only spaces between them. -/
structure Tiled (cs : List Char) (reached : Nat) (ts : List Token) : Prop where
  inside : ∀ t ∈ ts, reached ≤ t.start ∧ t.start ≤ t.stop ∧ t.stop ≤ cs.length
  ordered : ts.Pairwise fun t u => t.stop ≤ u.start
  text : ∀ t ∈ ts, t.text.toList = cs.extract t.start t.stop
  spaces : ∀ gap ∈ Token.gaps cs reached ts, Spaces gap

theorem extract_append_drop {cs : List Char} {i j : Nat} (h : i ≤ j) :
    cs.extract i j ++ cs.drop j = cs.drop i := by
  have hj : cs.drop j = (cs.drop i).drop (j - i) := by
    rw [List.drop_drop, show i + (j - i) = j by omega]
  rw [hj]
  exact List.take_append_drop ..

theorem extract_middle (pre w rest : List Char) :
    (pre ++ (w ++ rest)).extract pre.length (pre.length + w.length) = w := by
  simp

namespace Tiled

variable {cs : List Char} {reached : Nat} {t : Token} {ts : List Token}

theorem tail (h : Tiled cs reached (t :: ts)) : Tiled cs t.stop ts where
  inside u hu := ⟨(List.pairwise_cons.1 h.ordered).1 u hu,
    (h.inside u (List.mem_cons_of_mem _ hu)).2⟩
  ordered := (List.pairwise_cons.1 h.ordered).2
  text u hu := h.text u (List.mem_cons_of_mem _ hu)
  spaces gap hgap := h.spaces gap (List.mem_cons_of_mem _ hgap)

/-- The text from a place on is the gaps and the tokens from there on. -/
theorem weave_gaps (h : Tiled cs reached ts) :
    Token.weave (Token.gaps cs reached ts) ts = cs.drop reached := by
  induction ts generalizing reached with
  | nil => simp [Token.gaps, Token.weave]
  | cons t ts ih =>
    obtain ⟨hstart, hstop, -⟩ := h.inside t List.mem_cons_self
    rw [Token.gaps, Token.weave, ih h.tail, h.text t List.mem_cons_self,
      extract_append_drop hstop, extract_append_drop hstart]

theorem nil (h : Spaces (cs.drop reached)) : Tiled cs reached [] where
  inside := by simp
  ordered := .nil
  text := by simp
  spaces := by simpa [Token.gaps] using h

/-- A gap and a token more, in front of a place from which on the text is tiled. -/
theorem cons {pre g : List Char} (rest : List Char)
    (hcs : cs = pre ++ (g ++ (t.text.toList ++ rest))) (hg : Spaces g)
    (hstart : t.start = pre.length + g.length)
    (hstop : t.stop = t.start + t.text.toList.length) (h : Tiled cs t.stop ts) :
    Tiled cs pre.length (t :: ts) where
  inside := by
    refine List.forall_mem_cons.2 ⟨⟨by omega, by omega, ?_⟩, fun u hu => ?_⟩
    · rw [hcs]
      simp only [List.length_append]
      omega
    · obtain ⟨hu, hrest⟩ := h.inside u hu
      exact ⟨by omega, hrest⟩
  ordered := List.pairwise_cons.2 ⟨fun u hu => (h.inside u hu).1, h.ordered⟩
  text := by
    refine List.forall_mem_cons.2 ⟨?_, h.text⟩
    rw [hstop, hstart, hcs, ← List.append_assoc, ← List.length_append, extract_middle]
  spaces := by
    refine List.forall_mem_cons.2 ⟨?_, h.spaces⟩
    rw [hstart, hcs, extract_middle]
    exact hg

end Tiled

/-! ## Tokens of a scan -/

namespace Token

/-- The token is what an entry of the lexicon of its kind took from the text, and no run of
spaces. It is no end either. -/
structure ReadFrom (cs : List Char) (t : Token) : Prop where
  nonempty : t.start < t.stop
  taken : t.kind.Takes t.text.toList (cs.drop t.start)
  notSpace : t.kind ≠ .space
  notEnd : t.kind ≠ .stop ∧ t.kind ≠ .illegal

/-- The token is the rest of the text, and no entry of the lexicon takes anything from it. -/
structure StuckIn (cs : List Char) (t : Token) : Prop where
  illegal : t.kind = .illegal
  nonempty : t.start < t.stop
  rest : t.stop = cs.length
  stuck : ∀ k w, ¬ Kind.Takes k w (cs.drop t.start)

end Token

theorem Lexeme.readFrom_token {x : Lexeme} {pre cs : List Char} (hx : x.Readable) :
    (x.token pre.length).ReadFrom (pre ++ (x.chars ++ cs)) where
  nonempty := by
    have := List.length_pos_iff.2 (chars_ne_nil hx)
    simp only [token]
    omega
  taken := by
    rw [token, String.toList_ofList, List.drop_left]
    exact Kind.Takes.iff.2 (.inr ⟨x, hx, rfl, rfl, List.prefix_append ..⟩)
  notSpace := kind_ne hx rfl nofun
  notEnd := ⟨kind_ne hx rfl nofun, kind_ne hx rfl nofun⟩

namespace Lexed

variable {n : Nat} {cs : List Char} {ts : List Token}

theorem tiled (h : Lexed n cs ts) (pre : List Char) (hpre : pre.length = n) :
    Tiled (pre ++ cs) n ts := by
  induction h generalizing pre with
  | @blank n g hg =>
    subst hpre
    have hrest : Tiled (pre ++ g) (pre.length + g.length) [] := .nil (by simp [Spaces])
    exact .cons [] (by simp [Token.ending]) hg rfl rfl hrest
  | @stuck n g cs hg hne hnone =>
    subst hpre
    have hrest : Tiled (pre ++ (g ++ cs)) (pre.length + g.length + cs.length) [] :=
      .nil (by rw [List.drop_eq_nil_of_le (by simp [Nat.add_assoc])]; exact .nil)
    exact .cons [] (by simp) hg rfl (by simp) hrest
  | @lexeme n g x cs ts hg hx hcut _ ih =>
    subst hpre
    have hrest := ih (pre ++ g ++ x.chars) (by simp [Nat.add_assoc])
    exact .cons cs (by simp [Lexeme.token]) hg rfl (by simp [Lexeme.token])
      (by simpa [Lexeme.token] using hrest)

/-- The last token of a scan is the end of the text or the rest of it that cannot be read, and
every other one has been read. Where nothing is read before the end, the text is spaces. -/
theorem exists_last (h : Lexed n cs ts) (pre : List Char) (hpre : pre.length = n) :
    ∃ before last, ts = before ++ [last] ∧ (∀ t ∈ before, t.ReadFrom (pre ++ cs)) ∧
      (last = Token.ending (pre ++ cs).length ∧ (before = [] → Spaces cs) ∨
        last.StuckIn (pre ++ cs)) := by
  induction h generalizing pre with
  | @blank n g hg =>
    subst hpre
    exact ⟨[], _, rfl, by simp, .inl ⟨by simp, fun _ => hg⟩⟩
  | @stuck n g cs hg hne hnone =>
    subst hpre
    have hpos := List.length_pos_iff.2 hne
    refine ⟨[], _, rfl, by simp, .inr ⟨rfl, Nat.lt_add_of_pos_right hpos,
      by simp [Nat.add_assoc], ?_⟩⟩
    intro k w htakes
    have hrest : (pre ++ (g ++ cs)).drop (pre.length + g.length) = cs := by simp
    have hsome := Lexicon.first?_isSome htakes
    rw [hrest, hnone] at hsome
    cases hsome
  | @lexeme n g x cs ts hg hx hcut _ ih =>
    subst hpre
    obtain ⟨before, last, rfl, hbefore, hlast⟩ :=
      ih (pre ++ g ++ x.chars) (by simp [Nat.add_assoc])
    have htext : pre ++ g ++ x.chars ++ cs = pre ++ (g ++ (x.chars ++ cs)) := by simp
    rw [htext] at hbefore hlast
    have hread : (x.token (pre ++ g).length).ReadFrom (pre ++ g ++ (x.chars ++ cs)) :=
      Lexeme.readFrom_token hx
    rw [List.append_assoc, List.length_append] at hread
    exact ⟨_ :: before, last, rfl, List.forall_mem_cons.2 ⟨hread, hbefore⟩,
      hlast.imp_left fun h => ⟨h.1, nofun⟩⟩

end Lexed

namespace Lexicon

/-- **Tokens.** A text has no tokens exactly if nothing is left of it once white space is
trimmed. Otherwise its tokens stand in it one behind the other, each with the characters it
covers, there are only spaces between them, and gaps and tokens together are the text. The last
token is the empty one at the end of the text, with another one before it, or it is all that is
left where no entry of the lexicon takes anything; each token before it was taken by an entry of
its kind, other than the spaces. -/
theorem tokens_tile_text (s : String) :
    (standard.tokens? s = none ↔ Text.trimmed s = []) ∧
    ∀ ts, standard.tokens? s = some ts →
      Tiled s.toList 0 ts ∧ Token.weave (Token.gaps s.toList 0 ts) ts = s.toList ∧
      ∃ before last, ts = before ++ [last] ∧ (∀ t ∈ before, t.ReadFrom s.toList) ∧
        (last = Token.ending s.toList.length ∧ before ≠ [] ∨ last.StuckIn s.toList) := by
  rw [← Text.isBlank_iff_trimmed, tokens?]
  cases hblank : Text.isBlank s with
  | true => simp
  | false =>
    refine ⟨by simp, fun ts hts => ?_⟩
    obtain rfl : standard.scan 0 s.toList = ts := by simpa using hts
    have hlexed := lexed_scan 0 s.toList
    have htiled : Tiled s.toList 0 (standard.scan 0 s.toList) := hlexed.tiled [] rfl
    obtain ⟨before, last, hts, hbefore, hlast⟩ := hlexed.exists_last [] rfl
    refine ⟨htiled, htiled.weave_gaps, before, last, hts, hbefore, hlast.imp_left fun hend => ?_⟩
    refine ⟨hend.1, fun hnone => ?_⟩
    rw [Text.isBlank_of_spaces (hend.2 hnone)] at hblank
    cases hblank

/-- A word behind spaces, and then white space that is no space of the language: the word is
read and the rest is not. -/
theorem tiles_unread_rest :
    ∃ ts, standard.tokens? "\t not\u00a0(" = some ts ∧ ts.map Token.kind = [.negation, .illegal] ∧
      Tiled "\t not\u00a0(".toList 0 ts ∧
      Token.weave ["\t ".toList, [], []] ts = "\t not\u00a0(".toList ∧
      ∃ read stuck, ts = [read, stuck] ∧ read.ReadFrom "\t not\u00a0(".toList ∧
        stuck.StuckIn "\t not\u00a0(".toList := by
  have htokens : standard.tokens? "\t not\u00a0(" =
      some [⟨.negation, "not", 2, 5⟩, ⟨.illegal, "\u00a0(", 5, 7⟩] := by decide +kernel
  obtain ⟨htiled, hweave, before, last, hts, hbefore, hlast⟩ :=
    (tokens_tile_text "\t not\u00a0(").2 _ htokens
  obtain ⟨rfl, hlast'⟩ := List.append_inj' (show [_] ++ [_] = before ++ [last] from hts) rfl
  obtain rfl := List.singleton_inj.1 hlast'
  refine ⟨_, htokens, rfl, htiled, hweave, _, _, rfl, hbefore _ List.mem_cons_self, ?_⟩
  rcases hlast with hend | hstuck
  · exact absurd (congrArg Token.kind hend.1) nofun
  · exact hstuck

end Lexicon
end BackendRouting
