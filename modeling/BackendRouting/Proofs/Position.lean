import BackendRouting.Proofs.Spacing
import BackendRouting.Proofs.Viable

/-!
# Where an error stands in its text

A reading takes the tokens one after the other until one cannot follow (`Reading.accepted`). The
error is put where that token starts, or behind the last accepted token if the text ends there.
Either way it is put between two tokens of the text, and a text that is cut at such a place has the
tokens before the cut: lexemes are not taken apart by a cut, and none of them becomes another one.

* `Reading.exists_rest`: the accepted tokens, and the one behind them that is not taken.
* `Lexed.take`: cutting a text between two tokens.
* `Lexed.last_of_end`: the end and the illegal rest reach to the end of the text.
* `error_stands_in_text`: the column of an error, the token found there, and what stands before it.
-/
namespace BackendRouting

/-! ## The tokens that are taken -/

namespace Reading

/-- The tokens that a reading takes, one after the other, up to the first that cannot follow. -/
def accepted (r : Reading) : List Token → List Token
  | [] => []
  | t :: ts => match r.take? t with
    | some next => t :: next.accepted ts
    | none => []

variable {r next : Reading} {t : Token}

theorem kind_of_take? (h : r.take? t = some next) : t.kind ≠ .stop ∧ t.kind ≠ .illegal := by
  unfold take? at h
  split at h <;> simp_all

/-- What is left behind the accepted tokens starts with one that is not taken. -/
theorem exists_rest (r : Reading) (ts : List Token) : ∃ next rest,
    ts = r.accepted ts ++ rest ∧ r.after? ((r.accepted ts).map Token.lexeme) = some next ∧
      (∀ t ∈ r.accepted ts, t.kind ≠ .stop ∧ t.kind ≠ .illegal) ∧
        ∀ t ∈ rest.head?, next.take? t = none := by
  induction ts generalizing r with
  | nil => exact ⟨r, [], rfl, rfl, by simp [accepted], by simp⟩
  | cons t ts ih =>
    rw [accepted]
    cases htake : r.take? t with
    | none => exact ⟨r, t :: ts, rfl, rfl, by simp, by simpa using htake⟩
    | some r' =>
      obtain ⟨next, rest, hts, hafter, hkinds, hrest⟩ := ih r'
      refine ⟨next, rest, congrArg (t :: ·) hts, ?_,
        List.forall_mem_cons.2 ⟨kind_of_take? htake, hkinds⟩, hrest⟩
      rw [List.map_cons, after?_cons, ← take?_eq_next?, htake]
      exact hafter

end Reading

open Reading (reached reached_cons)

/-! ## Places between tokens -/

namespace Tiled

variable {cs : List Char} {n : Nat} {t : Token} {before after : List Token}

theorem reached_le (h : Tiled cs n (before ++ t :: after)) :
    n ≤ reached n before ∧ reached n before ≤ t.start := by
  induction before generalizing n with
  | nil => exact ⟨Nat.le_refl n, (h.inside t (by simp)).1⟩
  | cons u before ih =>
    obtain ⟨hlo, hhi⟩ := ih h.tail
    obtain ⟨hstart, hstop, -⟩ := h.inside u (by simp)
    rw [reached_cons]
    exact ⟨by omega, hhi⟩

theorem spaces_before (h : Tiled cs n (before ++ t :: after)) :
    Spaces (cs.extract (reached n before) t.start) := by
  induction before generalizing n with
  | nil => exact h.spaces _ List.mem_cons_self
  | cons u before ih =>
    rw [reached_cons]
    exact ih h.tail

end Tiled

namespace Lexed

variable {n p : Nat} {cs g : List Char} {t : Token} {before after : List Token}

theorem reached_le (h : Lexed n cs (before ++ t :: after)) :
    n ≤ reached n before ∧ reached n before ≤ t.start :=
  (h.tiled (List.replicate n ' ') List.length_replicate).reached_le

theorem take_gap (cs : List Char) (hg : Spaces g) (hlo : n ≤ p) (hhi : p ≤ n + g.length) :
    Lexed n ((g ++ cs).take (p - n)) [Token.ending p] := by
  rw [List.take_append_of_le_length (by omega)]
  have hspaces : Spaces (g.take (p - n)) := fun c hc => hg c (List.mem_of_mem_take hc)
  have hblank : Lexed n (g.take (p - n)) [Token.ending (n + (g.take (p - n)).length)] :=
    .blank hspaces
  rwa [List.length_take, show n + min (p - n) g.length = p by omega] at hblank

/-- A text that is cut between two tokens has the tokens before the cut. -/
theorem take (h : Lexed n cs (before ++ t :: after)) (hlo : reached n before ≤ p)
    (hhi : p ≤ t.start) : Lexed n (cs.take (p - n)) (before ++ [Token.ending p]) := by
  generalize hts : before ++ t :: after = ts at h
  induction h generalizing before with
  | @blank n g hg =>
    cases before with
    | nil =>
      obtain ⟨rfl, -⟩ := List.cons.inj hts
      have hgap : Lexed n ((g ++ []).take (p - n)) [Token.ending p] := take_gap [] hg hlo hhi
      rwa [List.append_nil] at hgap
    | cons u before => simp at hts
  | @stuck n g cs hg hne hnone =>
    cases before with
    | nil =>
      obtain ⟨rfl, -⟩ := List.cons.inj hts
      exact take_gap cs hg hlo hhi
    | cons u before => simp at hts
  | @lexeme n g x cs ts hg hx hcut hlexed ih =>
    cases before with
    | nil =>
      -- the cut is in the gap in front of the lexeme, so only spaces are left
      obtain ⟨rfl, -⟩ := List.cons.inj hts
      exact take_gap _ hg hlo hhi
    | cons u before =>
      -- the lexeme stays whole, and what follows it is a beginning of what followed before
      obtain ⟨rfl, rfl⟩ := List.cons.inj hts
      rw [reached_cons] at hlo
      have hle : n + g.length + x.chars.length ≤ p := hlexed.reached_le.1.trans hlo
      have hrest := ih hlo rfl
      have hcut' : ¬ x.Cut (cs.take (p - (n + g.length + x.chars.length))) := fun h =>
        hcut ⟨h.1, h.2.trans (List.take_prefix ..)⟩
      have htake : (g ++ (x.chars ++ cs)).take (p - n) =
          g ++ (x.chars ++ cs.take (p - (n + g.length + x.chars.length))) := by
        rw [List.take_append, List.take_append, List.take_of_length_le (by omega),
          List.take_of_length_le (by omega)]
        congr 3
        omega
      rw [htake]
      exact .lexeme hg hx hcut' hrest

end Lexed

theorem Spacing.length_tokensOf (n : Nat) (items : List (List Char × Lexeme)) (rest : List Char) :
    (tokensOf n items rest).length = items.length + 1 := by
  induction items generalizing n with
  | nil => rfl
  | cons item items ih => rw [tokensOf, List.length_cons, ih, List.length_cons]

namespace Lexed

variable {s : String} {p : Nat} {t : Token} {ts before after : List Token}

/-- Only a text without tokens is blank. -/
theorem isBlank_iff (h : Lexed 0 s.toList (before ++ [Token.ending p])) :
    Text.isBlank s = true ↔ before = [] := by
  obtain ⟨w, hchars, hts⟩ := h.exists_spacing (by simp [Token.ending])
  have htext : w.text = s := by rw [Spacing.text, hchars, String.ofList_toList]
  have hlength := congrArg List.length hts
  rw [Spacing.length_tokensOf, List.length_append, List.length_singleton,
    Nat.add_right_cancel_iff] at hlength
  rw [← htext, w.isBlank_text_iff, Spacing.lexemes, List.map_eq_nil_iff,
    ← List.length_eq_zero_iff, hlength, List.length_eq_zero_iff]

theorem tokens?_eq (h : Lexed 0 s.toList ts) (hblank : Text.isBlank s = false) :
    Lexicon.standard.tokens? s = some ts := by
  rw [Lexicon.tokens?, hblank, Lexicon.scan_eq_iff.2 h]
  rfl

theorem exists_end {n : Nat} {cs : List Char} (h : Lexed n cs ts) :
    ∃ t ∈ ts, t.kind = .stop ∨ t.kind = .illegal := by
  induction h with
  | blank _ => exact ⟨_, List.mem_singleton_self _, .inl rfl⟩
  | stuck _ _ _ => exact ⟨_, List.mem_singleton_self _, .inr rfl⟩
  | lexeme _ _ _ _ ih =>
    obtain ⟨t, ht, hkind⟩ := ih
    exact ⟨t, List.mem_cons_of_mem _ ht, hkind⟩

/-- Only the last token of a text is no lexeme, and it reaches to the end of the text. -/
theorem last_of_end (h : Lexed 0 s.toList (before ++ t :: after))
    (ht : t.kind = .stop ∨ t.kind = .illegal) :
    after = [] ∧ (t.kind = .stop → t = Token.ending s.toList.length) ∧
      (t.kind = .illegal → t.stop = s.toList.length) := by
  obtain ⟨init, last, hts, hinit, hlast⟩ := h.exists_last [] rfl
  rcases List.eq_nil_or_concat after with rfl | ⟨after, x, rfl⟩
  · obtain ⟨rfl, hsame⟩ := List.append_inj' hts rfl
    obtain rfl := List.singleton_inj.1 hsame
    rcases hlast with hend | hstuck
    · exact ⟨rfl, fun _ => hend.1, fun hill => absurd (hend.1 ▸ hill) nofun⟩
    · exact ⟨rfl, fun hstop => absurd (hstuck.illegal.symm.trans hstop) nofun,
        fun _ => hstuck.rest⟩
  · have hts' : (before ++ t :: after) ++ [x] = init ++ [last] := by simpa using hts
    obtain ⟨rfl, -⟩ := List.append_inj' hts' rfl
    have hread := (hinit t (by simp)).notEnd
    exact absurd ht (not_or.2 hread)

/-- What stands before a place between two tokens has the tokens before that place. -/
theorem tokens?_take (h : Lexed 0 s.toList (before ++ t :: after)) (hlo : reached 0 before ≤ p)
    (hhi : p ≤ t.start) :
    (Text.isBlank (String.ofList (s.toList.take p)) = true ↔ before = []) ∧
      (Text.isBlank (String.ofList (s.toList.take p)) = false →
        Lexicon.standard.tokens? (String.ofList (s.toList.take p)) =
          some (before ++ [Token.ending p])) := by
  have htake : Lexed 0 (String.ofList (s.toList.take p)).toList (before ++ [Token.ending p]) := by
    rw [String.toList_ofList]
    exact h.take hlo hhi
  exact ⟨htake.isBlank_iff, htake.tokens?_eq⟩

end Lexed

/-! ## Errors -/

/-- The error stands in the text `s` behind the tokens `accepted`: at the next token, which covers
the characters it shows, or behind the last one, if only spaces are left. What stands before it has
these tokens and no others. -/
structure SyntaxError.StandsIn (err : SyntaxError) (s : String) (tokens accepted : List Token) :
    Prop where
  inside : err.column ≤ s.toList.length
  found : ∀ t, err.found? = some t → (∃ after, tokens = accepted ++ t :: after) ∧
    err.column = t.start ∧ s.toList.extract err.column t.stop = t.text.toList ∧
      (t.kind = .illegal → t.stop = s.toList.length)
  ended : err.found? = none → tokens = accepted ++ [Token.ending s.toList.length] ∧
    (∃ last, accepted.getLast? = some last ∧ err.column = last.stop) ∧
      Spaces (s.toList.drop err.column)
  blank : Text.isBlank (String.ofList (s.toList.take err.column)) = true ↔ accepted = []
  lexed : Text.isBlank (String.ofList (s.toList.take err.column)) = false →
    Lexicon.standard.tokens? (String.ofList (s.toList.take err.column)) =
      some (accepted ++ [Token.ending err.column])

namespace SyntaxError

variable {s : String} {t : Token} {accepted after : List Token} {expected : List Kind}

theorem standsIn_unexpected (h : Lexed 0 s.toList (accepted ++ t :: after)) :
    (unexpected t expected).StandsIn s (accepted ++ t :: after) accepted := by
  have htiled : Tiled s.toList 0 (accepted ++ t :: after) := h.tiled [] rfl
  obtain ⟨-, hstart, hstop⟩ := htiled.inside t (by simp)
  obtain ⟨hblank, hlexed⟩ := h.tokens?_take h.reached_le.2 (Nat.le_refl t.start)
  refine ⟨hstart.trans hstop, fun u hu => ?_, nofun, hblank, hlexed⟩
  obtain rfl : t = u := Option.some.inj hu
  exact ⟨⟨after, rfl⟩, rfl, (htiled.text t (by simp)).symm, fun hill =>
    (h.last_of_end (.inr hill)).2.2 hill⟩

theorem standsIn_endsEarly (hblank : Text.isBlank s = false)
    (h : Lexed 0 s.toList (accepted ++ [Token.ending s.toList.length])) :
    (endsEarly (reached 0 accepted) expected).StandsIn s
      (accepted ++ [Token.ending s.toList.length]) accepted := by
  have htiled : Tiled s.toList 0 (accepted ++ [Token.ending s.toList.length]) := h.tiled [] rfl
  have hle : reached 0 accepted ≤ s.toList.length := h.reached_le.2
  obtain ⟨hblank', hlexed⟩ := h.tokens?_take (Nat.le_refl _) hle
  refine ⟨hle, nofun, fun _ => ⟨rfl, ?_, ?_⟩, hblank', hlexed⟩
  · cases hlast : accepted.getLast? with
    | none =>
      rw [h.isBlank_iff.2 (List.getLast?_eq_none_iff.1 hlast)] at hblank
      cases hblank
    | some last => exact ⟨last, rfl, by simp [column, reached, hlast]⟩
  · have hrest : s.toList.extract (reached 0 accepted) s.toList.length =
        s.toList.drop (reached 0 accepted) := by
      rw [← extract_append_drop hle, List.drop_length, List.append_nil]
    exact hrest ▸ htiled.spaces_before

end SyntaxError

/-- **Places of errors.** A text that is not blank and is no pattern has one error. It stands in the
text behind the tokens that were accepted. If it shows a token, this is the next one: it starts at
the column of the error and covers the characters from there on, to the end of the text if it is
illegal. If it shows none, all tokens were accepted but the end, the column is the end of the last
one, and there are only spaces from there on. The text before the column is blank if no token was
accepted; otherwise it can be read up to its end, and its tokens are the accepted ones. -/
theorem error_stands_in_text (s : String) (hblank : Text.isBlank s = false)
    (hfail : ∀ e, Pattern.read? s ≠ some (.ok e)) :
    ∃ tokens err, Lexicon.standard.tokens? s = some tokens ∧
      Pattern.read? s = some (.error [err]) ∧
      err.StandsIn s tokens (Reading.initial.accepted tokens) := by
  have hlexed := Lexicon.lexed_scan 0 s.toList
  generalize hts : Lexicon.standard.scan 0 s.toList = tokens at hlexed
  have htokens : Lexicon.standard.tokens? s = some tokens := hlexed.tokens?_eq hblank
  obtain ⟨next, rest, hcut, hafter, hkinds, hrest⟩ := Reading.initial.exists_rest tokens
  generalize haccepted : Reading.initial.accepted tokens = accepted at *
  subst hcut
  have hread : Pattern.read? s =
      some ((next.run (reached 0 accepted) rest).mapError ([·])) := by
    rw [Pattern.read?, htokens, Option.map_some, Condition.ofTokens,
      Reading.run_append (fun t ht => (hkinds t ht).1) hafter]
  cases rest with
  | nil =>
    obtain ⟨t, ht, hend⟩ := hlexed.exists_end
    exact absurd hend (not_or.2 (hkinds t (by simpa using ht)))
  | cons t after =>
    by_cases hstop : t.kind = .stop
    · obtain ⟨rfl, hend, -⟩ := hlexed.last_of_end (.inl hstop)
      obtain rfl := hend hstop
      rw [Reading.run, if_pos hstop, Reading.finish] at hread
      cases hcondition : next.condition? with
      | some e =>
        rw [hcondition] at hread
        exact absurd hread (hfail e)
      | none =>
        rw [hcondition] at hread
        refine ⟨_, _, htokens, hread, ?_⟩
        rw [haccepted]
        exact SyntaxError.standsIn_endsEarly hblank hlexed
    · rw [Reading.run, if_neg hstop, hrest t rfl] at hread
      refine ⟨_, _, htokens, hread, ?_⟩
      rw [haccepted]
      exact SyntaxError.standsIn_unexpected hlexed

/-- The illegal rest stands behind six characters, and the text before it has the two tokens that
were accepted. -/
theorem stands_before_illegal_rest :
    ∃ err, Pattern.read? "\tnot( \u00e9 \u00e9" = some (.error [err]) ∧ err.column = 6 ∧
      err.found? = some ⟨.illegal, "\u00e9 \u00e9", 6, 9⟩ ∧
      Lexicon.standard.tokens? "\tnot( " =
        some [⟨.negation, "not", 1, 4⟩, ⟨.opening, "(", 4, 5⟩, .ending 6] := by
  have htokens : Lexicon.standard.tokens? "\tnot( \u00e9 \u00e9" =
      some [⟨.negation, "not", 1, 4⟩, ⟨.opening, "(", 4, 5⟩,
        ⟨.illegal, "\u00e9 \u00e9", 6, 9⟩] := by decide +kernel
  have hread : Pattern.read? "\tnot( \u00e9 \u00e9" = some (.error
      [.unexpected ⟨.illegal, "\u00e9 \u00e9", 6, 9⟩ Reading.operators]) := by decide +kernel
  obtain ⟨tokens, err, htokens', hread', hstands⟩ := error_stands_in_text "\tnot( \u00e9 \u00e9"
    (by decide) fun e he => by rw [hread] at he; cases he
  rw [htokens] at htokens'
  rw [hread] at hread'
  cases htokens'
  cases hread'
  exact ⟨_, hread, rfl, rfl, hstands.lexed (by decide)⟩

/-- The error stands in front of the spaces at the end. -/
example : Pattern.read? "not(equals(Action, 'x') \n" =
    some (.error [.endsEarly 23 [.closing]]) := by
  decide +kernel

end BackendRouting
