import BackendRouting.Proofs.Position

/-!
# Texts one behind the other

A text that can be read up to its end keeps its tokens whatever stands behind it, and what stands
behind it has the tokens that it has by itself, further on. Spaces on both sides of the seam run
together, and no lexeme goes across it but one: `FromPartyId` becomes a longer attribute if `Type`
stands right behind it.

* `Lexed.shift`: the tokens of a text that starts further on.
* `Lexed.append`: the tokens of two texts, if the last lexeme of the first one is not cut.
* `Lexed.exists_uncut`: a lexeme that is read is not cut, so in the exceptional case the law fails.
* `tokens_of_concatenation`: all of this for the tokens of two patterns.
-/
namespace BackendRouting

/-- The token, `k` characters further on. -/
def Token.shift (k : Nat) (t : Token) : Token :=
  { t with start := k + t.start, stop := k + t.stop }

/-- The lexeme is the last one of the tokens, and the text ends right behind it. -/
def Lexeme.Ends (x : Lexeme) (ts : List Token) : Prop :=
  ∃ n, [x.token n, Token.ending (n + x.chars.length)] <:+ ts

namespace Lexed

variable {n p m k : Nat} {cs ds g : List Char} {x : Lexeme} {ts before after : List Token}

/-! ## Tokens further on -/

theorem shift (k : Nat) (h : Lexed n cs ts) : Lexed (k + n) cs (ts.map (Token.shift k)) := by
  induction h with
  | @blank n g hg =>
    have hblank : Lexed (k + n) g [Token.ending (k + n + g.length)] := .blank hg
    simpa only [List.map_cons, List.map_nil, Token.shift, Token.ending, Nat.add_assoc] using hblank
  | @stuck n g cs hg hne hnone =>
    have hstuck : Lexed (k + n) (g ++ cs) _ := .stuck hg hne hnone
    simpa only [List.map_cons, List.map_nil, Token.shift, Nat.add_assoc] using hstuck
  | @lexeme n g x cs ts hg hx hcut _ ih =>
    rw [← Nat.add_assoc, ← Nat.add_assoc] at ih
    have hlexeme : Lexed (k + n) (g ++ (x.chars ++ cs)) _ := .lexeme hg hx hcut ih
    simpa only [List.map_cons, Token.shift, Lexeme.token, Nat.add_assoc] using hlexeme

/-! ## The seam -/

theorem spaces_append (hg : Spaces g) (h : Lexed (n + g.length) cs ts) : Lexed n (g ++ cs) ts :=
  Lexicon.scan_eq_iff.1 ((Lexicon.scan_spaces hg).trans (Lexicon.scan_eq_iff.2 h))

theorem eq_nil_of_nil (h : Lexed n [] (before ++ [Token.ending p])) : before = [] ∧ p = n := by
  have hscan := Lexicon.scan_eq_iff.2 h
  rw [Lexicon.scan_nil] at hscan
  obtain ⟨rfl, hend⟩ := List.append_inj' (show [] ++ [_] = before ++ [_] from hscan) rfl
  exact ⟨rfl, (congrArg Token.start (List.singleton_inj.1 hend)).symm⟩

/-- A text that is read up to its end does not start with the rest of an attribute's name. -/
theorem head?_ne (h : Lexed n cs (before ++ [Token.ending p])) : cs.head? ≠ some 'T' := by
  obtain ⟨w, rfl, -⟩ := h.exists_spacing (by simp [Token.ending])
  exact (Spacing.written_charsOf w.gaps w.blank).head?_ne (List.forall_mem_map.2 w.readable)

/-- What is read up to its end keeps its tokens in front of another text, unless its last lexeme is
cut there. -/
theorem append (h : Lexed n cs (before ++ [Token.ending p])) (h' : Lexed p ds ts)
    (hseam : ∀ x : Lexeme, x.Ends (before ++ [Token.ending p]) → ¬ x.Cut ds) :
    Lexed n (cs ++ ds) (before ++ ts) := by
  generalize hread : before ++ [Token.ending p] = read at h
  induction h generalizing before with
  | @blank n g hg =>
    obtain ⟨rfl, hend⟩ := List.append_inj' (show before ++ [_] = [] ++ [_] from hread) rfl
    obtain rfl : p = n + g.length := congrArg Token.start (List.singleton_inj.1 hend)
    exact h'.spaces_append hg
  | stuck hg hne hnone =>
    obtain ⟨-, hend⟩ := List.append_inj' (show before ++ [_] = [] ++ [_] from hread) rfl
    exact absurd (congrArg Token.kind (List.singleton_inj.1 hend)) nofun
  | @lexeme n g x cs read hg hx hcut hlexed ih =>
    cases before with
    | nil =>
      obtain ⟨hend, -⟩ := List.cons.inj hread
      exact absurd (congrArg Token.kind hend).symm (Lexeme.kind_ne hx rfl nofun)
    | cons t before =>
      obtain ⟨rfl, rfl⟩ := List.cons.inj hread
      have hcut' : ¬ x.Cut (cs ++ ds) := by
        cases cs with
        | nil =>
          -- the lexeme is the last one, so what follows it is the other text
          obtain ⟨rfl, rfl⟩ := hlexed.eq_nil_of_nil
          exact hseam x ⟨_, List.suffix_rfl⟩
        | cons c cs =>
          intro hcut'
          obtain ⟨-, rest, hrest⟩ := hcut'
          obtain ⟨rfl, -⟩ := List.cons.inj (show 'T' :: _ = c :: _ from hrest)
          exact hlexed.head?_ne rfl
      have hrest := ih (fun y hy =>
        hseam y (hy.imp fun _ hends => hends.trans (List.suffix_cons ..))) rfl
      rw [List.append_assoc, List.append_assoc]
      exact .lexeme hg hx hcut' hrest

/-- A lexeme that is read stands in its text, and what follows it does not cut it. -/
theorem exists_uncut (hx : x.Readable) (h : Lexed n cs (before ++ x.token m :: after)) :
    ∃ pre rest, cs = pre ++ (x.chars ++ rest) ∧ n + pre.length = m ∧ ¬ x.Cut rest := by
  generalize hts : before ++ x.token m :: after = ts at h
  induction h generalizing before with
  | @blank n g hg =>
    have hmem : x.token m ∈ [Token.ending (n + g.length)] := hts ▸ by simp
    have hkind := congrArg Token.kind (List.mem_singleton.1 hmem)
    exact absurd hkind (Lexeme.kind_ne hx rfl nofun)
  | @stuck n g cs hg hne hnone =>
    have hmem := hts ▸ List.mem_append_right before (List.mem_cons_self (a := x.token m))
    have hkind := congrArg Token.kind (List.mem_singleton.1 hmem)
    exact absurd hkind (Lexeme.kind_ne hx rfl nofun)
  | @lexeme n g y cs ts hg hy hcut hlexed ih =>
    cases before with
    | nil =>
      obtain ⟨htoken, -⟩ := List.cons.inj hts
      have hsame : x = y := by
        rw [← Lexeme.lexeme_token (n := m) hx, htoken, Lexeme.lexeme_token hy]
      have hstart : m = n + g.length := congrArg Token.start htoken
      subst hsame
      exact ⟨g, cs, rfl, hstart.symm, hcut⟩
    | cons t before =>
      obtain ⟨pre, rest, rfl, hm, hrest⟩ := ih (List.cons.inj hts).2
      refine ⟨g ++ (y.chars ++ pre), rest, by simp only [List.append_assoc], ?_, hrest⟩
      rw [List.length_append, List.length_append]
      omega

end Lexed

theorem Text.isBlank_append (s t : String) : isBlank (s ++ t) = (isBlank s && isBlank t) := by
  rw [isBlank, String.toList_append, List.all_append]
  rfl

theorem Lexed.of_tokens? {s : String} {ts : List Token}
    (h : Lexicon.standard.tokens? s = some ts) : Lexed 0 s.toList ts := by
  unfold Lexicon.tokens? at h
  split at h
  · cases h
  · exact Lexicon.scan_eq_iff.1 (Option.some.inj h)

/-- **Texts one behind the other.** Of two texts that are not blank, the first one read up to its
end, the tokens of both together are those of the first one without the end and those of the second
one, each as many characters further on as the first one has. The one exception is a text that ends
with the lexeme `FromPartyId` and one that starts with `Type`. -/
theorem tokens_of_concatenation (s t : String) {ts : List Token}
    (hs : Lexicon.standard.tokens? s = some ts) (hend : ts.getLast?.map Token.kind = some .stop)
    (ht : Text.isBlank t = false) :
    ∃ us, Lexicon.standard.tokens? t = some us ∧
      (Lexicon.standard.tokens? (s ++ t) =
          some (ts.dropLast ++ us.map (Token.shift s.toList.length)) ↔
        ¬ ((Lexeme.word (.attr .fromPartyId)).Ends ts ∧ "Type".toList <+: t.toList)) := by
  have hlexed := Lexed.of_tokens? hs
  have hlexed' := Lexicon.lexed_scan 0 t.toList
  obtain ⟨before, last, rfl, -, -⟩ := hlexed.exists_last [] rfl
  have hstop : last.kind = .stop := by simpa using hend
  obtain rfl := (hlexed.last_of_end (.inl hstop)).2.1 hstop
  refine ⟨_, hlexed'.tokens?_eq ht, ?_⟩
  rw [List.dropLast_concat]
  constructor
  · intro htokens hseam
    obtain ⟨⟨n, before', hends⟩, htype⟩ := hseam
    -- the last lexeme of the first text is read, though the second text cuts it
    have hcut : (before' ++ [_]) ++ [Token.ending _] = before ++ [Token.ending s.toList.length] :=
      (List.append_cons ..).symm.trans hends
    obtain ⟨rfl, hsame⟩ := List.append_inj' hcut rfl
    have hlength : n + _ = s.toList.length := congrArg Token.start (List.singleton_inj.1 hsame)
    have hread : (Lexeme.word (.attr .fromPartyId)).Readable := rfl
    have hjoined := Lexed.of_tokens? htokens
    rw [List.append_assoc, List.singleton_append] at hjoined
    obtain ⟨pre, rest, htext, hpre, hwhole⟩ := hjoined.exists_uncut hread
    rw [String.toList_append, ← List.append_assoc] at htext
    have hsplit : s.toList.length = (pre ++ (Lexeme.word (.attr .fromPartyId)).chars).length := by
      rw [List.length_append]
      omega
    obtain rfl := (List.append_inj htext hsplit).2
    exact hwhole ⟨rfl, htype⟩
  · intro hseam
    have hjoined : Text.isBlank (s ++ t) = false := by rw [Text.isBlank_append, ht, Bool.and_false]
    refine Lexed.tokens?_eq ?_ hjoined
    rw [String.toList_append]
    refine hlexed.append (hlexed'.shift s.toList.length) fun x hx hcut => hseam ?_
    obtain rfl := hcut.1
    exact ⟨hx, hcut.2⟩

/-- With a space at the seam the rest that cannot be read is just further on; without it there is
another attribute. -/
theorem tokens_with_and_without_space :
    Lexicon.standard.tokens? ("(FromPartyId " ++ "Type \u00e9") =
      some [⟨.opening, "(", 0, 1⟩, ⟨.attr .fromPartyId, "FromPartyId", 1, 12⟩,
        ⟨.illegal, "Type \u00e9", 13, 19⟩] ∧
    Lexicon.standard.tokens? ("(FromPartyId" ++ "Type \u00e9") ≠
      some [⟨.opening, "(", 0, 1⟩, ⟨.attr .fromPartyId, "FromPartyId", 1, 12⟩,
        ⟨.illegal, "Type \u00e9", 12, 18⟩] := by
  have hspace : Lexicon.standard.tokens? "(FromPartyId " = some [⟨.opening, "(", 0, 1⟩,
      ⟨.attr .fromPartyId, "FromPartyId", 1, 12⟩, .ending 13] := by decide +kernel
  have hnone : Lexicon.standard.tokens? "(FromPartyId" = some [⟨.opening, "(", 0, 1⟩,
      ⟨.attr .fromPartyId, "FromPartyId", 1, 12⟩, .ending 12] := by decide +kernel
  have hrest : Lexicon.standard.tokens? "Type \u00e9" =
      some [⟨.illegal, "Type \u00e9", 0, 6⟩] := by decide +kernel
  have hblank : Text.isBlank "Type \u00e9" = false := by decide
  obtain ⟨us, hus, hlaw⟩ := tokens_of_concatenation _ _ hspace rfl hblank
  obtain ⟨vs, hvs, hlaw'⟩ := tokens_of_concatenation _ _ hnone rfl hblank
  obtain rfl := Option.some.inj (hrest.symm.trans hus)
  obtain rfl := Option.some.inj (hrest.symm.trans hvs)
  constructor
  · refine hlaw.2 fun h => ?_
    obtain ⟨n, hends⟩ := h.1
    have hplaces : n = 1 ∧ n + 11 = 13 := by
      simpa [List.suffix_cons_iff, Lexeme.token, Lexeme.kind, Lexeme.chars, Kind.display,
        Attribute.name, Token.ending] using hends
    omega
  · intro h
    exact hlaw'.1 h ⟨⟨1, List.suffix_cons ..⟩, by decide⟩

end BackendRouting
