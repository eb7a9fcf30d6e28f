import BackendRouting.Proofs.Reading

/-!
# Where reading stops

The grammar over kinds of tokens alone: `Sentence` are the kinds of whole conditions and
`Viable` their beginnings. A reading gets as far as its tokens are viable: whatever has been
read can be completed to a condition (`exists_completion`), and what goes on with a sentence
is never refused (`Sentence.exists_condition`). So the state of the reading knows exactly
which kinds may follow.

* `viable_iff`: tokens can be taken one after the other exactly if they are viable.
* `mem_expected_iff`: the kinds listed in an error are the continuations of what was read.
* `ofTokens_stops_at_dead_end`: tokens are read as a condition, or refused at the first token
  that makes them no beginning of a sentence, or refused at their end.
-/
namespace BackendRouting

/-- The kinds of the tokens of a condition. -/
inductive Sentence : List Kind → Prop where
  | join {left right} (c : Connective) : Sentence left → Sentence right →
      Sentence (.connective c :: .opening :: (left ++ .comma :: (right ++ [.closing])))
  | negate {inner} : Sentence inner →
      Sentence (.negation :: .opening :: (inner ++ [.closing]))
  | test (c : Comparison) (attr : Attribute) :
      Sentence [.comparison c, .opening, .attr attr, .comma, .value, .closing]

/-- The beginning of a sentence. -/
def Viable (ks : List Kind) : Prop :=
  ∃ rest, Sentence (ks ++ rest)

theorem Viable.left {ks ks' : List Kind} (h : Viable (ks ++ ks')) : Viable ks := by
  obtain ⟨rest, h⟩ := h
  exact ⟨ks' ++ rest, by rwa [← List.append_assoc]⟩

/-! ## Sentences are the kinds of conditions -/

namespace Lexeme

/-- Some lexeme of a kind. -/
def ofKind (k : Kind) : Lexeme :=
  if k = .value then .quoted "" else .word k

@[simp] theorem kind_ofKind (k : Kind) : (ofKind k).kind = k := by
  unfold ofKind
  split
  · simp_all [kind]
  · rfl

theorem ofKind_ne (k : Kind) : ofKind k ≠ .word .value := by
  unfold ofKind
  split <;> simp_all

theorem exists_eq_quoted {x : Lexeme} (h : x.kind = .value) (hx : x ≠ .word .value) :
    ∃ v, x = .quoted v := by
  cases x with
  | word k => exact absurd (congrArg word h) hx
  | quoted v => exact ⟨v, rfl⟩

end Lexeme

namespace Token

@[simp] theorem kind_lexeme (t : Token) : t.lexeme.kind = t.kind := by
  unfold lexeme
  split <;> simp_all [Lexeme.kind]

theorem lexeme_ne (t : Token) : t.lexeme ≠ .word .value := by
  unfold lexeme
  split <;> simp_all

end Token

theorem Condition.sentence_lexemes (e : Condition) : Sentence (e.lexemes.map Lexeme.kind) := by
  induction e with
  | join c left right ihl ihr => simpa [lexemes, Lexeme.kind] using Sentence.join c ihl ihr
  | negate inner ih => simpa [lexemes, Lexeme.kind] using Sentence.negate ih
  | test c attr value => exact Sentence.test c attr

/-- The values in a sentence do not count: any lexemes of its kinds make up a condition. -/
theorem Sentence.exists_condition {xs : List Lexeme} (h : Sentence (xs.map Lexeme.kind))
    (hxs : .word .value ∉ xs) : ∃ e : Condition, e.lexemes = xs := by
  generalize hks : xs.map Lexeme.kind = ks at h
  induction h generalizing xs with
  | @join left right c _ _ ihl ihr =>
    simp only [List.map_eq_cons_iff, List.map_eq_append_iff, List.map_eq_nil_iff] at hks
    obtain ⟨x, _, rfl, hx, y, _, rfl, hy, ls, _, rfl, hls, z, _, rfl, hz, rs, _, rfl, hrs, w, _,
      rfl, hw, rfl⟩ := hks
    obtain rfl := Lexeme.eq_word hx nofun
    obtain rfl := Lexeme.eq_word hy nofun
    obtain rfl := Lexeme.eq_word hz nofun
    obtain rfl := Lexeme.eq_word hw nofun
    simp only [List.mem_cons, List.mem_append, not_or] at hxs
    obtain ⟨l, rfl⟩ := ihl hxs.2.2.1 hls
    obtain ⟨r, rfl⟩ := ihr hxs.2.2.2.2.1 hrs
    exact ⟨.join c l r, rfl⟩
  | negate _ ih =>
    simp only [List.map_eq_cons_iff, List.map_eq_append_iff, List.map_eq_nil_iff] at hks
    obtain ⟨x, _, rfl, hx, y, _, rfl, hy, is, _, rfl, his, w, _, rfl, hw, rfl⟩ := hks
    obtain rfl := Lexeme.eq_word hx nofun
    obtain rfl := Lexeme.eq_word hy nofun
    obtain rfl := Lexeme.eq_word hw nofun
    simp only [List.mem_cons, List.mem_append, not_or] at hxs
    obtain ⟨i, rfl⟩ := ih hxs.2.2.1 his
    exact ⟨.negate i, rfl⟩
  | test c attr =>
    simp only [List.map_eq_cons_iff, List.map_eq_nil_iff] at hks
    obtain ⟨x, _, rfl, hx, y, _, rfl, hy, a, _, rfl, ha, z, _, rfl, hz, v, _, rfl, hv, w, _, rfl,
      hw, rfl⟩ := hks
    obtain rfl := Lexeme.eq_word hx nofun
    obtain rfl := Lexeme.eq_word hy nofun
    obtain rfl := Lexeme.eq_word ha nofun
    obtain rfl := Lexeme.eq_word hz nofun
    obtain rfl := Lexeme.eq_word hw nofun
    simp only [List.mem_cons, not_or] at hxs
    obtain ⟨value, rfl⟩ := Lexeme.exists_eq_quoted hv (Ne.symm hxs.2.2.2.2.1)
    exact ⟨.test c attr value, rfl⟩

namespace Reading

variable {r next : Reading} {t : Token} {k : Kind} {xs : List Lexeme}

/-! ## Every reading can be completed -/

theorem kinds_after? (h : r.after? xs = some next) :
    next.lexemes.map Lexeme.kind = r.lexemes.map Lexeme.kind ++ xs.map Lexeme.kind := by
  induction xs generalizing r with
  | nil =>
    obtain rfl : r = next := by simpa using h
    simp
  | cons x xs ih =>
    rw [after?_cons] at h
    obtain ⟨r', hr', h⟩ := Option.bind_eq_some_iff.1 h
    rw [ih h, lexemes_take? hr']
    simp [Lexeme.token]

/-- The lexemes of some comparison, which can stand for any operand. -/
def sample : Condition := .test .equals .action ""

theorem exists_after?_place (frames : List Frame) (place : Place) :
    ∃ xs e, after? ⟨frames, place⟩ xs = some ⟨frames, .afterCondition e⟩ := by
  cases place with
  | beforeOperator => exact ⟨sample.lexemes, sample, after?_lexemes _ _⟩
  | afterOperator operator =>
    cases operator with
    | connective c =>
      refine ⟨.word .opening :: (sample.lexemes ++ .word .comma ::
        (sample.lexemes ++ [.word .closing])), .join c sample sample, ?_⟩
      simp [after?_append, after?_lexemes, next?, take?, Lexeme.token, Lexeme.kind]
    | comparison c =>
      refine ⟨[.word .opening, .word (.attr .action), .word .comma, .quoted "", .word .closing],
        .test c .action "", ?_⟩
      rfl
    | negation =>
      refine ⟨.word .opening :: (sample.lexemes ++ [.word .closing]), .negate sample, ?_⟩
      simp [after?_append, after?_lexemes, next?, take?, Lexeme.token, Lexeme.kind]
  | beforeAttr c =>
    exact ⟨[.word (.attr .action), .word .comma, .quoted "", .word .closing],
      .test c .action "", rfl⟩
  | afterAttr c attr =>
    exact ⟨[.word .comma, .quoted "", .word .closing], .test c attr "", rfl⟩
  | beforeValue c attr => exact ⟨[.quoted "", .word .closing], .test c attr "", rfl⟩
  | afterValue c attr value => exact ⟨[.word .closing], .test c attr value, rfl⟩
  | afterCondition e => exact ⟨[], e, rfl⟩

theorem exists_after?_frames (frames : List Frame) (e : Condition) :
    ∃ xs e', after? ⟨frames, .afterCondition e⟩ xs = some ⟨[], .afterCondition e'⟩ := by
  induction frames generalizing e with
  | nil => exact ⟨[], e, rfl⟩
  | cons frame frames ih =>
    cases frame with
    | left c =>
      obtain ⟨xs, e', h⟩ := ih (.join c e sample)
      refine ⟨.word .comma :: (sample.lexemes ++ .word .closing :: xs), e', ?_⟩
      simp [after?_append, after?_lexemes, next?, take?, Lexeme.token, Lexeme.kind, h]
    | right c l =>
      obtain ⟨xs, e', h⟩ := ih (.join c l e)
      exact ⟨.word .closing :: xs, e', h⟩
    | negated =>
      obtain ⟨xs, e', h⟩ := ih (.negate e)
      exact ⟨.word .closing :: xs, e', h⟩

/-- Whatever is open can be closed. -/
theorem exists_completion (r : Reading) :
    ∃ xs e, r.after? xs = some ⟨[], .afterCondition e⟩ := by
  obtain ⟨xs, e, h⟩ := exists_after?_place r.frames r.place
  obtain ⟨ys, e', h'⟩ := exists_after?_frames r.frames e
  exact ⟨xs ++ ys, e', by rw [after?_append, h, Option.bind_some, h']⟩

/-! ## What has been read, and what may follow -/

theorem kinds_of_initial (h : initial.after? xs = some r) :
    r.lexemes.map Lexeme.kind = xs.map Lexeme.kind :=
  kinds_after? h

/-- Lexemes are read one after the other exactly if their kinds begin a sentence. -/
theorem viable_iff (hxs : .word .value ∉ xs) :
    Viable (xs.map Lexeme.kind) ↔ ∃ r, initial.after? xs = some r := by
  constructor
  · intro h
    obtain ⟨rest, h⟩ := h
    have hmap : xs.map Lexeme.kind ++ rest =
        (xs ++ rest.map Lexeme.ofKind).map Lexeme.kind := by
      simp [Function.comp_def]
    rw [hmap] at h
    obtain ⟨e, he⟩ := h.exists_condition (by simp [hxs, Lexeme.ofKind_ne])
    have hread := after?_lexemes e []
    rw [he, after?_append] at hread
    obtain ⟨r, hr, -⟩ := Option.bind_eq_some_iff.1 hread
    exact ⟨r, hr⟩
  · intro h
    obtain ⟨r, hr⟩ := h
    obtain ⟨ys, e, hy⟩ := exists_completion r
    have hall : initial.after? (xs ++ ys) = some ⟨[], .afterCondition e⟩ := by
      rw [after?_append, hr, Option.bind_some, hy]
    have hs : Sentence (e.lexemes.map Lexeme.kind) := e.sentence_lexemes
    refine ⟨ys.map Lexeme.kind, ?_⟩
    have := kinds_of_initial hall
    simp only [lexemes, Place.lexemes, List.reverse_nil, List.flatMap_nil, List.nil_append,
      List.map_append] at this
    rwa [← this]

theorem sentence_iff (hxs : .word .value ∉ xs) (h : initial.after? xs = some r) :
    Sentence (xs.map Lexeme.kind) ↔ ∃ e, r.condition? = some e := by
  constructor
  · intro hs
    obtain ⟨e, rfl⟩ := hs.exists_condition hxs
    obtain rfl : ⟨[], .afterCondition e⟩ = r := by
      have := after?_lexemes e []
      exact Option.some.inj (this.symm.trans h)
    exact ⟨e, rfl⟩
  · intro hc
    obtain ⟨e, hc⟩ := hc
    rw [← kinds_of_initial h, lexemes_of_condition? hc]
    exact e.sentence_lexemes

theorem mem_operators_iff : k ∈ operators ↔
    (∃ c, k = .connective c) ∨ (∃ c, k = .comparison c) ∨ k = .negation := by
  cases k with
  | connective c => cases c <;> simp [operators]
  | comparison c => cases c <;> simp [operators]
  | _ => simp [operators]

theorem mem_attributes_iff : k ∈ attributes ↔ ∃ a, k = .attr a := by
  cases k with
  | attr a => cases a <;> simp [attributes]
  | _ => simp [attributes]

/-- The kinds that are told are the ones that are taken. -/
theorem take?_isSome_iff (hk : t.kind ≠ .stop) :
    (r.take? t).isSome = true ↔ t.kind ∈ r.expected := by
  obtain ⟨frames, place⟩ := r
  obtain ⟨kind, text, start, stop⟩ := t
  cases place with
  | beforeOperator => cases kind <;> simp [take?, expected, mem_operators_iff]
  | afterOperator operator => cases operator <;> cases kind <;> simp [take?, expected]
  | beforeAttr c => cases kind <;> simp [take?, expected, mem_attributes_iff]
  | afterAttr c attr => cases kind <;> simp [take?, expected]
  | beforeValue c attr => cases kind <;> simp [take?, expected]
  | afterValue c attr value => cases kind <;> simp [take?, expected]
  | afterCondition e =>
    cases frames with
    | nil => cases kind <;> simp_all [take?, expected]
    | cons frame frames => cases frame <;> cases kind <;> simp [take?, expected]

theorem stop_mem_expected_iff : .stop ∈ r.expected ↔ ∃ e, r.condition? = some e := by
  obtain ⟨frames, place⟩ := r
  cases place with
  | beforeOperator => cases frames <;> simp [expected, condition?, mem_operators_iff]
  | beforeAttr c => cases frames <;> simp [expected, condition?, mem_attributes_iff]
  | afterCondition e =>
    cases frames with
    | nil => simp [expected, condition?]
    | cons frame frames => cases frame <;> simp [expected, condition?]
  | _ => cases frames <;> simp [expected, condition?]

/-- The kinds that are told are the ones with which what was read goes on. -/
theorem mem_expected_iff (hxs : .word .value ∉ xs) (h : initial.after? xs = some r)
    (hk : k ≠ .stop) : k ∈ r.expected ↔ Viable (xs.map Lexeme.kind ++ [k]) := by
  have hmap : xs.map Lexeme.kind ++ [k] = (xs ++ [Lexeme.ofKind k]).map Lexeme.kind := by simp
  have htake := take?_isSome_iff (r := r) (t := (Lexeme.ofKind k).token 0)
    (by simpa [Lexeme.token] using hk)
  simp only [Lexeme.token, Lexeme.kind_ofKind] at htake
  rw [hmap, viable_iff (by simp [hxs, (Lexeme.ofKind_ne k).symm]), after?_append, h,
    Option.bind_some, after?_cons, ← htake, Option.isSome_iff_exists]
  simp [next?, Lexeme.token]

/-! ## Running into an error -/

/-- Where a reading has got to by its tokens, if it was at `n` before. -/
def reached (n : Nat) (ts : List Token) : Nat :=
  (ts.getLast?.map Token.stop).getD n

theorem reached_cons (n : Nat) (t : Token) (ts : List Token) :
    reached n (t :: ts) = reached t.stop ts := by
  cases ts <;> simp [reached, List.getLast?_cons]

variable {n : Nat} {qs ts : List Token}

theorem run_append (hstop : ∀ q ∈ qs, q.kind ≠ .stop)
    (h : r.after? (qs.map Token.lexeme) = some next) :
    r.run n (qs ++ ts) = next.run (reached n qs) ts := by
  induction qs generalizing r n with
  | nil =>
    obtain rfl : r = next := by simpa using h
    rfl
  | cons q qs ih =>
    obtain ⟨hq, hqs⟩ := List.forall_mem_cons.1 hstop
    rw [List.map_cons, after?_cons, ← take?_eq_next?] at h
    obtain ⟨r', htake, h⟩ := Option.bind_eq_some_iff.1 h
    rw [List.cons_append, run, if_neg hq, htake, reached_cons]
    exact ih hqs h

/-- Tokens from the first `stop` on do not count. -/
theorem run_takeWhile (r : Reading) (n : Nat) (ts : List Token) :
    r.run n (ts.takeWhile (·.kind ≠ .stop)) = r.run n ts := by
  induction ts generalizing r n with
  | nil => rfl
  | cons t ts ih =>
    by_cases ht : t.kind = .stop
    · simp [ht, run]
    · rw [List.takeWhile_cons_of_pos (by simpa using ht), run, run, if_neg ht, if_neg ht]
      cases r.take? t with
      | none => rfl
      | some next => exact ih next t.stop

end Reading

/-- What the error lists is what may follow `q`: the continuations of `q` in sentences, and
the end of the pattern if `q` is a sentence. -/
structure SyntaxError.Offers (err : SyntaxError) (q : List Kind) : Prop where
  kinds : ∀ k, k ≠ .stop → (k ∈ err.expected ↔ Viable (q ++ [k]))
  stop : .stop ∈ err.expected ↔ Sentence q

/-- The token at `i` is the first with which the tokens are no longer viable. -/
def DeadEnd (ts : List Token) (i : Nat) : Prop :=
  ¬ Viable ((ts.take (i + 1)).map Token.kind) ∧
    ∀ j < i, Viable ((ts.take (j + 1)).map Token.kind)

theorem Viable.nil : Viable [] :=
  ⟨_, Reading.sample.sentence_lexemes⟩

theorem DeadEnd.viable_take {ts : List Token} {i : Nat} (h : DeadEnd ts i) :
    Viable ((ts.take i).map Token.kind) := by
  cases i with
  | zero => simpa using Viable.nil
  | succ i => exact h.2 i (Nat.lt_succ_self i)

/-- Tokens that are not viable have a dead end among them. -/
theorem exists_deadEnd {ts : List Token} {n : Nat} (h : ¬ Viable ((ts.take n).map Token.kind)) :
    ∃ i < n, DeadEnd ts i := by
  induction n with
  | zero => exact absurd Viable.nil h
  | succ n ih =>
    by_cases hn : Viable ((ts.take n).map Token.kind)
    · refine ⟨n, Nat.lt_succ_self n, h, fun j hj => ?_⟩
      rw [← List.take_append_drop (j + 1) (ts.take n), List.map_append, List.take_take,
        Nat.min_eq_left hj] at hn
      exact hn.left
    · obtain ⟨i, hi, hdead⟩ := ih hn
      exact ⟨i, Nat.lt_succ_of_lt hi, hdead⟩

namespace Token

variable {qs : List Token}

theorem not_mem_lexemes (qs : List Token) : .word .value ∉ qs.map lexeme := by
  simp [lexeme_ne]

theorem kinds_lexemes (qs : List Token) :
    (qs.map lexeme).map Lexeme.kind = qs.map kind := by
  simp [Function.comp_def]

theorem viable_iff :
    Viable (qs.map kind) ↔ ∃ r, Reading.initial.after? (qs.map lexeme) = some r := by
  rw [← kinds_lexemes, Reading.viable_iff (not_mem_lexemes qs)]

theorem sentence_iff : Sentence (qs.map kind) ↔ ∃ e : Condition, qs.map lexeme = e.lexemes := by
  rw [← kinds_lexemes]
  constructor
  · intro h
    obtain ⟨e, he⟩ := h.exists_condition (not_mem_lexemes qs)
    exact ⟨e, he.symm⟩
  · intro h
    obtain ⟨e, he⟩ := h
    rw [he]
    exact e.sentence_lexemes

end Token

namespace Reading

variable {r : Reading} {err : SyntaxError} {qs : List Token} {t : Token}

theorem offers (h : initial.after? (qs.map Token.lexeme) = some r)
    (herr : err.expected = r.expected) : err.Offers (qs.map Token.kind) := by
  have hq := Token.not_mem_lexemes qs
  refine ⟨fun k hk => ?_, ?_⟩
  · rw [herr, mem_expected_iff hq h hk, Token.kinds_lexemes]
  · rw [herr, stop_mem_expected_iff, ← sentence_iff hq h, Token.kinds_lexemes]

/-- A token that is not viable after viable ones ends the reading. -/
theorem run_dead_end (ts : List Token) (hstop : ∀ q ∈ qs ++ [t], q.kind ≠ .stop)
    (hq : Viable (qs.map Token.kind)) (ht : ¬ Viable ((qs ++ [t]).map Token.kind)) :
    ∃ r, initial.after? (qs.map Token.lexeme) = some r ∧
      initial.run 0 (qs ++ t :: ts) = .error (.unexpected t r.expected) := by
  obtain ⟨hqs, hts⟩ := List.forall_mem_append.1 hstop
  obtain ⟨r, hr⟩ := Token.viable_iff.1 hq
  refine ⟨r, hr, ?_⟩
  have htake : r.take? t = none := by
    cases htake : r.take? t with
    | none => rfl
    | some next =>
      refine absurd (Token.viable_iff.2 ⟨next, ?_⟩) ht
      rw [take?_eq_next?] at htake
      rw [List.map_append, after?_append, hr, Option.bind_some]
      simp [htake]
  rw [run_append hqs hr, run, if_neg (hts t (by simp)), htake]

theorem run_of_deadEnd {ts : List Token} {i : Nat} (hi : i < ts.length)
    (hstop : ∀ q ∈ ts, q.kind ≠ .stop) (h : DeadEnd ts i) :
    ∃ r, initial.after? ((ts.take i).map Token.lexeme) = some r ∧
      initial.run 0 ts = .error (.unexpected ts[i] r.expected) := by
  have hcut : ts = ts.take i ++ ts[i] :: ts.drop (i + 1) := by
    rw [← List.drop_eq_getElem_cons hi, List.take_append_drop]
  have htake : ts.take (i + 1) = ts.take i ++ [ts[i]] := (List.take_append_getElem hi).symm
  have hrun := run_dead_end (ts.drop (i + 1))
    (fun q hq => hstop q (List.mem_of_mem_take (htake ▸ hq))) h.viable_take (htake ▸ h.1)
  rwa [← hcut] at hrun

/-- Viable tokens that are no sentence are read to their end. -/
theorem run_ends_early (hstop : ∀ q ∈ qs, q.kind ≠ .stop) (hq : Viable (qs.map Token.kind))
    (hs : ¬ Sentence (qs.map Token.kind)) :
    ∃ r, initial.after? (qs.map Token.lexeme) = some r ∧
      initial.run 0 qs = .error (.endsEarly (reached 0 qs) r.expected) := by
  obtain ⟨r, hr⟩ := Token.viable_iff.1 hq
  refine ⟨r, hr, ?_⟩
  have hrun : initial.run 0 (qs ++ []) = r.run (reached 0 qs) [] := run_append hstop hr
  rw [List.append_nil] at hrun
  have hnone : r.condition? = none := by
    cases hc : r.condition? with
    | none => rfl
    | some e =>
      refine absurd ?_ hs
      rw [← Token.kinds_lexemes, sentence_iff (Token.not_mem_lexemes qs) hr]
      exact ⟨e, hc⟩
  rw [hrun, run, finish, hnone]

end Reading

/-- **Where reading stops.** The outcome depends on the tokens before the first `stop` alone.
They are read exactly if they are a sentence. If they are not viable one of them is a dead
end, and the error shows this token, at its start; if they are viable but no sentence the
error is at the end of the last one. Either way there is one error, and it lists what may
follow the tokens that were read, no more and no less. -/
theorem ofTokens_stops_at_dead_end (tokens : List Token) :
    let ts := tokens.takeWhile (·.kind ≠ .stop)
    ((∃ e, Condition.ofTokens tokens = .ok e) ↔ Sentence (ts.map Token.kind)) ∧
    (¬ Viable (ts.map Token.kind) → ∃ i < ts.length, DeadEnd ts i) ∧
    (∀ i, ∀ hi : i < ts.length, DeadEnd ts i →
      ∃ err, Condition.ofTokens tokens = .error err ∧
        err.found? = some ts[i] ∧ err.column = ts[i].start ∧
        err.cause = (if ts[i].kind = .illegal then .illegalText else .wrongToken) ∧
        err.Offers ((ts.take i).map Token.kind)) ∧
    (Viable (ts.map Token.kind) → ¬ Sentence (ts.map Token.kind) →
      ∃ err, Condition.ofTokens tokens = .error err ∧
        err.found? = none ∧ err.column = (ts.getLast?.map Token.stop).getD 0 ∧
        err.cause = .endOfPattern ∧ err.Offers (ts.map Token.kind)) ∧
    ∀ others : List Token, others.takeWhile (·.kind ≠ .stop) = ts →
      Condition.ofTokens others = Condition.ofTokens tokens := by
  intro ts
  have hread : Condition.ofTokens tokens = Reading.initial.run 0 ts :=
    (Reading.run_takeWhile _ _ tokens).symm
  have hstop : ∀ q ∈ ts, q.kind ≠ .stop := fun q hq => by
    simpa using List.all_eq_true.1 (List.all_takeWhile (p := (·.kind ≠ .stop)) (l := tokens)) q hq
  refine ⟨?_, fun h => exists_deadEnd (by rwa [List.take_length]), ?_, ?_, ?_⟩
  · rw [Token.sentence_iff]
    exact exists_congr fun e => ofTokens_eq_ok_iff
  · intro i hi hdead
    obtain ⟨r, hr, hrun⟩ := Reading.run_of_deadEnd hi hstop hdead
    exact ⟨.unexpected ts[i] r.expected, hread.trans hrun, rfl, rfl, rfl, Reading.offers hr rfl⟩
  · intro hv hs
    obtain ⟨r, hr, hrun⟩ := Reading.run_ends_early hstop hv hs
    exact ⟨_, hread.trans hrun, rfl, rfl, rfl, Reading.offers hr rfl⟩
  · intro others hothers
    rw [hread, ← hothers]
    exact (Reading.run_takeWhile _ _ others).symm

example : Condition.ofTokens [⟨.negation, "not", 0, 3⟩, ⟨.illegal, "$", 3, 4⟩, .ending 4] =
    .error (.unexpected ⟨.illegal, "$", 3, 4⟩ [.opening]) :=
  rfl

end BackendRouting
