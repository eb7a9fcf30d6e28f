import BackendRouting.Proofs.Step

/-!
# Operations that change nothing

An operation is refused for a blank backend, and otherwise for a domain that is not registered.
A refused operation leaves the registry as it is, and so does a removal that finds no rule. Such
an operation is `Idle`; whatever is done after it goes on as if it had not been asked for.

* `answer_eq_error_iff`: when an operation is refused, and why.
* `Idle.registry_step`: an idle operation leaves the registry as it is.
* `run_append`, `answers_append`: a history can be cut anywhere.
* `refused_operations_change_nothing`: the refusals of each operation, and idle operations in
  the middle of a history.
-/
namespace BackendRouting

/-- Only a registration does without a domain that is there. -/
theorem Operation.result?_eq_none_iff {op : Operation} {d? : Option Domain} :
    op.result? d? = none ↔ d? = none ∧ ∀ name backend, op ≠ .register name backend := by
  cases d? with
  | some d => simp [result?]
  | none => cases op <;> simp [result?]

/-- A removal that is answered with no rule leaves its domain as it is. -/
theorem Operation.leaves_of_reply {op : Operation} {d? : Option Domain}
    (h : op.reply d? = .ok (.removed none)) : op.leaves d? = d? := by
  unfold reply at h
  unfold leaves
  split
  · rfl
  · rename_i hblank
    rw [if_neg hblank] at h
    split at h
    · cases op with
      | remove name id =>
        cases d? with
        | none => rfl
        | some d =>
          have hget : d.get? id = none := Answer.removed.inj (Except.ok.inj h)
          exact congrArg some (Domain.remove_of_get?_eq_none hget)
      | _ => cases h
    · cases h

namespace Registry

variable {r : Registry} {op : Operation} {err : RoutingError}

/-- A blank backend is told before a domain that is not registered. -/
theorem answer_eq_error_iff : (r.step op).answer = .error err ↔
    (op.isBlank = true ∧ err = .blankBackend op.domain) ∨
      (op.isBlank = false ∧ op.domain ∉ r.names ∧ (∀ name backend, op ≠ .register name backend) ∧
        err = .unknownDomain op.domain) := by
  rw [answer_step, Operation.reply, not_mem_names_iff]
  cases hblank : op.isBlank with
  | true => simp [eq_comm]
  | false =>
    cases hresult : op.result? (r.get? op.domain) with
    | some d =>
      have hsome : ¬ (r.get? op.domain = none ∧ ∀ name backend, op ≠ .register name backend) := by
        rw [← Operation.result?_eq_none_iff, hresult]
        simp
      simpa using fun hnone hreg => absurd ⟨hnone, hreg⟩ hsome
    | none =>
      obtain ⟨hnone, hreg⟩ := Operation.result?_eq_none_iff.1 hresult
      simp [hnone, hreg, eq_comm]

/-- The operation is refused, or it is a removal that finds no rule. -/
def Idle (r : Registry) (op : Operation) : Prop :=
  (∃ err, (r.step op).answer = .error err) ∨ (r.step op).answer = .ok (.removed none)

theorem Idle.registry_step (h : r.Idle op) : (r.step op).registry = r := by
  rcases h with ⟨err, herr⟩ | hnone
  · obtain ⟨-, hsame⟩ | ⟨d, hok, -⟩ := step_cases r op
    · exact hsame
    · rw [herr] at hok
      cases hok
  · refine ext_get? fun name => ?_
    rw [get?_step]
    split
    · rename_i hname
      subst hname
      rw [answer_step] at hnone
      exact Operation.leaves_of_reply hnone
    · rfl

/-! ## Histories -/

/-- The answers to a history of operations, one after the other. -/
def answers (r : Registry) : List Operation → List (Except RoutingError Answer)
  | [] => []
  | op :: ops => (r.step op).answer :: (r.step op).registry.answers ops

theorem length_answers (r : Registry) (ops : List Operation) :
    (r.answers ops).length = ops.length := by
  induction ops generalizing r with
  | nil => rfl
  | cons op ops ih => simp [answers, ih]

theorem run_append (r : Registry) (ops ops' : List Operation) :
    r.run (ops ++ ops') = (r.run ops).run ops' :=
  List.foldl_append

theorem answers_append (r : Registry) (ops ops' : List Operation) :
    r.answers (ops ++ ops') = r.answers ops ++ (r.run ops).answers ops' := by
  induction ops generalizing r with
  | nil => rfl
  | cons op ops ih => exact congrArg _ (ih _)

/-- **Refusals.** A registration is refused exactly if its backend is blank. A new default
backend is refused if it is blank, and otherwise if the domain is not registered; all else is
refused if the domain is not registered. A refused operation, and a removal that finds no rule,
leaves the registry as it is: in a history without it all other operations are answered the
same, and the registry is the same in the end. -/
theorem refused_operations_change_nothing (r : Registry) :
    (∀ name backend err, (r.step (.register name backend)).answer = .error err ↔
      Text.isBlank backend = true ∧ err = .blankBackend name) ∧
    (∀ name backend err, (r.step (.setBackend name backend)).answer = .error err ↔
      (Text.isBlank backend = true ∧ err = .blankBackend name) ∨
        (Text.isBlank backend = false ∧ name ∉ r.names ∧ err = .unknownDomain name)) ∧
    (∀ name rule err, (r.step (.add name rule)).answer = .error err ↔
      name ∉ r.names ∧ err = .unknownDomain name) ∧
    (∀ name id err, (r.step (.remove name id)).answer = .error err ↔
      name ∉ r.names ∧ err = .unknownDomain name) ∧
    (∀ name enabled err, (r.step (.setEnabled name enabled)).answer = .error err ↔
      name ∉ r.names ∧ err = .unknownDomain name) ∧
    (∀ op, r.Idle op → (r.step op).registry = r) ∧
    ∀ before op after, (r.run before).Idle op →
      r.run (before ++ op :: after) = r.run (before ++ after) ∧
        r.answers (before ++ after) =
          (r.answers (before ++ op :: after)).eraseIdx before.length := by
  refine ⟨fun name backend err => ?_, fun name backend err => ?_, fun name rule err => ?_,
    fun name id err => ?_, fun name enabled err => ?_, fun op h => h.registry_step,
    fun before op after h => ⟨?_, ?_⟩⟩
  · simp [answer_eq_error_iff, Operation.isBlank, Operation.backend?, Operation.domain]
  · simp [answer_eq_error_iff, Operation.isBlank, Operation.backend?, Operation.domain]
  · simp [answer_eq_error_iff, Operation.isBlank, Operation.backend?, Operation.domain]
  · simp [answer_eq_error_iff, Operation.isBlank, Operation.backend?, Operation.domain]
  · simp [answer_eq_error_iff, Operation.isBlank, Operation.backend?, Operation.domain]
  · rw [run_append, run_append]
    exact congrArg (Registry.run · after) h.registry_step
  · rw [answers_append, answers_append, List.eraseIdx_append_of_length_le
      (Nat.le_of_eq (length_answers r before)), length_answers, Nat.sub_self]
    simp [answers, h.registry_step]

/-- In the middle of a history, a removal that finds no rule, a backend that is refused because it
is blank, and a switch that is refused because its domain is not there. -/
theorem answers_without_idle_operations :
    let lane := empty.run [.register "lane" "D"]
    lane.Idle (.remove "lane" (.given "a")) ∧
      empty.answers [.register "lane" "D", .remove "lane" (.given "a"), .setEnabled "other" true,
        .setBackend "other" " "] =
          [.ok .done, .ok (.removed none), .error (.unknownDomain "other"),
            .error (.blankBackend "other")] ∧
      empty.answers [.register "lane" "D", .setEnabled "other" true, .setBackend "other" " "] =
        [.ok .done, .error (.unknownDomain "other"), .error (.blankBackend "other")] ∧
      (lane.step (.setBackend "lane" " ")).answer = .error (.blankBackend "lane") ∧
      (lane.step (.setEnabled "other" true)).answer = .error (.unknownDomain "other") ∧
      ∀ refused ∈ [.setBackend "lane" " ", .setEnabled "other" true],
        let after := empty.run [.register "lane" "D", refused, .setEnabled "lane" false]
        after.names = ["lane"] ∧ after.defaultBackend? "lane" = some "D" ∧
          (after.get? "lane").map Domain.enabled = some false := by
  intro lane
  have hidle : lane.Idle (.remove "lane" (.given "a")) := .inr rfl
  have hanswers : empty.answers [.register "lane" "D", .remove "lane" (.given "a"),
      .setEnabled "other" true, .setBackend "other" " "] =
        [.ok .done, .ok (.removed none), .error (.unknownDomain "other"),
          .error (.blankBackend "other")] := rfl
  have hblank : (lane.step (.setBackend "lane" " ")).answer = .error (.blankBackend "lane") := rfl
  have hunknown : (lane.step (.setEnabled "other" true)).answer = .error (.unknownDomain "other") :=
    rfl
  have hwithout := (refused_operations_change_nothing empty).2.2.2.2.2.2 [.register "lane" "D"]
  refine ⟨hidle, hanswers, ?_, hblank, hunknown, fun refused hrefused => ?_⟩
  · obtain ⟨-, hsame⟩ := hwithout _ [.setEnabled "other" true, .setBackend "other" " "] hidle
    exact hsame.trans (congrArg (List.eraseIdx · 1) hanswers)
  · have hidle : lane.Idle refused := by
      rcases List.mem_cons.1 hrefused with rfl | hrefused
      · exact .inl ⟨_, hblank⟩
      · obtain rfl := List.mem_singleton.1 hrefused
        exact .inl ⟨_, hunknown⟩
    obtain ⟨hrun, -⟩ := hwithout refused [.setEnabled "lane" false] hidle
    intro after
    have hafter : after = empty.run [.register "lane" "D", .setEnabled "lane" false] := hrun
    rw [hafter]
    exact ⟨rfl, rfl, rfl⟩

end Registry
end BackendRouting
