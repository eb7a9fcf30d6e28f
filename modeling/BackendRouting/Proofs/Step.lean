import BackendRouting.Domain.Registry

/-!
# What one operation does

Every operation is about one domain. It is refused if it names a blank backend, or if its
domain is not there and it does not register it; otherwise it changes this one domain
(`Operation.result?`) and no other. Where it is refused the registry is as it was before,
for no operation changes anything ahead of the last of its checks.

* `Work.run_register`, `.run_update`, `.run_add`, ...: what each piece of work does, from any
  registry and with anything told before.
* `Work.run_perform`: all operations as one, with their refusals.
* `step_cases`: a step either leaves the registry as it is or puts one domain into it.
* `answer_step`, `events_step`, `get?_step`: the answer, what is told, and what becomes of a
  domain depend on this domain alone (`Operation.reply`, `.events`, `.leaves`).
-/
namespace BackendRouting

namespace Operation

/-- The domain that the operation is about. -/
def domain : Operation → String
  | register domain _ | add domain _ | remove domain _ | setBackend domain _
  | setEnabled domain _ => domain

/-- The default backend that is asked for. -/
def backend? : Operation → Option String
  | register _ backend | setBackend _ backend => some backend
  | _ => none

/-- The backend that is asked for is blank. -/
def isBlank (op : Operation) : Bool :=
  op.backend?.any Text.isBlank

end Operation

/-- What an operation makes of a domain that is there. -/
def Domain.after (d : Domain) : Operation → Domain
  | .register _ backend | .setBackend _ backend => { d with defaultBackend := backend }
  | .add _ rule => d.add rule
  | .remove _ id => (d.remove id).2
  | .setEnabled _ enabled => { d with enabled }

theorem Domain.after_remove (d : Domain) (name : String) (id : RuleId) :
    d.after (.remove name id) = d.resort (d.added.eraseP (·.id == id)) :=
  d.snd_remove id

/-- What an operation makes of its domain; only a registration makes one where there is none. -/
def Operation.result? (op : Operation) : Option Domain → Option Domain
  | some d => some (d.after op)
  | none => match op with
    | .register _ backend => some (.new backend)
    | _ => none

/-- What an operation leaves of its domain, whether it is done or refused. -/
def Operation.leaves (op : Operation) (d? : Option Domain) : Option Domain :=
  if op.isBlank then d? else op.result? d?

/-- The answer to an operation that is done. -/
def Operation.answer : Operation → Option Domain → Answer
  | remove _ id, d? => .removed (d?.bind (·.get? id))
  | _, _ => .done

/-- The answer to an operation, done or refused. -/
def Operation.reply (op : Operation) (d? : Option Domain) : Except RoutingError Answer :=
  if op.isBlank then .error (.blankBackend op.domain)
  else match op.result? d? with
    | some _ => .ok (op.answer d?)
    | none => .error (.unknownDomain op.domain)

/-- What is told of an operation: of an addition even if it is refused, of a registration and
a removal only if they are done. -/
def Operation.events : Operation → Option Domain → List Event
  | register name backend, _ => if Text.isBlank backend then [] else [.registered name backend]
  | add name rule, _ => [.adding name rule]
  | remove name id, d? => (d?.map fun d => .removed name id (d.get? id).isSome).toList
  | setBackend _ _, _ | setEnabled _ _, _ => []

/-! ## The pieces of work -/

namespace Work

variable {α : Type} (name : String) (s : Progress)

@[simp] theorem run_tell (events : List Event) :
    (tell events).run s = .ok () ⟨s.registry, s.events ++ events⟩ := rfl

theorem run_checkedBackend (backend : String) : (checkedBackend name backend).run s =
    if Text.isBlank backend then .error (.blankBackend name) s else .ok backend s := by
  unfold checkedBackend
  split <;> rfl

theorem run_register (backend : String) : (register name backend).run s =
    if Text.isBlank backend then .error (.blankBackend name) s
    else .ok () ⟨s.registry.insert name
        (((s.registry.get? name).map ({ · with defaultBackend := backend })).getD (.new backend)),
      s.events ++ [.registered name backend]⟩ := by
  rw [register, EStateM.run_bind, run_checkedBackend]
  cases Text.isBlank backend with
  | true => rfl
  | false =>
    simp only [Bool.false_eq_true, if_false, EStateM.run_bind, run_tell, EStateM.run_get]
    cases s.registry.get? name <;> rfl

theorem run_update (f : Domain → α × Domain) : (update name f).run s =
    match s.registry.get? name with
    | some d => .ok (f d).1 ⟨s.registry.insert name (f d).2, s.events⟩
    | none => .error (.unknownDomain name) s := by
  simp only [update, EStateM.run_bind, EStateM.run_get]
  cases s.registry.get? name <;> rfl

theorem run_add (rule : Rule) : (add name rule).run s =
    match s.registry.get? name with
    | some d => .ok () ⟨s.registry.insert name (d.add rule), s.events ++ [.adding name rule]⟩
    | none => .error (.unknownDomain name) ⟨s.registry, s.events ++ [.adding name rule]⟩ := by
  simp only [add, EStateM.run_bind, run_tell, run_update]

theorem run_remove (id : RuleId) : (remove name id).run s =
    match s.registry.get? name with
    | some d => .ok (d.get? id) ⟨s.registry.insert name (d.remove id).2,
        s.events ++ [.removed name id (d.get? id).isSome]⟩
    | none => .error (.unknownDomain name) s := by
  simp only [remove, EStateM.run_bind, run_update]
  cases s.registry.get? name with
  | some d => simp
  | none => rfl

theorem run_setBackend (backend : String) : (setBackend name backend).run s =
    if Text.isBlank backend then .error (.blankBackend name) s
    else match s.registry.get? name with
    | some d => .ok () ⟨s.registry.insert name { d with defaultBackend := backend }, s.events⟩
    | none => .error (.unknownDomain name) s := by
  rw [setBackend, EStateM.run_bind, run_checkedBackend]
  cases Text.isBlank backend with
  | true => rfl
  | false => exact run_update ..

theorem run_setEnabled (enabled : Bool) : (setEnabled name enabled).run s =
    match s.registry.get? name with
    | some d => .ok () ⟨s.registry.insert name { d with enabled }, s.events⟩
    | none => .error (.unknownDomain name) s := by
  simp only [setEnabled, run_update]

/-- All operations as one. -/
theorem run_perform (op : Operation) : (perform op).run s =
    if op.isBlank then .error (.blankBackend op.domain)
      ⟨s.registry, s.events ++ op.events (s.registry.get? op.domain)⟩
    else match op.result? (s.registry.get? op.domain) with
      | some d => .ok (op.answer (s.registry.get? op.domain))
        ⟨s.registry.insert op.domain d, s.events ++ op.events (s.registry.get? op.domain)⟩
      | none => .error (.unknownDomain op.domain)
        ⟨s.registry, s.events ++ op.events (s.registry.get? op.domain)⟩ := by
  cases op with
  | register name backend =>
    simp only [perform, EStateM.run_bind, run_register, Operation.isBlank, Operation.backend?,
      Operation.domain, Operation.events, Option.any_some]
    by_cases hblank : Text.isBlank backend = true
    · simp [hblank]
    · simp only [if_neg hblank]
      cases s.registry.get? name <;> rfl
  | setBackend name backend =>
    simp only [perform, EStateM.run_bind, run_setBackend, Operation.isBlank, Operation.backend?,
      Operation.domain, Operation.events, Option.any_some, List.append_nil]
    by_cases hblank : Text.isBlank backend = true
    · simp only [if_pos hblank]
    · simp only [if_neg hblank]
      cases s.registry.get? name <;> rfl
  | add name rule =>
    simp only [perform, EStateM.run_bind, run_add, Operation.domain, Operation.events]
    cases s.registry.get? name <;> rfl
  | remove name id =>
    simp only [perform, EStateM.run_bind, run_remove, Operation.domain, Operation.events]
    cases s.registry.get? name with
    | some d => rfl
    | none => rw [Option.map_none, Option.toList_none, List.append_nil]; rfl
  | setEnabled name enabled =>
    simp only [perform, EStateM.run_bind, run_setEnabled, Operation.domain, Operation.events,
      List.append_nil]
    cases s.registry.get? name <;> rfl

end Work

/-! ## Steps -/

namespace Registry

/-- What an operation leaves of a registry, whether it is done or refused. -/
theorem step_eq (r : Registry) (op : Operation) : r.step op =
    ⟨op.reply (r.get? op.domain),
      if op.isBlank then r else ((op.result? (r.get? op.domain)).map (r.insert op.domain)).getD r,
      op.events (r.get? op.domain)⟩ := by
  rw [step, Work.on, Work.run_perform, Operation.reply]
  cases op.isBlank with
  | true => rfl
  | false => cases op.result? (r.get? op.domain) <;> rfl

theorem answer_step (r : Registry) (op : Operation) :
    (r.step op).answer = op.reply (r.get? op.domain) := by
  rw [step_eq]

theorem events_step (r : Registry) (op : Operation) :
    (r.step op).events = op.events (r.get? op.domain) := by
  rw [step_eq]

theorem step_cases (r : Registry) (op : Operation) :
    ((r.step op).answer.isOk = false ∧ (r.step op).registry = r) ∨
    ∃ d, (r.step op).answer.isOk = true ∧ op.isBlank = false ∧
      op.result? (r.get? op.domain) = some d ∧
      (r.step op).registry = r.insert op.domain d := by
  rw [step_eq, Operation.reply]
  cases hb : op.isBlank with
  | true => exact .inl ⟨rfl, rfl⟩
  | false =>
    cases hd : op.result? (r.get? op.domain) with
    | none => exact .inl ⟨rfl, rfl⟩
    | some d => exact .inr ⟨d, rfl, rfl, rfl, rfl⟩

@[simp] theorem get?_insert (r : Registry) (name other : String) (d : Domain) :
    (r.insert name d).get? other = if other = name then some d else r.get? other :=
  Directory.get?_insert ..

/-- A registry is told by its domains. -/
theorem ext_get? {r r' : Registry} (h : ∀ name, r.get? name = r'.get? name) : r = r' :=
  congrArg Registry.mk (Directory.ext_get? h)

theorem insert_insert (r : Registry) (name : String) (d d' : Domain) :
    (r.insert name d).insert name d' = r.insert name d' := by
  refine ext_get? fun other => ?_
  simp only [get?_insert]
  split <;> rfl

theorem insert_of_get? {r : Registry} {name : String} {d : Domain} (h : r.get? name = some d) :
    r.insert name d = r := by
  refine ext_get? fun other => ?_
  rw [get?_insert]
  split
  · subst other; exact h.symm
  · rfl

/-- An operation changes no other domain than its own. -/
theorem get?_step_of_ne {r : Registry} {op : Operation} {name : String} (h : op.domain ≠ name) :
    (r.step op).registry.get? name = r.get? name := by
  obtain ⟨-, hsame⟩ | ⟨d, -, -, -, hnext⟩ := step_cases r op
  · rw [hsame]
  · rw [hnext, get?_insert, if_neg (Ne.symm h)]

theorem get?_step (r : Registry) (op : Operation) (name : String) :
    (r.step op).registry.get? name =
      if name = op.domain then op.leaves (r.get? name) else r.get? name := by
  by_cases hname : name = op.domain
  · subst hname
    rw [if_pos rfl, step_eq, Operation.leaves]
    cases op.isBlank with
    | true => rfl
    | false =>
      cases hresult : op.result? (r.get? op.domain) with
      | some d => exact (get?_insert ..).trans (if_pos rfl)
      | none =>
        cases hget : r.get? op.domain with
        | some d => rw [hget] at hresult; cases hresult
        | none => exact hget
  · rw [if_neg hname, get?_step_of_ne (Ne.symm hname)]

theorem not_mem_names_iff {r : Registry} {name : String} :
    name ∉ r.names ↔ r.get? name = none := by
  rw [names, Directory.mem_names_iff, get?, Option.eq_none_iff_forall_ne_some, not_exists]

/-- The link is that of the verdict on the message. -/
theorem link?_eq (r : Registry) (name : String) (m : Message) :
    r.link? name m = (r.get? name).map fun d => (d.route m).link := by
  unfold link? lookUp
  cases r.get? name <;> rfl

end Registry
end BackendRouting
