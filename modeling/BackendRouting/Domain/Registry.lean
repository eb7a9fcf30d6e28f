import BackendRouting.Directory
import BackendRouting.Domain.Basic
import BackendRouting.Error

/-!
# The registry of business domains

A domain has to be registered, with a default backend that is not blank, before
anything else can be done with it.

What is done with a registry is `Work`: it may fail, it tells events, and whatever it has
changed stays, even if it fails later on. `Operation` is what can be asked of a registry,
`step` does one operation and `run` a history of them.
-/
namespace BackendRouting

structure Registry where
  domains : Directory Domain

/-- The operations that may change a registry. -/
inductive Operation where
  | register (domain backend : String)
  | add (domain : String) (rule : Rule)
  | remove (domain : String) (id : RuleId)
  | setBackend (domain backend : String)
  | setEnabled (domain : String) (enabled : Bool)

/-- What an operation answers when it succeeds: a removal gives the removed rule, if
there was one. -/
inductive Answer where
  | done
  | removed (rule? : Option Rule)

/-- The registry at some point of the work, with the events that have been told. -/
structure Progress where
  registry : Registry
  events : List Event

/-- An error does not take back what has been done before it. -/
abbrev Work := EStateM RoutingError Progress

/-- What has come of some work. There is a registry whether it has failed or not. -/
structure Outcome (α : Type) where
  answer : Except RoutingError α
  registry : Registry
  events : List Event

namespace Registry

def empty : Registry := ⟨.empty⟩

def get? (r : Registry) (domain : String) : Option Domain :=
  r.domains.get? domain

def insert (r : Registry) (domain : String) (d : Domain) : Registry :=
  ⟨r.domains.insert domain d⟩

/-- The rules in the order of evaluation; an unknown domain has none. -/
def rules (r : Registry) (domain : String) : List Rule :=
  ((r.get? domain).map Domain.rules).getD []

def defaultBackend? (r : Registry) (domain : String) : Option String :=
  (r.get? domain).map Domain.defaultBackend

/-- The registered names, sorted. -/
def names (r : Registry) : List String :=
  r.domains.names

/-- Where a message goes, and what is told of it. It goes nowhere if its domain is
unknown. -/
def lookUp (r : Registry) (domain : String) (m : Message) : Option String × List Event :=
  match r.get? domain with
  | some d =>
    let verdict := d.route m
    (some verdict.link, [verdict.event])
  | none => (none, [.unknownDomain domain])

def link? (r : Registry) (domain : String) (m : Message) : Option String :=
  (r.lookUp domain m).1

def linkEvents (r : Registry) (domain : String) (m : Message) : List Event :=
  (r.lookUp domain m).2

end Registry

namespace Work

def tell (events : List Event) : Work Unit :=
  modify fun s => { s with events := s.events ++ events }

/-- Put a domain into the registry, over a former one of its name. -/
def put (domain : String) (d : Domain) : Work Unit :=
  modify fun s => { s with registry := s.registry.insert domain d }

/-- The backend, if it is not blank. -/
def checkedBackend (domain backend : String) : Work String :=
  if Text.isBlank backend then throw (.blankBackend domain) else return backend

/-- A domain that is registered again keeps its rules and its switch. -/
def register (domain backend : String) : Work Unit := do
  let backend ← checkedBackend domain backend
  tell [.registered domain backend]
  match (← get).registry.get? domain with
  | some current => put domain { current with defaultBackend := backend }
  | none => put domain (.new backend)

/-- Put a changed copy of a registered domain in its place. -/
def update {α : Type} (domain : String) (f : Domain → α × Domain) : Work α := do
  match (← get).registry.get? domain with
  | some current =>
    let (result, next) := f current
    put domain next
    return result
  | none => throw (.unknownDomain domain)

/-- An addition is told before it is known whether there is such a domain. -/
def add (domain : String) (rule : Rule) : Work Unit := do
  tell [.adding domain rule]
  update domain fun d => ((), d.add rule)

def remove (domain : String) (id : RuleId) : Work (Option Rule) := do
  let removed? ← update domain (·.remove id)
  tell [.removed domain id removed?.isSome]
  return removed?

/-- A blank backend is told before an unknown domain. -/
def setBackend (domain backend : String) : Work Unit := do
  let backend ← checkedBackend domain backend
  update domain fun d => ((), { d with defaultBackend := backend })

def setEnabled (domain : String) (enabled : Bool) : Work Unit :=
  update domain fun d => ((), { d with enabled })

def perform : Operation → Work Answer
  | .register domain backend => do register domain backend; return .done
  | .add domain rule => do add domain rule; return .done
  | .remove domain id => return .removed (← remove domain id)
  | .setBackend domain backend => do setBackend domain backend; return .done
  | .setEnabled domain enabled => do setEnabled domain enabled; return .done

/-- Do the work on a registry; nothing has been told yet. -/
def on {α : Type} (w : Work α) (r : Registry) : Outcome α :=
  match w.run ⟨r, []⟩ with
  | .ok answer s => ⟨.ok answer, s.registry, s.events⟩
  | .error e s => ⟨.error e, s.registry, s.events⟩

end Work

namespace Registry

def step (r : Registry) (op : Operation) : Outcome Answer :=
  (Work.perform op).on r

/-- The registry after a history of operations, failed ones included. -/
def run (r : Registry) (ops : List Operation) : Registry :=
  ops.foldl (fun r op => (r.step op).registry) r

end Registry
end BackendRouting
