import BackendRouting.Config.Basic
import BackendRouting.Domain.Registry

/-!
# Loading a configuration

An entry becomes a rule if its link is not blank and its clause is a valid pattern.
Other entries are rejected, each with a warning, and do not keep the rest from being
loaded. A configuration with a domain that has no default backend is not loaded at all.
-/
namespace BackendRouting.Config

structure Rejection where
  id : String
  error : RuleError
  deriving DecidableEq, Repr

/-- Every syntax error of a rejected clause is shown at its place in the clause. -/
def Rejection.events (r : Rejection) : List Event :=
  match r.error with
  | .invalidPattern pattern errors => errors.map (.rejectedSyntax (.given r.id) pattern)
  | error => [.rejected (.given r.id) error]

/-- The rule of an entry. A blank link is told before what is wrong with the clause. -/
def RuleEntry.rule (id : String) (r : RuleEntry) : Except RuleError Rule := do
  if Text.isBlank r.link then throw (.emptyLink (.given id))
  let pattern ← Pattern.ofValidText r.clause
  return { id := .given id, link := r.link, pattern, priority := r.priority,
           description := r.description, source := .environment, deleted := false }

/-- Rules and rejections, each in the order of their entries, and what was told of them. -/
structure Loaded where
  rules : List Rule
  rejected : List Rejection
  events : List Event

def Loaded.ofEntries : List (String × RuleEntry) → Loaded
  | [] => ⟨[], [], []⟩
  | (id, entry) :: entries =>
    match entry.rule id with
    | .ok rule =>
      let rest := ofEntries entries
      { rest with rules := rule :: rest.rules }
    | .error error =>
      let rejection : Rejection := ⟨id, error⟩
      let rest := ofEntries entries
      { rest with rejected := rejection :: rest.rejected, events := rejection.events ++ rest.events }

def DomainEntry.load (d : DomainEntry) : Loaded :=
  .ofEntries d.rules

/-- The first domain without a default backend, by name. -/
def unbacked? (c : Config) : Option String :=
  (c.domains.entries.find? fun (_, d) => Text.isBlank d.defaultBackend).map Prod.fst

def validate (c : Config) : Except RoutingError Unit :=
  match c.unbacked? with
  | some domain => .error (.noBackend domain)
  | none => .ok ()

/-- Set up one domain, with the rules that are not rejected. -/
def DomainEntry.setUp (name : String) (d : DomainEntry) : Work (List Rejection) := do
  Work.register name d.defaultBackend
  Work.setEnabled name d.enabled
  let loaded := d.load
  Work.tell loaded.events
  forM loaded.rules (Work.add name)
  return loaded.rejected

/-- Set up one domain more. -/
def setUpNext (rejected : List Rejection) (entry : String × DomainEntry) :
    Work (List Rejection) := do
  let more ← entry.2.setUp entry.1
  return rejected ++ more

/-- Set up all domains, by name, unless one has no default backend. -/
def setUp (c : Config) : Work (List Rejection) := do
  ofExcept c.validate
  c.domains.entries.foldlM setUpNext []

/-- A registry that has been set up, with the entries that were rejected. -/
structure Setup where
  registry : Registry
  rejected : List Rejection

def build (c : Config) : Except RoutingError Setup :=
  let outcome := c.setUp.on .empty
  outcome.answer.map (⟨outcome.registry, ·⟩)

/-- What is told while a registry is built. -/
def buildEvents (c : Config) : List Event :=
  (c.setUp.on .empty).events

end BackendRouting.Config
