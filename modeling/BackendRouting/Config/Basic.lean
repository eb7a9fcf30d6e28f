import BackendRouting.Directory
import BackendRouting.Rule.Basic

/-!
# Routing configurations

A configuration names domains; each has a switch, a default backend and rule entries
with their ids, in the order of the document. Nothing in it has been checked yet:
links and backends may be blank, clauses may be wrong, ids may repeat.
-/
namespace BackendRouting.Config

structure RuleEntry where
  link : String
  clause : String
  priority : Int32
  description : String
  deriving DecidableEq

structure DomainEntry where
  enabled : Bool
  defaultBackend : String
  rules : List (String × RuleEntry)
  deriving DecidableEq

/-- What a domain is where its entry says nothing. -/
def DomainEntry.unset : DomainEntry := ⟨true, "", []⟩

/-- The first entry of that id. -/
def DomainEntry.rule? (d : DomainEntry) (id : String) : Option RuleEntry :=
  d.rules.lookup id

end Config

/-- The entries of the domains, by name. -/
structure Config where
  domains : Directory Config.DomainEntry
  deriving DecidableEq

namespace Config

def empty : Config := ⟨.empty⟩

/-- No domain is configured. -/
def isEmpty (c : Config) : Bool :=
  c.domains.entries.isEmpty

end BackendRouting.Config
