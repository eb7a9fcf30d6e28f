import BackendRouting.Config.Fault
import BackendRouting.Rule.Error

/-!
# Errors of the registry and of configurations
-/
namespace BackendRouting

/-- `unreadable`: there is no text, because the file is missing or is not UTF-8. -/
inductive RoutingError where
  | rule (e : RuleError)
  | unknownDomain (domain : String)
  | blankBackend (domain : String)
  | invalidConfig (detail : String)
  | document (fault : Config.Fault)
  | unreadable
  deriving DecidableEq, Repr

namespace RoutingError

/-- The domain has no default backend in the configuration. -/
def noBackend (domain : String) : RoutingError :=
  invalidConfig ("domain `" ++ domain ++ "` has no default-backend-name")

def message? : RoutingError → Option String
  | rule e => some e.message
  | unknownDomain domain => some ("unknown business domain `" ++ domain ++ "`")
  | blankBackend domain =>
    some ("business domain `" ++ domain ++ "` needs a non-blank default backend")
  | invalidConfig detail => some ("invalid routing configuration: " ++ detail)
  | document fault => fault.message?
  | unreadable => none

end RoutingError
end BackendRouting
