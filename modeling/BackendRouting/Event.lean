import BackendRouting.Rule.Basic

/-!
# Events

What the library has to say about its work besides its results. An event knows its
level, its message and its fields in order; the values of the fields are texts.
-/
namespace BackendRouting

inductive Level where
  | trace
  | debug
  | info
  | warn
  deriving DecidableEq, Repr

inductive Event where
  | evaluated (rule : RuleId) (applies : Bool)
  | registered (domain backend : String)
  | adding (domain : String) (rule : Rule)
  | removed (domain : String) (rule : RuleId) (found : Bool)
  | disabled (backend : String)
  | lookedUp (rule : RuleId) (link : String)
  | unmatched (backend : String)
  | unknownDomain (domain : String)
  | rejectedSyntax (rule : RuleId) (pattern : String) (error : SyntaxError)
  | rejected (rule : RuleId) (error : RuleError)
  | loading (path : String)

namespace Event

def level : Event → Level
  | evaluated _ _ => .trace
  | registered _ _ | adding _ _ | removed _ _ _ | disabled _ | loading _ => .debug
  | lookedUp _ _ => .info
  | unmatched _ | unknownDomain _ | rejectedSyntax _ _ _ | rejected _ _ => .warn

def message : Event → String
  | evaluated _ _ => "evaluated routing rule"
  | registered _ _ => "registered business domain"
  | adding _ _ => "adding routing rule"
  | removed _ _ _ => "removed routing rule"
  | disabled _ => "backend routing is disabled, applying default backend"
  | lookedUp _ _ => "looked up backend for message"
  | unmatched _ => "no routing rule matched, applying default backend"
  | unknownDomain _ => "no routing configuration for business domain"
  | rejectedSyntax _ pattern error => "rejected routing rule:\n" ++ error.render pattern
  | rejected _ _ => "rejected routing rule"
  | loading _ => "loading routing configuration"

def fields : Event → List (String × String)
  | evaluated rule applies => [("rule", rule.text), ("matched", toString applies)]
  | registered domain backend => [("domain", domain), ("backend", backend)]
  | adding domain rule => [("domain", domain), ("rule", rule.describe)]
  | removed domain rule found =>
    [("domain", domain), ("rule", rule.text), ("found", toString found)]
  | disabled backend | unmatched backend => [("backend", backend)]
  | lookedUp rule link => [("rule", rule.text), ("link", link)]
  | unknownDomain domain => [("domain", domain)]
  | rejectedSyntax rule _ _ => [("rule", rule.text)]
  | rejected rule error => [("rule", rule.text), ("error", error.message)]
  | loading path => [("path", path)]

end Event
end BackendRouting
