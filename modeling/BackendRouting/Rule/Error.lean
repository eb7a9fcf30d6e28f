import BackendRouting.Pattern.SyntaxError
import BackendRouting.Rule.Id

/-!
# Why a rule cannot be built
-/
namespace BackendRouting

inductive RuleError where
  | emptyPattern
  | invalidPattern (pattern : String) (errors : List SyntaxError)
  | emptyLink (rule : RuleId)
  | missingPattern (link : String)
  | unknownAttribute (name : String)
  | invalidValue (value : String)
  deriving DecidableEq, Repr

def RuleError.message : RuleError → String
  | emptyPattern => "pattern is not allowed to be empty or blank"
  | invalidPattern pattern errors =>
    "invalid routing pattern '" ++ pattern ++ "': " ++
      (errors.head?.map SyntaxError.message).getD "no details"
  | emptyLink rule => "routing rule '" ++ rule.text ++ "' has no link name"
  | missingPattern link => "routing rule for link '" ++ link ++ "' has no match clause"
  | unknownAttribute name => "unknown AS4 attribute '" ++ name ++ "'"
  | invalidValue value => "value '" ++ value ++ "' cannot be written in a routing pattern"

end BackendRouting
