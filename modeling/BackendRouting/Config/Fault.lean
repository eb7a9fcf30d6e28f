/-!
# What is wrong with a configuration document
-/
namespace BackendRouting.Config

/-- `malformed`: the text is no single document. `mistyped`: a value of another kind
stands where a text, a flag, a number or a mapping belongs. `overused`: references are
followed too many times. -/
inductive Fault where
  | malformed
  | mistyped
  | overused
  | missingField (name : String)
  | duplicateField (name : String)
  | duplicateRule (id : String)
  deriving DecidableEq, Repr

/-- Only the faults that concern single names have a fixed wording. -/
def Fault.message? : Fault → Option String
  | malformed | mistyped | overused => none
  | missingField name => some ("missing field `" ++ name ++ "`")
  | duplicateField name => some ("duplicate field `" ++ name ++ "`")
  | duplicateRule id => some ("duplicate rule id `" ++ id ++ "`")

end BackendRouting.Config
