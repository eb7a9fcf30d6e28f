/-!
# Message attributes

The seven attributes of an AS4 message that a routing rule can test. Their order
is the order of `Attribute.all`.
-/
namespace BackendRouting

inductive Attribute where
  | serviceType
  | serviceName
  | finalRecipient
  | fromPartyId
  | fromPartyIdType
  | fromPartyRole
  | action
  deriving DecidableEq, Ord, Repr

namespace Attribute

def all : List Attribute :=
  [serviceType, serviceName, finalRecipient, fromPartyId, fromPartyIdType, fromPartyRole, action]

/-- The name as it is written in patterns. -/
def name : Attribute → String
  | serviceType => "ServiceType"
  | serviceName => "ServiceName"
  | finalRecipient => "FinalRecipient"
  | fromPartyId => "FromPartyId"
  | fromPartyIdType => "FromPartyIdType"
  | fromPartyRole => "FromPartyRole"
  | action => "Action"

/-- The attribute of that exact name; case counts and nothing is trimmed. -/
def ofName? (s : String) : Option Attribute :=
  all.find? fun a => a.name == s

theorem mem_all (a : Attribute) : a ∈ all := by
  cases a <;> decide

end Attribute
end BackendRouting
