import BackendRouting.Config.Basic
import BackendRouting.Config.Value
import BackendRouting.Yaml.Document

/-!
# Configurations as documents

`encode` gives the tree that says what a configuration is, with every field; `decode`
reads a tree. Reading goes through the tree in the order of the text and stops at the
first fault.

* A field may be given once, the id of a rule once in its domain. A domain that is
  named again replaces the former one of that name.
* A rule entry needs a `link-name`; other fields may be left out.
* Fields of other names mean nothing and may repeat.
-/
namespace BackendRouting.Config

open Yaml (Node)

/-- Set a field that must not have been set before. -/
def setOnce {α : Type} (name : String) (former? : Option α) (value : Decoder α) :
    Decoder (Option α) :=
  match former? with
  | some _ => throw (.duplicateField name)
  | none => some <$> value

/-! ## Rule entries -/

/-- The fields of a rule entry that have been read. -/
structure RuleFields where
  link? : Option String
  clause? : Option String
  priority? : Option Int32
  description? : Option String

def RuleFields.read (f : RuleFields) (entry : Node × Node) : Decoder RuleFields := do
  let name ← entry.1.asText
  let value := entry.2
  match name with
  | "link-name" => return { f with link? := ← setOnce name f.link? value.asText }
  | "match-clause" => return { f with clause? := ← setOnce name f.clause? value.asText }
  | "priority" => return { f with priority? := ← setOnce name f.priority? value.asInt32 }
  | "description" => return { f with description? := ← setOnce name f.description? value.asText }
  | _ => value.asAnything; return f

namespace RuleEntry

def decode (n : Node) : Decoder RuleEntry := do
  let f ← (← n.asMapping).foldlM RuleFields.read ⟨none, none, none, none⟩
  let some link := f.link? | throw (.missingField "link-name")
  return ⟨link, f.clause?.getD "", f.priority?.getD 0, f.description?.getD ""⟩

def encode (r : RuleEntry) : Node :=
  .mapping [
    (.quoted "link-name", .quoted r.link),
    (.quoted "match-clause", .quoted r.clause),
    (.quoted "priority", .plain (toString r.priority.toInt)),
    (.quoted "description", .quoted r.description)]

end RuleEntry

/-! ## Rules of a domain -/

/-- Add a rule entry behind the others. That its id is new is looked at after the
entry has been read. -/
def addRule (rules : List (String × RuleEntry)) (entry : Node × Node) :
    Decoder (List (String × RuleEntry)) := do
  let id ← entry.1.asText
  let rule ← RuleEntry.decode entry.2
  if rules.any (·.1 == id) then throw (.duplicateRule id)
  return rules ++ [(id, rule)]

def decodeRules (n : Node) : Decoder (List (String × RuleEntry)) := do
  (← n.asMapping).foldlM addRule []

def encodeRules (rules : List (String × RuleEntry)) : Node :=
  .mapping (rules.map fun (id, rule) => (.quoted id, rule.encode))

/-! ## Domains -/

/-- The fields of a domain entry that have been read. -/
structure DomainFields where
  enabled? : Option Bool
  defaultBackend? : Option String
  rules? : Option (List (String × RuleEntry))

def DomainFields.read (f : DomainFields) (entry : Node × Node) : Decoder DomainFields := do
  let name ← entry.1.asText
  let value := entry.2
  match name with
  | "enabled" => return { f with enabled? := ← setOnce name f.enabled? value.asFlag }
  | "default-backend-name" =>
    return { f with defaultBackend? := ← setOnce name f.defaultBackend? value.asText }
  | "backend-rules" => return { f with rules? := ← setOnce name f.rules? (decodeRules value) }
  | _ => value.asAnything; return f

namespace DomainEntry

def decode (n : Node) : Decoder DomainEntry := do
  let f ← (← n.asMapping).foldlM DomainFields.read ⟨none, none, none⟩
  return ⟨f.enabled?.getD unset.enabled, f.defaultBackend?.getD unset.defaultBackend,
    f.rules?.getD unset.rules⟩

def encode (d : DomainEntry) : Node :=
  .mapping [
    (.quoted "enabled", .plain (if d.enabled then "true" else "false")),
    (.quoted "default-backend-name", .quoted d.defaultBackend),
    (.quoted "backend-rules", encodeRules d.rules)]

end DomainEntry

/-- Put a domain into the directory, over a former one of its name. -/
def addDomain (domains : Directory DomainEntry) (entry : Node × Node) :
    Decoder (Directory DomainEntry) := do
  let name ← entry.1.asText
  let domain ← DomainEntry.decode entry.2
  return domains.insert name domain

def decodeDomains (n : Node) : Decoder (Directory DomainEntry) := do
  (← n.asMapping).foldlM addDomain .empty

def encodeDomains (domains : Directory DomainEntry) : Node :=
  .mapping (domains.entries.map fun (name, domain) => (.quoted name, domain.encode))

/-! ## Whole configurations -/

/-- The only field of a configuration is `domains`. -/
def readField (domains? : Option (Directory DomainEntry)) (entry : Node × Node) :
    Decoder (Option (Directory DomainEntry)) := do
  let name ← entry.1.asText
  match name with
  | "domains" => setOnce name domains? (decodeDomains entry.2)
  | _ => entry.2.asAnything; return domains?

def decode (n : Node) : Decoder Config := do
  let domains? ← (← n.asMapping).foldlM readField none
  return ⟨domains?.getD .empty⟩

def encode (c : Config) : Node :=
  .mapping [(.quoted "domains", encodeDomains c.domains)]

/-- A fault inside the first document is told before one behind it. -/
def ofDocument (d : Yaml.Document) : Except Fault Config := do
  let config ← Decoder.run decode d
  if d.whole then return config else throw .malformed

/-- The configuration that a tree without references says. -/
def ofNode (root : Node) : Except Fault Config :=
  ofDocument (.ofNode root)

def ofText (text : String) : Except Fault Config :=
  ofDocument (Yaml.Document.ofText text)

end BackendRouting.Config
