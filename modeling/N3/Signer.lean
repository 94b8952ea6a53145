import N3.Witness.Rule
import N3.Witness.Scope

/-!
# Signers

A signer is an account, the scope of its witness, and the lists that restrict it: contracts, groups and rules. A list
that is added to sets its flag in the scope. Lists hold sixteen entries at most, and a witness that counts everywhere
has none.

The wire form and the JSON form write a list where its flag is set, so that a flag over an empty list survives.
-/

set_option autoImplicit false

namespace N3

structure Signer where
  account : Hash160
  scope : Scope
  contracts : List Hash160 := []
  groups : List Point := []
  rules : List Rule := []
  deriving DecidableEq

namespace Signer

/-! ## Making signers -/

def ofScope (account : Hash160) (scope : Scope) : Except Error Signer :=
  if scope.isValid then .ok { account, scope } else .error (.signerConfiguration (.invalidScopes scope.text))

/-- Pays fees, and counts nowhere else. -/
def none (account : Hash160) : Signer := { account, scope := .none }

def calledByEntry (account : Hash160) : Signer := { account, scope := .calledByEntry }

def global (account : Hash160) : Signer := { account, scope := .global }

def checkAdd (s : Signer) (what entries : String) (held added : Nat) : Except Error Unit :=
  if s.scope.has .global then .error (.signerConfiguration (.globalRestricted what))
  else if Limits.signerEntries < held + added then
    .error (.signerConfiguration (.noRoom Limits.signerEntries entries (held + added)))
  else .ok ()

/-- Adds contracts in which the witness counts. None at all change nothing. -/
def addContracts (s : Signer) (cs : List Hash160) : Except Error Signer := do
  if cs.isEmpty then return s
  s.checkAdd "allowed contracts" "allowed contracts" s.contracts.length cs.length
  return { s with scope := s.scope.union .customContracts, contracts := s.contracts ++ cs }

def addGroups (s : Signer) (gs : List Point) : Except Error Signer := do
  if gs.isEmpty then return s
  s.checkAdd "allowed contract groups" "allowed contract groups" s.groups.length gs.length
  return { s with scope := s.scope.union .customGroups, groups := s.groups ++ gs }

/-- Adds rules, if their conditions are not too deep. None at all change nothing. -/
def addRules (s : Signer) (rs : List Rule) : Except Error Signer := do
  if rs.isEmpty then return s
  s.checkAdd "witness rules" "rules" s.rules.length rs.length
  rs.forM fun r => r.condition.checkDepth Limits.connectiveLevels
  return { s with scope := s.scope.union .witnessRules, rules := s.rules ++ rs }

/-! Adding restrictions keeps the account. -/

theorem account_ofScope {account : Hash160} {scope : Scope} {s : Signer} (h : ofScope account scope = .ok s) :
    s.account = account := by
  unfold ofScope at h
  split at h
  · cases h; rfl
  · cases h

theorem account_addContracts {s t : Signer} {cs : List Hash160} (h : s.addContracts cs = .ok t) :
    t.account = s.account := by
  unfold addContracts at h
  split at h
  · cases h; rfl
  · generalize s.checkAdd "allowed contracts" "allowed contracts" s.contracts.length cs.length = x at h
    cases x with
    | ok u => cases h; rfl
    | error e => cases h

theorem account_addGroups {s t : Signer} {gs : List Point} (h : s.addGroups gs = .ok t) :
    t.account = s.account := by
  unfold addGroups at h
  split at h
  · cases h; rfl
  · generalize s.checkAdd "allowed contract groups" "allowed contract groups" s.groups.length gs.length = x at h
    cases x with
    | ok u => cases h; rfl
    | error e => cases h

theorem account_addRules {s t : Signer} {rs : List Rule} (h : s.addRules rs = .ok t) : t.account = s.account := by
  unfold addRules at h
  split at h
  · cases h; rfl
  · generalize s.checkAdd "witness rules" "rules" s.rules.length rs.length = x at h
    generalize (rs.forM fun r => r.condition.checkDepth Limits.connectiveLevels) = y at h
    cases x with
    | ok u =>
      cases y with
      | ok v => cases h; rfl
      | error e => cases h
    | error e => cases h

/-! ## Wire form -/

def encode (s : Signer) : Bytes :=
  s.account.bytes ++ s.scope.bits ::
    ((if s.scope.has .customContracts then Encode.list FixedBytes.bytes s.contracts else []) ++
      (if s.scope.has .customGroups then Encode.list (fun g => g.compressed.bytes) s.groups else []) ++
      (if s.scope.has .witnessRules then Encode.list Rule.encode s.rules else []))

def size (s : Signer) : Nat :=
  21 + (if s.scope.has .customContracts then Encode.listSize (fun _ => 20) s.contracts else 0) +
    (if s.scope.has .customGroups then Encode.listSize (fun _ => 33) s.groups else 0) +
    (if s.scope.has .witnessRules then Encode.listSize Rule.size s.rules else 0)

/-- A list that is read if its flag is set. -/
def flagged {α : Type} (scope flag : Scope) (item : Decoder DecodeError α) : Decoder DecodeError (List α) :=
  if scope.has flag then Decoder.list Limits.signerEntries item else pure []

def decode : Decoder DecodeError Signer := do
  let account ← Decoder.fixed 20
  let scope ← Decoder.ofExcept ((Scope.ofByte (← Decoder.byte)).mapError fun f => .format (.scope f))
  let contracts ← flagged scope .customContracts (Decoder.fixed 20)
  let groups ← flagged scope .customGroups Condition.decodeKey
  let rules ← flagged scope .witnessRules Rule.decode
  return { account, scope, contracts, groups, rules }

/-! ## JSON -/

def toJson (s : Signer) : Json :=
  let list {α : Type} (flag : Scope) (key : String) (item : α → Json) (as : List α) : List (String × Json) :=
    if s.scope.has flag then [(key, .arr (as.map item))] else []
  .obj ([("account", .str s.account.toText), ("scopes", .str s.scope.text)] ++
    list .customContracts "allowedcontracts" (fun h => .str h.toText) s.contracts ++
    list .customGroups "allowedgroups" (fun g => .str g.toHex) s.groups ++
    list .witnessRules "rules" Rule.toJson s.rules)

def textField (key : String) (j : Json) : Except Error String :=
  match j.get? key with
  | some (.str s) => .ok s
  | _ => .error (.invalidArgument (.signerFieldMissing key))

/-- The items of a field; none if it is absent or no array. -/
def listField (key : String) (j : Json) : List Json := ((j.get? key).bind Json.asArray?).getD []

def contractOfJson : Json → Except Error Hash160
  | .str s => (FixedBytes.parse 20 s).mapError Error.ofHash
  | _ => .error (.invalidArgument .contractNotAString)

def groupOfJson : Json → Except Error Point
  | .str s => (Point.ofHex s).mapError Error.ofKey
  | _ => .error (.invalidArgument .groupNotAString)

/-- Reads all lists before it adds any. -/
def ofJson (j : Json) : Except Error Signer := do
  let account ← (FixedBytes.parse 20 (← textField "account" j)).mapError Error.ofHash
  let scope ← (Scope.parse (← textField "scopes" j)).mapError .invalidArgument
  let s ← ofScope account scope
  let contracts ← (listField "allowedcontracts" j).mapM contractOfJson
  let groups ← (listField "allowedgroups" j).mapM groupOfJson
  let rules ← (listField "rules" j).mapM Rule.ofJson
  let s ← s.addContracts contracts
  let s ← s.addGroups groups
  s.addRules rules

end Signer

end N3
