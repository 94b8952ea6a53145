import N3.Proofs.Outcome
import N3.Proofs.Witness.Scope
import N3.Signer

/-!
# Signers that are changed in place

An `Edit` is something to add to one of the lists of a signer. Handed over and given back, the signer is checked and has
the entries added (`apply_eq`). Performed in place an edit goes statement by statement, and an error leaves the signer
as the statements before it have made it. All checks come before the first change, so that an edit is done or not begun:
in place it does what it does on a signer that is handed over and given back (`outcome_eq_apply`).
-/

set_option autoImplicit false

namespace N3.Signer

theorem checkAdd_eq_ok_iff {s : Signer} {what entries : String} {held added : Nat} :
    s.checkAdd what entries held added = .ok () ↔
      s.scope.has .global = false ∧ held + added ≤ Limits.signerEntries := by
  unfold checkAdd
  split
  · next hglobal => simp [hglobal]
  · next hglobal =>
    split
    · next hfull => simp [hfull]
    · next hroom => simp [hglobal, Nat.not_lt.mp hroom]

inductive Edit where
  | contracts (added : List Hash160)
  | groups (added : List Point)
  | rules (added : List Rule)

namespace Edit

/-! ## What there is to an edit -/

def isEmpty : Edit → Bool
  | contracts cs => cs.isEmpty
  | groups gs => gs.isEmpty
  | rules rs => rs.isEmpty

def count : Edit → Nat
  | contracts cs => cs.length
  | groups gs => gs.length
  | rules rs => rs.length

def held (s : Signer) : Edit → Nat
  | contracts _ => s.contracts.length
  | groups _ => s.groups.length
  | rules _ => s.rules.length

def flag : Edit → Scope
  | contracts _ => .customContracts
  | groups _ => .customGroups
  | rules _ => .witnessRules

theorem flag_mem (e : Edit) : e.flag ∈ Scope.restrictions := by cases e <;> simp [flag, Scope.restrictions]

/-- What the list is called where a signer cannot be restricted. -/
def listName : Edit → String
  | contracts _ => "allowed contracts"
  | groups _ => "allowed contract groups"
  | rules _ => "witness rules"

/-- What the entries are called where there are too many. -/
def entryName : Edit → String
  | contracts _ => "allowed contracts"
  | groups _ => "allowed contract groups"
  | rules _ => "rules"

def conditions : Edit → List Condition
  | rules rs => rs.map (·.condition)
  | _ => []

/-- The signer with the entries behind those of their list. -/
def append (s : Signer) : Edit → Signer
  | contracts cs => { s with contracts := s.contracts ++ cs }
  | groups gs => { s with groups := s.groups ++ gs }
  | rules rs => { s with rules := s.rules ++ rs }

/-- The signer with the entries behind those of their list and with its flag, and otherwise as it was. -/
def added (s : Signer) : Edit → Signer
  | contracts cs => { s with scope := s.scope.union .customContracts, contracts := s.contracts ++ cs }
  | groups gs => { s with scope := s.scope.union .customGroups, groups := s.groups ++ gs }
  | rules rs => { s with scope := s.scope.union .witnessRules, rules := s.rules ++ rs }

/-! ## Making it -/

/-- What is checked before anything is changed. -/
def check (s : Signer) (e : Edit) : Except Error Unit := do
  s.checkAdd e.listName e.entryName (e.held s) e.count
  e.conditions.forM fun c => c.checkDepth Limits.connectiveLevels

/-- The edit in place, one statement after the other. -/
def perform (e : Edit) : ExceptT Error (StateM Signer) Unit := do
  if e.isEmpty then return
  MonadExcept.ofExcept (e.check (← get))
  modify fun s => { s with scope := s.scope.union e.flag }
  modify fun s => e.append s

/-- The answer to the edit, and the signer after it. -/
def outcome (s : Signer) (e : Edit) : Except Error Unit × Signer := e.perform.run.run s

/-- The edit of a signer that is handed over and given back. -/
def apply (s : Signer) : Edit → Except Error Signer
  | contracts cs => s.addContracts cs
  | groups gs => s.addGroups gs
  | rules rs => s.addRules rs

/-- Handed over and given back, a signer is checked and then has the entries added, unless there are none. -/
theorem apply_eq (s : Signer) (e : Edit) :
    e.apply s = if e.isEmpty then .ok s else (e.check s).map fun _ => e.added s := by
  cases e with
  | contracts cs =>
    refine if_congr Iff.rfl rfl ?_
    simp only [check, listName, entryName, held, conditions, count]
    rcases s.checkAdd _ _ _ _ with err | u <;> rfl
  | groups gs =>
    refine if_congr Iff.rfl rfl ?_
    simp only [check, listName, entryName, held, conditions, count]
    rcases s.checkAdd _ _ _ _ with err | u <;> rfl
  | rules rs =>
    refine if_congr Iff.rfl rfl ?_
    simp only [check, listName, entryName, held, conditions, count, List.forM_eq_forM, List.forM_map]
    generalize (forM rs fun r : Rule => r.condition.checkDepth Limits.connectiveLevels : Except Error Unit) = deep
    rcases s.checkAdd _ _ _ _ with err | u
    · rfl
    · rcases deep with err | u <;> rfl

theorem apply_eq_ok {s t : Signer} {e : Edit} (h : e.apply s = .ok t) :
    t = s ∨ e.check s = .ok () ∧ t = e.added s := by
  rw [apply_eq] at h
  split at h
  · exact .inl (Except.ok.inj h).symm
  · rcases hcheck : e.check s with err | u
    · rw [hcheck] at h
      cases h
    · rw [hcheck] at h
      exact .inr ⟨rfl, (Except.ok.inj h).symm⟩

/-- In place, the checks come before all changes. -/
theorem outcome_eq (s : Signer) (e : Edit) :
    e.outcome s = if e.isEmpty then (.ok (), s) else
      match e.check s with
      | .ok _ => (.ok (), e.added s)
      | .error err => (.error err, s) := by
  unfold outcome perform
  split
  · rfl
  · change ((MonadExcept.ofExcept (e.check s) : ExceptT Error (StateM Signer) Unit) >>= fun _ => do
      modify fun s => { s with scope := s.scope.union e.flag }
      modify fun s => e.append s).run.run s = _
    rcases e.check s with err | u
    · rfl
    · cases e <;> rfl

theorem outcome_eq_apply (s : Signer) (e : Edit) :
    e.outcome s = match e.apply s with
      | .ok t => (.ok (), t)
      | .error err => (.error err, s) := by
  rw [outcome_eq, apply_eq]
  split
  · rfl
  · rcases e.check s with err | u <;> rfl

theorem apply_eq_ok_iff_outcome {s t : Signer} {e : Edit} : e.apply s = .ok t ↔ e.outcome s = (.ok (), t) := by
  rw [outcome_eq_apply]
  rcases e.apply s with err | u
  · simp
  · simp

/-! ## What it leaves behind -/

theorem check_eq_ok_iff {s : Signer} {e : Edit} : e.check s = .ok () ↔
    s.scope.has .global = false ∧ e.held s + e.count ≤ Limits.signerEntries ∧
      ∀ c ∈ e.conditions, c.checkDepth Limits.connectiveLevels = .ok () := by
  rw [check, Outcome.bind_unit_eq_ok, checkAdd_eq_ok_iff, Outcome.forM_eq_ok, and_assoc]

theorem append_of_isEmpty (s : Signer) {e : Edit} (h : e.isEmpty = true) : e.append s = s := by
  cases e with
  | contracts cs => rw [List.isEmpty_iff.mp h, append, List.append_nil]
  | groups gs => rw [List.isEmpty_iff.mp h, append, List.append_nil]
  | rules rs => rw [List.isEmpty_iff.mp h, append, List.append_nil]

theorem append_of_flagged {s : Signer} {e : Edit} (h : s.scope.has e.flag = true) : e.append s = e.added s := by
  have hunion : s.scope.union e.flag = s.scope := Scope.union_of_has _ e.flag_mem _ h
  cases e with
  | contracts cs => rw [added, show s.scope.union .customContracts = s.scope from hunion, append]
  | groups gs => rw [added, show s.scope.union .customGroups = s.scope from hunion, append]
  | rules rs => rw [added, show s.scope.union .witnessRules = s.scope from hunion, append]

theorem outcome_of_isEmpty (s : Signer) {e : Edit} (h : e.isEmpty = true) : e.outcome s = (.ok (), s) := by
  rw [outcome_eq, if_pos h]

/-- A refused edit leaves the signer as it was. -/
theorem outcome_of_error {s : Signer} {e : Edit} {err : Error} (h : (e.outcome s).1 = .error err) :
    (e.outcome s).2 = s := by
  rw [outcome_eq] at h ⊢
  split at h
  · cases h
  · next hempty =>
    rw [if_neg hempty]
    rcases hcheck : e.check s with err' | u
    · rfl
    · rw [hcheck] at h
      cases h

theorem outcome_of_ok {s : Signer} {e : Edit} (h : (e.outcome s).1 = .ok ()) (hempty : e.isEmpty = false) :
    (e.outcome s).2 = e.added s := by
  rw [outcome_eq, if_neg (Bool.eq_false_iff.mp hempty)] at h ⊢
  rcases hcheck : e.check s with err | u
  · rw [hcheck] at h
    cases h
  · rfl

theorem outcome_eq_ok_iff {s : Signer} {e : Edit} :
    (e.outcome s).1 = .ok () ↔ e.isEmpty = true ∨ e.check s = .ok () := by
  rw [outcome_eq]
  split
  · next hempty => simp [hempty]
  · next hempty =>
    rcases e.check s with err | u
    · simp [hempty]
    · simp

/-- If the flag of the list is set already, only the list changes. -/
theorem apply_of_flagged {s : Signer} {e : Edit} (hflag : e.isEmpty = false → s.scope.has e.flag = true)
    (hcheck : e.isEmpty = false → e.check s = .ok ()) : e.apply s = .ok (e.append s) := by
  rw [apply_eq]
  split
  · next hempty => rw [append_of_isEmpty s hempty]
  · next hempty =>
    have hempty := Bool.eq_false_iff.mpr hempty
    rw [hcheck hempty, ← append_of_flagged (hflag hempty)]
    rfl

end Edit

end N3.Signer
