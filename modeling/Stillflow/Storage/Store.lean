import Stillflow.Lib.Fallible
import Stillflow.Lib.Machine
import Stillflow.Core.Json

/-!
Transactions of the metadata store. A transaction runs on the whole database or not at all; what the
activity guard, the connection and the commit answer is given by an `Access`.
-/

namespace Stillflow.Storage

open Stillflow.Core

inductive StorageError where
  | invalidDraft (message : String)
  | notFound (id : Uuid)
  | alreadyExists (id : Uuid)
  | busy (message : String)
  | invalidTimestampOrder (subject : String)
  | arithmeticOverflow (subject : String)
  | io (operation : String)
  | database (operation : String)
  | serialization (operation : String)
  | invalidManifest (message : String)
  | activityState
  | identityNotFound
  | identityAlreadyExists
  | identity (message : String)
deriving DecidableEq, Repr

def i64Max : Nat := 2 ^ 63 - 1

/-- What surrounds one transaction: a refusal by the activity guard, the connection or the begin of
the transaction, a failed commit, and a failed read of the committed row. -/
structure Access where
  refused : Option StorageError := none
  commit : Option StorageError := none
  readBack : Option StorageError := none
deriving DecidableEq

/-- Nothing around the transaction fails. -/
def Access.Granted (access : Access) : Prop := access.refused = none ∧ access.commit = none

variable {σ α : Type}

/-- `Option::ok_or`. -/
def okOr (value : Option α) (fault : StorageError) : Except StorageError α :=
  match value with
  | some a => .ok a
  | none => .error fault

theorem okOr_eq_ok {value : Option α} {fault : StorageError} {a : α} :
    okOr value fault = .ok a ↔ value = some a := by
  cases value <;> simp [okOr]

/-- Runs the body on the database; a failed transaction is rolled back. -/
def transact (access : Access) (db : σ) (body : Except StorageError (α × σ)) :
    Except StorageError α × σ :=
  match access.refused, body, access.commit with
  | some fault, _, _ => (.error fault, db)
  | none, .error fault, _ => (.error fault, db)
  | none, .ok _, some fault => (.error fault, db)
  | none, .ok (a, db'), none => (.ok a, db')

theorem transact_granted {access : Access} (h : access.Granted) (db : σ) {a : α} {db' : σ} :
    transact access db (.ok (a, db')) = (.ok a, db') := by
  unfold transact
  rw [h.1, h.2]

theorem transact_error (access : Access) (db : σ) (fault : StorageError) :
    ∃ fault', transact access db (.error fault : Except StorageError (α × σ)) =
      (.error fault', db) := by
  unfold transact
  cases access.refused <;> exact ⟨_, rfl⟩

theorem transact_cases (access : Access) (db : σ) (body : Except StorageError (α × σ)) :
    (∃ fault, transact access db body = (.error fault, db)) ∨
      access.Granted ∧ ∃ a db', body = .ok (a, db') ∧ transact access db body = (.ok a, db') := by
  unfold transact Access.Granted
  cases access.refused with
  | some fault => exact .inl ⟨fault, rfl⟩
  | none =>
    cases body with
    | error fault => exact .inl ⟨fault, rfl⟩
    | ok result =>
      cases access.commit with
      | some fault => exact .inl ⟨fault, rfl⟩
      | none => exact .inr ⟨⟨rfl, rfl⟩, result.1, result.2, rfl, rfl⟩

/-- A statement outside a transaction: the row is read back after it. -/
def executed (access : Access) (db : σ) (body : Except StorageError (α × σ)) :
    Except StorageError α × σ :=
  match transact access db body, access.readBack with
  | (.ok _, db), some fault => (.error fault, db)
  | result, _ => result

theorem executed_cases (access : Access) (db : σ) (body : Except StorageError (α × σ)) :
    (∃ fault, executed access db body = (.error fault, db)) ∨
      ∃ result a db', body = .ok (a, db') ∧ executed access db body = (result, db') := by
  unfold executed
  cases transact_cases access db body with
  | inl h =>
    obtain ⟨fault, heq⟩ := h
    rw [heq]
    cases access.readBack <;> exact .inl ⟨fault, rfl⟩
  | inr h =>
    obtain ⟨-, a, db', hbody, heq⟩ := h
    rw [heq]
    cases access.readBack <;> exact .inr ⟨_, a, db', hbody, rfl⟩

/-- The connection of a call is opened. -/
def Access.connect (access : Access) : Except StorageError Unit :=
  match access.refused with
  | some fault => .error fault
  | none => .ok ()

/-- A call whose arguments are checked before the store is entered. -/
def afterCheck {β : Type} (check : Except StorageError β) (db : σ)
    (call : β → Except StorageError α × σ) : Except StorageError α × σ :=
  match check with
  | .error fault => (.error fault, db)
  | .ok b => call b

end Stillflow.Storage
