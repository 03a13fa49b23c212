import MbTools.Lib.Table
import Mathlib.Data.Nat.Notation

/-! # The lock table

The exclusive per-device locks of one registry. A release reports the status it
dropped, so that the caller can run the flash-release callback for it.
-/

namespace MbTools

inductive LockKind where
  | serial
  | relay
  | flash
  | debug
  deriving DecidableEq, Repr

inductive Origin where
  | local
  | remote
  deriving DecidableEq, Repr

/-- A lock holder: a local client by its pid, or a remote one by its session. -/
structure HolderRef where
  origin : Origin
  ref : String
  pid : Option ℕ
  host : Option String
  deriving DecidableEq, Repr

structure LockStatus where
  kind : LockKind
  holder : HolderRef
  label : Option String
  since : ℕ
  deriving DecidableEq, Repr

abbrev LockManager := Dict String LockStatus

namespace LockManager

variable {m m' : LockManager} {uid k : String} {holder : HolderRef} {st : LockStatus}

def status (m : LockManager) (uid : String) : Option LockStatus := m.lookup uid

/-- Grant the lock if `uid` is free; otherwise raise with the current status. -/
def acquire (m : LockManager) (now : ℕ) (uid : String) (kind : LockKind) (holder : HolderRef)
    (label : Option String) : Except LockStatus LockManager :=
  match m.status uid with
  | some current => .error current
  | none => .ok (m.insert uid ⟨kind, holder, label, now⟩)

/-- Release the lock if `holder` is the current holder, field for field. -/
def release (m : LockManager) (uid : String) (holder : HolderRef) :
    LockManager × Option LockStatus :=
  match m.status uid with
  | none => (m, none)
  | some current => if current.holder = holder then (m.erase uid, some current) else (m, none)

/-- Release the lock whoever holds it. -/
def forceRelease (m : LockManager) (uid : String) : LockManager × Option LockStatus :=
  match m.status uid with
  | none => (m, none)
  | some current => (m.erase uid, some current)

/-- The locks a sweep releases: those whose holder is reported dead. -/
def stale (m : LockManager) (isAlive : HolderRef → Bool) : List (String × LockStatus) :=
  m.rows.filter fun p => !isAlive p.2.holder

theorem acquire_eq_ok_iff {now : ℕ} {kind : LockKind} {label : Option String} :
    m.acquire now uid kind holder label = .ok m' ↔
      m.status uid = none ∧ m' = m.insert uid ⟨kind, holder, label, now⟩ := by
  unfold acquire
  cases h : m.status uid with
  | none => simp [eq_comm]
  | some st => simp

theorem status_insert (m : LockManager) (uid : String) (st : LockStatus) (k : String) :
    status (m.insert uid st) k = if uid = k then some st else m.status k :=
  Dict.lookup_insert m uid st k

theorem status_erase (m : LockManager) (uid k : String) :
    status (m.erase uid) k = if uid = k then none else m.status k :=
  Dict.lookup_erase m uid k

theorem release_of_ne (h : uid ≠ k) : (m.release uid holder).1.status k = m.status k := by
  unfold release
  split
  · rfl
  · split
    · rw [status_erase, if_neg h]
    · rfl

theorem forceRelease_of_ne (h : uid ≠ k) : (m.forceRelease uid).1.status k = m.status k := by
  unfold forceRelease
  split
  · rfl
  · rw [status_erase, if_neg h]

/-- A release returns the lock it ended, and only one of that holder. -/
theorem release_eq_some_iff : m.release uid holder = (m', some st) ↔
    m.status uid = some st ∧ st.holder = holder ∧ m' = m.erase uid := by
  unfold release
  cases h : m.status uid with
  | none => simp
  | some current =>
    by_cases hh : current.holder = holder
    · simp only [if_pos hh, Prod.mk.injEq, Option.some.injEq]
      constructor
      · rintro ⟨rfl, rfl⟩
        exact ⟨rfl, hh, rfl⟩
      · rintro ⟨rfl, -, rfl⟩
        exact ⟨rfl, rfl⟩
    · simp only [if_neg hh, Prod.mk.injEq, reduceCtorEq, and_false, Option.some.injEq, false_iff]
      rintro ⟨rfl, hst, -⟩
      exact hh hst

/-- Only the holder's own release frees the lock. -/
theorem release_status_self :
    (m.release uid holder).1.status uid =
      (m.status uid).filter fun st => st.holder ≠ holder := by
  unfold release
  cases h : m.status uid with
  | none => simpa using h
  | some st =>
    simp only
    split
    · rename_i hh
      rw [status_erase, if_pos rfl]
      simp [Option.filter, hh]
    · rename_i hh
      simp [Option.filter, h, hh]

end LockManager

end MbTools
