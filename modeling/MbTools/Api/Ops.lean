import MbTools.Api.Resolve
import MbTools.Registry.Diff

/-! # The lock operations

The requests that take, drop and check per-device locks, each under the shared
lock. A release runs the flash-release callback, so the operations work on the
daemon and not on the bare table.
-/

namespace MbTools

/-- `LOCK_KINDS`, by name. -/
def LockKind.ofString? : String → Option LockKind
  | "serial" => some .serial
  | "relay" => some .relay
  | "flash" => some .flash
  | "debug" => some .debug
  | _ => none

namespace Daemon

/-- `LockManager.force_release` with the daemon's callback. -/
def forceReleaseLock (d : Daemon) (now : ℕ) (uid : String) : Daemon :=
  match d.locks.forceRelease uid with
  | (locks, none) => { d with locks }
  | (locks, some st) =>
    if st.kind = .flash then onFlashRelease { d with locks } now uid else { d with locks }

/-- `LockManager.sweep`: every lock whose holder is dead. -/
def sweepLocks (d : Daemon) (now : ℕ) (isAlive : HolderRef → Bool) : Daemon :=
  (d.locks.stale isAlive).foldl (fun d p => d.forceReleaseLock now p.1) d

end Daemon

namespace Api

/-- A field that is there and not empty. -/
def field (x : Option String) : Option String := x.filter (· ≠ "")

theorem field_of_ne {s : String} (h : s ≠ "") : field (some s) = some s := by
  simp [field, Option.filter, h]

structure LockRequest where
  uid : Option String
  kind : Option String
  label : Option String
  deriving DecidableEq, Repr

/-- `_op_lock`: the uid locked and the daemon with the lock. -/
def opLock (server : Server) (d : Daemon) (now : ℕ) (req : LockRequest) (holder : HolderRef) :
    Except ApiError (String × Daemon) :=
  match field req.uid, field req.kind with
  | some token, some kind =>
    match LockKind.ofString? kind with
    | none => .error (.invalidRequest s!"unknown lock kind '{kind}'")
    | some kind =>
      match resolveVisible server d.casing d.store token with
      | .error e => .error e
      | .ok r =>
        match detachedError r with
        | some e => .error e
        | none =>
          match d.locks.acquire now r.uid kind holder req.label with
          | .error current => .error (.locked r.uid current)
          | .ok locks => .ok (r.uid, { d with locks })
  | _, _ => .error (.invalidRequest "'lock' requires 'uid' and 'kind'")

/-- `_op_unlock`: the uid, whether its lock was released, and the daemon after it. -/
def opUnlock (server : Server) (d : Daemon) (now : ℕ) (uid : Option String) (holder : HolderRef) :
    Except ApiError (String × Bool × Daemon) :=
  match field uid with
  | none => .error (.invalidRequest "'unlock' requires 'uid'")
  | some token =>
    match resolveVisible server d.casing d.store token with
    | .error e => .error e
    | .ok r => .ok (r.uid, (d.locks.release r.uid holder).2.isSome, d.releaseLock now r.uid holder)

/-- `_op_force_unlock`, on the local socket only: the uid, the status it dropped, and the daemon
after it. -/
def opForceUnlock (d : Daemon) (now : ℕ) (uid : Option String) :
    Except ApiError (String × Option LockStatus × Daemon) :=
  match field uid with
  | none => .error (.invalidRequest "'force_unlock' requires 'uid'")
  | some token =>
    match resolveVisible .socket d.casing d.store token with
    | .error e => .error e
    | .ok r => .ok (r.uid, d.locks.status r.uid, d.forceReleaseLock now r.uid)

/-- `_op_stream_precheck`, up to the dialing of a virtual board: the record to stream, its port
and the kind of the lock. -/
def opStreamPrecheck (server : Server) (d : Daemon) (uid : Option String) (holder : HolderRef) :
    Except ApiError (DeviceRecord × String × LockKind) :=
  match field uid with
  | none => .error (.invalidRequest "'stream' requires 'uid'")
  | some token =>
    match resolveVisible server d.casing d.store token with
    | .error e => .error e
    | .ok r =>
      match d.locks.status r.uid with
      | none => .error (.notLocked r.uid streamMessage)
      | some st =>
        if (st.kind = .serial ∨ st.kind = .relay) ∧ st.holder = holder then
          match field r.port with
          | none => .error (.invalidRequest s!"{r.uid} has no known port to open")
          | some port =>
            match detachedError r with
            | some e => .error e
            | none => .ok (r, port, st.kind)
        else .error (.notLocked r.uid streamMessage)
where
  streamMessage :=
    "stream requires a serial- or relay-kind lock held by this connection (call 'lock' first)"

/-- The first bookkeeping step of `_op_flash`: the record to flash. The local socket compares no
more of the holder than its pid, and lets the exception for an ambiguous name end the
connection. -/
def opFlashPrecheck (server : Server) (d : Daemon) (uid hexPath : Option String)
    (holder : HolderRef) : Except ApiError DeviceRecord :=
  match field uid, field hexPath with
  | some token, some _ =>
    match resolveVisible server d.casing d.store token with
    | .error e => .error e
    | .ok r =>
      match d.locks.status r.uid with
      | none => .error (.notLocked r.uid flashMessage)
      | some st =>
        let mine : Bool := match server with
          | .tcp => st.holder = holder
          | .socket => st.holder.pid = holder.pid
          | .pipe => st.holder.pid = holder.pid
        if st.kind = .flash ∧ mine = true then
          match detachedError r with
          | some e => .error e
          | none => .ok r
        else .error (.notLocked r.uid flashMessage)
  | _, _ => .error (.invalidRequest "'flash' requires 'uid' and 'hex_path'")
where
  flashMessage :=
    "flash requires a flash-kind lock held by this connection (call 'lock' first)"

section Lemmas

variable {d d' : Daemon} {now : ℕ} {uid k : String} {holder : HolderRef} {server : Server}

theorem forceReleaseLock_locks :
    (d.forceReleaseLock now uid).locks = (d.locks.forceRelease uid).1 := by
  unfold Daemon.forceReleaseLock
  split
  · rename_i h
    rw [h]
  · rename_i h
    split
    · rw [Daemon.onFlashRelease_locks, h]
    · rw [h]

@[simp] theorem forceReleaseLock_store : (d.forceReleaseLock now uid).store = d.store := by
  unfold Daemon.forceReleaseLock
  split
  · rfl
  · split
    · exact Daemon.onFlashRelease_store
    · rfl

theorem opLock_eq_ok {req : LockRequest} (h : opLock server d now req holder = .ok (uid, d')) :
    ∃ token r kind locks, field req.uid = some token ∧
      resolveVisible server d.casing d.store token = .ok r ∧ detachedError r = none ∧ r.uid = uid ∧
      d.locks.acquire now uid kind holder req.label = .ok locks ∧ d' = { d with locks } := by
  unfold opLock at h
  split at h
  case h_2 => cases h
  rename_i token _ ht _
  split at h
  case h_1 => cases h
  split at h
  case h_1 => cases h
  rename_i r hr
  split at h
  case h_1 => cases h
  rename_i hd
  split at h
  case h_1 => cases h
  rename_i kind _ _ _ _ _ locks hl
  rw [Except.ok.injEq, Prod.mk.injEq] at h
  obtain ⟨rfl, rfl⟩ := h
  exact ⟨token, r, _, locks, ht, hr, hd, rfl, hl, rfl⟩

theorem opUnlock_eq_ok {x : Option String} {released : Bool}
    (h : opUnlock server d now x holder = .ok (uid, released, d')) :
    ∃ token r, field x = some token ∧ resolveVisible server d.casing d.store token = .ok r ∧
      r.uid = uid ∧ d' = d.releaseLock now uid holder := by
  unfold opUnlock at h
  split at h
  case h_1 => cases h
  rename_i token ht
  split at h
  case h_1 => cases h
  rename_i r hr
  simp only [Except.ok.injEq, Prod.mk.injEq] at h
  obtain ⟨rfl, -, rfl⟩ := h
  exact ⟨token, r, ht, hr, rfl, rfl⟩

theorem opForceUnlock_eq_ok {x : Option String} {status : Option LockStatus}
    (h : opForceUnlock d now x = .ok (uid, status, d')) :
    ∃ token r, field x = some token ∧ resolveVisible .socket d.casing d.store token = .ok r ∧
      r.uid = uid ∧ d' = d.forceReleaseLock now uid := by
  unfold opForceUnlock at h
  split at h
  case h_1 => cases h
  rename_i token ht
  split at h
  case h_1 => cases h
  rename_i r hr
  simp only [Except.ok.injEq, Prod.mk.injEq] at h
  obtain ⟨rfl, -, rfl⟩ := h
  exact ⟨token, r, ht, hr, rfl, rfl⟩

theorem opStreamPrecheck_eq_ok {x : Option String} {r : DeviceRecord} {port : String}
    {kind : LockKind} (h : opStreamPrecheck server d x holder = .ok (r, port, kind)) :
    ∃ token st, field x = some token ∧ resolveVisible server d.casing d.store token = .ok r ∧
      d.locks.status r.uid = some st ∧ st.holder = holder ∧ field r.port = some port ∧
      detachedError r = none := by
  unfold opStreamPrecheck at h
  split at h
  case h_1 => cases h
  rename_i token ht
  split at h
  case h_1 => cases h
  rename_i r' hr
  split at h
  case h_1 => cases h
  rename_i st hst
  split at h
  case isFalse => cases h
  rename_i hmine
  split at h
  case h_1 => cases h
  rename_i port' hp
  split at h
  case h_1 => cases h
  rename_i hd
  simp only [Except.ok.injEq, Prod.mk.injEq] at h
  obtain ⟨rfl, rfl, -⟩ := h
  exact ⟨token, st, ht, hr, hst, hmine.2, hp, hd⟩

end Lemmas

end Api

end MbTools
