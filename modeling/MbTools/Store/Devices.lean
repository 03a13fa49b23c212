import MbTools.Lib.Table
import MbTools.Store.Record

/-! # The device table

The operations of the persistent store on device rows. Every write is one
`put` of a whole row, so each is described by the row it leaves at its own uid
and by the rows it does not touch. The record a write returns in the source is
the row read back after it.
-/

namespace MbTools

structure PeerRecord where
  host : String
  endpoint : String
  lastSeen : ℕ
  reachable : Bool
  deriving DecidableEq, Repr

/-- One `name_registry` row. -/
structure Entry where
  name : String
  channel : ℤ
  group : ℤ
  source : String
  updated : ℕ
  deriving DecidableEq, Repr

structure Store where
  device : Table DeviceRecord.uid
  peer : Table PeerRecord.host
  nameRegistry : Table Entry.name
  deriving DecidableEq, Repr

namespace Store

open DeviceRecord

variable {s s' : Store} {r : DeviceRecord} {uid k op : String} {now : ℕ}
  {host port vidPid : Option String}

def empty : Store := ⟨Table.empty, Table.empty, Table.empty⟩

def get (s : Store) (uid : String) : Option DeviceRecord := s.device.get? uid

def listDevices (s : Store) : List DeviceRecord := s.device.rows

/-- One `INSERT` or `UPDATE` of a whole device row. -/
def writeRow (s : Store) (r : DeviceRecord) : Store := { s with device := s.device.put r }

/-- `DELETE FROM device WHERE uid = ?`. -/
def deleteRow (s : Store) (uid : String) : Store := { s with device := s.device.erase uid }

/-- An `UPDATE` of the row at `uid`; a missing row is a `KeyError` naming the operation. -/
def modifyRow (op : String) (s : Store) (uid : String) (f : DeviceRecord → DeviceRecord) :
    Except Error Store :=
  match s.get uid with
  | none => .error (.keyError op uid)
  | some r => .ok (s.writeRow (f r))

def upsertDevice (s : Store) (now : ℕ) (uid : String) (host port vidPid : Option String) : Store :=
  match s.get uid with
  | none => s.writeRow (.new now uid host port vidPid)
  | some existing =>
    -- local ownership wins over a remote claim, unless the local row is disconnected
    if host ≠ none ∧ existing.host = none ∧ existing.state ≠ .disconnected then s
    else if existing.state = .disconnected then
      s.writeRow (existing.reattached now host port vidPid)
    else s.writeRow (existing.refreshed now host port vidPid)

def upsertAttached (s : Store) (now : ℕ) (uid port vidPid : String) : Store :=
  s.upsertDevice now uid none (some port) (some vidPid)

def upsertRemoteAttached (s : Store) (now : ℕ) (uid host : String)
    (port vidPid : Option String) : Store :=
  s.upsertDevice now uid (some host) port vidPid

def applyProbeResult (s : Store) (now : ℕ) (uid : String) (result : Option ProbeResult) :
    Except Error Store :=
  s.modifyRow "apply_probe_result" uid (·.probed now result)

def applyKnownBlank (s : Store) (now : ℕ) (uid : String) : Except Error Store :=
  s.modifyRow "apply_known_blank" uid (·.knownBlank now)

def setChipIdentity (s : Store) (uid name : String) (serial : ℕ) : Except Error Store :=
  s.modifyRow "set_chip_identity" uid (·.withChipIdentity name serial)

def markDisconnected (s : Store) (now : ℕ) (uid : String) : Except Error Store :=
  s.modifyRow "mark_disconnected" uid (·.gone now)

def incrementFlashCount (s : Store) (uid : String) : Except Error Store :=
  s.modifyRow "increment_flash_count" uid flashed

def markRemoteDetached (s : Store) (now : ℕ) (uid : String) : Except Error Store :=
  s.markDisconnected now uid

def applyRemoteProbe (s : Store) (now : ℕ) (uid : String) (result : Option ProbeResult) :
    Except Error Store :=
  s.applyProbeResult now uid result

def applyRemoteLockState (s : Store) (uid : String) (kind display : Option String) :
    Except Error Store :=
  s.modifyRow "apply_remote_lock_state" uid (·.withRemoteLock kind display)

def needsProbe (s : Store) (uid : String) : Except Error Bool :=
  match s.get uid with
  | none => .error (.keyError "needs_probe" uid)
  | some r => .ok (r.lastProbe = 0)

/-- The rows a snapshot advertises: locally owned, attached, not virtual. -/
def snapshotLocalDevices (s : Store) : List DeviceRecord :=
  (s.listDevices.filter fun r => r.host = none && r.state ≠ .disconnected).filter
    fun r => !r.isVirtual

@[simp] theorem get_empty : empty.get uid = none := rfl

theorem uid_of_get (h : s.get uid = some r) : r.uid = uid := Table.key_of_get? h

theorem mem_listDevices_iff : r ∈ s.listDevices ↔ s.get r.uid = some r := Table.mem_rows_iff

theorem get_writeRow (s : Store) (r : DeviceRecord) (k : String) :
    (s.writeRow r).get k = if r.uid = k then some r else s.get k :=
  Table.get?_put s.device r k

theorem get_writeRow_self (h : r.uid = k) : (s.writeRow r).get k = some r := by
  rw [get_writeRow, if_pos h]

theorem get_writeRow_of_ne (h : r.uid ≠ k) : (s.writeRow r).get k = s.get k :=
  Table.get?_put_of_ne h

theorem get_deleteRow (s : Store) (uid k : String) :
    (s.deleteRow uid).get k = if uid = k then none else s.get k :=
  Table.get?_erase s.device uid k

section Modify

variable {f : DeviceRecord → DeviceRecord}

/-- A modified row replaces the one that was there, and only that one. -/
theorem modifyRow_eq_ok_iff :
    s.modifyRow op uid f = .ok s' ↔ ∃ r, s.get uid = some r ∧ s' = s.writeRow (f r) := by
  unfold modifyRow
  cases h : s.get uid with
  | none => simp
  | some r => simp [eq_comm]

theorem modifyRow_eq_error_iff {e : Error} :
    s.modifyRow op uid f = .error e ↔ s.get uid = none ∧ e = .keyError op uid := by
  unfold modifyRow
  cases h : s.get uid with
  | none => simp [eq_comm]
  | some r => simp

theorem get_of_modifyRow (hf : ∀ r, (f r).uid = r.uid) (h : s.modifyRow op uid f = .ok s')
    (k : String) : s'.get k = if uid = k then (s.get k).map f else s.get k := by
  obtain ⟨r, hr, rfl⟩ := modifyRow_eq_ok_iff.mp h
  rw [get_writeRow, hf, uid_of_get hr]
  split
  · rename_i hk
    rw [← hk, hr]; rfl
  · rfl

theorem get_of_modifyRow_of_ne (hf : ∀ r, (f r).uid = r.uid)
    (h : s.modifyRow op uid f = .ok s') (hk : uid ≠ k) : s'.get k = s.get k := by
  rw [get_of_modifyRow hf h, if_neg hk]

theorem incrementFlashCount_of_none (h : s.get uid = none) :
    s.incrementFlashCount uid = .error (.keyError "increment_flash_count" uid) :=
  modifyRow_eq_error_iff.mpr ⟨h, rfl⟩

theorem incrementFlashCount_of_row (h : s.get uid = some r) :
    s.incrementFlashCount uid = .ok (s.writeRow (flashed r)) :=
  modifyRow_eq_ok_iff.mpr ⟨r, h, rfl⟩

end Modify

section Upsert

/-- The four things an attach report can do to its row. -/
theorem upsertDevice_cases (s : Store) (now : ℕ) (uid : String) (host port vidPid : Option String) :
    (s.get uid = none ∧
      s.upsertDevice now uid host port vidPid = s.writeRow (.new now uid host port vidPid)) ∨
    (∃ r, s.get uid = some r ∧ host ≠ none ∧ r.host = none ∧ r.state ≠ .disconnected ∧
      s.upsertDevice now uid host port vidPid = s) ∨
    (∃ r, s.get uid = some r ∧ r.state = .disconnected ∧
      s.upsertDevice now uid host port vidPid = s.writeRow (r.reattached now host port vidPid)) ∨
    (∃ r, s.get uid = some r ∧ r.state ≠ .disconnected ∧ (host = none ∨ r.host ≠ none) ∧
      s.upsertDevice now uid host port vidPid = s.writeRow (r.refreshed now host port vidPid)) := by
  cases h : s.get uid with
  | none => exact Or.inl ⟨rfl, by simp [upsertDevice, h]⟩
  | some r =>
    refine Or.inr ?_
    by_cases hd : r.state = .disconnected
    · exact Or.inr (Or.inl ⟨r, rfl, hd, by simp [upsertDevice, h, hd]⟩)
    · by_cases hr : host ≠ none ∧ r.host = none
      · exact Or.inl ⟨r, rfl, hr.1, hr.2, hd, by simp [upsertDevice, h, hd, hr]⟩
      · refine Or.inr (Or.inr ⟨r, rfl, hd, ?_, ?_⟩)
        · by_cases hh : host = none
          · exact Or.inl hh
          · exact Or.inr fun hn => hr ⟨hh, hn⟩
        · simp only [upsertDevice, h]
          rw [if_neg fun ⟨h1, h2, _⟩ => hr ⟨h1, h2⟩, if_neg hd]

theorem get_upsertDevice_of_ne (h : uid ≠ k) :
    (s.upsertDevice now uid host port vidPid).get k = s.get k := by
  rcases upsertDevice_cases s now uid host port vidPid with
    ⟨-, e⟩ | ⟨r, -, -, -, -, e⟩ | ⟨r, hr, -, e⟩ | ⟨r, hr, -, -, e⟩
  · rw [e, get_writeRow_of_ne (by simpa using h)]
  · rw [e]
  · rw [e, get_writeRow_of_ne (by simpa [uid_of_get hr] using h)]
  · rw [e, get_writeRow_of_ne (by simpa [uid_of_get hr] using h)]

/-- An attach report is one write of the row at its uid, and the row depends on nothing else. -/
theorem get_upsertDevice (s : Store) (now : ℕ) (uid : String) (host port vidPid : Option String)
    (k : String) :
    (s.upsertDevice now uid host port vidPid).get k =
      if uid = k then some (upserted now uid host port vidPid (s.get uid)) else s.get k := by
  split
  · rename_i hk
    subst hk
    cases h : s.get uid with
    | none =>
      simp only [upsertDevice, h, upserted]
      exact get_writeRow_self rfl
    | some r =>
      have hu := uid_of_get h
      simp only [upsertDevice, h, upserted]
      split
      · exact h
      · split
        · exact get_writeRow_self hu
        · exact get_writeRow_self hu
  · rename_i hk
    exact get_upsertDevice_of_ne hk

/-- An attach report with no host always leaves a row of its own host, port and vid:pid. -/
theorem get_upsertAttached (s : Store) (now : ℕ) (uid port vidPid : String) :
    ∃ r, (s.upsertAttached now uid port vidPid).get uid = some r ∧ r.uid = uid ∧
      r.host = none ∧ r.state ≠ .disconnected ∧ r.port = some port ∧ r.vidPid = some vidPid := by
  unfold upsertAttached
  rcases upsertDevice_cases s now uid none (some port) (some vidPid) with
    ⟨-, e⟩ | ⟨r, -, h, -⟩ | ⟨r, hr, -, e⟩ | ⟨r, hr, hd, -, e⟩
  · exact ⟨.new now uid none port vidPid, by rw [e]; exact get_writeRow_self rfl, rfl, rfl,
      by simp [DeviceRecord.new], rfl, rfl⟩
  · exact absurd rfl h
  · have hu := uid_of_get hr
    exact ⟨r.reattached now none port vidPid, by rw [e]; exact get_writeRow_self hu, hu, rfl,
      by simp [reattached], rfl, rfl⟩
  · have hu := uid_of_get hr
    exact ⟨r.refreshed now none port vidPid, by rw [e]; exact get_writeRow_self hu, hu, rfl, hd,
      rfl, rfl⟩

end Upsert

theorem mem_snapshotLocalDevices_iff :
    r ∈ s.snapshotLocalDevices ↔ s.get r.uid = some r ∧ r.IsLocal := by
  simp [snapshotLocalDevices, List.mem_filter, mem_listDevices_iff, IsLocal]
  exact fun _ => and_rotate

end Store

end MbTools
