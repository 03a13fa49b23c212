import MbTools.Lib.Casing
import MbTools.Store.History
import MbTools.Registry.Locks

/-! # The scan, diff and probe cycle

One daemon cycle compares a USB scan with the attached rows of the store,
claims and records what is new, detaches what is gone, gives up on boards that
never came back from a flash, and probes what is due. A cycle that raises keeps
the writes it made before.
-/

namespace MbTools

/-- What a scan reports for one uid. -/
structure PortInfo where
  port : String
  vid : ℕ
  pid : ℕ
  deriving DecidableEq, Repr

/-- What one probe reads: the announcement, and the chip identity if SWD is asked. -/
structure ProbeReading where
  result : Option ProbeResult
  chip : Option (String × ℕ)
  deriving DecidableEq, Repr

/-- A daemon: the shared store and lock table, its own in-memory maps, and the letter cases of the
interpreter it runs under. -/
structure Daemon where
  store : Store
  locks : LockManager
  claims : Dict String ℕ
  flashPending : Dict String ℕ
  flashReprobeTimeout : ℕ
  casing : Casing

/-- What one cycle reads from outside: the clocks (the daemon's own at its start and at a
flash release, and the store's), the scan, and the answers to claims and probes. -/
structure Cycle where
  now : ℕ
  releaseNow : ℕ
  wall : ℕ
  scan : Dict String PortInfo
  claim : String → Option ℕ
  probe : String → ProbeReading

/-- What a cycle leaves: the daemon, the events it fired, and the exception it raised. -/
structure CycleResult where
  daemon : Daemon
  events : List (EventType × DeviceRecord)
  error : Option Error

namespace Daemon

open Store

variable {d d' : Daemon} {uid k : String} {wall now : ℕ} {c : Cycle}

/-- The uids attached at the end of the last cycle, as the store has them. -/
def previouslyAttached (d : Daemon) : List String :=
  (d.store.listDevices.filter fun r =>
    r.host = none && r.state ≠ .disconnected && !r.isVirtual).map DeviceRecord.uid

/-- The flash-release callback: wait for the board to come back, unless it is virtual. -/
def onFlashRelease (d : Daemon) (now : ℕ) (uid : String) : Daemon :=
  if isVirtualUid uid then d
  else { d with flashPending := d.flashPending.insert uid (now + d.flashReprobeTimeout) }

/-- `LockManager.release` with the daemon's callback. -/
def releaseLock (d : Daemon) (now : ℕ) (uid : String) (holder : HolderRef) : Daemon :=
  match d.locks.release uid holder with
  | (locks, none) => { d with locks }
  | (locks, some st) =>
    if st.kind = .flash then onFlashRelease { d with locks } now uid else { d with locks }

/-- A newly seen uid whose claim was granted. -/
def attachOne (d : Daemon) (wall : ℕ) (uid : String) (info : PortInfo) (handle : ℕ) : Daemon :=
  { d with
    claims := d.claims.insert uid handle
    store := d.store.upsertAttached wall uid info.port (formatVidPid info.vid info.pid) }

/-- A uid that was attached and is gone. Its row was read in the same locked block, so
`mark_disconnected` finds it. -/
def detachOne (d : Daemon) (wall now : ℕ) (uid : String) : Daemon :=
  let d :=
    match d.locks.status uid with
    | none => d
    | some status => d.releaseLock now uid status.holder
  { d with
    claims := d.claims.erase uid
    store := (d.store.markDisconnected wall uid).toOption.getD d.store }

/-- A flash-pending uid that never came back. -/
def giveUpOne (d : Daemon) (wall : ℕ) (uid : String) : Except Error Daemon := do
  let store ← d.store.applyKnownBlank wall uid
  return { d with store, flashPending := d.flashPending.erase uid }

def recordOf (d : Daemon) (uid : String) : List DeviceRecord := (d.store.get uid).toList

/-- One turn of the attach loop, with the records to announce and the uids owned. -/
def attachTurn (prev : List String) (c : Cycle)
    (p : Daemon × List DeviceRecord × List String) (x : String × PortInfo) :
    Daemon × List DeviceRecord × List String :=
  if x.1 ∈ prev then p
  else
    match c.claim x.1 with
    | none => p
    | some handle =>
      let d := p.1.attachOne c.wall x.1 x.2 handle
      (d, p.2.1 ++ d.recordOf x.1, p.2.2 ++ [x.1])

def attachPass (d : Daemon) (prev : List String) (c : Cycle) :
    Daemon × List DeviceRecord × List String :=
  c.scan.rows.foldl (attachTurn prev c) (d, [], prev.filter (· ∈ c.scan.keys))

def detachTurn (c : Cycle) (p : Daemon × List DeviceRecord) (uid : String) :
    Daemon × List DeviceRecord :=
  let d := p.1.detachOne c.wall c.releaseNow uid
  (d, p.2 ++ d.recordOf uid)

def detachPass (d : Daemon) (prev : List String) (c : Cycle) : Daemon × List DeviceRecord :=
  (prev.filter (· ∉ c.scan.keys)).foldl (detachTurn c) (d, [])

/-- The give-up loop; the first exception ends the cycle. -/
def giveUpLoop (c : Cycle) : List (String × ℕ) → Daemon → List DeviceRecord →
    Daemon × Except Error (List DeviceRecord)
  | [], d, timedOut => (d, .ok timedOut)
  | (uid, deadline) :: rest, d, timedOut =>
    if uid ∉ c.scan.keys ∧ deadline ≤ c.now then
      match d.giveUpOne c.wall uid with
      | .error e => (d, .error e)
      | .ok d' => giveUpLoop c rest d' (timedOut ++ d'.recordOf uid)
    else giveUpLoop c rest d timedOut

/-- The check of `_maybe_probe`: due, and not locked. -/
def probeEligible (d : Daemon) (uid : String) : Except Error Bool := do
  let due ← d.store.needsProbe uid
  return (due || (d.flashPending.lookup uid).isSome) && (d.locks.status uid).isNone

/-- Is the SWD fallback tried for this outcome? -/
def needsSwd (d : Daemon) (uid : String) (result : Option ProbeResult) : Bool :=
  (match result with
    | none => true
    | some p => p.deviceName = "") &&
  match d.store.get uid with
  | none => false
  | some r => r.chipIdentityName = none

/-- A silent board awaiting its flash re-probe is known blank; any other outcome is recorded
as it is. -/
def recordOutcome (d : Daemon) (wall : ℕ) (uid : String) (result : Option ProbeResult) :
    Except Error Store :=
  if result = none ∧ (d.flashPending.lookup uid).isSome then d.store.applyKnownBlank wall uid
  else d.store.applyProbeResult wall uid result

/-- The write of `_maybe_probe`, which ends the wait for a flash. -/
def probeWrite (d : Daemon) (wall : ℕ) (uid : String) (result : Option ProbeResult)
    (chip : Option (String × ℕ)) : Except Error Daemon := do
  let store ← d.recordOutcome wall uid result
  let d := { d with store, flashPending := d.flashPending.erase uid }
  match chip with
  | none => return d
  | some (name, serial) =>
    let store ← d.store.setChipIdentity uid name serial
    return { d with store }

def maybeProbe (d : Daemon) (c : Cycle) (uid : String) :
    Except Error (Daemon × List DeviceRecord) := do
  if ← d.probeEligible uid then
    let reading := c.probe uid
    let chip := if d.needsSwd uid reading.result then reading.chip else none
    let d ← d.probeWrite c.wall uid reading.result chip
    return (d, d.recordOf uid)
  else return (d, [])

def probeLoop (c : Cycle) : List String → Daemon → List DeviceRecord →
    Daemon × List DeviceRecord × Option Error
  | [], d, probed => (d, probed, none)
  | uid :: rest, d, probed =>
    match d.maybeProbe c uid with
    | .error e => (d, probed, some e)
    | .ok (d', records) => probeLoop c rest d' (probed ++ records)

/-- The part of `run_once` under the shared lock, up to the give-up pass. -/
def diff (d : Daemon) (c : Cycle) :
    Daemon × List DeviceRecord × List String × List DeviceRecord :=
  let prev := d.previouslyAttached
  let (d, attached, owned) := d.attachPass prev c
  let (d, detached) := d.detachPass prev c
  (d, attached, owned, detached)

/-- The whole locked block; the exception of a give-up ends it, and the cycle. -/
def lockedBlock (d : Daemon) (c : Cycle) : Daemon × Except Error (List DeviceRecord) :=
  giveUpLoop c (d.diff c).1.flashPending.rows (d.diff c).1 []

def runOnce (d : Daemon) (c : Cycle) : CycleResult :=
  let (_, attached, owned, detached) := d.diff c
  match d.lockedBlock c with
  | (d, .error e) => ⟨d, [], some e⟩
  | (d, .ok timedOut) =>
    let (d, probed, error) := probeLoop c owned d []
    ⟨d, attached.map (.attach, ·) ++ detached.map (.detach, ·) ++
      timedOut.map (.identity, ·) ++ probed.map (.identity, ·), error⟩

/-- A new process on the persisted store; no registration of a virtual board survives. -/
def restarted (d : Daemon) : Daemon where
  store := d.store.sweepVirtual
  locks := Table.empty
  claims := Table.empty
  flashPending := Table.empty
  flashReprobeTimeout := d.flashReprobeTimeout
  casing := d.casing

/-- A daemon that has just started on an empty store. -/
def blank : Daemon := ⟨Store.empty, Table.empty, Table.empty, Table.empty, 8, .ascii⟩

end Daemon

/-- A scan that sees one board, whose claim is granted. -/
def Cycle.oneBoard : Cycle where
  now := 20
  releaseNow := 20
  wall := 20
  scan := Dict.insert Table.empty "9900a" ⟨"/dev/ttyACM0", 0x0d28, 0x0204⟩
  claim := fun _ => some 3
  probe := fun _ => ⟨none, none⟩

/-- A scan that sees nothing. -/
def Cycle.noBoard : Cycle := { oneBoard with scan := Table.empty }

end MbTools
