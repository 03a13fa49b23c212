import Mathlib.Data.List.Basic
import Mathlib.Data.Nat.Notation
import Mathlib.Data.Int.Notation

/-! # Device records

One row of the `device` table, the lifecycle states it goes through, and the
row values the store writes. Clock readings are natural numbers; `lastProbe`
is zero for a device that was never probed.
-/

namespace MbTools

/-- The value of the `state` column. -/
inductive State where
  | attachedUnprobed
  | connected
  | attachedNoAnnounce
  | connectedNoFirmware
  | disconnected
  deriving DecidableEq, Repr

/-- The types of the events the daemon fires and peers exchange. -/
inductive EventType where
  | attach
  | detach
  | identity
  | lockState
  | nameSet
  | nameClear
  deriving DecidableEq, Repr

/-- What a store operation raises. -/
inductive Error where
  | keyError (op uid : String)
  | valueError (name : String)
  | typeError
  | missingField (field : String)
  | ambiguousName (token : String) (hosts : List (Option String))
  deriving DecidableEq, Repr

/-- A parsed announcement line. -/
structure ProbeResult where
  role : String
  commonName : String
  deviceName : String
  serial : String
  raw : String
  deriving DecidableEq, Repr

structure DeviceRecord where
  uid : String
  shortUid : String
  port : Option String
  vidPid : Option String
  role : Option String
  commonName : Option String
  deviceName : Option String
  serialPayload : Option String
  rawAnnouncement : Option String
  state : State
  errorNote : Option String
  host : Option String
  remoteLockKind : Option String
  remoteLockDisplay : Option String
  chipIdentityName : Option String
  chipIdentitySerial : Option ℕ
  flashCount : ℕ
  firstSeen : ℕ
  lastSeen : ℕ
  lastProbe : ℕ
  deriving DecidableEq, Repr

/-- The distinguishing eight characters of a DAPLink uid. -/
def shortUid (uid : String) : String :=
  if 32 ≤ uid.length then String.ofList ((uid.toList.drop 16).take 8)
  else String.ofList (uid.toList.drop (uid.length - 8))

def errorNoteNoAnnouncement : String := "no announcement received during probe"

def errorNoteKnownBlank : String := "board confirmed blank (no firmware) after re-probe"

def virtualVidPid : String := "virtual"

def virtualPortPrefix : String := "virtual:"

def virtualUidPrefix : String := "sim-"

/-- `s.startswith(p)`. -/
def startsWith (p s : String) : Bool := p.toList.isPrefixOf s.toList

def isVirtualUid (uid : String) : Bool := startsWith virtualUidPrefix uid

namespace DeviceRecord

def isVirtual (r : DeviceRecord) : Bool :=
  r.host = none && r.vidPid = some virtualVidPid &&
    match r.port with
    | none => false
    | some port => startsWith virtualPortPrefix port

/-- Locally owned and attached: what the daemon reads back as "previously
attached" and what a snapshot advertises. -/
def IsLocal (r : DeviceRecord) : Prop :=
  r.host = none ∧ r.state ≠ .disconnected ∧ r.isVirtual = false

instance (r : DeviceRecord) : Decidable r.IsLocal := inferInstanceAs (Decidable (_ ∧ _ ∧ _))

/-- The row a first attach inserts. -/
def new (now : ℕ) (uid : String) (host port vidPid : Option String) : DeviceRecord where
  uid := uid
  shortUid := MbTools.shortUid uid
  port := port
  vidPid := vidPid
  role := none
  commonName := none
  deviceName := none
  serialPayload := none
  rawAnnouncement := none
  state := .attachedUnprobed
  errorNote := none
  host := host
  remoteLockKind := none
  remoteLockDisplay := none
  chipIdentityName := none
  chipIdentitySerial := none
  flashCount := 0
  firstSeen := now
  lastSeen := now
  lastProbe := 0

/-- The row of a disconnected device that attaches again. -/
def reattached (r : DeviceRecord) (now : ℕ) (host port vidPid : Option String) : DeviceRecord :=
  { r with port, vidPid, state := .attachedUnprobed, host, lastSeen := now, lastProbe := 0 }

/-- The row of an attached device that is reported attached once more. -/
def refreshed (r : DeviceRecord) (now : ℕ) (host port vidPid : Option String) : DeviceRecord :=
  { r with port, vidPid, host, lastSeen := now }

/-- The row an attach report leaves, given the row before it. -/
def upserted (now : ℕ) (uid : String) (host port vidPid : Option String) :
    Option DeviceRecord → DeviceRecord
  | none => new now uid host port vidPid
  | some r =>
    if host ≠ none ∧ r.host = none ∧ r.state ≠ .disconnected then r
    else if r.state = .disconnected then r.reattached now host port vidPid
    else r.refreshed now host port vidPid

/-- The row after a probe; `none` is a probe that heard nothing. -/
def probed (r : DeviceRecord) (now : ℕ) : Option ProbeResult → DeviceRecord
  | some p =>
    { r with
      role := some p.role
      commonName := some p.commonName
      deviceName := some p.deviceName
      serialPayload := some p.serial
      rawAnnouncement := some p.raw
      state := .connected
      errorNote := none
      lastProbe := now
      lastSeen := now }
  | none =>
    { r with
      state := .attachedNoAnnounce
      errorNote := some errorNoteNoAnnouncement
      lastProbe := now
      lastSeen := now }

def knownBlank (r : DeviceRecord) (now : ℕ) : DeviceRecord :=
  { r with
    state := .connectedNoFirmware
    errorNote := some errorNoteKnownBlank
    lastProbe := now
    lastSeen := now }

def gone (r : DeviceRecord) (now : ℕ) : DeviceRecord :=
  { r with state := .disconnected, lastSeen := now }

/-- The chip identity is written once; a second reading is dropped. -/
def withChipIdentity (r : DeviceRecord) (name : String) (serial : ℕ) : DeviceRecord :=
  if r.chipIdentityName = none then
    { r with chipIdentityName := some name, chipIdentitySerial := some serial }
  else r

def withRemoteLock (r : DeviceRecord) (kind display : Option String) : DeviceRecord :=
  { r with remoteLockKind := kind, remoteLockDisplay := display }

def flashed (r : DeviceRecord) : DeviceRecord := { r with flashCount := r.flashCount + 1 }

section Fields

variable (r : DeviceRecord) (now : ℕ) (host port vidPid : Option String) (p : Option ProbeResult)

@[simp] theorem new_uid (uid : String) : (new now uid host port vidPid).uid = uid := rfl

@[simp] theorem reattached_uid : (r.reattached now host port vidPid).uid = r.uid := rfl

@[simp] theorem refreshed_uid : (r.refreshed now host port vidPid).uid = r.uid := rfl

theorem upserted_uid {uid : String} {prev : Option DeviceRecord}
    (h : ∀ r, prev = some r → r.uid = uid) :
    (upserted now uid host port vidPid prev).uid = uid := by
  cases prev with
  | none => rfl
  | some r =>
    have hr := h r rfl
    simp only [upserted]
    split
    · exact hr
    · split <;> exact hr

@[simp] theorem probed_uid : (r.probed now p).uid = r.uid := by cases p <;> rfl

@[simp] theorem knownBlank_uid : (r.knownBlank now).uid = r.uid := rfl

@[simp] theorem gone_uid : (r.gone now).uid = r.uid := rfl

@[simp] theorem withChipIdentity_uid (name : String) (serial : ℕ) :
    (r.withChipIdentity name serial).uid = r.uid := by
  unfold withChipIdentity; split <;> rfl

@[simp] theorem withRemoteLock_uid (kind display : Option String) :
    (r.withRemoteLock kind display).uid = r.uid := rfl

@[simp] theorem flashed_uid : r.flashed.uid = r.uid := rfl

@[simp] theorem probed_host : (r.probed now p).host = r.host := by cases p <;> rfl

@[simp] theorem knownBlank_host : (r.knownBlank now).host = r.host := rfl

@[simp] theorem gone_host : (r.gone now).host = r.host := rfl

@[simp] theorem withRemoteLock_host (kind display : Option String) :
    (r.withRemoteLock kind display).host = r.host := rfl

@[simp] theorem withChipIdentity_host (name : String) (serial : ℕ) :
    (r.withChipIdentity name serial).host = r.host := by
  unfold withChipIdentity; split <;> rfl

theorem probed_state_ne : (r.probed now p).state ≠ .disconnected := by cases p <;> simp [probed]

/-- A probe, successful or not, leaves its own time in `lastProbe`. -/
@[simp] theorem probed_lastProbe : (r.probed now p).lastProbe = now := by cases p <;> rfl

@[simp] theorem probed_isVirtual : (r.probed now p).isVirtual = r.isVirtual := by
  cases p <;> rfl

@[simp] theorem knownBlank_isVirtual : (r.knownBlank now).isVirtual = r.isVirtual := rfl

@[simp] theorem gone_isVirtual : (r.gone now).isVirtual = r.isVirtual := rfl

@[simp] theorem withChipIdentity_isVirtual (name : String) (serial : ℕ) :
    (r.withChipIdentity name serial).isVirtual = r.isVirtual := by
  unfold withChipIdentity; split <;> rfl

@[simp] theorem withChipIdentity_state (name : String) (serial : ℕ) :
    (r.withChipIdentity name serial).state = r.state := by
  unfold withChipIdentity; split <;> rfl

@[simp] theorem withChipIdentity_lastProbe (name : String) (serial : ℕ) :
    (r.withChipIdentity name serial).lastProbe = r.lastProbe := by
  unfold withChipIdentity; split <;> rfl

@[simp] theorem withChipIdentity_port (name : String) (serial : ℕ) :
    (r.withChipIdentity name serial).port = r.port := by
  unfold withChipIdentity; split <;> rfl

@[simp] theorem probed_port : (r.probed now p).port = r.port := by cases p <;> rfl

end Fields

end DeviceRecord

end MbTools
