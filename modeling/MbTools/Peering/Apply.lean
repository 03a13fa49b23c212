import MbTools.Store.Names

/-! # Applying what a peer sends

The wire shapes of live events and snapshot replies, and how a registry writes
them into its own store under the sending peer's host. A field a dictionary
does not carry is `none`; an unknown `state` or `type` text is `none` as well.
-/

namespace MbTools.Peering

open Store

/-- The announcement fields snapshots and identity events share. -/
structure Announcement where
  role : Option String
  commonName : Option String
  deviceName : Option String
  serialPayload : Option String
  rawAnnouncement : Option String
  deriving DecidableEq, Repr

/-- One device dictionary of a snapshot reply. -/
structure DeviceDict where
  uid : Option String
  port : Option String
  vidPid : Option String
  state : Option State
  announcement : Announcement
  deriving DecidableEq, Repr

/-- One name dictionary of a snapshot reply. -/
structure NameDict where
  name : Option String
  channel : Option ℤ
  group : Option ℤ
  deriving DecidableEq, Repr

structure SnapshotReply where
  devices : List DeviceDict
  names : List NameDict
  deriving DecidableEq, Repr

/-- One live event. -/
structure Event where
  type : Option EventType
  uid : Option String
  port : Option String
  vidPid : Option String
  state : Option State
  announcement : Announcement
  kind : Option String
  display : Option String
  name : Option String
  channel : Option ℤ
  group : Option ℤ
  deriving DecidableEq, Repr

def announcementOf (r : DeviceRecord) : Announcement where
  role := r.role
  commonName := r.commonName
  deviceName := r.deviceName
  serialPayload := r.serialPayload
  rawAnnouncement := r.rawAnnouncement

def deviceDictOf (r : DeviceRecord) : DeviceDict where
  uid := some r.uid
  port := r.port
  vidPid := r.vidPid
  state := some r.state
  announcement := announcementOf r

def snapshotPayload (s : Store) : List DeviceDict := s.snapshotLocalDevices.map deviceDictOf

def snapshotNamePayload (s : Store) : List NameDict :=
  s.allNameEntries.map fun e => ⟨some e.name, some e.channel, some e.group⟩

/-- An event that carries nothing but its type. -/
def Event.ofType (type : EventType) : Event where
  type := some type
  uid := none
  port := none
  vidPid := none
  state := none
  announcement := ⟨none, none, none, none, none⟩
  kind := none
  display := none
  name := none
  channel := none
  group := none

/-- The event for a daemon callback; an attach or identity of a disconnected row is
suppressed. -/
def daemonEventPayload (type : EventType) (r : DeviceRecord) : Option Event :=
  if (type = .attach ∨ type = .identity) ∧ r.state = .disconnected then none
  else
    match type with
    | .attach => some { Event.ofType .attach with uid := r.uid, port := r.port, vidPid := r.vidPid }
    | .detach => some { Event.ofType .detach with uid := r.uid }
    | type =>
      some { Event.ofType type with
        uid := r.uid, state := r.state, announcement := announcementOf r }

/-- What the daemon's event callback puts on the bus; virtual boards stay local. -/
def publishDaemonEvent (type : EventType) (r : DeviceRecord) : Option Event :=
  if r.isVirtual then none else daemonEventPayload type r

/-- Rebuild a probe result from a dictionary; a missing field reads as blank. -/
def probeResultFromDict (a : Announcement) : ProbeResult where
  role := a.role.getD ""
  commonName := a.commonName.getD ""
  deviceName := a.deviceName.getD ""
  serial := a.serialPayload.getD ""
  raw := a.rawAnnouncement.getD ""

/-- Is `uid` unknown here, or attributed to `host`? -/
def attributedTo (s : Store) (uid : Option String) (host : String) : Bool :=
  match uid.bind s.get with
  | none => true
  | some r => r.host = some host

/-- What is left in the store when the caller catches an exception: the raising call
wrote nothing. -/
def caught (s : Store) : Except Error Store → Store
  | .ok s' => s'
  | .error _ => s

/-- The state layer of a snapshot entry; `attached_unprobed` is covered by the upsert. -/
def applySnapshotState (s : Store) (now : ℕ) (uid : String) (d : DeviceDict) :
    Except Error Store :=
  match d.state with
  | some .connected => s.applyRemoteProbe now uid (some (probeResultFromDict d.announcement))
  | some .attachedNoAnnounce => s.applyRemoteProbe now uid none
  | some .connectedNoFirmware => s.applyKnownBlank now uid
  | some .disconnected => s.markRemoteDetached now uid
  | some .attachedUnprobed => .ok s
  | none => .ok s

/-- Apply one device dictionary of a snapshot reply. Its only caller catches every
exception, so the result is the store left behind. -/
def applySnapshotDevice (s : Store) (now : ℕ) (host : String) (d : DeviceDict) : Store :=
  match d.uid with
  | none => s
  | some uid =>
    let s := s.upsertRemoteAttached now uid host d.port d.vidPid
    match s.get uid with
    | none => s
    | some r => if r.host = some host then caught s (applySnapshotState s now uid d) else s

/-- Apply one name dictionary of a snapshot reply. -/
def applySnapshotName (s : Store) (now : ℕ) (d : NameDict) : Except Error Store :=
  match d.name, d.channel, d.group with
  | some name, some channel, some group => s.set now name channel group
  | none, _, _ => .error (.missingField "name")
  | some _, none, _ => .error (.missingField "channel")
  | some _, some _, none => .error (.missingField "group")

/-- Detach the rows tagged with `host` that a snapshot no longer lists. -/
def detachAbsent (s : Store) (now : ℕ) (host : String) (seen : List (Option String)) : Store :=
  s.listDevices.foldl
    (fun t r =>
      if r.host = some host ∧ some r.uid ∉ seen ∧ r.state ≠ .disconnected then
        caught t (t.markRemoteDetached now r.uid)
      else t)
    s

/-- The part of `_fetch_snapshot` that runs under the lock once a reply is in. -/
def applySnapshot (s : Store) (now : ℕ) (host : String) (reply : SnapshotReply) : Store :=
  let s := reply.devices.foldl (fun t d => applySnapshotDevice t now host d) s
  let s := detachAbsent s now host (reply.devices.map DeviceDict.uid)
  reply.names.foldl (fun t d => caught t (applySnapshotName t now d)) s

/-- What of a reply is applied before `_fetch_snapshot` raises on it: entries of the device list, or
all of that list and entries of the name list. -/
inductive Part where
  | devices (devices : List DeviceDict)
  | names (reply : SnapshotReply)
  deriving DecidableEq, Repr

def applyPart (s : Store) (now : ℕ) (host : String) : Part → Store
  | .devices devices => devices.foldl (fun t d => applySnapshotDevice t now host d) s
  | .names reply => applySnapshot s now host reply

/-- The lookup of a missing uid finds nothing, so the write raises its `KeyError`. -/
def onUid (op : String) (uid : Option String) (f : String → Except Error Store) :
    Except Error Store :=
  match uid with
  | none => .error (.keyError op "None")
  | some uid => f uid

/-- The body of `_apply_event`, before its `except KeyError`. -/
def applyEventBody (s : Store) (now : ℕ) (host : String) (e : Event) : Except Error Store :=
  match e.type with
  | some .attach =>
    match e.uid with
    | none => .error .typeError
    | some uid => .ok (s.upsertRemoteAttached now uid host e.port e.vidPid)
  | some .detach =>
    if attributedTo s e.uid host then
      onUid "mark_disconnected" e.uid (s.markRemoteDetached now)
    else .ok s
  | some .identity =>
    if attributedTo s e.uid host then
      match e.state with
      | some .connected =>
        onUid "apply_probe_result" e.uid fun uid =>
          s.applyRemoteProbe now uid (some (probeResultFromDict e.announcement))
      | some .attachedNoAnnounce =>
        onUid "apply_probe_result" e.uid fun uid => s.applyRemoteProbe now uid none
      | some .connectedNoFirmware => onUid "apply_known_blank" e.uid (s.applyKnownBlank now)
      | _ => .ok s
    else .ok s
  | some .lockState =>
    if attributedTo s e.uid host then
      onUid "apply_remote_lock_state" e.uid fun uid =>
        s.applyRemoteLockState uid e.kind e.display
    else .ok s
  | some .nameSet =>
    match e.name, e.channel, e.group with
    | some name, some channel, some group => s.set now name channel group
    | _, _, _ => .ok s
  | some .nameClear =>
    match e.name with
    | some name => s.clear name
    | none => .ok s
  | none => .ok s

/-- Apply one live event; an event for an unknown uid is dropped. -/
def applyEvent (s : Store) (now : ℕ) (host : String) (e : Event) : Except Error Store :=
  match applyEventBody s now host e with
  | .error (.keyError _ _) => .ok s
  | r => r

/-- One pass of `_recv_loop`: whatever else the event raises is logged and dropped. -/
def recvEvent (s : Store) (now : ℕ) (host : String) (e : Event) : Store :=
  caught s (applyEvent s now host e)

/-- Everything one peer can send: a live event, or the reply to a snapshot request. -/
inductive Input where
  | event (now : ℕ) (e : Event)
  | snapshot (now : ℕ) (reply : SnapshotReply)
  deriving DecidableEq, Repr

def applyInput (host : String) (s : Store) : Input → Store
  | .event now e => recvEvent s now host e
  | .snapshot now reply => applySnapshot s now host reply

def applyInputs (host : String) (s : Store) (inputs : List Input) : Store :=
  inputs.foldl (applyInput host) s

section Lemmas

variable {s s' : Store} {now : ℕ} {host uid k : String} {e : Event} {r : DeviceRecord}

@[simp] theorem caught_ok : caught s (.ok s') = s' := rfl

@[simp] theorem caught_error {err : Error} : caught s (.error err) = s := rfl

theorem attributedTo_some_iff :
    attributedTo s (some uid) host = true ↔ ∀ r, s.get uid = some r → r.host = some host := by
  unfold attributedTo
  cases h : s.get uid with
  | none => simp [h]
  | some r => simp [h]

theorem onUid_eq_ok_iff {op : String} {u : Option String} {f : String → Except Error Store} :
    onUid op u f = .ok s' ↔ ∃ uid, u = some uid ∧ f uid = .ok s' := by
  cases u <;> simp [onUid]

theorem recvEvent_eq_caught : recvEvent s now host e = caught s (applyEventBody s now host e) := by
  unfold recvEvent applyEvent
  cases h : applyEventBody s now host e with
  | ok s' => rfl
  | error err => cases err <;> rfl

theorem get_caught {x : Except Error Store} (h : ∀ s', x = .ok s' → s'.get k = s.get k) :
    (caught s x).get k = s.get k := by
  cases x with
  | ok s' => exact h s' rfl
  | error err => rfl

/-- A write behind the attribution gate reaches no row but the peer's own. -/
theorem get_caught_gated {f : DeviceRecord → DeviceRecord} (hf : ∀ r, (f r).uid = r.uid)
    (s : Store) (host op : String) (u : Option String) (k : String) :
    (caught s (if attributedTo s u host then onUid op u fun u => s.modifyRow op u f else .ok s)).get
      k = if u = some k then (s.get k).map fun r => if r.host = some host then f r else r
        else s.get k := by
  cases u with
  | none => simp [attributedTo, onUid]
  | some uid =>
    simp only [attributedTo_some_iff, onUid, Option.some.injEq]
    split
    · rename_i ha
      cases hs : s.modifyRow op uid f with
      | ok s' =>
        rw [caught_ok, get_of_modifyRow hf hs]
        split
        · rename_i hk
          apply Option.map_congr
          intro r hr
          rw [if_pos (ha r (hk ▸ hr))]
        · rfl
      | error err =>
        have hn := (modifyRow_eq_error_iff.mp hs).1
        rw [caught_error]
        split
        · rename_i hk
          rw [← hk, hn, Option.map_none]
        · rfl
    · rename_i ha
      rw [caught_ok]
      split
      · rename_i hk
        subst hk
        have hother : ∀ r, s.get uid = some r → r.host ≠ some host := by
          intro r hr hh
          apply ha
          intro q hq
          rw [hr, Option.some.injEq] at hq
          rwa [← hq]
        rw [Option.map_congr fun r hr => if_neg (hother r hr)]
        simp
      · rfl

/-- What an event about a row of its sender makes of it; an attach is not one of these. -/
def reported (r : DeviceRecord) (now : ℕ) (e : Event) : DeviceRecord :=
  match e.type, e.state with
  | some .detach, _ => r.gone now
  | some .identity, some .connected => r.probed now (some (probeResultFromDict e.announcement))
  | some .identity, some .attachedNoAnnounce => r.probed now none
  | some .identity, some .connectedNoFirmware => r.knownBlank now
  | some .lockState, _ => r.withRemoteLock e.kind e.display
  | _, _ => r

/-- The row an event leaves at its uid, given the row before it. -/
def eventRow (now : ℕ) (host uid : String) (e : Event) (prev : Option DeviceRecord) :
    Option DeviceRecord :=
  if e.type = some .attach then
    some (DeviceRecord.upserted now uid (some host) e.port e.vidPid prev)
  else prev.map fun r => if r.host = some host then reported r now e else r

/-- An event writes the row at its uid, and the row depends on nothing else. -/
theorem get_recvEvent (s : Store) (now : ℕ) (host : String) (e : Event) (k : String) :
    (recvEvent s now host e).get k =
      if e.uid = some k then eventRow now host k e (s.get k) else s.get k := by
  have hkeep : ∀ {t : Store}, t.get k = s.get k → e.type ≠ some .attach →
      (∀ r, reported r now e = r) →
      t.get k = if e.uid = some k then eventRow now host k e (s.get k) else s.get k := by
    intro t ht hattach hr
    rw [ht, eventRow, if_neg hattach]
    simp [hr]
  have hgate : ∀ {op : String} {f : DeviceRecord → DeviceRecord}, (∀ r, (f r).uid = r.uid) →
      e.type ≠ some .attach → (∀ r, reported r now e = f r) →
      (caught s (if attributedTo s e.uid host then
        onUid op e.uid fun u => s.modifyRow op u f else .ok s)).get k =
        if e.uid = some k then eventRow now host k e (s.get k) else s.get k := by
    intro op f hf hattach hr
    rw [get_caught_gated hf, eventRow, if_neg hattach]
    simp only [hr]
  rw [recvEvent_eq_caught]
  unfold applyEventBody
  rcases ht : e.type with (_ | _ | _ | _ | _ | _ | _)
  case none => exact hkeep rfl (by simp [ht]) fun r => by simp [reported, ht]
  case some.attach =>
    cases hu : e.uid with
    | none => simp
    | some uid =>
      simp only [caught_ok, upsertRemoteAttached, get_upsertDevice, Option.some.injEq]
      split
      · rename_i hk
        rw [eventRow, if_pos ht, hk]
      · rfl
  case some.detach =>
    exact hgate (fun r => r.gone_uid now) (by simp [ht]) fun r => by simp [reported, ht]
  case some.identity =>
    have hattach : e.type ≠ some .attach := by simp [ht]
    rcases hs : e.state with (_ | _ | _ | _ | _ | _)
    case some.connected =>
      exact hgate (fun r => r.probed_uid now _) hattach fun r => by simp [reported, ht, hs]
    case some.attachedNoAnnounce =>
      exact hgate (fun r => r.probed_uid now _) hattach fun r => by simp [reported, ht, hs]
    case some.connectedNoFirmware =>
      exact hgate (fun r => r.knownBlank_uid now) hattach fun r => by simp [reported, ht, hs]
    all_goals exact hkeep (by simp) hattach fun r => by simp [reported, ht, hs]
  case some.lockState =>
    exact hgate (fun r => r.withRemoteLock_uid e.kind e.display) (by simp [ht])
      fun r => by simp [reported, ht]
  case some.nameSet =>
    apply hkeep _ (by simp [ht]) fun r => by simp [reported, ht]
    apply get_caught
    intro s' hs
    dsimp only at hs
    split at hs
    · rw [Store.get, Store.get, set_device hs]
    · rw [Except.ok.inj hs]
  case some.nameClear =>
    apply hkeep _ (by simp [ht]) fun r => by simp [reported, ht]
    apply get_caught
    intro s' hs
    dsimp only at hs
    split at hs
    · rw [Store.get, Store.get, clear_device hs]
    · rw [Except.ok.inj hs]

theorem reported_host (now : ℕ) (e : Event) : (reported r now e).host = r.host := by
  unfold reported
  split
  · rfl
  · exact r.probed_host now _
  · exact r.probed_host now none
  · rfl
  · rfl
  · rfl

theorem reported_identity (now : ℕ) (ht : e.type = some .identity) :
    reported r now e = r ∨ (reported r now e).state ≠ .disconnected := by
  unfold reported
  rw [ht]
  rcases e.state with (_ | _ | _ | _ | _ | _)
  case some.connected => exact Or.inr (r.probed_state_ne now _)
  case some.attachedNoAnnounce => exact Or.inr (r.probed_state_ne now none)
  case some.connectedNoFirmware => exact Or.inr (by simp [DeviceRecord.knownBlank])
  all_goals exact Or.inl rfl

/-- The state layer of a snapshot entry on the row it is applied to. -/
def layered (u : DeviceRecord) (now : ℕ) (d : DeviceDict) : DeviceRecord :=
  match d.state with
  | some .connected => u.probed now (some (probeResultFromDict d.announcement))
  | some .attachedNoAnnounce => u.probed now none
  | some .connectedNoFirmware => u.knownBlank now
  | some .disconnected => u.gone now
  | some .attachedUnprobed => u
  | none => u

/-- The row a snapshot entry leaves at its uid, given the row before it. -/
def snapshotRow (now : ℕ) (host uid : String) (d : DeviceDict) (prev : Option DeviceRecord) :
    DeviceRecord :=
  let u := DeviceRecord.upserted now uid (some host) d.port d.vidPid prev
  if u.host = some host then layered u now d else u

theorem applySnapshotState_eq (d : DeviceDict) (hr : s.get uid = some r) :
    (applySnapshotState s now uid d = .ok (s.writeRow (layered r now d))) ∨
      (applySnapshotState s now uid d = .ok s ∧ layered r now d = r) := by
  unfold applySnapshotState layered
  rcases d.state with (_ | _ | _ | _ | _ | _)
  case none => exact Or.inr ⟨rfl, rfl⟩
  case some.attachedUnprobed => exact Or.inr ⟨rfl, rfl⟩
  all_goals exact Or.inl (modifyRow_eq_ok_iff.mpr ⟨r, hr, rfl⟩)

@[simp] theorem layered_uid (d : DeviceDict) : (layered r now d).uid = r.uid := by
  unfold layered
  split <;> simp

@[simp] theorem layered_host (d : DeviceDict) : (layered r now d).host = r.host := by
  unfold layered
  split <;> simp

/-- A snapshot entry writes the row at its uid, and the row depends on nothing else. -/
theorem get_applySnapshotDevice (s : Store) (now : ℕ) (host : String) {d : DeviceDict}
    (hd : d.uid = some uid) (k : String) :
    (applySnapshotDevice s now host d).get k =
      if uid = k then some (snapshotRow now host uid d (s.get uid)) else s.get k := by
  have hget := get_upsertDevice s now uid (some host) d.port d.vidPid
  simp only [applySnapshotDevice, hd, upsertRemoteAttached, snapshotRow]
  generalize s.upsertDevice now uid (some host) d.port d.vidPid = t at hget
  have hu := hget uid
  rw [if_pos rfl] at hu
  simp only [hu]
  have huid := uid_of_get hu
  split
  · rcases applySnapshotState_eq d hu with (e | ⟨e, hl⟩)
    · rw [e, caught_ok, get_writeRow, layered_uid, huid]
      split
      · rfl
      · rename_i hk
        rw [hget, if_neg hk]
    · rw [e, caught_ok, hl, hget]
  · rw [hget]

end Lemmas

end MbTools.Peering
