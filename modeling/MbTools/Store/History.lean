import MbTools.Lib.Pass
import MbTools.Store.Names

/-! # Store histories

The writes that are not about one attached board (virtual boards, peers,
purging), and the stores some sequence of writes can build. A reachable store
is one a registry can hold after any number of runs, since all of it persists.
-/

namespace MbTools

/-- `f"{n:04x}"`. -/
def hex4 (n : ℕ) : String :=
  let digits := Nat.toDigits 16 n
  String.ofList (List.replicate (4 - digits.length) '0' ++ digits)

/-- The `vid_pid` column of a USB device: lowercase hex, colon separated. -/
def formatVidPid (vid pid : ℕ) : String := hex4 vid ++ ":" ++ hex4 pid

theorem formatVidPid_ne_virtual (vid pid : ℕ) : formatVidPid vid pid ≠ virtualVidPid := by
  intro h
  have hc : ':' ∈ (formatVidPid vid pid).toList := by simp [formatVidPid]
  rw [h] at hc
  revert hc
  decide

namespace Store

open DeviceRecord

variable {s s' : Store} {r : DeviceRecord} {uid : String} {now : ℕ}

def virtualRow (now : ℕ) (uid name role serial : String) : DeviceRecord :=
  { DeviceRecord.new now uid none (some (virtualPortPrefix ++ name)) (some virtualVidPid) with
    shortUid := uid
    role := some role
    commonName := some "robot"
    deviceName := some name
    serialPayload := some serial
    state := .connected
    lastProbe := now }

/-- Insert the row of a registered virtual board over any stale row of its uid. -/
def upsertVirtual (s : Store) (now : ℕ) (uid name role serial : String) : Store :=
  (s.deleteRow uid).writeRow (virtualRow now uid name role serial)

/-- Delete a virtual board's row; a row that is not virtual is left alone. -/
def removeVirtual (s : Store) (uid : String) : Store :=
  match s.get uid with
  | none => s
  | some r => if r.isVirtual then s.deleteRow uid else s

def sweepVirtual (s : Store) : Store :=
  (s.listDevices.filter isVirtual).foldl (fun t r => t.deleteRow r.uid) s

/-- The sweep takes rows and changes none. -/
theorem get_sweepVirtual_cases (s : Store) (uid : String) :
    s.sweepVirtual.get uid = none ∨ s.sweepVirtual.get uid = s.get uid := by
  refine Pass.foldl_inv (P := fun t : Store => t.get uid = none ∨ t.get uid = s.get uid)
    (fun t q _ ht => ?_) (Or.inr rfl)
  rw [get_deleteRow]
  split
  · exact Or.inl rfl
  · exact ht

theorem get_sweepVirtual (hr : s.get uid = some r) (hv : r.isVirtual = false) :
    s.sweepVirtual.get uid = some r := by
  unfold sweepVirtual
  rw [Pass.foldl_frame (fun (t : Store) k => t.get k), hr]
  · intro t q k hk
    rw [get_deleteRow, if_neg hk]
  · rintro q hq rfl
    obtain ⟨hmem, hq⟩ := List.mem_filter.mp hq
    rw [mem_listDevices_iff, hr, Option.some.injEq] at hmem
    rw [← hmem, hv] at hq
    cases hq

def getPeer (s : Store) (host : String) : Option PeerRecord := s.peer.get? host

def recordPeerSeen (s : Store) (now : ℕ) (host endpoint : String) : Store :=
  { s with peer := s.peer.put ⟨host, endpoint, now, true⟩ }

def setPeerReachable (s : Store) (host : String) (reachable : Bool) : Except Error Store :=
  match s.getPeer host with
  | none => .error (.keyError "_set_peer_reachable" host)
  | some p => .ok { s with peer := s.peer.put { p with reachable := reachable } }

def peerUnreachable (s : Store) (host : Option String) : Bool :=
  match host.bind s.getPeer with
  | none => false
  | some p => !p.reachable

/-- The condition of the `DELETE` that purges one device row. -/
def purgeable (s : Store) (r : DeviceRecord) : Bool :=
  r.state = .disconnected || s.peerUnreachable r.host

def purgeDevice (s : Store) (uid : String) : Store :=
  match s.get uid with
  | none => s
  | some r => if s.purgeable r then s.deleteRow uid else s

def purgePeer (s : Store) (host : String) : Store :=
  match s.getPeer host with
  | none => s
  | some p => if p.reachable then s else { s with peer := s.peer.erase host }

/-- `Store.purge`: device rows first, so that their peers still exist. -/
def purge (s : Store) (deviceUids peerHosts : List String) : Store :=
  peerHosts.foldl purgePeer (deviceUids.foldl purgeDevice s)

/-- One write to the store. A scanned uid is a hex id, so it is never a virtual one, and a
virtual board's uid is always the prefixed name. -/
inductive Write where
  | attached (now : ℕ) (uid port : String) (vid pid : ℕ) (real : isVirtualUid uid = false)
  | remoteAttached (now : ℕ) (uid host : String) (port vidPid : Option String)
  | probe (now : ℕ) (uid : String) (result : Option ProbeResult)
  | knownBlank (now : ℕ) (uid : String)
  | chipIdentity (uid name : String) (serial : ℕ)
  | disconnected (now : ℕ) (uid : String)
  | flashCount (uid : String)
  | remoteLockState (uid : String) (kind display : Option String)
  | virtual (now : ℕ) (name role serial : String)
  | removeVirtual (uid : String)
  | sweepVirtual
  | peerSeen (now : ℕ) (host endpoint : String)
  | peerReachable (host : String) (reachable : Bool)
  | purge (deviceUids peerHosts : List String)
  | setName (now : ℕ) (name : String) (channel group : ℤ)
  | clearName (name : String)

/-- What a write leaves behind; one that raises leaves the store as it was. -/
def write (s : Store) (w : Write) : Store :=
  let keep : Except Error Store → Store := fun x => x.toOption.getD s
  match w with
  | .attached now uid port vid pid _ => s.upsertAttached now uid port (formatVidPid vid pid)
  | .remoteAttached now uid host port vidPid => s.upsertRemoteAttached now uid host port vidPid
  | .probe now uid result => keep (s.applyProbeResult now uid result)
  | .knownBlank now uid => keep (s.applyKnownBlank now uid)
  | .chipIdentity uid name serial => keep (s.setChipIdentity uid name serial)
  | .disconnected now uid => keep (s.markDisconnected now uid)
  | .flashCount uid => keep (s.incrementFlashCount uid)
  | .remoteLockState uid kind display => keep (s.applyRemoteLockState uid kind display)
  | .virtual now name role serial => s.upsertVirtual now (virtualUidPrefix ++ name) name role serial
  | .removeVirtual uid => s.removeVirtual uid
  | .sweepVirtual => s.sweepVirtual
  | .peerSeen now host endpoint => s.recordPeerSeen now host endpoint
  | .peerReachable host reachable => keep (s.setPeerReachable host reachable)
  | .purge deviceUids peerHosts => s.purge deviceUids peerHosts
  | .setName now name channel group => keep (s.set now name channel group)
  | .clearName name => keep (s.clear name)

/-- The stores some sequence of writes builds from the empty one. -/
def Reachable (s : Store) : Prop := ∃ ws : List Write, s = ws.foldl write empty

theorem Reachable.empty : Reachable Store.empty := ⟨[], rfl⟩

theorem Reachable.write (h : Reachable s) (w : Write) : Reachable (s.write w) := by
  obtain ⟨ws, rfl⟩ := h
  exact ⟨ws ++ [w], by rw [List.foldl_append]; rfl⟩

section Rows

variable {P : DeviceRecord → Prop}

def AllRows (P : DeviceRecord → Prop) (s : Store) : Prop := ∀ uid r, s.get uid = some r → P r

/-- A row property that every row value the store writes has or keeps. A local attach is of a
scanned uid with a USB `vid_pid`. -/
structure RowInvariant (P : DeviceRecord → Prop) : Prop where
  new : ∀ now uid host port vidPid, (host = none → vidPid ≠ some virtualVidPid) →
    P (.new now uid host port vidPid)
  reattached : ∀ r now host port vidPid, P r → r.state = .disconnected →
    (host = none → isVirtualUid r.uid = false ∧ vidPid ≠ some virtualVidPid) →
    P (r.reattached now host port vidPid)
  refreshed : ∀ r now host port vidPid, P r → (host = none ∨ r.host ≠ none) →
    (host = none → isVirtualUid r.uid = false ∧ vidPid ≠ some virtualVidPid) →
    P (r.refreshed now host port vidPid)
  probed : ∀ r now p, P r → P (r.probed now p)
  knownBlank : ∀ r now, P r → P (r.knownBlank now)
  chipIdentity : ∀ r name serial, P r → P (r.withChipIdentity name serial)
  gone : ∀ r now, P r → P (r.gone now)
  flashed : ∀ r, P r → P r.flashed
  remoteLock : ∀ r kind display, P r → P (r.withRemoteLock kind display)
  virtual : ∀ now name role serial, P (virtualRow now (virtualUidPrefix ++ name) name role serial)

theorem AllRows.of_device_eq (h : AllRows P s) (hs : s'.device = s.device) : AllRows P s' := by
  intro uid r hr
  rw [Store.get, hs] at hr
  exact h uid r hr

theorem AllRows.writeRow (h : AllRows P s) (hr : P r) : AllRows P (s.writeRow r) := by
  intro uid q hq
  rw [get_writeRow] at hq
  split at hq
  · exact Option.some.inj hq ▸ hr
  · exact h uid q hq

theorem AllRows.deleteRow (h : AllRows P s) (uid : String) : AllRows P (s.deleteRow uid) := by
  intro k q hq
  rw [get_deleteRow] at hq
  split at hq
  · cases hq
  · exact h k q hq

theorem AllRows.modifyRow {op : String} {f : DeviceRecord → DeviceRecord} (h : AllRows P s)
    (hf : ∀ r, P r → P (f r)) : AllRows P ((s.modifyRow op uid f).toOption.getD s) := by
  cases hs : s.modifyRow op uid f with
  | error e => exact h
  | ok s' =>
    obtain ⟨r, hr, rfl⟩ := modifyRow_eq_ok_iff.mp hs
    exact h.writeRow (hf r (h uid r hr))

theorem AllRows.upsertDevice (hP : RowInvariant P) (h : AllRows P s) (uid : String)
    (host port vidPid : Option String)
    (hl : host = none → isVirtualUid uid = false ∧ vidPid ≠ some virtualVidPid) :
    AllRows P (s.upsertDevice now uid host port vidPid) := by
  rcases upsertDevice_cases s now uid host port vidPid with
    ⟨-, e⟩ | ⟨r, -, -, -, -, e⟩ | ⟨r, hr, hd, e⟩ | ⟨r, hr, -, hh, e⟩
  · rw [e]
    exact h.writeRow (hP.new now uid host port vidPid fun hn => (hl hn).2)
  · rwa [e]
  · rw [e]
    refine h.writeRow (hP.reattached r now host port vidPid (h uid r hr) hd ?_)
    rwa [uid_of_get hr]
  · rw [e]
    refine h.writeRow (hP.refreshed r now host port vidPid (h uid r hr) hh ?_)
    rwa [uid_of_get hr]

theorem AllRows.purgeDevice (h : AllRows P s) (uid : String) : AllRows P (s.purgeDevice uid) := by
  unfold Store.purgeDevice
  split
  · exact h
  · split
    · exact h.deleteRow uid
    · exact h

theorem AllRows.purgePeer (h : AllRows P s) (host : String) : AllRows P (s.purgePeer host) := by
  unfold Store.purgePeer
  split
  · exact h
  · split
    · exact h
    · exact h.of_device_eq rfl

theorem AllRows.write (hP : RowInvariant P) (h : AllRows P s) (w : Write) :
    AllRows P (s.write w) := by
  cases w with
  | attached now uid port vid pid real =>
    exact h.upsertDevice hP uid none _ _ fun _ =>
      ⟨real, fun he => formatVidPid_ne_virtual vid pid (Option.some.inj he)⟩
  | remoteAttached now uid host port vidPid =>
    exact h.upsertDevice hP uid (some host) port vidPid fun hn => by cases hn
  | probe now uid result => exact h.modifyRow fun r hr => hP.probed r now result hr
  | knownBlank now uid => exact h.modifyRow fun r hr => hP.knownBlank r now hr
  | chipIdentity uid name serial =>
    exact h.modifyRow fun r hr => hP.chipIdentity r name serial hr
  | disconnected now uid => exact h.modifyRow fun r hr => hP.gone r now hr
  | flashCount uid => exact h.modifyRow hP.flashed
  | remoteLockState uid kind display =>
    exact h.modifyRow fun r hr => hP.remoteLock r kind display hr
  | virtual now name role serial =>
    exact (h.deleteRow _).writeRow (hP.virtual now name role serial)
  | removeVirtual uid =>
    simp only [Store.write, Store.removeVirtual]
    split
    · exact h
    · split
      · exact h.deleteRow uid
      · exact h
  | sweepVirtual => exact Pass.foldl_inv (fun t r _ ht => ht.deleteRow r.uid) h
  | peerSeen now host endpoint => exact h.of_device_eq rfl
  | peerReachable host reachable =>
    simp only [Store.write, setPeerReachable]
    split
    · exact h
    · exact h.of_device_eq rfl
  | purge deviceUids peerHosts =>
    have hd : AllRows P (deviceUids.foldl Store.purgeDevice s) :=
      Pass.foldl_inv (fun t uid _ ht => ht.purgeDevice uid) h
    exact Pass.foldl_inv (fun t host _ ht => ht.purgePeer host) hd
  | setName now name channel group =>
    simp only [Store.write]
    cases hs : s.set now name channel group with
    | error e => exact h
    | ok s' => exact h.of_device_eq (set_device hs)
  | clearName name =>
    simp only [Store.write]
    cases hs : s.clear name with
    | error e => exact h
    | ok s' => exact h.of_device_eq (clear_device hs)

theorem Reachable.allRows (hP : RowInvariant P) (h : Reachable s) : AllRows P s := by
  obtain ⟨ws, rfl⟩ := h
  refine Pass.foldl_inv (fun t w _ ht => ht.write hP w) ?_
  intro uid r hr
  cases hr

end Rows

end Store

end MbTools
