import MbTools.Peering.Snapshot
import MbTools.Store.History

/-! # What a peer's input leaves alone

An event or a snapshot of a peer writes device rows and names. The peer table is
written by discovery and by the reachability marks only, and the device part of
an input never touches the names.
-/

namespace MbTools

namespace Store

variable {s s' : Store} {now : ℕ} {name : String} {channel group : ℤ} {host op uid : String}

/-- The tables beside the device table. -/
def rest (s : Store) : Table PeerRecord.host × Table Entry.name := (s.peer, s.nameRegistry)

theorem rest_upsertDevice (s : Store) (now : ℕ) (uid : String) (host port vidPid : Option String) :
    (s.upsertDevice now uid host port vidPid).rest = s.rest := by
  unfold upsertDevice
  split
  · rfl
  · split
    · rfl
    · split <;> rfl

theorem rest_modifyRow {f : DeviceRecord → DeviceRecord} (h : s.modifyRow op uid f = .ok s') :
    s'.rest = s.rest := by
  obtain ⟨r, -, rfl⟩ := modifyRow_eq_ok_iff.mp h
  rfl

theorem set_peer (h : s.set now name channel group = .ok s') : s'.peer = s.peer := by
  obtain ⟨n, -, rfl⟩ := set_eq_ok_iff.mp h
  rfl

theorem clear_peer (h : s.clear name = .ok s') : s'.peer = s.peer := by
  obtain ⟨n, -, rfl⟩ := clear_eq_ok_iff.mp h
  rfl

theorem getPeer_recordPeerSeen (s : Store) (now : ℕ) (host endpoint h : String) :
    (s.recordPeerSeen now host endpoint).getPeer h =
      if host = h then some ⟨host, endpoint, now, true⟩ else s.getPeer h :=
  Table.get?_put s.peer ⟨host, endpoint, now, true⟩ h

end Store

namespace Peering

open Store

/-- What `_on_peer_reachable` and `_on_peer_unreachable` write; the `KeyError` of a peer without a
row is logged. -/
def marked (s : Store) (host : String) (reachable : Bool) : Store :=
  (s.setPeerReachable host reachable).toOption.getD s

variable {s s' : Store} {now : ℕ} {host op uid : String} {e : Event}

theorem rest_caught {x : Except Error Store} (h : ∀ s', x = .ok s' → s'.rest = s.rest) :
    (caught s x).rest = s.rest := by
  cases x with
  | ok s' => exact h s' rfl
  | error err => rfl

theorem rest_onUid {u : Option String} {f : DeviceRecord → DeviceRecord}
    (h : onUid op u (fun uid => s.modifyRow op uid f) = .ok s') : s'.rest = s.rest := by
  obtain ⟨uid, -, h⟩ := onUid_eq_ok_iff.mp h
  exact rest_modifyRow h

theorem rest_applySnapshotDevice (s : Store) (now : ℕ) (host : String) (d : DeviceDict) :
    (applySnapshotDevice s now host d).rest = s.rest := by
  unfold applySnapshotDevice
  split
  · rfl
  · rename_i uid hu
    have hup := rest_upsertDevice s now uid (some host) d.port d.vidPid
    dsimp only
    split
    · exact hup
    · rename_i r hr
      split
      · refine Eq.trans (rest_caught fun s' hs => ?_) hup
        rcases @applySnapshotState_eq _ now _ _ d hr with (he | ⟨he, -⟩)
        · rw [he] at hs
          cases hs
          rfl
        · rw [he] at hs
          cases hs
          rfl
      · exact hup

theorem rest_detachAbsent (s : Store) (now : ℕ) (host : String) (seen : List (Option String)) :
    (detachAbsent s now host seen).rest = s.rest := by
  unfold detachAbsent
  refine Pass.foldl_inv (P := fun t : Store => t.rest = s.rest) (fun t r _ ht => ?_) rfl
  split
  · exact (rest_caught fun s' hs => rest_modifyRow hs).trans ht
  · exact ht

theorem rest_devices (s : Store) (now : ℕ) (host : String) (reply : SnapshotReply) :
    (detachAbsent (reply.devices.foldl (fun t d => applySnapshotDevice t now host d) s) now host
      (reply.devices.map DeviceDict.uid)).rest = s.rest := by
  refine (rest_detachAbsent _ now host _).trans ?_
  exact Pass.foldl_inv (P := fun t : Store => t.rest = s.rest)
    (fun t d _ ht => (rest_applySnapshotDevice t now host d).trans ht) rfl

theorem peer_applySnapshotName {d : NameDict} (h : applySnapshotName s now d = .ok s') :
    s'.peer = s.peer := by
  unfold applySnapshotName at h
  split at h
  · exact set_peer h
  all_goals cases h

theorem peer_caught {x : Except Error Store} (h : ∀ s', x = .ok s' → s'.peer = s.peer) :
    (caught s x).peer = s.peer := by
  cases x with
  | ok s' => exact h s' rfl
  | error err => rfl

/-- Only an event about a name reaches past the device table. -/
theorem rest_recvEvent (hset : e.type ≠ some .nameSet) (hclear : e.type ≠ some .nameClear) :
    (recvEvent s now host e).rest = s.rest := by
  rw [recvEvent_eq_caught]
  refine rest_caught fun s' hs => ?_
  have hgate : ∀ {op : String} {f : DeviceRecord → DeviceRecord},
      (if attributedTo s e.uid host then
        onUid op e.uid fun u => s.modifyRow op u f else .ok s) = .ok s' → s'.rest = s.rest := by
    intro op f hg
    split at hg
    · exact rest_onUid hg
    · cases hg
      rfl
  unfold applyEventBody at hs
  rcases ht : e.type with (_ | _ | _ | _ | _ | _ | _)
  case none =>
    simp only [ht] at hs
    cases hs
    rfl
  case some.attach =>
    simp only [ht] at hs
    cases hu : e.uid with
    | none => simp [hu] at hs
    | some uid =>
      simp only [hu] at hs
      cases hs
      exact rest_upsertDevice s now uid (some host) e.port e.vidPid
  case some.detach =>
    simp only [ht] at hs
    exact hgate hs
  case some.identity =>
    simp only [ht] at hs
    rcases hst : e.state with (_ | _ | _ | _ | _ | _)
    case some.connected =>
      simp only [hst] at hs
      exact hgate hs
    case some.attachedNoAnnounce =>
      simp only [hst] at hs
      exact hgate hs
    case some.connectedNoFirmware =>
      simp only [hst] at hs
      exact hgate hs
    all_goals
      simp only [hst, ite_self] at hs
      cases hs
      rfl
  case some.lockState =>
    simp only [ht] at hs
    exact hgate hs
  case some.nameSet => exact absurd ht hset
  case some.nameClear => exact absurd ht hclear

theorem peer_recvEvent (s : Store) (now : ℕ) (host : String) (e : Event) :
    (recvEvent s now host e).peer = s.peer := by
  by_cases hset : e.type = some .nameSet
  · rw [recvEvent_eq_caught]
    refine peer_caught fun s' hs => ?_
    simp only [applyEventBody, hset] at hs
    split at hs
    · exact set_peer hs
    · cases hs
      rfl
  · by_cases hclear : e.type = some .nameClear
    · rw [recvEvent_eq_caught]
      refine peer_caught fun s' hs => ?_
      simp only [applyEventBody, hclear] at hs
      split at hs
      · exact clear_peer hs
      · cases hs
        rfl
    · exact congrArg Prod.fst (rest_recvEvent hset hclear)

/-- Nothing a peer sends reaches the peer table. -/
theorem peer_applyInput (host : String) (s : Store) (i : Input) :
    (applyInput host s i).peer = s.peer := by
  cases i with
  | event now e => exact peer_recvEvent s now host e
  | snapshot now reply =>
    refine Pass.foldl_inv (P := fun t : Store => t.peer = s.peer) (fun t d _ ht => ?_)
      (congrArg Prod.fst (rest_devices s now host reply))
    exact (peer_caught fun s' hs => peer_applySnapshotName hs).trans ht

theorem peer_applyPart (s : Store) (now : ℕ) (host : String) (part : Part) :
    (applyPart s now host part).peer = s.peer := by
  cases part with
  | devices devices =>
    refine Pass.foldl_inv (P := fun t : Store => t.peer = s.peer) (fun t d _ ht => ?_) rfl
    exact (congrArg Prod.fst (rest_applySnapshotDevice t now host d)).trans ht
  | names reply => exact peer_applyInput host s (.snapshot now reply)

theorem getPeer_applyInput (host : String) (s : Store) (i : Input) (h : String) :
    (applyInput host s i).getPeer h = s.getPeer h := by rw [getPeer, peer_applyInput, getPeer]

theorem get_marked (s : Store) (host : String) (reachable : Bool) (u : String) :
    (marked s host reachable).get u = s.get u := by
  unfold marked setPeerReachable
  split <;> rfl

/-- A mark writes the reachability of one peer's row, if there is one. -/
theorem getPeer_marked (s : Store) (host : String) (reachable : Bool) (h : String) :
    (marked s host reachable).getPeer h =
      if host = h then (s.getPeer h).map ({ · with reachable := reachable }) else s.getPeer h := by
  unfold marked setPeerReachable
  split
  · rename_i hp
    simp only [Except.toOption, Option.getD_none]
    split
    · rename_i hh
      rw [← hh, hp]
      rfl
    · rfl
  · rename_i p hp
    have hkey : p.host = host := Table.key_of_get? hp
    simp only [Except.toOption, Option.getD_some]
    refine (Table.get?_put s.peer { p with reachable := reachable } h).trans ?_
    dsimp only
    rw [hkey]
    split
    · rename_i hh
      rw [← hh, hp, Option.map_some, hkey]
    · rfl

theorem getPeer_marked_isSome (s : Store) (host : String) (reachable : Bool) (h : String) :
    ((marked s host reachable).getPeer h).isSome = (s.getPeer h).isSome := by
  rw [getPeer_marked]
  split
  · exact Option.isSome_map
  · rfl

end Peering

end MbTools
