import Mathlib.Data.List.Sort
import Mathlib.Data.String.Basic
import MbTools.Registry.Locks
import MbTools.Store.Purge

/-! # The rescan operation

The purge a client asks for. Locked candidates are left out and reported, and a
dry run reports what a real one would do. The poll and the peer resync a real
call triggers run after it, outside the lock.
-/

namespace MbTools

namespace Api

structure RescanResponse where
  devices : List String
  peers : List String
  skippedLocked : List String
  dryRun : Bool
  deriving DecidableEq, Repr

/-- What a rescan publishes on the local event bus. -/
inductive RemovedEvent where
  | device (uid : String) (host : Option String)
  | peer (host : String)
  deriving DecidableEq, Repr

structure Rescan where
  store : Store
  response : RescanResponse
  events : List RemovedEvent
  /-- Are the poll and the peer resync callbacks called? -/
  triggers : Bool
  deriving DecidableEq, Repr

/-- `_op_rescan`; a server with no event bus publishes nothing. -/
def opRescan (s : Store) (locks : LockManager) (eventbus dryRun : Bool) : Rescan :=
  let candidates := s.candidatesForPurge
  let lockedUids :=
    (candidates.deviceUids.filter fun uid => (locks.status uid).isSome).insertionSort (· ≤ ·)
  let deviceUids := candidates.deviceUids.filter (· ∉ lockedUids)
  let peerHosts := candidates.unreachablePeers
  if dryRun then ⟨s, ⟨deviceUids, peerHosts, lockedUids, true⟩, [], false⟩
  else
    let hostByUid uid := (s.get uid).bind DeviceRecord.host
    let (s, result) := s.purgeReport deviceUids peerHosts
    { store := s
      response := ⟨result.removedDeviceUids, result.removedPeerHosts, lockedUids, false⟩
      events :=
        if eventbus then
          result.removedDeviceUids.map (fun uid => .device uid (hostByUid uid)) ++
            result.removedPeerHosts.map .peer
        else []
      triggers := true }

/-- A stale row that no lock protects. -/
def Removed (s : Store) (locks : LockManager) (uid : String) : Prop :=
  (∃ r, s.get uid = some r ∧ s.Stale r) ∧ locks.status uid = none

/-- A peer row marked unreachable. -/
def RemovedPeer (s : Store) (host : String) : Prop :=
  ∃ p, s.getPeer host = some p ∧ p.reachable = false

/-- The uids a rescan leaves alone for their locks. -/
def lockedCandidates (s : Store) (locks : LockManager) : List String :=
  (s.candidatesForPurge.deviceUids.filter fun uid => (locks.status uid).isSome).insertionSort
    (· ≤ ·)

/-- The uids a rescan asks the store to purge. -/
def purged (s : Store) (locks : LockManager) : List String :=
  s.candidatesForPurge.deviceUids.filter (· ∉ lockedCandidates s locks)

section Lemmas

variable {s : Store} {locks : LockManager} {uid host : String} {eventbus : Bool}

theorem mem_lockedCandidates_iff : uid ∈ lockedCandidates s locks ↔
    (∃ r, s.get uid = some r ∧ s.Stale r) ∧ locks.status uid ≠ none := by
  rw [lockedCandidates, List.mem_insertionSort, List.mem_filter, Store.mem_deviceUids_iff,
    Option.isSome_iff_ne_none]

theorem mem_purged_iff : uid ∈ purged s locks ↔ Removed s locks uid := by
  simp only [purged, List.mem_filter, Store.mem_deviceUids_iff, mem_lockedCandidates_iff,
    decide_eq_true_eq, Removed]
  constructor
  · rintro ⟨hstale, hfree⟩
    exact ⟨hstale, by_contra fun hl => hfree ⟨hstale, hl⟩⟩
  · rintro ⟨hstale, hfree⟩
    exact ⟨hstale, fun hl => hl.2 hfree⟩

theorem nodup_purged (s : Store) (locks : LockManager) : (purged s locks).Nodup :=
  Store.nodup_deviceUids.filter _

theorem hits_of_mem_purged (h : uid ∈ purged s locks) :
    s.device.hits s.purgeable uid = true := by
  obtain ⟨⟨r, hr, hstale⟩, -⟩ := mem_purged_iff.mp h
  exact Table.hits_iff.mpr ⟨r, hr, hstale.purgeable⟩

theorem hits_of_mem_unreachablePeers (h : host ∈ s.candidatesForPurge.unreachablePeers) :
    s.peer.hits (fun p => !p.reachable) host = true := by
  obtain ⟨p, hp, hr⟩ := Store.mem_unreachablePeers_iff.mp h
  exact Table.hits_iff.mpr ⟨p, hp, by rw [hr]; rfl⟩

/-- The purge removes all it is asked for, so the two responses agree. -/
theorem removedDeviceUids_eq (s : Store) (locks : LockManager) :
    (s.purgeReport (purged s locks) s.candidatesForPurge.unreachablePeers).2.removedDeviceUids =
      purged s locks := by
  have h := Table.deleteEach_removed s.purgeable s.device (nodup_purged s locks)
  exact h.trans (List.filter_eq_self.mpr fun uid hu => hits_of_mem_purged hu)

theorem removedPeerHosts_eq (s : Store) (uids : List String) :
    (s.purgeReport uids s.candidatesForPurge.unreachablePeers).2.removedPeerHosts =
      s.candidatesForPurge.unreachablePeers := by
  have h := Table.deleteEach_removed (fun p => !p.reachable) s.peer
    (Store.nodup_unreachablePeers (s := s))
  exact h.trans (List.filter_eq_self.mpr fun host hh => hits_of_mem_unreachablePeers hh)

theorem opRescan_store : (opRescan s locks eventbus false).store =
    (s.purgeReport (purged s locks) s.candidatesForPurge.unreachablePeers).1 := rfl

theorem opRescan_get (uid : String) :
    (Removed s locks uid → (opRescan s locks eventbus false).store.get uid = none) ∧
      (¬ Removed s locks uid → (opRescan s locks eventbus false).store.get uid = s.get uid) := by
  rw [opRescan_store, Store.get_purgeReport]
  constructor
  · intro h
    have hmem := mem_purged_iff.mpr h
    rw [if_pos ⟨hmem, hits_of_mem_purged hmem⟩]
  · intro h
    rw [if_neg fun hc => h (mem_purged_iff.mp hc.1)]

theorem opRescan_getPeer (host : String) :
    (RemovedPeer s host → (opRescan s locks eventbus false).store.getPeer host = none) ∧
      (¬ RemovedPeer s host →
        (opRescan s locks eventbus false).store.getPeer host = s.getPeer host) := by
  rw [opRescan_store, Store.getPeer_purgeReport]
  constructor
  · intro h
    have hmem := Store.mem_unreachablePeers_iff.mpr h
    rw [if_pos ⟨hmem, hits_of_mem_unreachablePeers hmem⟩]
  · intro h
    rw [if_neg fun hc => h (Store.mem_unreachablePeers_iff.mp hc.1)]

/-- A dry run answers what the real run answers, but for the flag. -/
theorem opRescan_response : (opRescan s locks eventbus true).response =
    { (opRescan s locks eventbus false).response with dryRun := true } := by
  have hd := removedDeviceUids_eq s locks
  have hp := removedPeerHosts_eq s (purged s locks)
  change RescanResponse.mk (purged s locks) s.candidatesForPurge.unreachablePeers
    (lockedCandidates s locks) true = _
  simp only [opRescan, Bool.false_eq_true, if_false]
  exact congrArg₂ (RescanResponse.mk · · (lockedCandidates s locks) true) hd.symm hp.symm

/-- One event for each row removed, with the host the row had before it. -/
theorem opRescan_events : (opRescan s locks true false).events =
    (purged s locks).map (fun uid => .device uid ((s.get uid).bind DeviceRecord.host)) ++
      s.candidatesForPurge.unreachablePeers.map .peer := by
  have hd := removedDeviceUids_eq s locks
  have hp := removedPeerHosts_eq s (purged s locks)
  rw [← hp, ← hd]
  rfl

end Lemmas

/-- The purge of a real rescan takes exactly the stale unlocked device rows and the unreachable
peers' rows, reports exactly those, and touches nothing else; the three groups of candidates are
disjoint, and a dry run reports the same and changes nothing. -/
theorem rescan_exact (s : Store) (locks : LockManager) (eventbus : Bool) :
    let real := opRescan s locks eventbus false
    let dry := opRescan s locks eventbus true
    let candidates := s.candidatesForPurge
    (∀ uid, (Removed s locks uid → real.store.get uid = none) ∧
      (¬ Removed s locks uid → real.store.get uid = s.get uid)) ∧
    (∀ host, (RemovedPeer s host → real.store.getPeer host = none) ∧
      (¬ RemovedPeer s host → real.store.getPeer host = s.getPeer host)) ∧
    real.store.nameRegistry = s.nameRegistry ∧
    real.response.devices.Nodup ∧
    (∀ uid, uid ∈ real.response.devices ↔ Removed s locks uid) ∧
    real.response.peers.Nodup ∧
    (∀ host, host ∈ real.response.peers ↔ RemovedPeer s host) ∧
    (∀ uid, uid ∈ real.response.skippedLocked ↔
      (∃ r, s.get uid = some r ∧ s.Stale r) ∧ locks.status uid ≠ none) ∧
    (candidates.localDisconnected.Disjoint candidates.unreachablePeerOwned ∧
      candidates.localDisconnected.Disjoint candidates.reachablePeerStaleDisconnected ∧
      candidates.unreachablePeerOwned.Disjoint candidates.reachablePeerStaleDisconnected) ∧
    dry.response = { real.response with dryRun := true } ∧
    dry.store = s ∧ dry.events = [] ∧ dry.triggers = false := by
  intro real dry candidates
  have hdevices : real.response.devices = purged s locks := removedDeviceUids_eq s locks
  have hpeers : real.response.peers = s.candidatesForPurge.unreachablePeers :=
    removedPeerHosts_eq s (purged s locks)
  refine ⟨opRescan_get, opRescan_getPeer, rfl, ?_, ?_, ?_, ?_, ?_, ?_, opRescan_response,
    rfl, rfl, rfl⟩
  · rw [hdevices]
    exact nodup_purged s locks
  · intro uid
    rw [hdevices]
    exact mem_purged_iff
  · rw [hpeers]
    exact Store.nodup_unreachablePeers
  · intro host
    rw [hpeers]
    exact Store.mem_unreachablePeers_iff
  · intro uid
    exact mem_lockedCandidates_iff
  · exact ⟨Store.local_disjoint_unreachable, Store.local_disjoint_reachable,
      Store.unreachable_disjoint_reachable⟩

end Api

end MbTools
