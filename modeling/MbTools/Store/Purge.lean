import MbTools.Lib.Delete
import MbTools.Store.History

/-! # Purging

The rows a purge would delete right now, grouped by reason, and the purge
itself, which checks every row again as it deletes it.
-/

namespace MbTools

structure PurgeCandidates where
  localDisconnected : List String
  unreachablePeerOwned : List String
  reachablePeerStaleDisconnected : List String
  unreachablePeers : List String
  deriving DecidableEq, Repr

/-- All three device groups, the flat shape `purge` takes. -/
def PurgeCandidates.deviceUids (c : PurgeCandidates) : List String :=
  c.localDisconnected ++ c.unreachablePeerOwned ++ c.reachablePeerStaleDisconnected

structure PurgeResult where
  removedDeviceUids : List String
  removedPeerHosts : List String
  deriving DecidableEq, Repr

namespace Store

variable {s : Store} {r : DeviceRecord} {uid host : String} {uids hosts : List String}

/-- `host IN (SELECT host FROM peer WHERE reachable = 1)`. -/
def peerReachable (s : Store) (host : Option String) : Bool :=
  match host.bind s.getPeer with
  | none => false
  | some p => p.reachable

def candidatesForPurge (s : Store) : PurgeCandidates where
  localDisconnected :=
    (s.listDevices.filter fun r => r.host = none && r.state = .disconnected).map DeviceRecord.uid
  unreachablePeerOwned :=
    (s.listDevices.filter fun r => s.peerUnreachable r.host).map DeviceRecord.uid
  reachablePeerStaleDisconnected :=
    (s.listDevices.filter fun r => r.state = .disconnected && s.peerReachable r.host).map
      DeviceRecord.uid
  unreachablePeers := (s.peer.rows.filter fun p => !p.reachable).map PeerRecord.host

/-- `Store.purge` with what it reports. The subquery of the device deletes reads the peer rows,
which are deleted after them. -/
def purgeReport (s : Store) (deviceUids peerHosts : List String) : Store × PurgeResult :=
  let (device, removedDevices) := Table.deleteEach s.purgeable deviceUids s.device
  let (peer, removedPeers) := Table.deleteEach (fun p => !p.reachable) peerHosts s.peer
  ({ s with device, peer }, ⟨removedDevices, removedPeers⟩)

/-- The row is one that a purge is for. -/
inductive Stale (s : Store) (r : DeviceRecord) : Prop
  | localDisconnected (local_ : r.host = none) (gone : r.state = .disconnected)
  | unreachablePeer (host : String) (p : PeerRecord) (owner : r.host = some host)
      (peer : s.getPeer host = some p) (unreachable : p.reachable = false)
  | reachablePeer (host : String) (p : PeerRecord) (owner : r.host = some host)
      (peer : s.getPeer host = some p) (reachable : p.reachable = true)
      (gone : r.state = .disconnected)

theorem peerUnreachable_iff {owner : Option String} : s.peerUnreachable owner = true ↔
    ∃ host p, owner = some host ∧ s.getPeer host = some p ∧ p.reachable = false := by
  unfold peerUnreachable
  cases owner with
  | none => simp
  | some host => cases h : s.getPeer host <;> simp [h]

theorem peerReachable_iff {owner : Option String} : s.peerReachable owner = true ↔
    ∃ host p, owner = some host ∧ s.getPeer host = some p ∧ p.reachable = true := by
  unfold peerReachable
  cases owner with
  | none => simp
  | some host => cases h : s.getPeer host <;> simp [h]

theorem peerReachable_of_peerUnreachable {owner : Option String}
    (h : s.peerUnreachable owner = true) : s.peerReachable owner = false := by
  obtain ⟨host, p, rfl, hp, hr⟩ := peerUnreachable_iff.mp h
  simp [peerReachable, hp, hr]

section Candidates

/-- A group is the uids of the rows that meet its condition. -/
theorem mem_group_iff {cond : DeviceRecord → Bool} :
    uid ∈ (s.listDevices.filter cond).map DeviceRecord.uid ↔
      ∃ r, s.get uid = some r ∧ cond r = true := by
  simp only [List.mem_map, List.mem_filter]
  constructor
  · rintro ⟨r, ⟨hr, hc⟩, rfl⟩
    exact ⟨r, mem_listDevices_iff.mp hr, hc⟩
  · rintro ⟨r, hr, hc⟩
    have hu := uid_of_get hr
    exact ⟨r, ⟨mem_listDevices_iff.mpr (hu.symm ▸ hr), hc⟩, hu⟩

theorem nodup_group (cond : DeviceRecord → Bool) :
    ((s.listDevices.filter cond).map DeviceRecord.uid).Nodup :=
  s.device.nodup.sublist (List.filter_sublist.map _)

/-- Two groups whose conditions exclude each other share no uid. -/
theorem disjoint_group {cond cond' : DeviceRecord → Bool}
    (h : ∀ r, cond r = true → cond' r = false) :
    List.Disjoint ((s.listDevices.filter cond).map DeviceRecord.uid)
      ((s.listDevices.filter cond').map DeviceRecord.uid) := by
  intro uid hu hu'
  obtain ⟨r, hr, hc⟩ := mem_group_iff.mp hu
  obtain ⟨r', hr', hc'⟩ := mem_group_iff.mp hu'
  obtain rfl : r = r' := Option.some.inj (hr.symm.trans hr')
  rw [h r hc] at hc'
  cases hc'

theorem local_disjoint_unreachable :
    List.Disjoint s.candidatesForPurge.localDisconnected
      s.candidatesForPurge.unreachablePeerOwned := by
  refine disjoint_group fun r hc => ?_
  have hl : r.host = none := by
    simp only [Bool.and_eq_true, decide_eq_true_eq] at hc
    exact hc.1
  rw [hl]
  rfl

theorem local_disjoint_reachable :
    List.Disjoint s.candidatesForPurge.localDisconnected
      s.candidatesForPurge.reachablePeerStaleDisconnected := by
  refine disjoint_group fun r hc => ?_
  have hl : r.host = none := by
    simp only [Bool.and_eq_true, decide_eq_true_eq] at hc
    exact hc.1
  rw [hl]
  simp [peerReachable]

theorem unreachable_disjoint_reachable :
    List.Disjoint s.candidatesForPurge.unreachablePeerOwned
      s.candidatesForPurge.reachablePeerStaleDisconnected := by
  refine disjoint_group fun r hc => ?_
  rw [peerReachable_of_peerUnreachable hc, Bool.and_false]

theorem mem_deviceUids_iff :
    uid ∈ s.candidatesForPurge.deviceUids ↔ ∃ r, s.get uid = some r ∧ s.Stale r := by
  simp only [PurgeCandidates.deviceUids, candidatesForPurge, List.mem_append, mem_group_iff]
  constructor
  · rintro ((⟨r, hr, hc⟩ | ⟨r, hr, hc⟩) | ⟨r, hr, hc⟩)
    · simp only [Bool.and_eq_true, decide_eq_true_eq] at hc
      exact ⟨r, hr, .localDisconnected hc.1 hc.2⟩
    · obtain ⟨host, p, ho, hp, hre⟩ := peerUnreachable_iff.mp hc
      exact ⟨r, hr, .unreachablePeer host p ho hp hre⟩
    · rw [Bool.and_eq_true, decide_eq_true_eq] at hc
      obtain ⟨host, p, ho, hp, hre⟩ := peerReachable_iff.mp hc.2
      exact ⟨r, hr, .reachablePeer host p ho hp hre hc.1⟩
  · rintro ⟨r, hr, hs⟩
    cases hs with
    | localDisconnected hl hg => exact Or.inl (Or.inl ⟨r, hr, by simp [hl, hg]⟩)
    | unreachablePeer host p ho hp hre =>
      exact Or.inl (Or.inr ⟨r, hr, peerUnreachable_iff.mpr ⟨host, p, ho, hp, hre⟩⟩)
    | reachablePeer host p ho hp hre hg =>
      have hpeer := peerReachable_iff.mpr ⟨host, p, ho, hp, hre⟩
      exact Or.inr ⟨r, hr, by rw [hpeer, hg]; rfl⟩

theorem nodup_deviceUids : s.candidatesForPurge.deviceUids.Nodup := by
  unfold PurgeCandidates.deviceUids
  rw [List.nodup_append', List.nodup_append', List.disjoint_append_left]
  exact ⟨⟨nodup_group _, nodup_group _, local_disjoint_unreachable⟩, nodup_group _,
    local_disjoint_reachable, unreachable_disjoint_reachable⟩

theorem mem_unreachablePeers_iff :
    host ∈ s.candidatesForPurge.unreachablePeers ↔
      ∃ p, s.getPeer host = some p ∧ p.reachable = false := by
  simp only [candidatesForPurge, List.mem_map, List.mem_filter, Bool.not_eq_true']
  constructor
  · rintro ⟨p, ⟨hp, hre⟩, rfl⟩
    exact ⟨p, Table.mem_rows_iff.mp hp, hre⟩
  · rintro ⟨p, hp, hre⟩
    have hk : p.host = host := Table.key_of_get? hp
    exact ⟨p, ⟨Table.mem_rows_iff.mpr (hk.symm ▸ hp), hre⟩, hk⟩

theorem nodup_unreachablePeers : s.candidatesForPurge.unreachablePeers.Nodup :=
  s.peer.nodup.sublist (List.filter_sublist.map _)

/-- A candidate still qualifies for its delete in the state it was computed in. -/
theorem Stale.purgeable (h : s.Stale r) : s.purgeable r = true := by
  unfold Store.purgeable
  rw [Bool.or_eq_true, decide_eq_true_eq]
  cases h with
  | localDisconnected _ hg => exact Or.inl hg
  | unreachablePeer host p ho hp hre =>
    exact Or.inr (peerUnreachable_iff.mpr ⟨host, p, ho, hp, hre⟩)
  | reachablePeer _ _ _ _ _ hg => exact Or.inl hg

end Candidates

section Report

theorem foldl_purgeDevice (uids : List String) (s : Store) :
    uids.foldl purgeDevice s =
      { s with device := (Table.deleteEach s.purgeable uids s.device).1 } := by
  rw [Table.deleteEach_fst]
  induction uids generalizing s with
  | nil => rfl
  | cons uid uids ih =>
    have hone : s.purgeDevice uid =
        { s with device := s.device.deleteIf s.purgeable uid } := by
      unfold purgeDevice Table.deleteIf Table.hits Store.get
      cases h : s.device.get? uid with
      | none => rfl
      | some r =>
        simp only [Option.any_some]
        split <;> rfl
    -- the condition reads the peer rows only, so it is the same for every delete
    have hcond : (s.purgeDevice uid).purgeable = s.purgeable := by rw [hone]; rfl
    rw [List.foldl_cons, List.foldl_cons, ih, hcond, hone]

theorem foldl_purgePeer (hosts : List String) (s : Store) :
    hosts.foldl purgePeer s =
      { s with peer := (Table.deleteEach (fun p => !p.reachable) hosts s.peer).1 } := by
  rw [Table.deleteEach_fst]
  induction hosts generalizing s with
  | nil => rfl
  | cons host hosts ih =>
    have hone : s.purgePeer host =
        { s with peer := s.peer.deleteIf (fun p => !p.reachable) host } := by
      unfold purgePeer Table.deleteIf Table.hits getPeer
      cases h : s.peer.get? host with
      | none => rfl
      | some p =>
        by_cases hr : p.reachable = true
        · simp [hr]
        · simp [hr]
    rw [List.foldl_cons, List.foldl_cons, ih, hone]

/-- The report is of the purge itself. -/
theorem purgeReport_fst (s : Store) (uids hosts : List String) :
    (s.purgeReport uids hosts).1 = s.purge uids hosts := by
  unfold purge
  rw [foldl_purgeDevice, foldl_purgePeer]
  rfl

theorem get_purgeReport (s : Store) (uids hosts : List String) (uid : String) :
    (s.purgeReport uids hosts).1.get uid =
      if uid ∈ uids ∧ s.device.hits s.purgeable uid = true then none else s.get uid :=
  Table.get?_deleteEach uids s.device uid

theorem getPeer_purgeReport (s : Store) (uids hosts : List String) (host : String) :
    (s.purgeReport uids hosts).1.getPeer host =
      if host ∈ hosts ∧ s.peer.hits (fun p => !p.reachable) host = true then none
      else s.getPeer host :=
  Table.get?_deleteEach hosts s.peer host

@[simp] theorem purgeReport_nameRegistry :
    (s.purgeReport uids hosts).1.nameRegistry = s.nameRegistry := rfl

end Report

end Store

end MbTools
