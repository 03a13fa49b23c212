import MbTools.Peering.Snapshot
import MbTools.Store.History

/-! # How faithful a replica is

A snapshot entry is applied through the writes of local probing, and those keep
or reset different fields. The replica ends up equal to the entry exactly when
the fields its state does not transfer already had the entry's values.
-/

namespace MbTools.Peering

open Store DeviceRecord

def Announcement.blank : Announcement := ⟨none, none, none, none, none⟩

/-- All five announcement fields are present. -/
structure Announcement.Complete (a : Announcement) : Prop where
  role : a.role ≠ none
  commonName : a.commonName ≠ none
  deviceName : a.deviceName ≠ none
  serialPayload : a.serialPayload ≠ none
  rawAnnouncement : a.rawAnnouncement ≠ none

/-- Only virtual boards have virtual rows, and a connected board has announced itself. -/
def Announced (r : DeviceRecord) : Prop :=
  (r.isVirtual = true → isVirtualUid r.uid = true) ∧
    (r.state = .connected → r.isVirtual = true ∨ (announcementOf r).Complete)

section Announced

variable {r : DeviceRecord}

theorem isVirtual_eq_false_of_host (h : r.host ≠ none) : r.isVirtual = false := by
  simp [isVirtual, h]

theorem isVirtual_eq_false_of_vidPid (h : r.vidPid ≠ some virtualVidPid) :
    r.isVirtual = false := by
  simp [isVirtual, h]

theorem isVirtualUid_append (name : String) : isVirtualUid (virtualUidPrefix ++ name) = true := by
  simp [isVirtualUid, startsWith]

theorem probed_complete (r : DeviceRecord) (now : ℕ) (p : ProbeResult) :
    (announcementOf (r.probed now (some p))).Complete := by
  constructor <;> simp [announcementOf, probed]

theorem not_virtual_of_claim {host vidPid : Option String} {q : DeviceRecord} (hh : q.host = host)
    (hv : q.vidPid = vidPid)
    (h : host = none → vidPid ≠ some virtualVidPid) : q.isVirtual = false := by
  by_cases hn : host = none
  · exact isVirtual_eq_false_of_vidPid (hv ▸ h hn)
  · exact isVirtual_eq_false_of_host (hh ▸ hn)

theorem announced_rowInvariant : RowInvariant Announced where
  new now uid host port vidPid h := by
    have hv : (DeviceRecord.new now uid host port vidPid).isVirtual = false :=
      not_virtual_of_claim rfl rfl h
    exact ⟨fun h => by simp [hv] at h, fun h => by simp [DeviceRecord.new] at h⟩
  reattached r now host port vidPid _ _ hl := by
    have hv : (r.reattached now host port vidPid).isVirtual = false :=
      not_virtual_of_claim rfl rfl fun hn => (hl hn).2
    exact ⟨fun h => by simp [hv] at h, fun h => by simp [reattached] at h⟩
  refreshed r now host port vidPid hr hh hl := by
    have hv : (r.refreshed now host port vidPid).isVirtual = false :=
      not_virtual_of_claim rfl rfl fun hn => (hl hn).2
    have hold : r.isVirtual = false := by
      rcases hh with (hn | hn)
      · cases hb : r.isVirtual with
        | false => rfl
        | true => simp [hr.1 hb] at hl; exact absurd hn hl
      · exact isVirtual_eq_false_of_host hn
    refine ⟨fun h => by simp [hv] at h, fun h => Or.inr ?_⟩
    rcases hr.2 h with (hb | hc)
    · simp [hold] at hb
    · exact hc
  probed r now p hr := by
    refine ⟨fun h => by simpa using hr.1 (by simpa using h), fun h => ?_⟩
    cases p with
    | none => simp [probed] at h
    | some p => exact Or.inr (probed_complete r now p)
  knownBlank r now hr := ⟨hr.1, fun h => by simp [knownBlank] at h⟩
  chipIdentity r name serial hr := by
    have ha : announcementOf (r.withChipIdentity name serial) = announcementOf r := by
      unfold withChipIdentity; split <;> rfl
    refine ⟨fun h => ?_, fun h => ?_⟩
    · rw [withChipIdentity_uid]
      exact hr.1 (by simpa using h)
    · rw [ha, withChipIdentity_isVirtual]
      exact hr.2 (by simpa using h)
  gone r now hr := ⟨hr.1, fun h => by simp [gone] at h⟩
  flashed r hr := hr
  remoteLock r kind display hr := hr
  virtual now name role serial := by
    have hv : (virtualRow now (virtualUidPrefix ++ name) name role serial).isVirtual = true := by
      simp [isVirtual, virtualRow, DeviceRecord.new, startsWith]
    exact ⟨fun _ => isVirtualUid_append name, fun _ => Or.inl hv⟩

/-- A connected entry of a snapshot carries a whole announcement. -/
theorem snapshot_connected_complete {o : Store} (ho : Reachable o)
    (hr : r ∈ o.snapshotLocalDevices) (hc : r.state = .connected) :
    (announcementOf r).Complete := by
  obtain ⟨hg, -, -, hv⟩ := mem_snapshotLocalDevices_iff.mp hr
  rcases (ho.allRows announced_rowInvariant r.uid r hg).2 hc with (h | h)
  · simp [hv] at h
  · exact h

end Announced

section Columns

variable {s o : Store} {now : ℕ} {host uid : String} {r q : DeviceRecord} {d : DeviceDict}
  {prev : Option DeviceRecord}

/-- The announcement columns the replica had before; all empty for a new row. -/
def announcementBefore (prev : Option DeviceRecord) : Announcement :=
  (prev.map announcementOf).getD .blank

/-- Does an entry in state `st` leave the announcement columns at `a`, over the row `prev`?
Only a connected entry transfers its announcement, and an unprobed one does not even reset
the state of an attached row. -/
def Carries (prev : Option DeviceRecord) (st : Option State) (a : Announcement) : Prop :=
  match st with
  | some .connected => True
  | some .attachedUnprobed =>
    (∀ r, prev = some r → r.state = .disconnected ∨ r.state = .attachedUnprobed) ∧
      announcementBefore prev = a
  | _ => announcementBefore prev = a

theorem upserted_of_host
    (hh : (upserted now uid (some host) d.port d.vidPid prev).host = some host) :
    (upserted now uid (some host) d.port d.vidPid prev).port = d.port ∧
    (upserted now uid (some host) d.port d.vidPid prev).vidPid = d.vidPid ∧
    announcementOf (upserted now uid (some host) d.port d.vidPid prev) =
      announcementBefore prev ∧
    ((upserted now uid (some host) d.port d.vidPid prev).state = .attachedUnprobed ↔
      ∀ r, prev = some r → r.state = .disconnected ∨ r.state = .attachedUnprobed) := by
  cases prev with
  | none => exact ⟨rfl, rfl, rfl, by simp [upserted, DeviceRecord.new]⟩
  | some r =>
    simp only [upserted] at hh ⊢
    split at hh
    · rename_i hrej
      rw [hrej.2.1] at hh
      cases hh
    · rename_i hrej
      rw [if_neg hrej]
      split
      · rename_i hd
        exact ⟨rfl, rfl, rfl, by simp [reattached, hd]⟩
      · rename_i hd
        exact ⟨rfl, rfl, rfl, by simp [refreshed, hd]⟩

theorem snapshotRow_of_host (hh : (snapshotRow now host uid d prev).host = some host) :
    (upserted now uid (some host) d.port d.vidPid prev).host = some host ∧
      snapshotRow now host uid d prev =
        layered (upserted now uid (some host) d.port d.vidPid prev) now d := by
  unfold snapshotRow at hh ⊢
  simp only at hh ⊢
  split at hh
  · rename_i hu
    exact ⟨hu, if_pos hu⟩
  · rename_i hu
    exact absurd hh hu

theorem probeResult_complete {a : Announcement} (ha : a.Complete) (u : DeviceRecord) :
    announcementOf (u.probed now (some (probeResultFromDict a))) = a := by
  obtain ⟨role, commonName, deviceName, serialPayload, rawAnnouncement⟩ := a
  obtain ⟨_, h1⟩ := Option.ne_none_iff_exists'.mp ha.role
  obtain ⟨_, h2⟩ := Option.ne_none_iff_exists'.mp ha.commonName
  obtain ⟨_, h3⟩ := Option.ne_none_iff_exists'.mp ha.deviceName
  obtain ⟨_, h4⟩ := Option.ne_none_iff_exists'.mp ha.serialPayload
  obtain ⟨_, h5⟩ := Option.ne_none_iff_exists'.mp ha.rawAnnouncement
  simp only at h1 h2 h3 h4 h5
  subst h1 h2 h3 h4 h5
  rfl

theorem deviceDictOf_eq_iff : deviceDictOf q = d ↔ some q.uid = d.uid ∧ q.port = d.port ∧
    q.vidPid = d.vidPid ∧ some q.state = d.state ∧ announcementOf q = d.announcement := by
  cases d
  simp [deviceDictOf]

/-- The columns a snapshot entry leaves, compared with any wanted announcement. -/
theorem snapshotRow_columns_iff (hu : r.uid = uid) (hp : ∀ p, prev = some p → p.uid = uid)
    (hd : r.state ≠ .disconnected) (hc : r.state = .connected → (announcementOf r).Complete)
    (hh : (snapshotRow now host uid (deviceDictOf r) prev).host = some host) (a : Announcement)
    (ha : r.state = .connected → a = announcementOf r) :
    deviceDictOf (snapshotRow now host uid (deviceDictOf r) prev) =
        { deviceDictOf r with announcement := a } ↔
      Carries prev (some r.state) a := by
  obtain ⟨hup, hrow⟩ := snapshotRow_of_host hh
  obtain ⟨hport, hvid, hann, hst⟩ := upserted_of_host hup
  have huid := upserted_uid now (some host) (deviceDictOf r).port (deviceDictOf r).vidPid hp
  rw [hrow, deviceDictOf_eq_iff]
  generalize upserted now uid (some host) (deviceDictOf r).port (deviceDictOf r).vidPid prev = u
    at hport hvid hann hst huid
  simp only [deviceDictOf] at hport hvid ⊢
  cases hs : r.state with
  | connected =>
    have hl : layered u now (deviceDictOf r) =
        u.probed now (some (probeResultFromDict (announcementOf r))) := by
      simp [layered, deviceDictOf, hs]
    have hann' : announcementOf (u.probed now (some (probeResultFromDict (announcementOf r)))) =
        announcementOf r := probeResult_complete (hc hs) u
    simp only [deviceDictOf, hs] at hl
    rw [hl, hann', ha hs]
    simp [Carries, probed, hport, hvid, huid, hu]
  | attachedUnprobed =>
    simp [layered, Carries, hport, hvid, huid, hu, hann, hst]
  | attachedNoAnnounce =>
    simp [layered, Carries, probed, hport, hvid, huid, hu, ← hann, announcementOf]
  | connectedNoFirmware =>
    simp [layered, Carries, knownBlank, hport, hvid, huid, hu, ← hann, announcementOf]
  | disconnected => exact absurd hs hd

/-- Over an empty store an entry can only leave an empty announcement, unless it carries one. -/
theorem snapshotRow_fresh (hu : r.uid = uid) (hd : r.state ≠ .disconnected)
    (hc : r.state = .connected → (announcementOf r).Complete) :
    deviceDictOf (snapshotRow now host uid (deviceDictOf r) none) =
      { deviceDictOf r with
        announcement := if r.state = .connected then announcementOf r else .blank } := by
  have hh : (snapshotRow now host uid (deviceDictOf r) none).host = some host := by
    simp only [snapshotRow, upserted, DeviceRecord.new, if_true]
    unfold layered
    split <;> simp
  rw [snapshotRow_columns_iff hu (fun p hp => by cases hp) hd hc hh _ fun hs => if_pos hs]
  unfold Carries
  cases hs : r.state <;> simp [announcementBefore]

/-- When a snapshot entry makes the replica equal to the owner's row, and when it makes it
equal to what the same snapshot leaves in an empty store. -/
theorem replica_faithful_iff (o s : Store) (ho : Reachable o) (now now' : ℕ) (host uid : String)
    (d : DeviceDict) (hd : d ∈ snapshotPayload o) (hu : d.uid = some uid) :
    (∀ q, (applySnapshotDevice s now host d).get uid = some q → q.host = some host →
      (deviceDictOf q = d ↔ Carries (s.get uid) d.state d.announcement)) ∧
    (∀ names q e,
      (applySnapshot s now host ⟨snapshotPayload o, names⟩).get uid = some q →
      q.host = some host →
      (applySnapshot Store.empty now' host ⟨snapshotPayload o, names⟩).get uid = some e →
      (deviceDictOf q = deviceDictOf e ↔ Carries (s.get uid) d.state .blank)) := by
  obtain ⟨r, hr, rfl⟩ := List.mem_map.mp hd
  have hru : r.uid = uid := Option.some.inj hu
  have hst : r.state ≠ .disconnected := (mem_snapshotLocalDevices_iff.mp hr).2.2.1
  have hc := snapshot_connected_complete ho hr
  have hp : ∀ p, s.get uid = some p → p.uid = uid := fun p hp => uid_of_get hp
  constructor
  · intro q hq hh
    rw [get_applySnapshotDevice s now host hu, if_pos rfl, Option.some.injEq] at hq
    subst hq
    exact snapshotRow_columns_iff hru hp hst hc hh (announcementOf r) fun _ => rfl
  · intro names q e hq hh he
    rw [get_applySnapshot_of_mem (snapshotPayload_nodup o) hd hu, Option.some.injEq] at hq he
    subst hq he
    rw [get_empty, snapshotRow_fresh hru hst hc,
      snapshotRow_columns_iff hru hp hst hc hh _ fun hs => if_pos hs]
    by_cases hs : r.state = .connected
    · simp [Carries, deviceDictOf, hs]
    · rw [if_neg hs]
      rfl

end Columns

/-- A board that announced itself once and, attached again, stays silent. -/
def silentBoard : List Write :=
  [.attached 1 "9900a" "/dev/ttyACM0" 0x0d28 0x0204 (by decide),
    .probe 2 "9900a" (some ⟨"NEZHA2", "robot", "vevov", "7", "DEVICE:NEZHA2:robot:vevov:7"⟩),
    .disconnected 3 "9900a",
    .attached 4 "9900a" "/dev/ttyACM0" 0x0d28 0x0204 (by decide),
    .probe 5 "9900a" none]

/-- What the silent board's owner advertises: the old announcement, in the silent state. -/
def silentEntry : DeviceDict where
  uid := some "9900a"
  port := some "/dev/ttyACM0"
  vidPid := some "0d28:0204"
  state := some .attachedNoAnnounce
  announcement := ⟨some "NEZHA2", some "robot", some "vevov", some "7",
    some "DEVICE:NEZHA2:robot:vevov:7"⟩

/-- The row the entry leaves in an empty store. -/
def silentReplica : DeviceRecord :=
  (DeviceRecord.new 8 "9900a" (some "loki") (some "/dev/ttyACM0") (some "0d28:0204")).probed 8 none

/-- A peer that joins after the board fell silent never learns what it announced. -/
theorem replica_not_faithful :
    ¬ ∀ (o s : Store) (now : ℕ) (host uid : String) (d : DeviceDict) (q : DeviceRecord),
      Reachable o → d ∈ snapshotPayload o → d.uid = some uid →
      (applySnapshotDevice s now host d).get uid = some q → q.host = some host →
      deviceDictOf q = d := by
  intro h
  have hq : deviceDictOf silentReplica = silentEntry :=
    h (silentBoard.foldl write Store.empty) Store.empty 8 "loki" "9900a" silentEntry silentReplica
      ⟨silentBoard, rfl⟩ (by decide) rfl (by decide) rfl
  revert hq
  decide

theorem replica_faithful_iff_silentBoard :
    deviceDictOf silentReplica = silentEntry ↔
      Carries none (some .attachedNoAnnounce) silentEntry.announcement :=
  (replica_faithful_iff (silentBoard.foldl write Store.empty) Store.empty ⟨silentBoard, rfl⟩ 8 8
    "loki" "9900a" silentEntry (by decide) rfl).1 silentReplica (by decide) rfl

end MbTools.Peering
