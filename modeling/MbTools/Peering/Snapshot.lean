import MbTools.Lib.Pass
import MbTools.Peering.Apply

/-! # A snapshot, row by row

A snapshot reply is applied entry by entry, then the peer's rows it does not
list are detached. Since the entries of a payload have distinct uids, the row
at each uid is decided by its own entry, or by its absence.
-/

namespace MbTools.Peering

open Store

variable {s t : Store} {now : ℕ} {host uid k : String} {d : DeviceDict} {l : List DeviceDict}

/-- An entry touches no row but the one at its own uid. -/
theorem applySnapshotDevice_frame (s : Store) (d : DeviceDict) (u : Option String)
    (h : d.uid ≠ u) : u.bind (applySnapshotDevice s now host d).get = u.bind s.get := by
  cases u with
  | none => rfl
  | some k =>
    cases hu : d.uid with
    | none => simp only [applySnapshotDevice, hu]
    | some uid =>
      have hne : uid ≠ k := by
        rintro rfl
        exact h hu
      simp only [Option.bind_some]
      rw [get_applySnapshotDevice s now host hu, if_neg hne]

theorem get_foldl_snapshot_of_not_mem (h : ∀ d ∈ l, d.uid ≠ some k) :
    (l.foldl (fun t d => applySnapshotDevice t now host d) s).get k = s.get k :=
  Pass.foldl_frame (fun (t : Store) u => u.bind t.get) applySnapshotDevice_frame h

theorem get_foldl_snapshot_of_mem (hn : (l.map DeviceDict.uid).Nodup) (hd : d ∈ l)
    (hu : d.uid = some uid) :
    (l.foldl (fun t d => applySnapshotDevice t now host d) s).get uid =
      some (snapshotRow now host uid d (s.get uid)) := by
  have hown : ∀ (t : Store) (e : DeviceDict),
      e.uid.bind (applySnapshotDevice t now host e).get =
        e.uid.bind fun u => some (snapshotRow now host u e (e.uid.bind t.get)) := by
    intro t e
    cases he : e.uid with
    | none => rfl
    | some u =>
      simp only [Option.bind_some]
      rw [get_applySnapshotDevice t now host he, if_pos rfl]
  have h : d.uid.bind (l.foldl (fun t d => applySnapshotDevice t now host d) s).get = _ :=
    Pass.foldl_own (fun (t : Store) u => u.bind t.get)
      (fun e x => e.uid.bind fun u => some (snapshotRow now host u e x))
      applySnapshotDevice_frame hown hn hd
  simpa only [hu, Option.bind_some] using h

local instance lawfulBEqText : LawfulBEq (Option String) := inferInstance

/-- A peer's attached row that is missing from the snapshot is detached. -/
def absentRow (now : ℕ) (host : String) (seen : List (Option String)) (r : DeviceRecord) :
    DeviceRecord :=
  if r.host = some host ∧ some r.uid ∉ seen ∧ r.state ≠ .disconnected then r.gone now else r

@[simp] theorem absentRow_uid (seen : List (Option String)) (r : DeviceRecord) :
    (absentRow now host seen r).uid = r.uid := by
  unfold absentRow
  split <;> rfl

/-- One turn of the absence pass, on the row it looks at and on the others. -/
theorem get_detachAbsent_turn {r : DeviceRecord} (seen : List (Option String))
    (hr : t.get r.uid = some r) :
    (if r.host = some host ∧ some r.uid ∉ seen ∧ r.state ≠ .disconnected then
      caught t (t.markRemoteDetached now r.uid) else t).get k =
      if r.uid = k then some (absentRow now host seen r) else t.get k := by
  unfold absentRow
  split
  · have hm : t.markRemoteDetached now r.uid = .ok (t.writeRow (r.gone now)) :=
      modifyRow_eq_ok_iff.mpr ⟨r, hr, rfl⟩
    rw [hm, caught_ok, get_writeRow]
    rfl
  · split
    · rename_i hk
      rw [← hk, hr]
    · rfl

theorem get_detachAbsent (s : Store) (now : ℕ) (host : String) (seen : List (Option String))
    (k : String) :
    (detachAbsent s now host seen).get k = (s.get k).map (absentRow now host seen) := by
  have hn : (s.listDevices.map DeviceRecord.uid).Nodup := s.device.nodup
  have hall : ∀ r ∈ s.listDevices, s.get r.uid = some r := fun r hr => mem_listDevices_iff.mp hr
  have hk : ∀ r, s.get k = some r → r ∈ s.listDevices := fun r hr =>
    mem_listDevices_iff.mpr (by rw [uid_of_get hr]; exact hr)
  unfold detachAbsent
  suffices h : ∀ (l : List DeviceRecord) (t : Store), (l.map DeviceRecord.uid).Nodup →
      (∀ r ∈ l, t.get r.uid = some r) →
      (l.foldl (fun t r =>
        if r.host = some host ∧ some r.uid ∉ seen ∧ r.state ≠ .disconnected then
          caught t (t.markRemoteDetached now r.uid) else t) t).get k =
        if k ∈ l.map DeviceRecord.uid then (t.get k).map (absentRow now host seen)
        else t.get k by
    rw [h s.listDevices s hn hall]
    split
    · rfl
    · rename_i hnot
      cases hg : s.get k with
      | none => rfl
      | some r => exact absurd (List.mem_map.mpr ⟨r, hk r hg, uid_of_get hg⟩) hnot
  intro l
  induction l with
  | nil => intro t _ _; rfl
  | cons q l ih =>
    intro t hn hl
    rw [List.map_cons, List.nodup_cons] at hn
    have hq := hl q List.mem_cons_self
    rw [List.foldl_cons, ih _ hn.2, List.map_cons]
    · rw [get_detachAbsent_turn seen hq]
      by_cases hk : q.uid = k
      · subst hk
        rw [if_neg hn.1, if_pos rfl, if_pos List.mem_cons_self, hq, Option.map_some]
      · simp [hk, Ne.symm hk]
    · intro r hr
      have hne : q.uid ≠ r.uid := fun he => hn.1 (he ▸ List.mem_map_of_mem hr)
      rw [get_detachAbsent_turn seen hq, if_neg hne]
      exact hl r (List.mem_cons_of_mem q hr)

theorem get_foldl_snapshotName (names : List NameDict) :
    (names.foldl (fun t d => caught t (applySnapshotName t now d)) s).get k = s.get k := by
  induction names generalizing s with
  | nil => rfl
  | cons d names ih =>
    rw [List.foldl_cons, ih]
    cases ha : applySnapshotName s now d with
    | error e => rfl
    | ok s' =>
      have hd : s'.device = s.device := by
        unfold applySnapshotName at ha
        split at ha
        · exact set_device ha
        all_goals cases ha
      rw [caught_ok, Store.get, hd, Store.get]

/-- What an event, an entry and an absence each keep of the row at a uid, a peer input keeps. The
entries of a reply need not have distinct uids. -/
theorem get_applyInput_inv {P : Option DeviceRecord → Prop} (i : Input)
    (hevent : ∀ now e, i = .event now e → e.uid = some k → ∀ prev, P prev →
      P (eventRow now host k e prev))
    (hentry : ∀ now reply, i = .snapshot now reply → ∀ d ∈ reply.devices, d.uid = some k →
      ∀ prev, P prev → P (some (snapshotRow now host k d prev)))
    (habsent : ∀ now seen prev, P prev → P (prev.map (absentRow now host seen)))
    (h : P (s.get k)) : P ((applyInput host s i).get k) := by
  cases i with
  | event now e =>
    rw [applyInput, get_recvEvent]
    split
    · rename_i hu
      exact hevent now e rfl hu _ h
    · exact h
  | snapshot now reply =>
    rw [applyInput, applySnapshot, get_foldl_snapshotName, get_detachAbsent]
    apply habsent
    apply Pass.foldl_inv (P := fun t : Store => P (t.get k)) _ h
    intro t d hd ht
    by_cases hu : d.uid = some k
    · rw [get_applySnapshotDevice t now host hu, if_pos rfl]
      exact hentry now reply rfl d hd hu _ ht
    · rwa [show (applySnapshotDevice t now host d).get k = t.get k from
        applySnapshotDevice_frame t d (some k) hu]

theorem get_applySnapshot_of_mem {reply : SnapshotReply}
    (hn : (reply.devices.map DeviceDict.uid).Nodup) (hd : d ∈ reply.devices)
    (hu : d.uid = some uid) :
    (applySnapshot s now host reply).get uid =
      some (snapshotRow now host uid d (s.get uid)) := by
  have hseen : some uid ∈ reply.devices.map DeviceDict.uid := List.mem_map.mpr ⟨d, hd, hu⟩
  unfold applySnapshot
  rw [get_foldl_snapshotName, get_detachAbsent, get_foldl_snapshot_of_mem hn hd hu,
    Option.map_some]
  unfold absentRow
  rw [if_neg]
  rintro ⟨-, hnot, -⟩
  have hru : (snapshotRow now host uid d (s.get uid)).uid = uid := by
    have hg := get_applySnapshotDevice s now host hu uid
    rw [if_pos rfl] at hg
    exact uid_of_get hg
  rw [hru] at hnot
  exact hnot hseen

theorem get_applySnapshot_of_not_mem {reply : SnapshotReply}
    (h : some k ∉ reply.devices.map DeviceDict.uid) :
    (applySnapshot s now host reply).get k =
      (s.get k).map (absentRow now host (reply.devices.map DeviceDict.uid)) := by
  unfold applySnapshot
  rw [get_foldl_snapshotName, get_detachAbsent, get_foldl_snapshot_of_not_mem]
  intro d hd he
  exact h (List.mem_map.mpr ⟨d, hd, he⟩)

theorem snapshotPayload_nodup (o : Store) : ((snapshotPayload o).map DeviceDict.uid).Nodup := by
  have hsub : o.snapshotLocalDevices.Sublist o.listDevices :=
    List.filter_sublist.trans List.filter_sublist
  have hn : (o.snapshotLocalDevices.map DeviceRecord.uid).Nodup :=
    o.device.nodup.sublist (hsub.map DeviceRecord.uid)
  have hmap : (snapshotPayload o).map DeviceDict.uid =
      (o.snapshotLocalDevices.map DeviceRecord.uid).map some := by
    simp [snapshotPayload, deviceDictOf]
  rw [hmap]
  exact hn.map fun _ _ h => Option.some.inj h

theorem mem_snapshotPayload_uids_iff {o : Store} :
    some k ∈ (snapshotPayload o).map DeviceDict.uid ↔ ∃ r, o.get k = some r ∧ r.IsLocal := by
  simp only [snapshotPayload, List.mem_map, exists_exists_and_eq_and, deviceDictOf,
    Option.some.injEq]
  constructor
  · rintro ⟨r, hr, rfl⟩
    exact ⟨r, mem_snapshotLocalDevices_iff.mp hr⟩
  · rintro ⟨r, hr, hl⟩
    have hu := uid_of_get hr
    exact ⟨r, mem_snapshotLocalDevices_iff.mpr ⟨by rwa [hu], hl⟩, hu⟩

end MbTools.Peering
