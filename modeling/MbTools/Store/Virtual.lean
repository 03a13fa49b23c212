import MbTools.Registry.Diff
import MbTools.Store.Purge

/-! # Rows of virtual boards

A virtual board has a row only by its registration: no write of the daemon, the
peers or a purge makes one, and none that leaves virtual uids alone takes one
away.
-/

namespace MbTools

namespace Store

open DeviceRecord

variable {s s' : Store} {uid k : String} {r : DeviceRecord} {now : ℕ}

/-- Is the row of the uid a virtual board's? -/
def virtualAt (s : Store) (uid : String) : Bool := (s.get uid).any isVirtual

/-- The writes that are no registration's, of uids that are no virtual board's. A peer never
advertises one, and a purge is for boards that are gone. -/
def Write.spares : Write → Bool
  | .remoteAttached _ uid _ _ _ => !isVirtualUid uid
  | .purge uids _ => uids.all (!isVirtualUid ·)
  | .virtual _ _ _ _ => false
  | .removeVirtual _ => false
  | .sweepVirtual => false
  | _ => true

/-- Every row stays what it is, virtual or not; what is no virtual board's uid may come and go, but
not become one. -/
def Keeps (s s' : Store) : Prop :=
  ∀ uid, (s'.get uid).map isVirtual = (s.get uid).map isVirtual ∨
    isVirtualUid uid = false ∧ s'.virtualAt uid = false

theorem Keeps.refl (s : Store) : s.Keeps s := fun _ => Or.inl rfl

theorem Keeps.of_device_eq (h : s'.device = s.device) : s.Keeps s' := by
  intro uid
  rw [Store.get, h]
  exact Or.inl rfl

theorem Keeps.get_iff (h : s.Keeps s') (hu : isVirtualUid uid = true) :
    (s'.get uid).map isVirtual = (s.get uid).map isVirtual := by
  rcases h uid with (h | ⟨hn, -⟩)
  · exact h
  · cases hu.symm.trans hn

theorem virtualAt_eq_map (s : Store) (uid : String) :
    s.virtualAt uid = ((s.get uid).map isVirtual).getD false := by
  unfold virtualAt
  cases s.get uid <;> rfl

/-- No row becomes a virtual board's. -/
theorem Keeps.virtualAt_le (h : s.Keeps s') (hv : s'.virtualAt uid = true) :
    s.virtualAt uid = true := by
  rcases h uid with (h | ⟨-, hn⟩)
  · rwa [virtualAt_eq_map, ← h, ← virtualAt_eq_map]
  · cases hv.symm.trans hn

theorem Keeps.modifyRow {op : String} {f : DeviceRecord → DeviceRecord}
    (hu : ∀ r, (f r).uid = r.uid) (hv : ∀ r, (f r).isVirtual = r.isVirtual) :
    s.Keeps ((s.modifyRow op uid f).toOption.getD s) := by
  cases hs : s.modifyRow op uid f with
  | error e => exact Keeps.refl s
  | ok s' =>
    intro k
    refine Or.inl ?_
    have hget : s'.get k = if uid = k then (s.get k).map f else s.get k :=
      get_of_modifyRow hu hs k
    simp only [Except.toOption, Option.getD_some, hget]
    split
    · rw [Option.map_map]
      exact Option.map_congr fun r _ => hv r
    · rfl

theorem Keeps.of_row (h : ∀ k, uid ≠ k → s'.get k = s.get k)
    (hu : (s'.get uid).map isVirtual = (s.get uid).map isVirtual ∨
      isVirtualUid uid = false ∧ s'.virtualAt uid = false) : s.Keeps s' := by
  intro k
  by_cases hk : uid = k
  · exact hk ▸ hu
  · rw [h k hk]
    exact Or.inl rfl

theorem write_keeps {w : Write} (hw : w.spares = true) : s.Keeps (s.write w) := by
  cases w with
  | attached now uid port vid pid real =>
    refine Keeps.of_row (fun k hk => get_upsertDevice_of_ne hk) (Or.inr ⟨real, ?_⟩)
    obtain ⟨r, hr, -, -, -, -, hv⟩ := get_upsertAttached s now uid port (formatVidPid vid pid)
    have hne := formatVidPid_ne_virtual vid pid
    simp only [virtualAt, Store.write, hr, Option.any_some, isVirtual, hv]
    simp [hne]
  | remoteAttached now uid host port vidPid =>
    refine Keeps.of_row (fun k hk => get_upsertDevice_of_ne hk) ?_
    have hreal : isVirtualUid uid = false := by simpa [Write.spares] using hw
    have hrow : ∀ r : DeviceRecord, r.uid = uid → r.host = some host →
        (s.writeRow r).virtualAt uid = false := by
      intro r hu hh
      simp [virtualAt, get_writeRow_self hu, isVirtual, hh]
    simp only [Store.write, upsertRemoteAttached]
    rcases upsertDevice_cases s now uid (some host) port vidPid with
      ⟨-, e⟩ | ⟨r, -, -, -, -, e⟩ | ⟨r, hr, -, e⟩ | ⟨r, hr, -, -, e⟩
    · rw [e]
      exact Or.inr ⟨hreal, hrow _ rfl rfl⟩
    · rw [e]
      exact Or.inl rfl
    · rw [e]
      have hu := uid_of_get hr
      exact Or.inr ⟨hreal, hrow (r.reattached now (some host) port vidPid) hu rfl⟩
    · rw [e]
      have hu := uid_of_get hr
      exact Or.inr ⟨hreal, hrow (r.refreshed now (some host) port vidPid) hu rfl⟩
  | probe now uid result =>
    exact Keeps.modifyRow (fun r => probed_uid r now result) fun r => probed_isVirtual r now result
  | knownBlank now uid => exact Keeps.modifyRow (fun _ => rfl) fun _ => rfl
  | chipIdentity uid name serial =>
    exact Keeps.modifyRow (fun r => withChipIdentity_uid r name serial) fun r =>
      withChipIdentity_isVirtual r name serial
  | disconnected now uid => exact Keeps.modifyRow (fun _ => rfl) fun _ => rfl
  | flashCount uid => exact Keeps.modifyRow (fun _ => rfl) fun _ => rfl
  | remoteLockState uid kind display => exact Keeps.modifyRow (fun _ => rfl) fun _ => rfl
  | peerSeen now host endpoint => exact Keeps.of_device_eq rfl
  | peerReachable host reachable =>
    simp only [Store.write, setPeerReachable]
    split
    · exact Keeps.refl s
    · exact Keeps.of_device_eq rfl
  | purge uids hosts =>
    intro k
    simp only [Store.write, ← purgeReport_fst]
    by_cases hk : k ∈ uids ∧ s.device.hits s.purgeable k = true
    · refine Or.inr ⟨by simpa using List.all_eq_true.mp hw k hk.1, ?_⟩
      simp [virtualAt, get_purgeReport, hk]
    · rw [get_purgeReport, if_neg hk]
      exact Or.inl rfl
  | setName now name channel group =>
    simp only [Store.write]
    cases hs : s.set now name channel group with
    | error e => exact Keeps.refl s
    | ok s' => exact Keeps.of_device_eq (set_device hs)
  | clearName name =>
    simp only [Store.write]
    cases hs : s.clear name with
    | error e => exact Keeps.refl s
    | ok s' => exact Keeps.of_device_eq (clear_device hs)
  | virtual => cases hw
  | removeVirtual => cases hw
  | sweepVirtual => cases hw

theorem virtualRow_isVirtual (now : ℕ) (uid name role serial : String) :
    (virtualRow now uid name role serial).isVirtual = true := by
  simp [isVirtual, virtualRow, DeviceRecord.new, startsWith]

theorem get_upsertVirtual (s : Store) (now : ℕ) (uid name role serial k : String) :
    (s.upsertVirtual now uid name role serial).get k =
      if uid = k then some (virtualRow now uid name role serial) else s.get k := by
  have huid : (virtualRow now uid name role serial).uid = uid := rfl
  rw [upsertVirtual, get_writeRow, get_deleteRow, huid]
  split
  · rfl
  · rfl

theorem virtualAt_upsertVirtual (s : Store) (now : ℕ) (uid name role serial k : String) :
    (s.upsertVirtual now uid name role serial).virtualAt k = true ↔
      uid = k ∨ s.virtualAt k = true := by
  unfold virtualAt
  rw [get_upsertVirtual]
  split
  · rename_i hk
    simp [hk, virtualRow_isVirtual]
  · rename_i hk
    simp [hk]

theorem get_removeVirtual (hv : s.virtualAt uid = true) (k : String) :
    (s.removeVirtual uid).get k = if uid = k then none else s.get k := by
  obtain ⟨r, hr, hv⟩ := (Option.any_eq_true _ _).mp hv
  simp only [removeVirtual, hr, if_pos hv, get_deleteRow]

theorem virtualAt_removeVirtual (hv : s.virtualAt uid = true) (k : String) :
    (s.removeVirtual uid).virtualAt k = true ↔ uid ≠ k ∧ s.virtualAt k = true := by
  unfold virtualAt
  rw [get_removeVirtual hv]
  split
  · rename_i hk
    simp [hk]
  · rename_i hk
    simp [hk]

/-- What a start sweeps. -/
theorem virtualAt_sweepVirtual (s : Store) (uid : String) :
    s.sweepVirtual.virtualAt uid = false := by
  cases hr : s.sweepVirtual.get uid with
  | none => simp [virtualAt, hr]
  | some r =>
    have hold : s.get uid = some r := by
      rcases get_sweepVirtual_cases s uid with (h | h)
      · cases h.symm.trans hr
      · exact h.symm.trans hr
    cases hv : r.isVirtual with
    | false => simp [virtualAt, hr, hv]
    | true =>
      obtain rfl := uid_of_get hold
      have hmem : r ∈ s.listDevices.filter isVirtual :=
        List.mem_filter.mpr ⟨mem_listDevices_iff.mpr hold, hv⟩
      have hn : ((s.listDevices.filter isVirtual).map DeviceRecord.uid).Nodup :=
        s.device.nodup.sublist (List.filter_sublist.map _)
      have hgone : s.sweepVirtual.get r.uid = none := by
        refine Pass.foldl_own (fun (t : Store) k => t.get k) (fun _ _ => none) ?_ ?_ hn hmem
        · intro t q k hk
          rw [get_deleteRow, if_neg hk]
        · intro t q
          rw [get_deleteRow, if_pos rfl]
      cases hgone.symm.trans hr

/-- A virtual uid is used by virtual boards only. -/
def Reserved (s : Store) : Prop :=
  ∀ uid r, s.get uid = some r → isVirtualUid uid = true → r.isVirtual = true

theorem Reserved.empty : Store.empty.Reserved := by
  intro uid r hr
  cases hr

theorem Keeps.reserved (h : s.Keeps s') (hs : s.Reserved) : s'.Reserved := by
  intro uid r' hr' hu
  have hsame := h.get_iff hu
  rw [hr', Option.map_some] at hsame
  obtain ⟨r, hr, hv⟩ := Option.map_eq_some_iff.mp hsame.symm
  exact hv.symm.trans (hs uid r hr hu)

theorem Reserved.upsertVirtual (hs : s.Reserved) (now : ℕ) (uid name role serial : String) :
    (s.upsertVirtual now uid name role serial).Reserved := by
  intro k r hr hu
  rw [get_upsertVirtual] at hr
  split at hr
  · obtain rfl := Option.some.inj hr
    exact virtualRow_isVirtual now uid name role serial
  · exact hs k r hr hu

theorem Reserved.of_sub (hs : s.Reserved) (h : ∀ k, s'.get k = none ∨ s'.get k = s.get k) :
    s'.Reserved := by
  intro k r hr hu
  rcases h k with (hn | he)
  · cases hn.symm.trans hr
  · exact hs k r (he.symm.trans hr) hu

end Store

section Scan

variable {d : Daemon} {c : Cycle}

/-- A scan sees no virtual board. -/
theorem Daemon.diff_keeps (hc : ∀ uid ∈ c.scan.keys, isVirtualUid uid = false) :
    d.store.Keeps (d.diff c).1.store := by
  intro k
  rw [Store.virtualAt_eq_map, diff_get, rowAfterDiff]
  split
  · rename_i info hs
    have hreal := hc k (mem_scan_keys_iff.mpr ⟨info, hs⟩)
    split
    · exact Or.inl rfl
    · exact Or.inr ⟨hreal, by simp [attachedRow_spec.1.2.2]⟩
  · split
    · rw [Option.map_map]
      exact Or.inl (Option.map_congr fun r _ => r.gone_isVirtual c.wall)
    · exact Or.inl rfl

theorem Daemon.lockedBlock_keeps (hc : ∀ uid ∈ c.scan.keys, isVirtualUid uid = false) :
    d.store.Keeps (d.lockedBlock c).1.store := by
  intro k
  have hgive := giveUpLoop_cases (c := c) (d.diff c).1.flashPending.rows (d.diff c).1 [] k
  have hsame : (((d.lockedBlock c).1.store.get k).map DeviceRecord.isVirtual) =
      ((d.diff c).1.store.get k).map DeviceRecord.isVirtual := by
    unfold lockedBlock
    rcases hgive with (h | ⟨-, r, q, hr, hq, -, hv, -⟩)
    · rw [h]
    · rw [hr, hq, Option.map_some, Option.map_some, hv]
  rw [hsame, Store.virtualAt_eq_map, hsame, ← Store.virtualAt_eq_map]
  exact diff_keeps hc k

end Scan

end MbTools
