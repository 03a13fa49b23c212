import MbTools.Lib.Pass
import MbTools.Registry.Daemon

/-! # One locked block, uid by uid

What the attach, detach and give-up passes of a cycle leave at one uid, as a
function of what the store and the in-memory maps had there before.
-/

namespace MbTools.Daemon

open Store DeviceRecord

variable {d d' : Daemon} {uid k : String} {wall now handle : ℕ} {c : Cycle} {r : DeviceRecord}
  {info : PortInfo} {holder : HolderRef} {prev : List String}

section Previous

theorem mem_previouslyAttached_iff :
    uid ∈ d.previouslyAttached ↔ ∃ r, d.store.get uid = some r ∧ r.IsLocal := by
  simp only [previouslyAttached, List.mem_map, List.mem_filter, Bool.and_eq_true,
    decide_eq_true_eq, Bool.not_eq_true', mem_listDevices_iff]
  constructor
  · rintro ⟨r, ⟨hr, ⟨hh, hd⟩, hv⟩, rfl⟩
    exact ⟨r, hr, hh, hd, hv⟩
  · rintro ⟨r, hr, hh, hd, hv⟩
    have hu := uid_of_get hr
    exact ⟨r, ⟨by rwa [hu], ⟨hh, hd⟩, hv⟩, hu⟩

theorem previouslyAttached_nodup (d : Daemon) : d.previouslyAttached.Nodup :=
  d.store.device.nodup.sublist (List.filter_sublist.map DeviceRecord.uid)

theorem mem_scan_keys_iff : k ∈ c.scan.keys ↔ ∃ info, c.scan.lookup k = some info := by
  simp only [Table.mem_keys_iff, Dict.lookup, Option.map_eq_some_iff]
  constructor
  · rintro ⟨p, hp⟩
    exact ⟨p.2, p, hp, rfl⟩
  · rintro ⟨_, p, hp, _⟩
    exact ⟨p, hp⟩

end Previous

section Release

@[simp] theorem onFlashRelease_store : (d.onFlashRelease now uid).store = d.store := by
  unfold onFlashRelease; split <;> rfl

@[simp] theorem onFlashRelease_locks : (d.onFlashRelease now uid).locks = d.locks := by
  unfold onFlashRelease; split <;> rfl

@[simp] theorem onFlashRelease_claims : (d.onFlashRelease now uid).claims = d.claims := by
  unfold onFlashRelease; split <;> rfl

@[simp] theorem onFlashRelease_timeout :
    (d.onFlashRelease now uid).flashReprobeTimeout = d.flashReprobeTimeout := by
  unfold onFlashRelease; split <;> rfl

theorem onFlashRelease_pending_of_ne (h : uid ≠ k) :
    (d.onFlashRelease now uid).flashPending.lookup k = d.flashPending.lookup k := by
  unfold onFlashRelease
  split
  · rfl
  · exact Dict.lookup_insert_of_ne h

@[simp] theorem releaseLock_store : (d.releaseLock now uid holder).store = d.store := by
  unfold releaseLock
  split
  · rfl
  · split
    · exact onFlashRelease_store
    · rfl

@[simp] theorem releaseLock_claims : (d.releaseLock now uid holder).claims = d.claims := by
  unfold releaseLock
  split
  · rfl
  · split
    · exact onFlashRelease_claims
    · rfl

@[simp] theorem releaseLock_timeout :
    (d.releaseLock now uid holder).flashReprobeTimeout = d.flashReprobeTimeout := by
  unfold releaseLock
  split
  · rfl
  · split
    · exact onFlashRelease_timeout
    · rfl

theorem releaseLock_locks :
    (d.releaseLock now uid holder).locks = (d.locks.release uid holder).1 := by
  unfold releaseLock
  split
  · rename_i h
    rw [h]
  · rename_i h
    split
    · rw [onFlashRelease_locks, h]
    · rw [h]

theorem releaseLock_pending_of_ne (h : uid ≠ k) :
    (d.releaseLock now uid holder).flashPending.lookup k = d.flashPending.lookup k := by
  unfold releaseLock
  split
  · rfl
  · split
    · exact onFlashRelease_pending_of_ne h
    · rfl

theorem releaseLock_pending_self {st : LockStatus} (h : d.locks.status uid = some st) :
    (d.releaseLock now uid st.holder).flashPending.lookup uid =
      if st.kind = .flash ∧ isVirtualUid uid = false then some (now + d.flashReprobeTimeout)
      else d.flashPending.lookup uid := by
  have hr : d.locks.release uid st.holder = (d.locks.erase uid, some st) := by
    simp [LockManager.release, h]
  simp only [releaseLock, hr]
  by_cases hk : st.kind = .flash
  · simp only [hk, if_true, onFlashRelease]
    by_cases hv : isVirtualUid uid = true
    · simp [hv]
    · rw [if_neg hv]
      simp [hv]
  · simp [hk]

end Release

section Turns

theorem attachOne_get (d : Daemon) (wall : ℕ) (uid : String) (info : PortInfo) (handle : ℕ)
    (k : String) : (d.attachOne wall uid info handle).store.get k =
      if uid = k then
        some (upserted wall uid none (some info.port) (some (formatVidPid info.vid info.pid))
          (d.store.get uid))
      else d.store.get k :=
  get_upsertDevice d.store wall uid none _ _ k

theorem detachOne_get (d : Daemon) (wall now : ℕ) (uid k : String) :
    (d.detachOne wall now uid).store.get k =
      if uid = k then (d.store.get k).map (·.gone wall) else d.store.get k := by
  have hs : ∀ d' : Daemon, d'.store = d.store →
      ((d'.store.markDisconnected wall uid).toOption.getD d'.store).get k =
        if uid = k then (d.store.get k).map (·.gone wall) else d.store.get k := by
    intro d' hd
    rw [hd]
    cases hm : d.store.markDisconnected wall uid with
    | ok s => exact get_of_modifyRow (fun r => r.gone_uid wall) hm k
    | error e =>
      have hn := (modifyRow_eq_error_iff.mp hm).1
      simp only [Except.toOption, Option.getD_none]
      split
      · rename_i hk
        rw [← hk, hn]; rfl
      · rfl
  unfold detachOne
  split
  · exact hs d rfl
  · exact hs _ releaseLock_store

theorem detachOne_locks_of_ne (h : uid ≠ k) :
    (d.detachOne wall now uid).locks.status k = d.locks.status k := by
  unfold detachOne
  split
  · rfl
  · simp only [releaseLock_locks]
    exact LockManager.release_of_ne h

/-- A detached uid is unlocked: its holder's own release is what the daemon calls. -/
theorem detachOne_locks_self : (d.detachOne wall now uid).locks.status uid = none := by
  unfold detachOne
  split
  · rename_i h
    exact h
  · rename_i st h
    simp only [releaseLock_locks]
    rw [LockManager.release_status_self, h]
    simp [Option.filter]

@[simp] theorem detachOne_timeout :
    (d.detachOne wall now uid).flashReprobeTimeout = d.flashReprobeTimeout := by
  unfold detachOne
  split
  · rfl
  · exact releaseLock_timeout

theorem detachOne_pending_of_ne (h : uid ≠ k) :
    (d.detachOne wall now uid).flashPending.lookup k = d.flashPending.lookup k := by
  unfold detachOne
  split
  · rfl
  · exact releaseLock_pending_of_ne h

/-- The deadline at a uid after its lock, if any, was released by a detach. -/
def pendingAfterDetach (now timeout : ℕ) (uid : String) :
    Option LockStatus → Option ℕ → Option ℕ
  | none, pending => pending
  | some st, pending =>
    if st.kind = .flash ∧ isVirtualUid uid = false then some (now + timeout) else pending

theorem detachOne_pending_self :
    (d.detachOne wall now uid).flashPending.lookup uid =
      pendingAfterDetach now d.flashReprobeTimeout uid (d.locks.status uid)
        (d.flashPending.lookup uid) := by
  unfold detachOne
  cases h : d.locks.status uid with
  | none => rfl
  | some st => exact releaseLock_pending_self h

theorem giveUpOne_eq_ok_iff : d.giveUpOne wall uid = .ok d' ↔ ∃ r, d.store.get uid = some r ∧
    d' = { d with
      store := d.store.writeRow (r.knownBlank wall)
      flashPending := d.flashPending.erase uid } := by
  simp only [giveUpOne, bind, Except.bind, pure, Except.pure]
  cases h : d.store.applyKnownBlank wall uid with
  | ok s =>
    obtain ⟨r, hr, rfl⟩ := modifyRow_eq_ok_iff.mp h
    simp [hr, eq_comm]
  | error e =>
    have hn := (modifyRow_eq_error_iff.mp h).1
    simp [hn]

end Turns

section Passes

/-- The row a newly claimed uid gets. -/
def attachedRow (wall : ℕ) (uid : String) (info : PortInfo) (prev : Option DeviceRecord) :
    DeviceRecord :=
  upserted wall uid none (some info.port) (some (formatVidPid info.vid info.pid)) prev

/-- An attached row is a local board's, on the port just scanned. -/
theorem attachedRow_spec {wall : ℕ} {info : PortInfo} {prev : Option DeviceRecord} :
    (attachedRow wall k info prev).IsLocal ∧
      (attachedRow wall k info prev).port = some info.port := by
  have hv : ∀ q : DeviceRecord, q.vidPid = some (formatVidPid info.vid info.pid) →
      q.isVirtual = false := by
    intro q hq
    have hne := formatVidPid_ne_virtual info.vid info.pid
    simp [isVirtual, hq, hne]
  cases prev with
  | none => exact ⟨⟨rfl, by simp [attachedRow, upserted, DeviceRecord.new], hv _ rfl⟩, rfl⟩
  | some r =>
    simp only [attachedRow, upserted, ne_eq, not_true_eq_false, false_and, if_false]
    split
    · exact ⟨⟨rfl, by simp [reattached], hv _ rfl⟩, rfl⟩
    · rename_i hd
      exact ⟨⟨rfl, hd, hv _ rfl⟩, rfl⟩

theorem attachTurn_frame (p : Daemon × List DeviceRecord × List String) (x : String × PortInfo)
    (k : String) (h : x.1 ≠ k) : (attachTurn prev c p x).1.store.get k = p.1.store.get k := by
  unfold attachTurn
  split
  · rfl
  · split
    · rfl
    · simp only
      rw [attachOne_get, if_neg h]

theorem attachTurn_own (p : Daemon × List DeviceRecord × List String) (x : String × PortInfo) :
    (attachTurn prev c p x).1.store.get x.1 =
      if x.1 ∈ prev ∨ c.claim x.1 = none then p.1.store.get x.1
      else some (attachedRow c.wall x.1 x.2 (p.1.store.get x.1)) := by
  unfold attachTurn
  split
  · rename_i h
    rw [if_pos (Or.inl h)]
  · rename_i h
    split
    · rename_i hc
      rw [if_pos (Or.inr hc)]
    · rename_i hc
      rw [if_neg (by simp [h, hc]), attachOne_get, if_pos rfl, attachedRow]

theorem attachPass_rest (d : Daemon) (prev : List String) (c : Cycle) :
    (d.attachPass prev c).1.locks = d.locks ∧
      (d.attachPass prev c).1.flashPending = d.flashPending ∧
      (d.attachPass prev c).1.flashReprobeTimeout = d.flashReprobeTimeout := by
  refine Pass.foldl_inv (P := fun p : Daemon × List DeviceRecord × List String =>
    p.1.locks = d.locks ∧ p.1.flashPending = d.flashPending ∧
      p.1.flashReprobeTimeout = d.flashReprobeTimeout) ?_ ⟨rfl, rfl, rfl⟩
  intro p x _ hp
  unfold attachTurn
  split
  · exact hp
  · split
    · exact hp
    · exact hp

theorem attachPass_get_of_scanned (d : Daemon) (prev : List String)
    (h : c.scan.lookup k = some info) :
    (d.attachPass prev c).1.store.get k =
      if k ∈ prev ∨ c.claim k = none then d.store.get k
      else some (attachedRow c.wall k info (d.store.get k)) :=
  Pass.foldl_own (fun (p : Daemon × List DeviceRecord × List String) k => p.1.store.get k)
    (fun (x : String × PortInfo) row =>
      if x.1 ∈ prev ∨ c.claim x.1 = none then row else some (attachedRow c.wall x.1 x.2 row))
    attachTurn_frame attachTurn_own c.scan.nodup (Dict.mem_rows_iff_lookup.mpr h)

theorem attachPass_get_of_absent (d : Daemon) (prev : List String) (h : k ∉ c.scan.keys) :
    (d.attachPass prev c).1.store.get k = d.store.get k :=
  Pass.foldl_frame (fun (p : Daemon × List DeviceRecord × List String) k => p.1.store.get k)
    attachTurn_frame fun _ hx he => h (he ▸ List.mem_map_of_mem hx)

theorem mem_foldl_attachTurn_iff {l : List (String × PortInfo)}
    {p : Daemon × List DeviceRecord × List String} :
    uid ∈ (l.foldl (attachTurn prev c) p).2.2 ↔
      uid ∈ p.2.2 ∨ (uid ∈ l.map Prod.fst ∧ uid ∉ prev ∧ c.claim uid ≠ none) := by
  induction l generalizing p with
  | nil => simp
  | cons x l ih =>
    rw [List.foldl_cons, ih, List.map_cons, List.mem_cons]
    unfold attachTurn
    by_cases hx : x.1 ∈ prev
    · rw [if_pos hx]
      have hne : uid ∉ prev → uid ≠ x.1 := fun hu he => hu (he ▸ hx)
      constructor
      · rintro (h | ⟨h, hu, hc⟩)
        · exact Or.inl h
        · exact Or.inr ⟨Or.inr h, hu, hc⟩
      · rintro (h | ⟨h | h, hu, hc⟩)
        · exact Or.inl h
        · exact absurd h (hne hu)
        · exact Or.inr ⟨h, hu, hc⟩
    · rw [if_neg hx]
      split
      · rename_i hcl
        constructor
        · rintro (h | ⟨h, hu, hc⟩)
          · exact Or.inl h
          · exact Or.inr ⟨Or.inr h, hu, hc⟩
        · rintro (h | ⟨h | h, hu, hc⟩)
          · exact Or.inl h
          · exact absurd (h ▸ hcl) hc
          · exact Or.inr ⟨h, hu, hc⟩
      · rename_i hcl
        simp only [List.mem_append, List.mem_singleton]
        constructor
        · rintro ((h | rfl) | ⟨h, hu, hc⟩)
          · exact Or.inl h
          · exact Or.inr ⟨Or.inl rfl, hx, by simp [hcl]⟩
          · exact Or.inr ⟨Or.inr h, hu, hc⟩
        · rintro (h | ⟨h | h, hu, hc⟩)
          · exact Or.inl (Or.inl h)
          · exact Or.inl (Or.inr h)
          · exact Or.inr ⟨h, hu, hc⟩

/-- The uids a cycle may probe: scanned, and either attached before or newly claimed. -/
theorem mem_owned_iff : uid ∈ (d.attachPass prev c).2.2 ↔
    uid ∈ c.scan.keys ∧ (uid ∈ prev ∨ c.claim uid ≠ none) := by
  unfold attachPass
  rw [mem_foldl_attachTurn_iff, List.mem_filter, decide_eq_true_eq, Table.keys]
  constructor
  · rintro (⟨hp, hs⟩ | ⟨hs, -, hc⟩)
    · exact ⟨hs, Or.inl hp⟩
    · exact ⟨hs, Or.inr hc⟩
  · rintro ⟨hs, hp | hc⟩
    · exact Or.inl ⟨hp, hs⟩
    · by_cases hp : uid ∈ prev
      · exact Or.inl ⟨hp, hs⟩
      · exact Or.inr ⟨hs, hp, hc⟩

/-- What a detach reads and writes at one uid. -/
def facet (d : Daemon) (k : String) : Option DeviceRecord × Option LockStatus × Option ℕ × ℕ :=
  (d.store.get k, d.locks.status k, d.flashPending.lookup k, d.flashReprobeTimeout)

theorem detachTurn_frame (p : Daemon × List DeviceRecord) (uid k : String) (h : uid ≠ k) :
    (detachTurn c p uid).1.facet k = p.1.facet k := by
  simp only [detachTurn, facet]
  rw [detachOne_get, if_neg h, detachOne_locks_of_ne h, detachOne_pending_of_ne h,
    detachOne_timeout]

/-- A detach at its own uid: the row is gone, the lock is free, a flash lock leaves a deadline. -/
def detachedFacet (c : Cycle) (k : String) :
    Option DeviceRecord × Option LockStatus × Option ℕ × ℕ →
      Option DeviceRecord × Option LockStatus × Option ℕ × ℕ
  | (row, lock, pending, timeout) =>
    (row.map (·.gone c.wall), none, pendingAfterDetach c.releaseNow timeout k lock pending, timeout)

theorem detachTurn_own (p : Daemon × List DeviceRecord) (uid : String) :
    (detachTurn c p uid).1.facet uid = detachedFacet c uid (p.1.facet uid) := by
  simp only [detachTurn, facet, detachedFacet]
  rw [detachOne_get, if_pos rfl, detachOne_locks_self, detachOne_pending_self, detachOne_timeout]

theorem detachPass_facet (hn : prev.Nodup) (k : String) :
    (d.detachPass prev c).1.facet k =
      if k ∈ prev ∧ k ∉ c.scan.keys then detachedFacet c k (d.facet k) else d.facet k := by
  have hmem : k ∈ prev.filter (· ∉ c.scan.keys) ↔ k ∈ prev ∧ k ∉ c.scan.keys := by simp
  have hnodup : ((prev.filter (· ∉ c.scan.keys)).map fun uid => uid).Nodup := by
    simpa using hn.filter _
  unfold detachPass
  split
  · rename_i h
    exact Pass.foldl_own (fun (p : Daemon × List DeviceRecord) k => p.1.facet k)
      (fun uid f => detachedFacet c uid f) (fun p uid k h => detachTurn_frame p uid k h)
      (fun p uid => detachTurn_own p uid) hnodup (hmem.mpr h)
  · rename_i h
    exact Pass.foldl_frame (fun (p : Daemon × List DeviceRecord) k => p.1.facet k)
      (fun p uid k h => detachTurn_frame p uid k h) fun a ha he => h (hmem.mp (he ▸ ha))

/-- The row at `k` once the attach and detach passes are through. -/
def rowAfterDiff (d : Daemon) (c : Cycle) (k : String) : Option DeviceRecord :=
  match c.scan.lookup k with
  | some info =>
    if k ∈ d.previouslyAttached ∨ c.claim k = none then d.store.get k
    else some (attachedRow c.wall k info (d.store.get k))
  | none =>
    if k ∈ d.previouslyAttached then (d.store.get k).map (·.gone c.wall) else d.store.get k

/-- The deadline at `k` once the attach and detach passes are through. -/
def pendingAfterDiff (d : Daemon) (c : Cycle) (k : String) : Option ℕ :=
  if k ∈ d.previouslyAttached ∧ k ∉ c.scan.keys then
    pendingAfterDetach c.releaseNow d.flashReprobeTimeout k (d.locks.status k)
      (d.flashPending.lookup k)
  else d.flashPending.lookup k

theorem not_mem_scan_keys_iff : k ∉ c.scan.keys ↔ c.scan.lookup k = none := by
  rw [mem_scan_keys_iff, ← Option.ne_none_iff_exists', not_not]

theorem diff_get (d : Daemon) (c : Cycle) (k : String) :
    (d.diff c).1.store.get k = rowAfterDiff d c k := by
  have h := detachPass_facet (d := (d.attachPass d.previouslyAttached c).1) (c := c)
    d.previouslyAttached_nodup k
  have hget : (d.diff c).1.store.get k =
      if k ∈ d.previouslyAttached ∧ k ∉ c.scan.keys then
        ((d.attachPass d.previouslyAttached c).1.store.get k).map (·.gone c.wall)
      else (d.attachPass d.previouslyAttached c).1.store.get k := by
    have h1 := congrArg Prod.fst h
    rw [apply_ite Prod.fst] at h1
    exact h1
  rw [hget]
  unfold rowAfterDiff
  cases hs : c.scan.lookup k with
  | some info =>
    have hk : k ∈ c.scan.keys := mem_scan_keys_iff.mpr ⟨info, hs⟩
    rw [if_neg fun h => h.2 hk, attachPass_get_of_scanned d _ hs]
  | none =>
    have hk : k ∉ c.scan.keys := not_mem_scan_keys_iff.mpr hs
    simp only [hk, not_false_eq_true, and_true, attachPass_get_of_absent d _ hk]

theorem diff_pending (d : Daemon) (c : Cycle) (k : String) :
    (d.diff c).1.flashPending.lookup k = pendingAfterDiff d c k := by
  obtain ⟨hl, hp, ht⟩ := attachPass_rest d d.previouslyAttached c
  have h := detachPass_facet (d := (d.attachPass d.previouslyAttached c).1) (c := c)
    d.previouslyAttached_nodup k
  have h1 := congrArg (fun f => f.2.2.1) h
  simp only [apply_ite (fun f : Option DeviceRecord × Option LockStatus × Option ℕ × ℕ => f.2.2.1),
    facet, detachedFacet, hl, hp, ht] at h1
  exact h1

/-- The locks of the uids a cycle does not detach stay as they are. -/
theorem diff_locks (d : Daemon) (c : Cycle) (k : String) :
    (d.diff c).1.locks.status k =
      if k ∈ d.previouslyAttached ∧ k ∉ c.scan.keys then none else d.locks.status k := by
  obtain ⟨hl, -, -⟩ := attachPass_rest d d.previouslyAttached c
  have h := detachPass_facet (d := (d.attachPass d.previouslyAttached c).1) (c := c)
    d.previouslyAttached_nodup k
  have h1 := congrArg (fun f => f.2.1) h
  simp only [apply_ite (fun f : Option DeviceRecord × Option LockStatus × Option ℕ × ℕ => f.2.1),
    facet, detachedFacet, hl] at h1
  exact h1

theorem mem_diff_owned_iff : uid ∈ (d.diff c).2.2.1 ↔
    uid ∈ c.scan.keys ∧ (uid ∈ d.previouslyAttached ∨ c.claim uid ≠ none) :=
  mem_owned_iff

end Passes

section GiveUp

variable {l : List (String × ℕ)} {t : List DeviceRecord} {res : Except Error (List DeviceRecord)}

/-- The uid is not in the scan and one of the listed deadlines for it has passed. -/
def Expired (c : Cycle) (l : List (String × ℕ)) (k : String) : Prop :=
  k ∉ c.scan.keys ∧ ∃ deadline, (k, deadline) ∈ l ∧ deadline ≤ c.now

/-- The give-up loop, raising or not, touches nothing at a uid that is not expired. -/
theorem giveUpLoop_of_not_expired (hk : ¬ Expired c l k) :
    (giveUpLoop c l d t).1.store.get k = d.store.get k ∧
      (giveUpLoop c l d t).1.flashPending.lookup k = d.flashPending.lookup k := by
  induction l generalizing d t with
  | nil => exact ⟨rfl, rfl⟩
  | cons x l ih =>
    obtain ⟨uid, deadline⟩ := x
    have hl : ¬ Expired c l k := fun ⟨hs, dl, hm, hle⟩ =>
      hk ⟨hs, dl, List.mem_cons_of_mem _ hm, hle⟩
    unfold giveUpLoop
    split
    · rename_i h
      split
      · exact ⟨rfl, rfl⟩
      · rename_i d' hd
        obtain ⟨r, hr, rfl⟩ := giveUpOne_eq_ok_iff.mp hd
        have hne : uid ≠ k := by
          rintro rfl
          exact hk ⟨h.1, deadline, List.mem_cons_self, h.2⟩
        obtain ⟨h1, h2⟩ := ih (d := _) (t := t ++ recordOf _ uid) hl
        rw [h1, h2]
        refine ⟨get_writeRow_of_ne ?_, Dict.lookup_erase_of_ne hne⟩
        rw [knownBlank_uid, uid_of_get hr]
        exact hne
    · exact ih hl

@[simp] theorem giveUpLoop_locks (l : List (String × ℕ)) (d : Daemon) (t : List DeviceRecord) :
    (giveUpLoop c l d t).1.locks = d.locks := by
  induction l generalizing d t with
  | nil => rfl
  | cons x l ih =>
    unfold giveUpLoop
    split
    · split
      · rfl
      · rename_i d' hd
        obtain ⟨r, -, rfl⟩ := giveUpOne_eq_ok_iff.mp hd
        rw [ih]
    · rw [ih]

/-- The give-up loop, raising or not, leaves a row alone or marks it known-blank. -/
theorem giveUpLoop_row (l : List (String × ℕ)) (d : Daemon) (t : List DeviceRecord) (k : String) :
    (giveUpLoop c l d t).1.store.get k = d.store.get k ∨
      Expired c l k ∧ ∃ r, d.store.get k = some r ∧
        (giveUpLoop c l d t).1.store.get k = some (r.knownBlank c.wall) := by
  induction l generalizing d t with
  | nil => exact Or.inl rfl
  | cons x l ih =>
    obtain ⟨uid, deadline⟩ := x
    have hmono : Expired c l k → Expired c ((uid, deadline) :: l) k := fun ⟨hs, dl, hm, hle⟩ =>
      ⟨hs, dl, List.mem_cons_of_mem _ hm, hle⟩
    unfold giveUpLoop
    split
    · rename_i h
      split
      · exact Or.inl rfl
      · rename_i d' hd
        obtain ⟨r, hr, rfl⟩ := giveUpOne_eq_ok_iff.mp hd
        have hu : (r.knownBlank c.wall).uid = uid := by rw [knownBlank_uid, uid_of_get hr]
        by_cases hk : uid = k
        · subst hk
          have hexp : Expired c ((uid, deadline) :: l) uid :=
            ⟨h.1, deadline, List.mem_cons_self, h.2⟩
          have hget : (d.store.writeRow (r.knownBlank c.wall)).get uid =
              some (r.knownBlank c.wall) := get_writeRow_self hu
          refine Or.inr ⟨hexp, r, hr, ?_⟩
          rcases ih _ (t ++ recordOf _ uid) with (hsame | ⟨-, r', hr', hq⟩)
          · exact hsame.trans hget
          · -- a second mark at the same time changes nothing
            simp only [hget, Option.some.injEq] at hr'
            subst hr'
            exact hq
        · have hsame : (d.store.writeRow (r.knownBlank c.wall)).get k = d.store.get k :=
            get_writeRow_of_ne (by rwa [hu])
          rcases ih _ (t ++ recordOf _ uid) with (h1 | ⟨hexp, r', hr', hq⟩)
          · exact Or.inl (h1.trans hsame)
          · exact Or.inr ⟨hmono hexp, r', hsame.symm.trans hr', hq⟩
    · rcases ih d t with (h1 | ⟨hexp, h2⟩)
      · exact Or.inl h1
      · exact Or.inr ⟨hmono hexp, h2⟩

/-- Whatever the give-up loop does at a uid, it does to an expired one. -/
theorem giveUpLoop_cases (l : List (String × ℕ)) (d : Daemon) (t : List DeviceRecord) (k : String) :
    (giveUpLoop c l d t).1.store.get k = d.store.get k ∨
      Expired c l k ∧ ∃ r q, d.store.get k = some r ∧
        (giveUpLoop c l d t).1.store.get k = some q ∧ q.host = r.host ∧
          q.isVirtual = r.isVirtual ∧ q.state ≠ .disconnected := by
  rcases giveUpLoop_row l d t k with (h | ⟨hexp, r, hr, hq⟩)
  · exact Or.inl h
  · exact Or.inr ⟨hexp, r, _, hr, hq, rfl, rfl, by simp [knownBlank]⟩

theorem expired_iff :
    Expired c (d.diff c).1.flashPending.rows k ↔
      k ∉ c.scan.keys ∧ ∃ deadline, pendingAfterDiff d c k = some deadline ∧ deadline ≤ c.now := by
  simp only [Expired, Dict.mem_rows_iff_lookup, diff_pending]

/-- A give-up loop that returns marks exactly the expired uids known-blank. -/
theorem giveUpLoop_ok (hn : (l.map Prod.fst).Nodup) (h : giveUpLoop c l d t = (d', res))
    (hres : res.toOption.isSome) (k : String) :
    (Expired c l k → d'.store.get k = (d.store.get k).map (·.knownBlank c.wall) ∧
      (d.store.get k).isSome) ∧
    (¬ Expired c l k → d'.store.get k = d.store.get k) := by
  induction l generalizing d t with
  | nil =>
    cases h
    exact ⟨fun ⟨_, _, hm, _⟩ => absurd hm List.not_mem_nil, fun _ => rfl⟩
  | cons x l ih =>
    obtain ⟨uid, deadline⟩ := x
    rw [List.map_cons, List.nodup_cons] at hn
    have hrest : ∀ k, k ≠ uid → (Expired c ((uid, deadline) :: l) k ↔ Expired c l k) := by
      intro k hk
      simp [Expired, hk]
    have hself : ¬ Expired c l uid := fun ⟨_, dl, hm, _⟩ =>
      hn.1 (List.mem_map.mpr ⟨(uid, dl), hm, rfl⟩)
    unfold giveUpLoop at h
    split at h
    · rename_i hx
      split at h
      · rename_i e he
        cases h
        cases hres
      · rename_i d₁ hd
        obtain ⟨r, hr, rfl⟩ := giveUpOne_eq_ok_iff.mp hd
        have hih := ih hn.2 h
        by_cases hk : k = uid
        · subst hk
          have hexp : Expired c ((k, deadline) :: l) k :=
            ⟨hx.1, deadline, List.mem_cons_self, hx.2⟩
          refine ⟨fun _ => ⟨?_, by simp [hr]⟩, fun hno => absurd hexp hno⟩
          rw [hih.2 hself, hr]
          exact get_writeRow_self (by rw [knownBlank_uid, uid_of_get hr])
        · have hsame : (d.store.writeRow (r.knownBlank c.wall)).get k = d.store.get k :=
            get_writeRow_of_ne (by rw [knownBlank_uid, uid_of_get hr]; exact Ne.symm hk)
          rw [hrest k hk, ← hsame]
          exact hih
    · rename_i hx
      have hih := ih hn.2 h
      by_cases hk : k = uid
      · subst hk
        refine ⟨fun ⟨hs, dl, hm, hle⟩ => ?_, fun _ => hih.2 hself⟩
        rcases List.mem_cons.mp hm with (he | hm)
        · cases he
          exact absurd ⟨hs, hle⟩ hx
        · exact absurd ⟨hs, dl, hm, hle⟩ hself
      · rw [hrest k hk]
        exact hih

theorem giveUpLoop_pending (l : List (String × ℕ)) (d : Daemon) (t : List DeviceRecord)
    (k : String) : (giveUpLoop c l d t).1.flashPending.lookup k = d.flashPending.lookup k ∨
      (giveUpLoop c l d t).1.flashPending.lookup k = none := by
  induction l generalizing d t with
  | nil => exact Or.inl rfl
  | cons x l ih =>
    obtain ⟨uid, deadline⟩ := x
    unfold giveUpLoop
    split
    · split
      · exact Or.inl rfl
      · rename_i d' hd
        obtain ⟨r, -, rfl⟩ := giveUpOne_eq_ok_iff.mp hd
        rcases ih _ (t ++ recordOf _ uid) with (h | h)
        · by_cases hk : uid = k
          · subst hk
            exact Or.inr (h.trans Dict.lookup_erase_self)
          · exact Or.inl (h.trans (Dict.lookup_erase_of_ne hk))
        · exact Or.inr h
    · exact ih d t

/-- A give-up loop that returns has taken every expired entry off the pending map. -/
theorem giveUpLoop_pending_of_expired (hok : (giveUpLoop c l d t).2.toOption.isSome)
    (hk : Expired c l k) : (giveUpLoop c l d t).1.flashPending.lookup k = none := by
  induction l generalizing d t with
  | nil =>
    obtain ⟨-, dl, hm, -⟩ := hk
    cases hm
  | cons x l ih =>
    obtain ⟨uid, deadline⟩ := x
    obtain ⟨hs, dl, hm, hle⟩ := hk
    unfold giveUpLoop at hok ⊢
    by_cases hx : uid ∉ c.scan.keys ∧ deadline ≤ c.now
    · rw [if_pos hx] at hok ⊢
      cases hd : d.giveUpOne c.wall uid with
      | error e =>
        rw [hd] at hok
        cases hok
      | ok d' =>
        rw [hd] at hok
        rcases List.mem_cons.mp hm with (he | hm)
        · obtain ⟨r, -, rfl⟩ := giveUpOne_eq_ok_iff.mp hd
          obtain rfl : k = uid := congrArg Prod.fst he
          rcases giveUpLoop_pending l _ (t ++ recordOf _ k) k with (h | h)
          · exact h.trans Dict.lookup_erase_self
          · exact h
        · exact ih hok ⟨hs, dl, hm, hle⟩
    · rw [if_neg hx] at hok ⊢
      rcases List.mem_cons.mp hm with (he | hm)
      · cases he
        exact absurd ⟨hs, hle⟩ hx
      · exact ih hok ⟨hs, dl, hm, hle⟩

/-- The give-up loop returns exactly when every expired uid still has a row. -/
theorem giveUpLoop_isOk_iff (l : List (String × ℕ)) (d : Daemon) (t : List DeviceRecord) :
    (giveUpLoop c l d t).2.toOption.isSome ↔
      ∀ k, Expired c l k → (d.store.get k).isSome := by
  induction l generalizing d t with
  | nil =>
    refine ⟨fun _ k hk => ?_, fun _ => rfl⟩
    obtain ⟨-, dl, hm, -⟩ := hk
    cases hm
  | cons x l ih =>
    obtain ⟨uid, deadline⟩ := x
    have hcons : ∀ k, Expired c ((uid, deadline) :: l) k ↔
        (k = uid ∧ uid ∉ c.scan.keys ∧ deadline ≤ c.now) ∨ Expired c l k := by
      intro k
      simp only [Expired, List.mem_cons, Prod.mk.injEq]
      constructor
      · rintro ⟨hs, dl, (⟨rfl, rfl⟩ | hm), hle⟩
        · exact Or.inl ⟨rfl, hs, hle⟩
        · exact Or.inr ⟨hs, dl, hm, hle⟩
      · rintro (⟨rfl, hs, hle⟩ | ⟨hs, dl, hm, hle⟩)
        · exact ⟨hs, deadline, Or.inl ⟨rfl, rfl⟩, hle⟩
        · exact ⟨hs, dl, Or.inr hm, hle⟩
    simp only [hcons]
    unfold giveUpLoop
    split
    · rename_i hx
      cases hd : d.giveUpOne c.wall uid with
      | error e =>
        have hnone : d.store.get uid = none := by
          by_contra hne
          obtain ⟨r, hr⟩ := Option.ne_none_iff_exists'.mp hne
          rw [giveUpOne_eq_ok_iff.mpr ⟨r, hr, rfl⟩] at hd
          cases hd
        refine ⟨fun h => absurd h Bool.false_ne_true, fun h => ?_⟩
        have hrow := h uid (Or.inl ⟨rfl, hx⟩)
        rw [hnone] at hrow
        cases hrow
      | ok d' =>
        obtain ⟨r, hr, rfl⟩ := giveUpOne_eq_ok_iff.mp hd
        -- the write keeps a row at every uid that had one
        have hrows : ∀ k, ((d.store.writeRow (r.knownBlank c.wall)).get k).isSome ↔
            (d.store.get k).isSome := by
          intro k
          rw [get_writeRow, knownBlank_uid, uid_of_get hr]
          split
          · rename_i hk
            rw [← hk, hr]
            simp
          · rfl
        simp only
        rw [ih]
        simp only [hrows]
        constructor
        · rintro h k (⟨rfl, -⟩ | hk)
          · rw [hr]
            rfl
          · exact h k hk
        · exact fun h k hk => h k (Or.inr hk)
    · rename_i hx
      rw [ih]
      constructor
      · rintro h k (⟨rfl, hk⟩ | hk)
        · exact absurd hk hx
        · exact h k hk
      · exact fun h k hk => h k (Or.inr hk)

end GiveUp

end MbTools.Daemon
