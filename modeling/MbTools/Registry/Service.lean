import MbTools.Api.Ops
import MbTools.Api.Rescan
import MbTools.Lib.Runs
import MbTools.Peering.Ownership
import MbTools.Registry.Agreement

/-! # The daemon among its clients

What clients and peers do to a daemon between two blocks of its cycles, and the
cycles block by block. Nothing a client or a peer does reaches the row of an
attached board, but for its flash counter.
-/

namespace MbTools

/-- One operation of a client or a peer. -/
inductive Op where
  | lock (server : Api.Server) (now : ℕ) (req : Api.LockRequest) (holder : HolderRef)
  | release (now : ℕ) (uid : String) (holder : HolderRef)
  | forceRelease (now : ℕ) (uid : String)
  | sweep (now : ℕ) (isAlive : HolderRef → Bool)
  | markFlashed (uid : String)
  | peer (host : String) (input : Peering.Input)
  | peerSeen (now : ℕ) (host endpoint : String)
  | peerReachable (host : String) (reachable : Bool)
  | rescan

namespace Daemon

open Store DeviceRecord

/-- An operation that fails changes nothing. -/
def apply (d : Daemon) : Op → Daemon
  | .lock server now req holder =>
    match Api.opLock server d now req holder with
    | .ok (_, d') => d'
    | .error _ => d
  | .release now uid holder => d.releaseLock now uid holder
  | .forceRelease now uid => d.forceReleaseLock now uid
  | .sweep now isAlive => d.sweepLocks now isAlive
  | .markFlashed uid => { d with store := (d.store.incrementFlashCount uid).toOption.getD d.store }
  | .peer host input => { d with store := Peering.applyInput host d.store input }
  | .peerSeen now host endpoint => { d with store := d.store.recordPeerSeen now host endpoint }
  | .peerReachable host reachable =>
    { d with store := (d.store.setPeerReachable host reachable).toOption.getD d.store }
  | .rescan => { d with store := (Api.opRescan d.store d.locks true false).store }

/-- Does the operation release a flash lock on the uid? -/
def FlashReleases (d : Daemon) (uid : String) : Op → Prop
  | .release _ u holder =>
    u = uid ∧ ∃ st, d.locks.status uid = some st ∧ st.holder = holder ∧ st.kind = .flash
  | .forceRelease _ u => u = uid ∧ ∃ st, d.locks.status uid = some st ∧ st.kind = .flash
  | .sweep _ isAlive =>
    ∃ st, d.locks.status uid = some st ∧ isAlive st.holder = false ∧ st.kind = .flash
  | _ => False

variable {d : Daemon} {uid u : String} {now : ℕ} {r : DeviceRecord} {o : Op} {st : LockStatus}

section Sweep

theorem forceReleaseLock_of_free (h : d.locks.status uid = none) :
    d.forceReleaseLock now uid = d := by
  simp [forceReleaseLock, LockManager.forceRelease, h]

theorem forceReleaseLock_of_held (h : d.locks.status uid = some st) :
    d.forceReleaseLock now uid = d.releaseLock now uid st.holder := by
  simp [forceReleaseLock, releaseLock, LockManager.forceRelease, LockManager.release, h]

/-- What a lock operation can change at one uid. -/
def lockFacet (d : Daemon) (uid : String) : Option LockStatus × Option ℕ × ℕ :=
  (d.locks.status uid, d.flashPending.lookup uid, d.flashReprobeTimeout)

/-- A forced release at its own uid. -/
def releasedFacet (now : ℕ) (uid : String) :
    Option LockStatus × Option ℕ × ℕ → Option LockStatus × Option ℕ × ℕ
  | (lock, pending, timeout) => (none, pendingAfterDetach now timeout uid lock pending, timeout)

theorem forceReleaseLock_frame (d : Daemon) (now : ℕ) (h : uid ≠ u) :
    (d.forceReleaseLock now uid).lockFacet u = d.lockFacet u := by
  cases hs : d.locks.status uid with
  | none => rw [forceReleaseLock_of_free hs]
  | some st =>
    rw [forceReleaseLock_of_held hs]
    unfold lockFacet
    rw [releaseLock_locks, LockManager.release_of_ne h, releaseLock_pending_of_ne h,
      releaseLock_timeout]

theorem forceReleaseLock_own (d : Daemon) (now : ℕ) (uid : String) :
    (d.forceReleaseLock now uid).lockFacet uid = releasedFacet now uid (d.lockFacet uid) := by
  cases hs : d.locks.status uid with
  | none =>
    rw [forceReleaseLock_of_free hs]
    simp [lockFacet, releasedFacet, hs, pendingAfterDetach]
  | some st =>
    rw [forceReleaseLock_of_held hs]
    simp only [lockFacet, releasedFacet, hs, pendingAfterDetach]
    rw [releaseLock_locks, LockManager.release_status_self, releaseLock_pending_self hs,
      releaseLock_timeout]
    simp [hs, Option.filter]

theorem mem_stale_iff {m : LockManager} {isAlive : HolderRef → Bool} :
    (uid, st) ∈ m.stale isAlive ↔ m.status uid = some st ∧ isAlive st.holder = false := by
  simp [LockManager.stale, List.mem_filter, LockManager.status, ← Dict.mem_rows_iff_lookup]

theorem sweepLocks_lockFacet (d : Daemon) (now : ℕ) (isAlive : HolderRef → Bool) (u : String) :
    (d.sweepLocks now isAlive).lockFacet u =
      if (d.locks.status u).any (fun st => !isAlive st.holder) then
        releasedFacet now u (d.lockFacet u)
      else d.lockFacet u := by
  have hframe : ∀ (t : Daemon) (p : String × LockStatus) (k : String), p.1 ≠ k →
      (t.forceReleaseLock now p.1).lockFacet k = t.lockFacet k := fun t p k hk =>
    forceReleaseLock_frame t now hk
  have hn : ((d.locks.stale isAlive).map Prod.fst).Nodup :=
    d.locks.nodup.sublist (List.filter_sublist.map _)
  unfold sweepLocks
  split
  · rename_i h
    obtain ⟨st, hst, hdead⟩ := (Option.any_eq_true _ _).mp h
    have hmem : (u, st) ∈ d.locks.stale isAlive :=
      mem_stale_iff.mpr ⟨hst, by simpa using hdead⟩
    exact Pass.foldl_own lockFacet (fun p : String × LockStatus => releasedFacet now p.1) hframe
      (fun t p => forceReleaseLock_own t now p.1) hn hmem
  · rename_i h
    have hother : ∀ p ∈ d.locks.stale isAlive, p.1 ≠ u := by
      rintro ⟨k, st⟩ hp rfl
      obtain ⟨hst, hdead⟩ := mem_stale_iff.mp hp
      exact h (by simp [hst, hdead])
    exact Pass.foldl_frame lockFacet hframe hother

theorem sweepLocks_store (d : Daemon) (now : ℕ) (isAlive : HolderRef → Bool) :
    (d.sweepLocks now isAlive).store = d.store :=
  Pass.foldl_inv (P := fun t : Daemon => t.store = d.store)
    (fun _ _ _ ht => Api.forceReleaseLock_store.trans ht) rfl

end Sweep

section Rows

variable {s : Store} {host : String}

theorem get_incrementFlashCount (s : Store) (uid u : String) :
    ((s.incrementFlashCount uid).toOption.getD s).get u =
      if uid = u then (s.get u).map flashed else s.get u := by
  cases h : s.incrementFlashCount uid with
  | error e =>
    have hn := (modifyRow_eq_error_iff.mp h).1
    split
    · rename_i hu
      rw [← hu, hn]
      exact hn
    · rfl
  | ok s' => exact get_of_modifyRow flashed_uid h u

theorem get_setPeerReachable (s : Store) (host : String) (reachable : Bool) (u : String) :
    ((s.setPeerReachable host reachable).toOption.getD s).get u = s.get u := by
  unfold setPeerReachable
  split <;> rfl

theorem not_local_upserted {port vidPid : Option String} {prev : Option DeviceRecord}
    (h : ∀ q, prev = some q → ¬ q.IsLocal) :
    ¬ (upserted now uid (some host) port vidPid prev).IsLocal := by
  cases prev with
  | none => exact fun hl => by cases hl.1
  | some r =>
    simp only [upserted]
    split
    · exact h r rfl
    · split
      · exact fun hl => by cases hl.1
      · exact fun hl => by cases hl.1

theorem attached_of_applyInput {input : Peering.Input}
    (h : Attached (Peering.applyInput host s input) u) : Attached s u := by
  by_contra hn
  have hkeep : ∀ q, (Peering.applyInput host s input).get u = some q → ¬ q.IsLocal := by
    apply Peering.get_applyInput_inv (P := fun prev => ∀ q, prev = some q → ¬ q.IsLocal) input
    · intro now e _ _ prev hp q hq
      unfold Peering.eventRow at hq
      split at hq
      · obtain rfl := Option.some.inj hq
        exact not_local_upserted hp
      · obtain ⟨r, rfl, rfl⟩ := Option.map_eq_some_iff.mp hq
        split
        · rename_i hh
          intro hl
          have hnone := hl.1
          rw [Peering.reported_host, hh] at hnone
          cases hnone
        · exact hp r rfl
    · intro now reply _ d _ _ prev hp q hq
      obtain rfl := Option.some.inj hq
      simp only [Peering.snapshotRow]
      split
      · rename_i hh
        intro hl
        have hnone := hl.1
        rw [Peering.layered_host, hh] at hnone
        cases hnone
      · exact not_local_upserted hp
    · intro now seen prev hp q hq
      obtain ⟨r, rfl, rfl⟩ := Option.map_eq_some_iff.mp hq
      unfold Peering.absentRow
      split
      · exact fun hl => hl.2.1 rfl
      · exact hp r rfl
    · exact fun q hq hl => hn ⟨q, hq, hl⟩
  obtain ⟨q, hq, hl⟩ := h
  exact hkeep q hq hl

theorem get_opRescan_of_local {locks : LockManager} (hr : s.get u = some r) (hl : r.IsLocal) :
    (Api.opRescan s locks true false).store.get u = some r := by
  rw [(Api.opRescan_get u).2, hr]
  rintro ⟨⟨q, hq, hstale⟩, -⟩
  obtain rfl : r = q := Option.some.inj (hr.symm.trans hq)
  have hp := hstale.purgeable
  simp [purgeable, peerUnreachable, hl.1, hl.2.1] at hp

end Rows

section Apply

theorem apply_lock_cases (d : Daemon) (server : Api.Server) (now : ℕ) (req : Api.LockRequest)
    (holder : HolderRef) :
    d.apply (.lock server now req holder) = d ∨ ∃ r kind, d.store.get r.uid = some r ∧
      d.apply (.lock server now req holder) =
        { d with locks := d.locks.insert r.uid ⟨kind, holder, req.label, now⟩ } := by
  simp only [apply]
  cases h : Api.opLock server d now req holder with
  | error e => exact Or.inl rfl
  | ok x =>
    obtain ⟨uid, d'⟩ := x
    obtain ⟨token, r, kind, locks, -, hr, -, rfl, hl, rfl⟩ := Api.opLock_eq_ok h
    obtain ⟨-, rfl⟩ := LockManager.acquire_eq_ok_iff.mp hl
    exact Or.inr ⟨r, kind, Api.get_of_resolveVisible hr, rfl⟩

theorem apply_lock_store {server : Api.Server} {req : Api.LockRequest} {holder : HolderRef} :
    (d.apply (.lock server now req holder)).store = d.store := by
  rcases apply_lock_cases d server now req holder with (h | ⟨r, kind, -, h⟩)
  · rw [h]
  · rw [h]

/-- What an operation makes of one row, if it is not the report of a peer: a flash of the board is
counted, and a rescan may take the row. -/
theorem get_apply_cases (o : Op) (u : String) :
    (d.apply o).store.get u = d.store.get u ∨
      (d.apply o).store.get u = (d.store.get u).map flashed ∨
      (o = .rescan ∧ Api.Removed d.store d.locks u ∧ (d.apply o).store.get u = none) ∨
      ∃ host input, o = .peer host input := by
  cases o with
  | lock server now req holder => exact Or.inl (by rw [apply_lock_store])
  | release now uid holder => exact Or.inl (by rw [apply, releaseLock_store])
  | forceRelease now uid => exact Or.inl (by rw [apply, Api.forceReleaseLock_store])
  | sweep now isAlive => exact Or.inl (by rw [apply, sweepLocks_store])
  | markFlashed uid =>
    rw [apply, get_incrementFlashCount]
    split
    · exact Or.inr (Or.inl rfl)
    · exact Or.inl rfl
  | peer host input => exact Or.inr (Or.inr (Or.inr ⟨host, input, rfl⟩))
  | peerSeen now host endpoint => exact Or.inl rfl
  | peerReachable host reachable => exact Or.inl (by rw [apply, get_setPeerReachable])
  | rescan =>
    by_cases hrem : Api.Removed d.store d.locks u
    · exact Or.inr (Or.inr (Or.inl ⟨rfl, hrem, (@Api.opRescan_get _ _ true u).1 hrem⟩))
    · exact Or.inl ((@Api.opRescan_get _ _ true u).2 hrem)

/-- No operation changes the row of an attached board, but for its flash counter. -/
theorem apply_row (o : Op) (hr : d.store.get u = some r) (hl : r.IsLocal) :
    (d.apply o).store.get u = some r ∨ (d.apply o).store.get u = some r.flashed := by
  rcases get_apply_cases o u with (h | h | ⟨rfl, -, -⟩ | ⟨host, input, rfl⟩)
  · exact Or.inl (h.trans hr)
  · exact Or.inr (by rw [h, hr]; rfl)
  · exact Or.inl (get_opRescan_of_local hr hl)
  · exact Or.inl (Peering.applyInput_local input hr hl.1 hl.2.1)

theorem apply_local (o : Op) (hr : d.store.get u = some r) (hl : r.IsLocal) :
    ∃ q, (d.apply o).store.get u = some q ∧ q.IsLocal ∧ q.port = r.port ∧ q.state = r.state ∧
      q.lastProbe = r.lastProbe := by
  rcases apply_row o hr hl with (h | h)
  · exact ⟨r, h, hl, rfl, rfl, rfl⟩
  · exact ⟨r.flashed, h, hl, rfl, rfl, rfl⟩

theorem attached_of_apply (h : Attached (d.apply o).store u) : Attached d.store u := by
  rcases get_apply_cases o u with (he | he | ⟨-, -, he⟩ | ⟨host, input, rfl⟩)
  · rwa [Attached, he] at h
  · obtain ⟨r, hr, hl⟩ := h
    rw [he] at hr
    obtain ⟨q, hq, rfl⟩ := Option.map_eq_some_iff.mp hr
    exact ⟨q, hq, hl⟩
  · obtain ⟨r, hr, -⟩ := h
    cases he.symm.trans hr
  · exact attached_of_applyInput h

/-- Only a release of its own flash lock changes what is pending for a uid. -/
theorem apply_pending_of_not (h : ¬ d.FlashReleases u o) :
    (d.apply o).flashPending.lookup u = d.flashPending.lookup u := by
  cases o with
  | lock server now req holder =>
    rcases apply_lock_cases d server now req holder with (hl | ⟨r, kind, -, hl⟩)
    · rw [hl]
    · rw [hl]
  | release now uid holder =>
    by_cases hu : uid = u
    · subst hu
      simp only [apply, releaseLock]
      split
      · rfl
      · rename_i st hrel
        split
        · rename_i hk
          obtain ⟨hst, hh, -⟩ := LockManager.release_eq_some_iff.mp hrel
          exact absurd ⟨rfl, st, hst, hh, hk⟩ h
        · rfl
    · exact releaseLock_pending_of_ne hu
  | forceRelease now uid =>
    by_cases hu : uid = u
    · subst hu
      have hf := congrArg (fun x => x.2.1) (forceReleaseLock_own d now uid)
      refine hf.trans ?_
      simp only [releasedFacet, lockFacet, pendingAfterDetach]
      cases hs : d.locks.status uid with
      | none => rfl
      | some st =>
        simp only
        rw [if_neg]
        rintro ⟨hk, -⟩
        exact h ⟨rfl, st, hs, hk⟩
    · exact congrArg (fun x => x.2.1) (forceReleaseLock_frame d now hu)
  | sweep now isAlive =>
    have hf := congrArg (fun x => x.2.1) (sweepLocks_lockFacet d now isAlive u)
    refine hf.trans ?_
    split
    · rename_i hany
      obtain ⟨st, hs, hdead⟩ := (Option.any_eq_true _ _).mp hany
      simp only [releasedFacet, lockFacet, hs, pendingAfterDetach]
      rw [if_neg]
      rintro ⟨hk, -⟩
      exact h ⟨st, hs, by simpa using hdead, hk⟩
    · rfl
  | markFlashed uid => rfl
  | peer host input => rfl
  | peerSeen now host endpoint => rfl
  | peerReachable host reachable => rfl
  | rescan => rfl

theorem apply_pending_of_flashReleases (h : d.FlashReleases u o) (hv : isVirtualUid u = false) :
    ((d.apply o).flashPending.lookup u).isSome := by
  cases o with
  | release now uid holder =>
    obtain ⟨rfl, st, hs, rfl, hk⟩ := h
    rw [apply, releaseLock_pending_self hs, if_pos ⟨hk, hv⟩]
    rfl
  | forceRelease now uid =>
    obtain ⟨rfl, st, hs, hk⟩ := h
    rw [apply, forceReleaseLock_of_held hs, releaseLock_pending_self hs, if_pos ⟨hk, hv⟩]
    rfl
  | sweep now isAlive =>
    obtain ⟨st, hs, hdead, hk⟩ := h
    have hf := congrArg (fun x => x.2.1) (sweepLocks_lockFacet d now isAlive u)
    rw [if_pos (by simp [hs, hdead])] at hf
    simp only [releasedFacet, lockFacet, hs, pendingAfterDetach] at hf
    rw [apply, hf, if_pos ⟨hk, hv⟩]
    rfl
  | lock | markFlashed | peer | peerSeen | peerReachable | rescan => exact h.elim

theorem apply_pending_isSome (o : Op) (h : (d.flashPending.lookup u).isSome)
    (hv : isVirtualUid u = false) : ((d.apply o).flashPending.lookup u).isSome := by
  by_cases hf : d.FlashReleases u o
  · exact apply_pending_of_flashReleases hf hv
  · rwa [apply_pending_of_not hf]

end Apply

end Daemon

end MbTools
