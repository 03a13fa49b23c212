import MbTools.Api.Sessions

/-! # Who is at a port

A session is opened under a lock, and nothing in it asks for the lock again. So
it is at its board under its own lock exactly as long as nobody takes that lock
away from it: a force-unlock, a detach, a sweep, or a release by a connection
that is the same holder.
-/

namespace MbTools.Api

open Store Runs

/-- The lock table records this holder as the current one. -/
def Holds (m : LockManager) (uid : String) (h : HolderRef) : Prop :=
  ∃ st, m.status uid = some st ∧ st.holder = h

namespace System

variable {s s' : System} {a : Action} {uid u : String} {h : HolderRef} {now : ℕ}

/-- A stream or pool session of the holder is open on the uid. -/
def Open (s : System) (uid : String) (h : HolderRef) : Prop :=
  (∃ j t, s.Streams j h t ∧ t.isVirtual = false ∧ t.phase ≠ .closed ∧ t.uid = uid) ∨
    ∃ p q, s.pool.lookup p = some q ∧ q.phase ≠ .closed ∧ q.uid = uid ∧ q.holder = h

/-- The step takes away the lock on the uid, if this holder has it. -/
def Frees (s : System) (a : Action) (uid : String) (h : HolderRef) : Prop :=
  match a with
  | .unlock i _ x => ∃ c token r, s.conns.lookup i = some c ∧ field x = some token ∧
      resolveVisible c.server s.daemon.casing s.daemon.store token = .ok r ∧ r.uid = uid ∧
        c.holder = h
  | .forceUnlock _ _ x => ∃ token r, field x = some token ∧
      resolveVisible .socket s.daemon.casing s.daemon.store token = .ok r ∧ r.uid = uid
  | .flashEnd i _ => ∃ c, s.conns.lookup i = some c ∧ c.mode = .flashing uid ∧ c.holder = h
  | .streamEnd i _ => ∃ c t, s.conns.lookup i = some c ∧ c.mode = .streaming t ∧ t.uid = uid ∧
      c.holder = h
  | .hangUp i _ => ∃ c, s.conns.lookup i = some c ∧ uid ∈ c.acquired ∧ c.holder = h
  | .sweep server _ pidAlive => s.isHolderAlive server pidAlive h = false
  | .cycle c => uid ∈ s.daemon.previouslyAttached ∧ uid ∉ c.scan.keys
  | .detachVirtual _ x => x = uid
  | .poolEnd p _ => ∃ q, s.pool.lookup p = some q ∧ q.uid = uid ∧ q.holder = h
  | _ => False

/-- No step takes a lock away from a session that is still open. -/
def LeavesOpenLocks (s : System) (a : Action) : Prop :=
  ∀ uid h, s.Open uid h → ¬ s.Frees a uid h

/-! ## The lock of one holder -/

section Holds

variable {d : Daemon}

theorem Holds.releaseLock {h' : HolderRef} (hh : Holds d.locks uid h) (hn : ¬ (u = uid ∧ h' = h)) :
    Holds (d.releaseLock now u h').locks uid h := by
  obtain ⟨st, hst, rfl⟩ := hh
  refine ⟨st, ?_, rfl⟩
  rw [Daemon.releaseLock_locks]
  by_cases hu : u = uid
  · subst hu
    rw [LockManager.release_status_self, hst]
    exact Option.filter_eq_some_iff.mpr ⟨rfl, by simpa using fun he => hn ⟨rfl, he.symm⟩⟩
  · rw [LockManager.release_of_ne hu, hst]

theorem Holds.forceReleaseLock (hh : Holds d.locks uid h) (hu : u ≠ uid) :
    Holds (d.forceReleaseLock now u).locks uid h := by
  obtain ⟨st, hst, rfl⟩ := hh
  exact ⟨st, by rw [forceReleaseLock_locks, LockManager.forceRelease_of_ne hu, hst], rfl⟩

theorem Holds.releaseAll {h' : HolderRef} {uids : List String} (hh : Holds d.locks uid h)
    (hn : ∀ u ∈ uids, ¬ (u = uid ∧ h' = h)) : Holds (releaseAll d now h' uids).locks uid h :=
  Pass.foldl_inv (P := fun d : Daemon => Holds d.locks uid h)
    (fun _ u hu hd => Holds.releaseLock hd (hn u hu)) hh

theorem Holds.sweepLocks {isAlive : HolderRef → Bool} (hh : Holds d.locks uid h)
    (ha : isAlive h = true) : Holds (d.sweepLocks now isAlive).locks uid h := by
  have hne : ∀ x ∈ d.locks.stale isAlive, x.1 ≠ uid := by
    rintro ⟨k, st⟩ hx rfl
    obtain ⟨hmem, hdead⟩ := List.mem_filter.mp hx
    obtain ⟨st', hst, rfl⟩ := hh
    rw [LockManager.status, Dict.mem_rows_iff_lookup.mp hmem, Option.some.injEq] at hst
    subst hst
    simp [ha] at hdead
  exact Pass.foldl_inv (P := fun d : Daemon => Holds d.locks uid h)
    (fun _ x hx hd => Holds.forceReleaseLock hd (hne x hx)) hh

theorem Holds.acquire {m m' : LockManager} {kind : LockKind} {h' : HolderRef}
    {label : Option String} (hh : Holds m uid h) (ha : m.acquire now u kind h' label = .ok m') :
    Holds m' uid h := by
  obtain ⟨hn, rfl⟩ := LockManager.acquire_eq_ok_iff.mp ha
  obtain ⟨st, hst, rfl⟩ := hh
  refine ⟨st, ?_, rfl⟩
  rw [LockManager.status_insert, if_neg, hst]
  rintro rfl
  rw [hn] at hst
  cases hst

theorem Holds.lockedBlock {c : Cycle} (hh : Holds d.locks uid h)
    (hn : ¬ (uid ∈ d.previouslyAttached ∧ uid ∉ c.scan.keys)) :
    Holds (d.lockedBlock c).1.locks uid h := by
  obtain ⟨st, hst, rfl⟩ := hh
  refine ⟨st, ?_, rfl⟩
  unfold Daemon.lockedBlock
  rw [Daemon.giveUpLoop_locks, Daemon.diff_locks, if_neg hn, hst]

end Holds

/-! ## One step -/

/-- Every open session's lock is its own. -/
def Exclusive (s : System) : Prop := ∀ uid h, s.Open uid h → Holds s.daemon.locks uid h

theorem Holds.step (hh : Holds s.daemon.locks uid h) (hf : ¬ s.Frees a uid h)
    (hs : s.step a = some s') : Holds s'.daemon.locks uid h := by
  cases step_cases hs with
  | lock hc hidle hop hmode =>
    obtain ⟨_, r, kind, locks, -, -, -, -, hl, rfl⟩ := opLock_eq_ok hop
    exact Holds.acquire hh hl
  | unlock hc hidle hop hmode =>
    obtain ⟨token, r, ht, hr, hu, rfl⟩ := opUnlock_eq_ok hop
    apply Holds.releaseLock hh
    rintro ⟨rfl, hch⟩
    exact hf ⟨_, token, r, hc, ht, hr, hu, hch⟩
  | forceUnlock hc hidle hserver hop =>
    obtain ⟨token, r, ht, hr, hu, rfl⟩ := opForceUnlock_eq_ok hop
    rw [shutTracked_daemon]
    apply Holds.forceReleaseLock hh
    rintro rfl
    exact hf ⟨token, r, ht, hr, hu⟩
  | flashEnd hc hm =>
    apply Holds.releaseLock hh
    rintro ⟨rfl, hch⟩
    exact hf ⟨_, hc, hm, hch⟩
  | streamEnd hc hm hclosed =>
    apply Holds.releaseLock hh
    rintro ⟨hu, hch⟩
    exact hf ⟨_, _, hc, hm, hu, hch⟩
  | hangUp hc hm =>
    apply Holds.releaseAll hh
    rintro u hu ⟨rfl, hch⟩
    exact hf ⟨_, hc, hu, hch⟩
  | sweep => exact Holds.sweepLocks hh (by simpa [Frees] using hf)
  | cycle => exact Holds.lockedBlock hh hf
  | detachVirtual hr hv hd =>
    rw [shutTracked_daemon]
    rcases hd with (rfl | ⟨h', rfl⟩)
    · exact hh
    · exact Holds.releaseLock hh fun he => hf he.1
  | poolAccept hnew hr hl hfresh => exact Holds.acquire hh hl
  | poolEnd hq hclosed => exact Holds.releaseLock hh fun he => hf ⟨_, hq, he.1, he.2⟩
  -- the other steps leave the lock table alone
  | _ => exact hh

/-- A session that is open was open before, or has just been accepted under its lock. -/
theorem Open.step (ho : s'.Open uid h) (hs : s.step a = some s') :
    s.Open uid h ∨ Holds s'.daemon.locks uid h := by
  rcases ho with (⟨j, t, ht, hv, hcl, rfl⟩ | ⟨p, q, hq, hcl, rfl, rfl⟩)
  · rcases ht.step hs with (⟨x, hx, hb⟩ | ⟨hacc, hd⟩)
    · exact Or.inl (Or.inl ⟨j, x, hx, hb.isVirtual.symm.trans hv, fun he => hcl (hb.closed he),
        hb.uid.symm⟩)
    · obtain ⟨_, _, c, r, port, kind, -, -, -, hop, rfl⟩ := hacc
      obtain ⟨-, st, -, -, hst, hsh, -⟩ := opStreamPrecheck_eq_ok hop
      exact Or.inr ⟨st, by rwa [hd], hsh⟩
  · rcases pool_step hq hs with (⟨x, hx, hu, hh, hc⟩ | ⟨now, hl⟩)
    · exact Or.inl (Or.inr ⟨p, x, hx, fun he => hcl (hc he), hu.symm, hh.symm⟩)
    · obtain ⟨-, hm⟩ := LockManager.acquire_eq_ok_iff.mp hl
      rw [hm]
      exact Or.inr ⟨_, by rw [LockManager.status_insert, if_pos rfl], rfl⟩

theorem Exclusive.step (he : s.Exclusive) (hok : s.LeavesOpenLocks a) (hs : s.step a = some s') :
    s'.Exclusive := by
  intro uid h ho
  rcases ho.step hs with (hold | hnew)
  · exact Holds.step (he uid h hold) (hok uid h hold) hs
  · exact hnew

theorem Exclusive.start (C : Casing) (store : Store) : (start C store).Exclusive := by
  rintro uid h (⟨j, t, ⟨c, hc, -⟩, -⟩ | ⟨p, q, hq, -⟩)
  · cases hc
  · cases hq

theorem open_of_performs {op : PortOp} (hp : s.performs a = some (uid, h, op))
    (hs : s.step a = some s') : s.Open uid h := by
  unfold performs at hp
  split at hp
  · rename_i i u
    split at hp
    · cases hp
    · rename_i c hc
      split at hp
      · rename_i t hm
        obtain ⟨op', hop, he⟩ := Option.map_eq_some_iff.mp hp
        simp only [Prod.mk.injEq] at he
        obtain ⟨rfl, rfl, -⟩ := he
        obtain ⟨c', hc', hs⟩ := onConn_eq_some hs
        obtain rfl := Option.some.inj (hc'.symm.trans hc)
        simp only [hm, Option.ite_none_left_eq_some, Option.map_eq_some_iff] at hs
        obtain ⟨-, t', ht', -⟩ := hs
        obtain ⟨hv, hcl⟩ := StreamSession.live_of_performs hop ht'
        exact Or.inl ⟨i, t, ⟨c', hc, hm, rfl⟩, hv, hcl, rfl⟩
      · cases hp
  · rename_i p op'
    obtain ⟨q, hq, he⟩ := Option.map_eq_some_iff.mp hp
    simp only [Prod.mk.injEq] at he
    obtain ⟨rfl, rfl, -⟩ := he
    refine Or.inr ⟨p, q, hq, fun hcl => ?_, rfl, rfl⟩
    simp only [System.step, hq, PoolSession.step, Option.map_eq_some_iff,
      Option.ite_none_right_eq_some] at hs
    obtain ⟨-, ⟨ha, -⟩, -⟩ := hs
    simp [PoolSession.allows, hcl] at ha
  · cases hp

/-- In a run that leaves open sessions their locks, whatever is done to a port is done under the
lock of the session that does it. -/
theorem io_under_lock (C : Casing) (store : Store) (as : List Action) (s s' : System) (a : Action)
    (hr : exec step (start C store) as = some s)
    (hm : Meets step LeavesOpenLocks (start C store) as)
    (hs : s.step a = some s') (uid : String) (h : HolderRef) (op : PortOp)
    (hp : s.performs a = some (uid, h, op)) : Holds s.daemon.locks uid h := by
  have he : s.Exclusive :=
    inv_of_meets (fun _ _ _ he hok hs => he.step hok hs) (Exclusive.start C store) hm hr
  exact he uid h (open_of_performs hp hs)

def oneBoard : Store := Store.empty.upsertAttached 5 "9900a" "/dev/ttyACM0" "0d28:0204"

def laptop : HolderRef := ⟨.remote, "s1", none, some "10.0.0.2"⟩

/-- A remote client locks the board and opens a stream on it. -/
def remoteStream : List Action :=
  [.connect 1 .tcp laptop, .lock 1 6 ⟨some "9900a", some "serial", none⟩,
    .stream 1 (some "9900a") false, .session 1 (.open true)]

theorem io_under_lock_read :
    ∃ s, exec step (start .ascii oneBoard) remoteStream = some s ∧
      Holds s.daemon.locks "9900a" laptop := by
  have hrun : (exec step (start .ascii oneBoard) remoteStream).any (fun s =>
      (s.step (.session 1 .read)).isSome &&
        s.performs (.session 1 .read) = some ("9900a", laptop, .read)) = true := by decide
  obtain ⟨s, hs, hread⟩ := (Option.any_eq_true _ _).mp hrun
  rw [Bool.and_eq_true, Option.isSome_iff_exists, decide_eq_true_iff] at hread
  obtain ⟨⟨s', hs'⟩, hp⟩ := hread
  refine ⟨s, hs,
    io_under_lock .ascii oneBoard remoteStream s s' _ hs ?_ hs' "9900a" laptop .read hp⟩
  refine meets_of_forall fun a ha s uid h _ => ?_
  simp only [remoteStream, List.mem_cons, List.not_mem_nil, or_false] at ha
  rcases ha with (rfl | rfl | rfl | rfl) <;> exact id

/-- The operator takes the lock away, and another client takes the board. -/
def stolen : List Action :=
  remoteStream ++ [.connect 2 .socket ⟨.local, "41", some 41, none⟩,
    .forceUnlock 2 7 (some "9900a"), .connect 3 .tcp ⟨.remote, "s3", none, some "10.0.0.3"⟩,
    .lock 3 8 ⟨some "9900a", some "serial", none⟩, .session 1 (.send .brk)]

/-- The first stream goes on to break the board of the second client. -/
theorem io_without_lock : ¬ ∀ (C : Casing) (store : Store) (as : List Action) (s s' : System)
    (a : Action),
    exec step (start C store) as = some s → s.step a = some s' → ∀ uid h op,
    s.performs a = some (uid, h, op) → Holds s.daemon.locks uid h := by
  intro hall
  have hrun : (exec step (start .ascii oneBoard) stolen).any (fun s =>
      (s.step (.session 1 (.serve true))).isSome &&
        s.performs (.session 1 (.serve true)) = some ("9900a", laptop, .sendBreak) &&
        ((s.daemon.locks.status "9900a").map LockStatus.holder ≠ some laptop)) = true := by decide
  obtain ⟨s, hs, hend⟩ := (Option.any_eq_true _ _).mp hrun
  rw [Bool.and_eq_true, Bool.and_eq_true, Option.isSome_iff_exists, decide_eq_true_iff,
    decide_eq_true_iff] at hend
  obtain ⟨⟨⟨s', hs'⟩, hp⟩, hne⟩ := hend
  obtain ⟨st, hst, hh⟩ := hall .ascii oneBoard stolen s s' _ hs hs' "9900a" laptop .sendBreak hp
  exact hne (by rw [hst, Option.map_some, hh])

end System

end MbTools.Api
