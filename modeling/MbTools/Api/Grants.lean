import MbTools.Api.Exclusive
import MbTools.Registry.Service

/-! # Who was granted a lock

A local holder is a process, so the lock table does not say which connection a
lock was granted to. The ledger says it: beside the system it keeps, for every
uid, the connection whose `lock` was granted last. A lock that is held was
granted to an open connection that still lists it, or to the relay pool.
-/

namespace MbTools.Api

open Store Runs

section Status

variable {d : Daemon} {now : ℕ} {u uid : String} {h : HolderRef} {uids : List String}

theorem releaseLock_status : (d.releaseLock now u h).locks.status uid =
    if u = uid then (d.locks.status uid).filter (·.holder ≠ h) else d.locks.status uid := by
  rw [Daemon.releaseLock_locks]
  split
  · rename_i hu
    subst hu
    exact LockManager.release_status_self
  · rename_i hu
    exact LockManager.release_of_ne hu

theorem releaseLock_le {st : LockStatus}
    (hst : (d.releaseLock now u h).locks.status uid = some st) :
    d.locks.status uid = some st := by
  rw [releaseLock_status] at hst
  split at hst
  · exact (Option.filter_eq_some_iff.mp hst).1
  · exact hst

theorem forceReleaseLock_status : (d.forceReleaseLock now u).locks.status uid =
    if u = uid then none else d.locks.status uid := by
  rw [forceReleaseLock_locks]
  split
  · rename_i hu
    subst hu
    unfold LockManager.forceRelease
    split
    · assumption
    · rw [LockManager.status_erase, if_pos rfl]
  · rename_i hu
    exact LockManager.forceRelease_of_ne hu

theorem releaseAll_status : (System.releaseAll d now h uids).locks.status uid =
    if uid ∈ uids then (d.locks.status uid).filter (·.holder ≠ h) else d.locks.status uid := by
  induction uids generalizing d with
  | nil => rfl
  | cons v uids ih =>
    rw [System.releaseAll, List.foldl_cons]
    refine ih.trans ?_
    rw [releaseLock_status]
    by_cases hv : v = uid
    · simp [hv, Option.filter_filter]
    · simp [hv, Ne.symm hv]

theorem sweepLocks_status {isAlive : HolderRef → Bool} :
    (d.sweepLocks now isAlive).locks.status uid =
      (d.locks.status uid).filter (isAlive ·.holder) := by
  have hf := congrArg Prod.fst (Daemon.sweepLocks_lockFacet d now isAlive uid)
  refine hf.trans ?_
  cases hst : d.locks.status uid with
  | none => simp [Daemon.lockFacet, hst]
  | some st =>
    cases ha : isAlive st.holder <;>
      simp [Daemon.lockFacet, Daemon.releasedFacet, hst, ha, Option.filter]

theorem lockedBlock_status {c : Cycle} : (d.lockedBlock c).1.locks.status uid =
    if uid ∈ d.previouslyAttached ∧ uid ∉ c.scan.keys then none else d.locks.status uid := by
  unfold Daemon.lockedBlock
  rw [Daemon.giveUpLoop_locks, Daemon.diff_locks]

end Status

namespace System

variable {s s' : System} {a : Action} {i j : ℕ} {uid : String} {h : HolderRef} {st : LockStatus}
  {c c' : Conn}

/-- The step takes the lock on the uid for the holder, if the lock is free. -/
def Takes (s : System) (a : Action) (uid : String) (h : HolderRef) : Prop :=
  match a with
  | .lock i now req => ∃ c d, s.conns.lookup i = some c ∧ c.mode = .idle ∧ c.holder = h ∧
      opLock c.server s.daemon now req h = .ok (uid, d)
  | .poolAccept _ _ holder => holder = h ∧ ∃ r, s.pickFreeLocalRelay = some r ∧ r.uid = uid
  | _ => False

/-- A lock that is there after a step was there before, or the step has taken it. -/
theorem status_of_step (hs : s.step a = some s') (hst : s'.daemon.locks.status uid = some st) :
    s.daemon.locks.status uid = some st ∨
      s.daemon.locks.status uid = none ∧ s.Takes a uid st.holder := by
  have hacq : ∀ {now u kind h label} {m : LockManager},
      s.daemon.locks.acquire now u kind h label = .ok m → m.status uid = some st →
        s.daemon.locks.status uid = some st ∨
          s.daemon.locks.status uid = none ∧ u = uid ∧ st.holder = h := by
    intro now u kind h label m hm hu
    obtain ⟨hn, rfl⟩ := LockManager.acquire_eq_ok_iff.mp hm
    rw [LockManager.status_insert] at hu
    split at hu
    · rename_i he
      subst he
      obtain rfl := Option.some.inj hu
      exact Or.inr ⟨hn, rfl, rfl⟩
    · exact Or.inl hu
  cases step_cases hs with
  | lock hc hidle hop hmode =>
    obtain ⟨_, r, kind, locks, -, -, -, -, hl, rfl⟩ := opLock_eq_ok hop
    rcases hacq hl hst with (hold | ⟨hn, rfl, hh⟩)
    · exact Or.inl hold
    · exact Or.inr ⟨hn, _, _, hc, hidle, hh.symm, hh ▸ hop⟩
  | poolAccept hnew hr hl hfresh =>
    rcases hacq hl hst with (hold | ⟨hn, rfl, hh⟩)
    · exact Or.inl hold
    · exact Or.inr ⟨hn, hh.symm, _, hr, rfl⟩
  | unlock hc hidle hop hmode =>
    obtain ⟨token, r, -, -, -, rfl⟩ := opUnlock_eq_ok hop
    exact Or.inl (releaseLock_le hst)
  | forceUnlock hc hidle hserver hop =>
    obtain ⟨token, r, -, -, -, rfl⟩ := opForceUnlock_eq_ok hop
    rw [shutTracked_daemon, setDaemon, forceReleaseLock_status] at hst
    split at hst
    · cases hst
    · exact Or.inl hst
  | flashEnd hc hm => exact Or.inl (releaseLock_le hst)
  | streamEnd hc hm hclosed => exact Or.inl (releaseLock_le hst)
  | hangUp hc hm =>
    rw [releaseAll_status] at hst
    split at hst
    · exact Or.inl (Option.filter_eq_some_iff.mp hst).1
    · exact Or.inl hst
  | sweep =>
    rw [swept, sweepLocks_status] at hst
    exact Or.inl (Option.filter_eq_some_iff.mp hst).1
  | cycle =>
    rw [setDaemon, lockedBlock_status] at hst
    split at hst
    · cases hst
    · exact Or.inl hst
  | detachVirtual hr hv hd =>
    rw [shutTracked_daemon] at hst
    rcases hd with (rfl | ⟨h', rfl⟩)
    · exact Or.inl hst
    · exact Or.inl (releaseLock_le hst)
  | poolEnd hq hclosed => exact Or.inl (releaseLock_le hst)
  | _ => exact Or.inl hst

/-- The open connection of that holder has the uid among its acquired ones. -/
def Listed (s : System) (i : ℕ) (h : HolderRef) (uid : String) : Prop :=
  ∃ c, s.conns.lookup i = some c ∧ c.holder = h ∧ uid ∈ c.acquired

theorem Listed.of_insert (hl : s'.Listed j h uid) (hc : s'.conns = s.conns.insert i c) :
    s.Listed j h uid ∨ i = j ∧ c.holder = h ∧ uid ∈ c.acquired := by
  obtain ⟨c', hj, hh, hu⟩ := hl
  rw [hc] at hj
  rcases Dict.lookup_insert_cases hj with (⟨hij, rfl⟩ | hj)
  · exact Or.inr ⟨hij, hh, hu⟩
  · exact Or.inl ⟨c', hj, hh, hu⟩

/-- A connection that is changed keeps its holder, and what it lists still. -/
theorem Listed.insert (hl : s.Listed j h uid) (hc : s.conns.lookup i = some c)
    (he : s'.conns = s.conns.insert i c') (hh : c'.holder = c.holder)
    (hu : i = j → uid ∈ c.acquired → uid ∈ c'.acquired) : s'.Listed j h uid := by
  obtain ⟨x, hx, rfl, hm⟩ := hl
  by_cases hij : i = j
  · subst hij
    obtain rfl := Option.some.inj (hc.symm.trans hx)
    exact ⟨c', by rw [he, Dict.lookup_insert_self], hh, hu rfl hm⟩
  · exact ⟨x, by rw [he, Dict.lookup_insert_of_ne hij, hx], rfl, hm⟩

theorem shutTracked_conns (s : System) (u : String) :
    (s.shutTracked u).conns = s.conns ∨ ∃ i c, s.conns.lookup i = some c ∧
      (s.shutTracked u).conns = s.conns.insert i { c with shut := true } := by
  unfold shutTracked
  split
  · exact Or.inl rfl
  · rename_i k c hk
    obtain ⟨k', -, hk'⟩ := Option.bind_eq_some_iff.mp hk
    obtain ⟨c', hc', he⟩ := Option.map_eq_some_iff.mp hk'
    obtain ⟨rfl, rfl⟩ := Prod.mk.inj he
    exact Or.inr ⟨k', c', hc', rfl⟩

theorem listed_shutTracked {u : String} : (s.shutTracked u).Listed j h uid ↔ s.Listed j h uid := by
  rcases shutTracked_conns s u with (he | ⟨i, c, hc, he⟩)
  · simp only [Listed, he]
  · constructor
    · intro hl
      rcases hl.of_insert he with (hl | ⟨rfl, hh, hu⟩)
      · exact hl
      · exact ⟨c, hc, hh, hu⟩
    · exact fun hl => hl.insert hc he rfl fun _ => id

theorem listed_of_takes {now : ℕ} {req : LockRequest} (ht : s.Takes (.lock i now req) uid h)
    (hs : s.step (.lock i now req) = some s') : s'.Listed i h uid := by
  obtain ⟨c, d, hc, hidle, rfl, hop⟩ := ht
  obtain ⟨x, hx, -, hs⟩ := request_eq_some hs
  obtain rfl := Option.some.inj (hc.symm.trans hx)
  simp only [hop, Option.some.injEq] at hs
  subst hs
  exact ⟨_, Dict.lookup_insert_self, rfl, List.mem_insert_self⟩

/-- What a connection lists after a step it listed before, or the step was its `lock`. -/
theorem Listed.of_step (hl : s'.Listed j h uid) (hs : s.step a = some s') :
    s.Listed j h uid ∨ (∃ now req, a = .lock j now req) ∧ s.Takes a uid h := by
  have hkeep : ∀ {i : ℕ} {c c' : Conn}, s.conns.lookup i = some c →
      s'.conns = s.conns.insert i c' → c'.holder = c.holder →
      (uid ∈ c'.acquired → uid ∈ c.acquired) → s.Listed j h uid := by
    intro i c c' hc he hh hu
    rcases hl.of_insert he with (hl | ⟨rfl, hh', hu'⟩)
    · exact hl
    · exact ⟨c, hc, hh.symm.trans hh', hu hu'⟩
  cases step_cases hs with
  | connect =>
    rcases hl.of_insert rfl with (hl | ⟨-, -, hu⟩)
    · exact Or.inl hl
    · cases hu
  | lock hc hidle hop hmode =>
    rcases hl.of_insert rfl with (hl | ⟨rfl, rfl, hu⟩)
    · exact Or.inl hl
    · rcases List.mem_insert_iff.mp hu with (rfl | hu)
      · exact Or.inr ⟨⟨_, _, rfl⟩, _, _, hc, hidle, rfl, hop⟩
      · exact Or.inl ⟨_, hc, rfl, hu⟩
  | track hc => exact Or.inl (hkeep hc rfl rfl id)
  | unlock hc => exact Or.inl (hkeep hc rfl rfl List.mem_of_mem_filter)
  | untrack hc => exact Or.inl (hkeep hc rfl rfl id)
  | forceUnlock =>
    have hold := listed_shutTracked.mp hl
    exact Or.inl hold
  | flash hc => exact Or.inl (hkeep hc rfl rfl id)
  | flashEnd hc => exact Or.inl (hkeep hc rfl rfl List.mem_of_mem_filter)
  | stream hc => exact Or.inl (hkeep hc rfl rfl id)
  | session hc => exact Or.inl (hkeep hc rfl rfl id)
  | streamEnd hc => exact Or.inl (hkeep hc rfl rfl List.mem_of_mem_filter)
  | hangUp =>
    obtain ⟨c, hj, hh, hu⟩ := hl
    exact Or.inl ⟨c, (Dict.lookup_erase_eq_some hj).2, hh, hu⟩
  | detachVirtual =>
    have hold := listed_shutTracked.mp hl
    exact Or.inl hold
  | _ => exact Or.inl hl

theorem not_holds_releaseLock {d : Daemon} {now : ℕ} :
    ¬ Holds (d.releaseLock now uid h).locks uid h := by
  rintro ⟨st, hst, hh⟩
  rw [releaseLock_status, if_pos rfl] at hst
  simpa [hh] using (Option.filter_eq_some_iff.mp hst).2

/-- A connection drops a uid from its list only with the lock it has on it. -/
theorem Listed.step (hl : s.Listed j h uid) (hs : s.step a = some s') :
    s'.Listed j h uid ∨ ¬ Holds s'.daemon.locks uid h := by
  have hkeep : ∀ {i : ℕ} {c c' : Conn}, s.conns.lookup i = some c →
      s'.conns = s.conns.insert i c' → c'.holder = c.holder → c'.acquired = c.acquired →
      s'.Listed j h uid ∨ ¬ Holds s'.daemon.locks uid h := by
    intro i c c' hc he hh ha
    exact Or.inl (hl.insert hc he hh fun _ hu => ha ▸ hu)
  have hdrop : ∀ {i now : ℕ} {c c' : Conn} {u : String}, s.conns.lookup i = some c →
      s'.conns = s.conns.insert i c' → c'.holder = c.holder →
      c'.acquired = c.acquired.filter (· ≠ u) → s'.daemon = s.daemon.releaseLock now u c.holder →
      s'.Listed j h uid ∨ ¬ Holds s'.daemon.locks uid h := by
    intro i now c c' u hc he hh ha hd
    by_cases hiu : i = j ∧ u = uid
    · obtain ⟨rfl, rfl⟩ := hiu
      obtain ⟨x, hx, rfl, -⟩ := hl
      obtain rfl := Option.some.inj (hc.symm.trans hx)
      exact Or.inr (hd ▸ not_holds_releaseLock)
    · refine Or.inl (hl.insert hc he hh fun hij hu => ?_)
      rw [ha, List.mem_filter]
      exact ⟨hu, by simpa using fun hx => hiu ⟨hij, hx.symm⟩⟩
  cases step_cases hs with
  | connect hnew =>
    obtain ⟨x, hx, hh, hu⟩ := hl
    refine Or.inl ⟨x, ?_, hh, hu⟩
    rw [setConn, Dict.lookup_insert_of_ne, hx]
    rintro rfl
    cases hnew.symm.trans hx
  | lock hc => exact Or.inl (hl.insert hc rfl rfl fun _ => List.mem_insert_of_mem)
  | track hc => exact hkeep hc rfl rfl rfl
  | unlock hc hidle hop =>
    obtain ⟨token, r, -, -, -, rfl⟩ := opUnlock_eq_ok hop
    exact hdrop hc rfl rfl rfl rfl
  | untrack hc => exact hkeep hc rfl rfl rfl
  | forceUnlock => exact Or.inl ((listed_shutTracked (s := s.setDaemon _)).mpr hl)
  | flash hc => exact hkeep hc rfl rfl rfl
  | flashEnd hc => exact hdrop hc rfl rfl rfl rfl
  | stream hc => exact hkeep hc rfl rfl rfl
  | session hc => exact hkeep hc rfl rfl rfl
  | streamEnd hc => exact hdrop hc rfl rfl rfl rfl
  | hangUp hc hm =>
    rename_i i now c uidConnections
    by_cases hij : i = j
    · subst hij
      obtain ⟨x, hx, rfl, hu⟩ := hl
      obtain rfl := Option.some.inj (hc.symm.trans hx)
      refine Or.inr ?_
      rintro ⟨st, hst, hh⟩
      rw [releaseAll_status, if_pos hu] at hst
      simpa [hh] using (Option.filter_eq_some_iff.mp hst).2
    · obtain ⟨x, hx, hh, hu⟩ := hl
      exact Or.inl ⟨x, by rw [Dict.lookup_erase_of_ne hij, hx], hh, hu⟩
  | detachVirtual => exact Or.inl ((listed_shutTracked (s := s.setDaemon _)).mpr hl)
  | _ => exact Or.inl hl

/-- What a step can do to the connections: nothing, change one, open one or end one. -/
theorem conns_of_step (hs : s.step a = some s') :
    s'.conns = s.conns ∨
      (∃ i c c', s.conns.lookup i = some c ∧ s'.conns = s.conns.insert i c' ∧
        c'.server = c.server ∧ c'.holder = c.holder) ∨
      (∃ i server holder, a = .connect i server holder ∧
        s'.conns = s.conns.insert i ⟨server, holder, [], false, .idle⟩) ∨
      ∃ i now, a = .hangUp i now ∧ s'.conns = s.conns.erase i := by
  have hshut : ∀ {t : System} {u : String}, s'.conns = (t.shutTracked u).conns →
      t.conns = s.conns → s'.conns = s.conns ∨ ∃ i c c', s.conns.lookup i = some c ∧
        s'.conns = s.conns.insert i c' ∧ c'.server = c.server ∧ c'.holder = c.holder := by
    intro t u he ht
    rcases shutTracked_conns t u with (hu | ⟨i, c, hc, hu⟩)
    · exact Or.inl (by rw [he, hu, ht])
    · exact Or.inr ⟨i, c, { c with shut := true }, ht ▸ hc, by rw [he, hu, ht], rfl, rfl⟩
  cases step_cases hs with
  | connect => exact Or.inr (Or.inr (Or.inl ⟨_, _, _, rfl, rfl⟩))
  | lock hc => exact Or.inr (Or.inl ⟨_, _, _, hc, rfl, rfl, rfl⟩)
  | track hc => exact Or.inr (Or.inl ⟨_, _, _, hc, rfl, rfl, rfl⟩)
  | unlock hc => exact Or.inr (Or.inl ⟨_, _, _, hc, rfl, rfl, rfl⟩)
  | untrack hc => exact Or.inr (Or.inl ⟨_, _, _, hc, rfl, rfl, rfl⟩)
  | forceUnlock => exact (hshut rfl rfl).imp_right Or.inl
  | flash hc => exact Or.inr (Or.inl ⟨_, _, _, hc, rfl, rfl, rfl⟩)
  | flashEnd hc => exact Or.inr (Or.inl ⟨_, _, _, hc, rfl, rfl, rfl⟩)
  | stream hc => exact Or.inr (Or.inl ⟨_, _, _, hc, rfl, rfl, rfl⟩)
  | session hc => exact Or.inr (Or.inl ⟨_, _, _, hc, rfl, rfl, rfl⟩)
  | streamEnd hc => exact Or.inr (Or.inl ⟨_, _, _, hc, rfl, rfl, rfl⟩)
  | hangUp => exact Or.inr (Or.inr (Or.inr ⟨_, _, rfl, rfl⟩))
  | detachVirtual => exact (hshut rfl rfl).imp_right Or.inl
  | _ => exact Or.inl rfl

theorem conn_of_step (hc : s'.conns.lookup j = some c') (hs : s.step a = some s') :
    (∃ server holder, a = .connect j server holder ∧ c' = ⟨server, holder, [], false, .idle⟩) ∨
      ∃ c, s.conns.lookup j = some c ∧ c'.server = c.server ∧ c'.holder = c.holder := by
  rcases conns_of_step hs with
    (he | ⟨i, x, y, hx, he, hserver, hh⟩ | ⟨i, server, holder, rfl, he⟩ | ⟨i, now, rfl, he⟩)
  · exact Or.inr ⟨c', by rw [← he, hc], rfl, rfl⟩
  · rw [he] at hc
    rcases Dict.lookup_insert_cases hc with (⟨rfl, rfl⟩ | hc)
    · exact Or.inr ⟨x, hx, hserver, hh⟩
    · exact Or.inr ⟨c', hc, rfl, rfl⟩
  · rw [he] at hc
    rcases Dict.lookup_insert_cases hc with (⟨rfl, rfl⟩ | hc)
    · exact Or.inl ⟨server, holder, rfl, rfl⟩
    · exact Or.inr ⟨c', hc, rfl, rfl⟩
  · rw [he] at hc
    exact Or.inr ⟨c', (Dict.lookup_erase_eq_some hc).2, rfl, rfl⟩

theorem open_of_step (hc : s.conns.lookup j = some c) (hs : s.step a = some s')
    (hne : ∀ now, a ≠ .hangUp j now) : ∃ c', s'.conns.lookup j = some c' := by
  have hinsert : ∀ {i : ℕ} {x : Conn}, s'.conns = s.conns.insert i x →
      ∃ c', s'.conns.lookup j = some c' := by
    intro i x he
    rw [he, Dict.lookup_insert]
    split
    · exact ⟨x, rfl⟩
    · exact ⟨c, hc⟩
  rcases conns_of_step hs with
    (he | ⟨i, x, y, -, he, -, -⟩ | ⟨i, server, holder, -, he⟩ | ⟨i, now, rfl, he⟩)
  · exact ⟨c, by rw [he, hc]⟩
  · exact hinsert he
  · exact hinsert he
  · refine ⟨c, ?_⟩
    rw [he, Dict.lookup_erase_of_ne, hc]
    rintro rfl
    exact hne now rfl

theorem poolHolder_of_step {p : ℕ} {q' : PoolSession} (hq : s'.pool.lookup p = some q')
    (hs : s.step a = some s') : (∃ now, a = .poolAccept p now q'.holder) ∨
      ∃ q, s.pool.lookup p = some q ∧ q'.holder = q.holder := by
  cases step_cases hs with
  | forceUnlock =>
    rw [shutTracked_pool] at hq
    exact Or.inr ⟨q', hq, rfl⟩
  | detachVirtual =>
    rw [shutTracked_pool] at hq
    exact Or.inr ⟨q', hq, rfl⟩
  | poolAccept =>
    rcases Dict.lookup_insert_cases hq with (⟨rfl, rfl⟩ | hq)
    · exact Or.inl ⟨_, rfl⟩
    · exact Or.inr ⟨q', hq, rfl⟩
  | pool hold hu =>
    rcases Dict.lookup_insert_cases hq with (⟨rfl, rfl⟩ | hq)
    · exact Or.inr ⟨_, hold, (PoolSession.step_keeps hu).2.1⟩
    · exact Or.inr ⟨q', hq, rfl⟩
  | poolEnd =>
    exact Or.inr ⟨q', (Dict.lookup_erase_eq_some hq).2, rfl⟩
  | poolCrash =>
    exact Or.inr ⟨q', (Dict.lookup_erase_eq_some hq).2, rfl⟩
  | _ => exact Or.inr ⟨q', hq, rfl⟩

end System

/-! ## The ledger -/

/-- The system, and the connection each uid's lock was granted to last. -/
structure Ledger where
  sys : System
  granted : Dict String ℕ

/-- The relay pool names its holders apart from every process and session. -/
def isPoolRef (holder : HolderRef) : Bool :=
  "console-compat-pool:".toList.isPrefixOf holder.ref.toList

namespace Ledger

/-- The parties of a registry that listens on a Unix socket. -/
def admits : Action → Bool
  | .connect _ server holder => server ≠ .pipe && !isPoolRef holder
  | .sweep server _ _ => server ≠ .pipe
  | .poolAccept _ _ holder => isPoolRef holder
  | _ => true

def grant (w : Ledger) : Action → Dict String ℕ
  | .lock i now req =>
    match w.sys.conns.lookup i with
    | none => w.granted
    | some c =>
      match opLock c.server w.sys.daemon now req c.holder with
      | .error _ => w.granted
      | .ok (uid, _) => w.granted.insert uid i
  | .poolAccept _ _ _ =>
    match w.sys.pickFreeLocalRelay with
    | none => w.granted
    | some r => w.granted.erase r.uid
  | _ => w.granted

def step (w : Ledger) (a : Action) : Option Ledger :=
  if admits a then (w.sys.step a).map (⟨·, w.grant a⟩) else none

def start (C : Casing) (store : Store) : Ledger := ⟨System.start C store, Table.empty⟩

section Step

variable {w w' : Ledger} {a : Action} {i : ℕ} {uid : String} {st : LockStatus}

theorem step_eq_some : w.step a = some w' ↔
    admits a = true ∧ w.sys.step a = some w'.sys ∧ w'.granted = w.grant a := by
  unfold step
  split
  · rename_i ha
    cases w'
    simp [ha, eq_comm]
  · rename_i ha
    simp [ha]

theorem grant_of_takes {h : HolderRef} (ht : w.sys.Takes a uid h) :
    (∃ i now req, a = .lock i now req ∧ (w.grant a).lookup uid = some i) ∨
      (∃ p now, a = .poolAccept p now h ∧ (w.grant a).lookup uid = none) := by
  unfold System.Takes at ht
  split at ht
  · obtain ⟨c, d, hc, -, rfl, hop⟩ := ht
    refine Or.inl ⟨_, _, _, rfl, ?_⟩
    simp [grant, hc, hop]
  · obtain ⟨rfl, r, hr, rfl⟩ := ht
    refine Or.inr ⟨_, _, rfl, ?_⟩
    simp [grant, hr]
  · exact ht.elim

theorem grant_of_held (hs : w.sys.step a = some w'.sys)
    (hst : w.sys.daemon.locks.status uid = some st) :
    (w.grant a).lookup uid = w.granted.lookup uid := by
  unfold grant
  split
  · split
    · rfl
    · split
      · rfl
      · rename_i u d hop
        obtain ⟨_, _, _, _, -, -, -, -, hl, -⟩ := opLock_eq_ok hop
        obtain ⟨hn, -⟩ := LockManager.acquire_eq_ok_iff.mp hl
        rw [Dict.lookup_insert_of_ne]
        rintro rfl
        cases hn.symm.trans hst
  · rename_i p now holder
    split
    · rfl
    · rename_i r hr
      rw [Dict.lookup_erase_of_ne]
      rintro rfl
      have hfree := List.find?_some hr
      simp [hst] at hfree
  · rfl

/-- Who holds a lock, and who has what holder. -/
structure Balanced (w : Ledger) : Prop where
  conns : ∀ i c, w.sys.conns.lookup i = some c → isPoolRef c.holder = false ∧ c.server ≠ .pipe ∧
    (c.server = .tcp ↔ c.holder.origin = .remote)
  pool : ∀ p q, w.sys.pool.lookup p = some q → isPoolRef q.holder = true
  held : ∀ uid st, w.sys.daemon.locks.status uid = some st →
    (isPoolRef st.holder = true ∧ w.granted.lookup uid = none) ∨
      ∃ i, w.granted.lookup uid = some i ∧ w.sys.Listed i st.holder uid

theorem Balanced.start (C : Casing) (store : Store) : (start C store).Balanced := by
  constructor
  case conns =>
    intro i c hc
    cases hc
  case pool =>
    intro p q hq
    cases hq
  case held =>
    intro uid st hst
    cases hst

theorem Balanced.step (hb : w.Balanced) (hs : w.step a = some w') : w'.Balanced := by
  obtain ⟨hadm, hs, hg⟩ := step_eq_some.mp hs
  constructor
  case conns =>
    intro i c hc
    rcases System.conn_of_step hc hs with (⟨server, holder, rfl, rfl⟩ | ⟨x, hx, hserver, hh⟩)
    · have horigin : server = .tcp ↔ holder.origin = .remote := by
        simp only [System.step, Option.ite_none_right_eq_some] at hs
        exact hs.1.2.1
      simp only [admits, Bool.and_eq_true, decide_eq_true_iff, Bool.not_eq_true'] at hadm
      exact ⟨hadm.2, hadm.1, horigin⟩
    · rw [hserver, hh]
      exact hb.conns i x hx
  case pool =>
    intro p q hq
    rcases System.poolHolder_of_step hq hs with (⟨now, rfl⟩ | ⟨x, hx, hh⟩)
    · exact hadm
    · rw [hh]
      exact hb.pool p x hx
  case held =>
    intro uid st hst
    rw [hg]
    rcases System.status_of_step hs hst with (hold | ⟨hn, ht⟩)
    · rw [grant_of_held hs hold]
      rcases hb.held uid st hold with (hpool | ⟨i, hi, hl⟩)
      · exact Or.inl hpool
      · rcases hl.step hs with (hl | hno)
        · exact Or.inr ⟨i, hi, hl⟩
        · exact absurd ⟨st, hst, rfl⟩ hno
    · rcases grant_of_takes ht with (⟨i, now, req, rfl, hi⟩ | ⟨p, now, rfl, hi⟩)
      · exact Or.inr ⟨i, hi, System.listed_of_takes ht hs⟩
      · exact Or.inl ⟨hadm, hi⟩

end Step

end Ledger

end MbTools.Api
