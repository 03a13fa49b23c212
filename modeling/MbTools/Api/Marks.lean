import MbTools.Api.Closing

/-! # Operations in two sections

The `lock` and the `unlock` of the local socket each take the shared lock twice,
and other sections come in between. A mark says which of the two a connection is
in the middle of; the steps that turn a mark are given exactly.
-/

namespace MbTools.Api

open Store Runs

/-- An operation between its two sections; every other mode is as good as idle. -/
def Mode.pending : Mode → Mode
  | .tracking uid => .tracking uid
  | .untracking uid => .untracking uid
  | _ => .idle

theorem Mode.eq_of_pending {m : Mode} {uid : String} (h : m.pending = .untracking uid) :
    m = .untracking uid := by
  cases m <;> first | exact h | cases h

theorem Mode.pending_ite (p : Prop) [Decidable p] (m : Mode) :
    (if p then m else .idle).pending = if p then m.pending else .idle := by
  split <;> rfl

namespace System

variable {s s' : System} {a : Action} {i j now : ℕ} {c c' : Conn} {uid u : String}

/-- What the map has to know of a connection. -/
def mark (s : System) (j : ℕ) : Option (Server × Mode) :=
  (s.conns.lookup j).map fun c => (c.server, c.mode.pending)

theorem mark_of_conn (hc : s.conns.lookup i = some c) :
    s.mark i = some (c.server, c.mode.pending) := by
  rw [mark, hc]
  rfl

theorem mark_insert (he : s'.conns = s.conns.insert i c) (j : ℕ) :
    s'.mark j = if i = j then some (c.server, c.mode.pending) else s.mark j := by
  rw [mark, he, Dict.lookup_insert]
  split
  · rfl
  · rfl

/-- A change of a connection that begins and ends no operation. -/
theorem mark_keep (he : s'.conns = s.conns.insert i c)
    (hm : s.mark i = some (c.server, c.mode.pending)) (j : ℕ) : s'.mark j = s.mark j := by
  rw [mark_insert he]
  split
  · rename_i hij
    rw [← hij, hm]
  · rfl

theorem mark_shutTracked (s : System) (u : String) (j : ℕ) :
    (s.shutTracked u).mark j = s.mark j := by
  rcases shutTracked_conns s u with (he | ⟨i, c, hc, he⟩)
  · rw [mark, he, mark]
  · exact mark_keep he (by rw [mark_of_conn hc]) j

@[simp] theorem shutTracked_uidConnections (s : System) (u : String) :
    (s.shutTracked u).uidConnections = s.uidConnections.erase u := by
  unfold shutTracked
  split <;> rfl

/-- The steps at which an operation begins or ends its second section, and those by which a
connection comes and goes. -/
def Turns : Action → Bool
  | .connect _ _ _ => true
  | .lock _ _ _ => true
  | .track _ => true
  | .unlock _ _ _ => true
  | .untrack _ => true
  | .hangUp _ _ => true
  | _ => false

theorem mark_step (hs : s.step a = some s') (ha : Turns a = false) (j : ℕ) :
    s'.mark j = s.mark j := by
  cases step_cases hs with
  | connect => cases ha
  | lock => cases ha
  | track => cases ha
  | unlock => cases ha
  | untrack => cases ha
  | hangUp => cases ha
  | forceUnlock => exact mark_shutTracked _ _ j
  | flash hc hm => exact mark_keep rfl (by rw [mark_of_conn hc, hm]; rfl) j
  | flashEnd hc hm => exact mark_keep rfl (by rw [mark_of_conn hc, hm]; rfl) j
  | stream hc hm => exact mark_keep rfl (by rw [mark_of_conn hc, hm]; rfl) j
  | session hc hm => exact mark_keep rfl (by rw [mark_of_conn hc, hm]; rfl) j
  | streamEnd hc hm => exact mark_keep rfl (by rw [mark_of_conn hc, hm]; rfl) j
  | detachVirtual => exact mark_shutTracked _ _ j
  | _ => rfl

/-- The uid whose entry a step drops, shutting the connection it names. -/
def Cuts (s : System) (a : Action) (uid : String) : Prop :=
  match a with
  | .forceUnlock _ now x => ∃ status d, opForceUnlock s.daemon now x = .ok (uid, status, d)
  | .detachVirtual _ x => x = uid
  | _ => False

/-! ## The exact steps -/

theorem lock_step {req : LockRequest} (hs : s.step (.lock i now req) = some s') :
    s' = s ∧ (∀ uid h, ¬ s.Takes (.lock i now req) uid h) ∨
      ∃ c uid, s.conns.lookup i = some c ∧ c.mode = .idle ∧
        s.Takes (.lock i now req) uid c.holder ∧ s.daemon.locks.status uid = none ∧
        (∀ v h, s.Takes (.lock i now req) v h → v = uid) ∧
        (∃ st, ∀ v, s'.daemon.locks.status v =
          if uid = v then some st else s.daemon.locks.status v) ∧
        s'.uidConnections = s.uidConnections ∧
        s'.conns = s.conns.insert i { c with acquired := c.acquired.insert uid, mode :=
          if c.server = .socket ∧ uid ∉ c.acquired then .tracking uid else .idle } := by
  obtain ⟨c, hc, hidle, hs⟩ := request_eq_some hs
  split at hs
  · rename_i e hop
    refine Or.inl ⟨(Option.some.inj hs).symm, ?_⟩
    rintro uid h ⟨x, d, hx, -, rfl, hok⟩
    obtain rfl := Option.some.inj (hc.symm.trans hx)
    cases hop.symm.trans hok
  · rename_i uid d hop
    obtain rfl := Option.some.inj hs
    obtain ⟨_, _, kind, _, -, -, -, -, hl, rfl⟩ := opLock_eq_ok hop
    obtain ⟨hn, rfl⟩ := LockManager.acquire_eq_ok_iff.mp hl
    refine Or.inr ⟨c, uid, hc, hidle, ⟨c, _, hc, hidle, rfl, hop⟩, hn, ?_,
      ⟨⟨kind, c.holder, req.label, now⟩, fun v => ?_⟩, rfl, rfl⟩
    · rintro v h ⟨x, e, hx, -, rfl, hok⟩
      obtain rfl := Option.some.inj (hc.symm.trans hx)
      rw [hop, Except.ok.injEq, Prod.mk.injEq] at hok
      exact hok.1.symm
    · exact LockManager.status_insert s.daemon.locks uid _ v

theorem track_step (hs : s.step (.track i) = some s') :
    ∃ c uid, s.conns.lookup i = some c ∧ c.mode = .tracking uid ∧ s'.daemon = s.daemon ∧
      s'.uidConnections = s.uidConnections.insert uid i ∧
      s'.conns = s.conns.insert i { c with mode := .idle } := by
  obtain ⟨c, hc, hs⟩ := onConn_eq_some hs
  split at hs
  · rename_i uid hm
    obtain rfl := Option.some.inj hs
    exact ⟨c, uid, hc, hm, rfl, rfl, rfl⟩
  · cases hs

theorem untrack_step (hs : s.step (.untrack i) = some s') :
    ∃ c uid, s.conns.lookup i = some c ∧ c.mode = .untracking uid ∧ s'.daemon = s.daemon ∧
      s'.uidConnections = s.uidConnections.erase uid ∧
      s'.conns = s.conns.insert i { c with mode := .idle } := by
  obtain ⟨c, hc, hs⟩ := onConn_eq_some hs
  split at hs
  · rename_i uid hm
    obtain rfl := Option.some.inj hs
    exact ⟨c, uid, hc, hm, rfl, rfl, rfl⟩
  · cases hs

theorem unlock_step {x : Option String} (hs : s.step (.unlock i now x) = some s') :
    s' = s ∧ (∀ uid, ¬ s.Drops (.unlock i now x) uid) ∨
      ∃ c uid, s.conns.lookup i = some c ∧ c.mode = .idle ∧
        (∀ v, s.Drops (.unlock i now x) v ↔ v = uid) ∧
        s'.daemon = s.daemon.releaseLock now uid c.holder ∧
        s'.uidConnections = s.uidConnections ∧
        s'.conns = s.conns.insert i { c with acquired := c.acquired.filter (· ≠ uid), mode :=
          if c.server = .socket ∧ uid ∈ c.acquired then .untracking uid else .idle } := by
  obtain ⟨c, hc, hidle, hs⟩ := request_eq_some hs
  split at hs
  · rename_i e hop
    refine Or.inl ⟨(Option.some.inj hs).symm, ?_⟩
    rintro uid ⟨y, released, d, hy, hok⟩
    obtain rfl := Option.some.inj (hc.symm.trans hy)
    cases hop.symm.trans hok
  · rename_i uid released d hop
    obtain rfl := Option.some.inj hs
    obtain ⟨_, _, -, -, -, rfl⟩ := opUnlock_eq_ok hop
    refine Or.inr ⟨c, uid, hc, hidle, fun v => ?_, rfl, rfl, rfl⟩
    constructor
    · rintro ⟨y, r, e, hy, hok⟩
      obtain rfl := Option.some.inj (hc.symm.trans hy)
      rw [hop, Except.ok.injEq, Prod.mk.injEq] at hok
      exact hok.1.symm
    · rintro rfl
      exact ⟨c, released, _, hc, hop⟩

theorem hangUp_step (hs : s.step (.hangUp i now) = some s') :
    ∃ c, s.conns.lookup i = some c ∧ c.mode.mayEnd = true ∧
      s'.daemon = releaseAll s.daemon now c.holder c.acquired ∧ s'.conns = s.conns.erase i ∧
      s'.uidConnections =
        if c.server = .socket then c.acquired.foldl Table.erase s.uidConnections
        else s.uidConnections := by
  obtain ⟨c, hc, hs⟩ := onConn_eq_some hs
  rw [Option.ite_none_right_eq_some] at hs
  obtain ⟨hm, hs⟩ := hs
  obtain rfl := Option.some.inj hs
  exact ⟨c, hc, hm, rfl, rfl, rfl⟩

/-- The connection is a local one, and not about to write the uid down. -/
def Present (s : System) (uid : String) (j : ℕ) : Prop :=
  ∃ m, s.mark j = some (.socket, m) ∧ m ≠ .tracking uid

theorem flashEnd_step (hs : s.step (.flashEnd i now) = some s') :
    ∃ c uid, s.conns.lookup i = some c ∧ c.mode = .flashing uid ∧
      s'.daemon = s.daemon.releaseLock now uid c.holder ∧
      s'.uidConnections =
        if c.server = .socket then s.uidConnections.erase uid else s.uidConnections := by
  obtain ⟨c, hc, hs⟩ := onConn_eq_some hs
  split at hs
  · rename_i uid hm
    obtain rfl := Option.some.inj hs
    exact ⟨c, uid, hc, hm, rfl, rfl⟩
  · cases hs

theorem streamEnd_step (hs : s.step (.streamEnd i now) = some s') :
    ∃ c t, s.conns.lookup i = some c ∧ c.mode = .streaming t ∧
      s'.daemon = s.daemon.releaseLock now t.uid c.holder ∧
      s'.uidConnections = s.uidConnections := by
  obtain ⟨c, hc, hs⟩ := onConn_eq_some hs
  split at hs
  · rename_i t hm
    rw [Option.ite_none_right_eq_some] at hs
    obtain rfl := Option.some.inj hs.2
    exact ⟨c, t, hc, hm, rfl, rfl⟩
  · cases hs

/-- A virtual board that goes takes the lock on it along. -/
theorem detachVirtual_status (hs : s.step (.detachVirtual now u) = some s') (v : String) :
    s'.daemon.locks.status v = if u = v then none else s.daemon.locks.status v := by
  simp only [step] at hs
  split at hs
  · cases hs
  · split at hs <;> cases hs
    rw [shutTracked_daemon, setDaemon]
    split
    · rename_i hn
      split
      · rename_i he
        rw [← he, hn]
      · rfl
    · rename_i st hst
      rw [releaseLock_status]
      split
      · rename_i he
        rw [← he, hst]
        simp [Option.filter]
      · rfl

/-- An operation under way is the local socket's, and a connection that is leaving a uid lists it
no more. -/
def MidOp (s : System) : Prop :=
  ∀ i c uid, s.conns.lookup i = some c →
    (c.mode = .tracking uid → c.server = .socket) ∧ (c.mode = .untracking uid → uid ∉ c.acquired)

theorem MidOp.insert (hm : s.MidOp) (he : s'.conns = s.conns.insert i c)
    (hc : ∀ uid, (c.mode = .tracking uid → c.server = .socket) ∧
      (c.mode = .untracking uid → uid ∉ c.acquired)) : s'.MidOp := by
  intro j x uid hx
  rw [he] at hx
  rcases Dict.lookup_insert_cases hx with (⟨-, rfl⟩ | hx)
  · exact hc uid
  · exact hm j x uid hx

theorem MidOp.shutTracked (hm : s.MidOp) (u : String) : (s.shutTracked u).MidOp := by
  rcases shutTracked_conns s u with (he | ⟨i, c, hc, he⟩)
  · intro j x uid hx
    rw [he] at hx
    exact hm j x uid hx
  · exact hm.insert he fun uid => hm i c uid hc

theorem MidOp.step (hm : s.MidOp) (hs : s.step a = some s') : s'.MidOp := by
  cases step_cases hs with
  | connect => exact hm.insert rfl fun _ => ⟨nofun, nofun⟩
  | lock hc hidle hop hmode =>
    rcases lock_step hs with (⟨he, -⟩ | ⟨c, uid, -, -, -, -, -, -, -, he⟩)
    · rw [he]
      exact hm
    · refine hm.insert he fun v => ?_
      dsimp only
      split
      · rename_i hsock
        exact ⟨fun _ => hsock.1, nofun⟩
      · exact ⟨nofun, nofun⟩
  | track => exact hm.insert rfl fun _ => ⟨nofun, nofun⟩
  | unlock hc hidle hop hmode =>
    rcases unlock_step hs with (⟨he, -⟩ | ⟨c, uid, -, -, -, -, -, he⟩)
    · rw [he]
      exact hm
    · refine hm.insert he fun v => ?_
      dsimp only
      split
      · refine ⟨nofun, fun hv => ?_⟩
        obtain rfl := Mode.untracking.inj hv
        simp
      · exact ⟨nofun, nofun⟩
  | untrack => exact hm.insert rfl fun _ => ⟨nofun, nofun⟩
  | forceUnlock =>
    apply MidOp.shutTracked
    exact hm
  | flash => exact hm.insert rfl fun _ => ⟨nofun, nofun⟩
  | flashEnd => exact hm.insert rfl fun _ => ⟨nofun, nofun⟩
  | stream => exact hm.insert rfl fun _ => ⟨nofun, nofun⟩
  | session => exact hm.insert rfl fun _ => ⟨nofun, nofun⟩
  | streamEnd => exact hm.insert rfl fun _ => ⟨nofun, nofun⟩
  | hangUp =>
    intro j x uid hx
    exact hm j x uid (Dict.lookup_erase_eq_some hx).2
  | detachVirtual =>
    apply MidOp.shutTracked
    exact hm
  | _ => exact hm

end System

end MbTools.Api
