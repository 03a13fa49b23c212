import Mathlib.Data.Finset.Insert
import Mathlib.Data.Fintype.Defs
import MbTools.Api.Rescan
import MbTools.Lib.Runs
import MbTools.Peering.Effects
import MbTools.Peering.Reply

/-! # The threads of one link

A link's threads share one flag: the monitor sets it when the connection drops,
a resync clears it for the time of its own fetch, and every fetch tests it
before it marks the peer reachable. The initial fetch runs on a thread of its
own, and a resync and a forced resync keep each other out.
-/

namespace MbTools

open Peering

/-- Who runs `_fetch_snapshot`. -/
inductive Fetcher where
  | initial
  | resync
  | force
  deriving DecidableEq, Repr

instance : Fintype Fetcher := ⟨{.initial, .resync, .force}, fun f => by cases f <;> decide⟩

/-- How far a fetch is: its request is out, its reply is applied, or it has found the flag clear
and its callback is due. -/
inductive Stage where
  | asked
  | answered
  | passed
  deriving DecidableEq, Repr

structure Fetch where
  stage : Stage
  /-- The disconnect events before the fetch. -/
  since : ℕ
  deriving DecidableEq, Repr

/-- A link that was started and not stopped. -/
structure PeerLink where
  store : Store
  dropped : Bool
  fetch : Fetcher → Option Fetch
  /-- The threads of `start_resync` that have not tested the flag yet. -/
  started : ℕ
  /-- Those that found it set. -/
  entered : ℕ
  /-- The monitor has set the flag, and its callback is due. -/
  lossDue : Bool
  /-- The disconnect events so far. -/
  drops : ℕ
  /-- Those whose callback has returned. -/
  processed : ℕ
  /-- The disconnect events that some fetch has been asked after and answered. -/
  refreshed : ℕ

namespace PeerLink

inductive Action where
  | disconnected
  | lost
  | reconnected
  | resyncTick
  | enterResync
  | runResync
  | runForceResync
  | answer (f : Fetcher) (now : ℕ) (reply : SnapshotReply)
  /-- The reply is no JSON, or a refusal: the fetch returns `False`. -/
  | refuse (f : Fetcher)
  /-- The fetch raises on the reply, and this much of it has been applied. -/
  | raised (f : Fetcher) (now : ℕ) (part : Part)
  | timeout (f : Fetcher)
  | test (f : Fetcher)
  | reached (f : Fetcher)
  | event (now : ℕ) (e : Event)
  | rescan (locks : LockManager)

/-- Is `_resync_guard` free? -/
def guardFree (l : PeerLink) : Bool := (l.fetch .resync).isNone && (l.fetch .force).isNone

/-- `start_resync`. Its test for a live thread is left out: of two threads one does not get past
the guard. -/
def startResync (l : PeerLink) : PeerLink :=
  if l.dropped then { l with started := l.started + 1 } else l

def ask (l : PeerLink) (f : Fetcher) : PeerLink :=
  { l with fetch := Function.update l.fetch f (some ⟨.asked, l.drops⟩) }

def moved (l : PeerLink) (f : Fetcher) (x : Fetch) (stage : Stage) : PeerLink :=
  { l with fetch := Function.update l.fetch f (some { x with stage }) }

/-- The fetch returns `False`. A resync sets the flag again; no test of the flag tells a fetch that
has returned from one that is about to. -/
def failed (l : PeerLink) (f : Fetcher) : PeerLink :=
  { l with
    fetch := Function.update l.fetch f none
    dropped := l.dropped || f = .resync }

/-- The fetch marked the peer reachable and returns `True`, or it raises: `resync` catches no
exception of a reply, so its flag stays cleared. -/
def ended (l : PeerLink) (f : Fetcher) : PeerLink :=
  { l with fetch := Function.update l.fetch f none }

def mark (l : PeerLink) (host : String) (reachable : Bool) : PeerLink :=
  { l with store := marked l.store host reachable }

/-- The fetch, if it is at this stage. -/
def fetchAt (l : PeerLink) (f : Fetcher) (stage : Stage) : Option Fetch :=
  (l.fetch f).filter (·.stage = stage)

def step (host : String) (l : PeerLink) : Action → Option PeerLink
  | .disconnected =>
    -- the monitor is one thread: it takes no event before its callback has returned
    if l.lossDue then none
    else some { l with dropped := true, lossDue := true, drops := l.drops + 1 }
  | .lost =>
    if l.lossDue then some { l.mark host false with lossDue := false, processed := l.drops }
    else none
  | .reconnected => if l.lossDue then none else some l.startResync
  | .resyncTick => some l.startResync
  | .enterResync =>
    if l.started = 0 then none
    else some { l with
      started := l.started - 1, entered := if l.dropped then l.entered + 1 else l.entered }
  | .runResync =>
    if l.entered = 0 then none
    else if l.guardFree then
      some { l.ask .resync with entered := l.entered - 1, dropped := false }
    else some { l with entered := l.entered - 1 }
  | .runForceResync => some (if l.guardFree then l.ask .force else l)
  | .answer f now reply =>
    (l.fetchAt f .asked).map fun x =>
      { l.moved f x .answered with
        store := applyInput host l.store (.snapshot now reply)
        refreshed := max l.refreshed x.since }
  | .refuse f => (l.fetchAt f .asked).map fun _ => l.failed f
  | .raised f now part =>
    (l.fetchAt f .asked).map fun _ =>
      { l.ended f with store := applyPart l.store now host part }
  | .timeout f => (l.fetchAt f .asked).map fun _ => (l.mark host false).failed f
  | .test f =>
    (l.fetchAt f .answered).map fun x => if l.dropped then l.failed f else l.moved f x .passed
  | .reached f => (l.fetchAt f .passed).map fun _ => (l.mark host true).ended f
  | .event now e => some { l with store := applyInput host l.store (.event now e) }
  | .rescan locks => some { l with store := (Api.opRescan l.store locks true false).store }

/-- `start` has connected the subscription and started the first fetch. -/
def start (s : Store) : PeerLink :=
  ⟨s, false, Function.update (fun _ => none) .initial (some ⟨.asked, 0⟩), 0, 0, false, 0, 0, 0⟩

/-- A peer that was just discovered. -/
def discovered : Store := Store.empty.recordPeerSeen 1 "loki" "10.0.0.7:7440"

/-- What the peer's row says, if it has one. -/
def rowReachable (host : String) (l : PeerLink) : Option Bool :=
  (l.store.getPeer host).map PeerRecord.reachable

section Lemmas

variable {l : PeerLink} {f g : Fetcher} {x y : Fetch} {stage : Stage} {host : String}

theorem fetchAt_eq_some_iff :
    l.fetchAt f stage = some x ↔ l.fetch f = some x ∧ x.stage = stage := by
  rw [fetchAt, Option.filter_eq_some_iff, decide_eq_true_eq]

theorem rowReachable_applyInput (i : Input) :
    rowReachable host { l with store := applyInput host l.store i } = rowReachable host l := by
  simp only [rowReachable, getPeer_applyInput]

theorem rowReachable_ended (f : Fetcher) (now : ℕ) (part : Part) :
    rowReachable host { l.ended f with store := applyPart l.store now host part } =
      rowReachable host l := by
  simp only [rowReachable, Store.getPeer, peer_applyPart]

theorem rowReachable_mark (b : Bool) :
    rowReachable host (l.mark host b) = (rowReachable host l).map fun _ => b := by
  simp only [rowReachable, mark, getPeer_marked, if_true, Option.map_map]
  rfl

theorem rowReachable_rescan (locks : LockManager) :
    rowReachable host { l with store := (Api.opRescan l.store locks true false).store } =
        rowReachable host l ∨
      rowReachable host { l with store := (Api.opRescan l.store locks true false).store } =
        none := by
  have h := @Api.opRescan_getPeer l.store locks true host
  by_cases hrem : Api.RemovedPeer l.store host
  · exact Or.inr (by rw [rowReachable, h.1 hrem, Option.map_none])
  · exact Or.inl (by rw [rowReachable, h.2 hrem, rowReachable])

/-- What `_fetch_snapshot` makes of a reply of typed entries is what one of three actions makes of
the link's store: it returns `False`, it goes on to the test of the flag, or it raises. -/
theorem store_of_fetchLoaded {w : ReplyWorld} {v : Json} (hf : l.fetchAt f .asked = some x)
    (ht : Typed w v) (now : ℕ) :
    ∃ a l', step host l a = some l' ∧
      l'.store = (fetchLoaded w now host l.dropped (.ok v) l.store).2 ∧
      match (fetchLoaded w now host l.dropped (.ok v) l.store).1, a with
      | .ok _, .refuse g => g = f
      | .ok _, .answer g _ _ => g = f
      | .error _, .raised g _ _ => g = f
      | _, _ => False := by
  have hstep {a : Action} {g : Fetch → PeerLink} (h : step host l a = (l.fetchAt f .asked).map g) :
      step host l a = some (g x) := by rw [h, hf, Option.map_some]
  rcases fetchLoaded_typed now host l.dropped l.store ht with
    hrun | ⟨reply, hrun⟩ | ⟨e, part, hrun⟩
  · refine ⟨.refuse f, _, hstep rfl, ?_⟩
    rw [hrun]
    exact ⟨rfl, rfl⟩
  · refine ⟨.answer f now reply, _, hstep rfl, ?_⟩
    rw [hrun]
    exact ⟨rfl, rfl⟩
  · refine ⟨.raised f now part, _, hstep rfl, ?_⟩
    rw [hrun]
    exact ⟨rfl, rfl⟩

end Lemmas

end PeerLink

end MbTools
