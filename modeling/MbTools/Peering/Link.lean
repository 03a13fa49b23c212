import MbTools.Lib.Replica
import MbTools.Lib.Runs
import MbTools.Peering.Listing

/-! # The link to one owner

An owner writes its store, publishes one event for each write, and answers
snapshot requests. A peer subscribes, fetches a first snapshot, and then applies
the events in order; any later snapshot is applied straight into the running
stream. The owner's earlier stores are kept beside the system, to speak about
what a reply or an event shows.
-/

namespace MbTools.Peering

open Store Daemon

/-- The two ways a snapshot is asked for: by `start`, or by `resync` and `force_resync`, which
share one guard. -/
inductive Request where
  | initial
  | resync
  deriving DecidableEq, Repr

structure Link where
  owner : Store
  /-- The owner's store before each of its writes. -/
  past : List Store
  /-- What the owner publishes for each of its writes. -/
  log : List (Option Event)
  published : ℕ
  peer : Store
  subscribed : Bool
  receiving : Bool
  /-- The events the peer has consumed, or was not yet subscribed for. -/
  applied : ℕ
  initial : Option SnapshotReply
  resync : Option SnapshotReply
  /-- A snapshot was applied since the last loss of an event. -/
  synced : Bool
  deriving DecidableEq, Repr

inductive Action where
  | attach (wall : ℕ) (uid port : String) (vid pid : ℕ)
  | detach (wall : ℕ) (uid : String)
  | probe (wall : ℕ) (uid : String) (result : Option ProbeResult)
  | knownBlank (wall : ℕ) (uid : String)
  | publish
  | subscribe
  | fetch (request : Request)
  | apply (request : Request) (now : ℕ)
  | fail (request : Request)
  | recv (now : ℕ)
  | lose (n : ℕ)
  | peerWrite (w : Write)

namespace Link

variable {host k : String} {l l' : Link} {a : Action}

/-- The owner has written; the record it wrote goes to the daemon's event callback. -/
def wrote (l : Link) (type : EventType) (uid : String) (s : Store) : Link :=
  { l with
    owner := s
    past := l.past ++ [l.owner]
    log := l.log ++ [(s.get uid).bind (publishDaemonEvent type)] }

/-- A write that raises publishes nothing. -/
def tried (l : Link) (type : EventType) (uid : String) : Except Error Store → Option Link
  | .ok s => some (l.wrote type uid s)
  | .error _ => none

def slot (l : Link) : Request → Option SnapshotReply
  | .initial => l.initial
  | .resync => l.resync

/-- The request is over; the first one starts the receive loop, however it ended. -/
def closed (l : Link) : Request → Link
  | .initial => { l with initial := none, receiving := true }
  | .resync => { l with resync := none }

/-- Only the first request is made once, and before the receive loop runs. -/
def mayFetch (l : Link) : Request → Bool
  | .initial => l.subscribed && !l.receiving && l.initial.isNone
  | .resync => l.subscribed && l.resync.isNone

def fetched (l : Link) : Request → Link
  | .initial => { l with initial := some (snapshotReply l.owner) }
  | .resync => { l with resync := some (snapshotReply l.owner) }

def consumed (l : Link) (host : String) (now : ℕ) : Option Event → Link
  | none => { l with applied := l.applied + 1 }
  | some e => { l with applied := l.applied + 1, peer := recvEvent l.peer now host e }

/-- A board's detach, probe or blank mark is about one that is attached. -/
def step (host : String) (l : Link) : Action → Option Link
  | .attach wall uid port vid pid =>
    some (l.wrote .attach uid (l.owner.upsertAttached wall uid port (formatVidPid vid pid)))
  | .detach wall uid =>
    if Attached l.owner uid then
      l.tried .detach uid (l.owner.markDisconnected wall uid)
    else none
  | .probe wall uid result =>
    if Attached l.owner uid then
      l.tried .identity uid (l.owner.applyProbeResult wall uid result)
    else none
  | .knownBlank wall uid =>
    if Attached l.owner uid then
      l.tried .identity uid (l.owner.applyKnownBlank wall uid)
    else none
  | .publish =>
    if l.published < l.log.length then some { l with published := l.published + 1 } else none
  | .subscribe =>
    if l.subscribed then none else some { l with subscribed := true, applied := l.published }
  | .fetch request => if l.mayFetch request then some (l.fetched request) else none
  | .apply request now =>
    (l.slot request).map fun r =>
      { l with peer := applySnapshot l.peer now host r, synced := true }.closed request
  | .fail request => if l.subscribed then some (l.closed request) else none
  | .recv now =>
    if l.receiving ∧ l.applied < l.published then
      (l.log[l.applied]?).map (l.consumed host now)
    else none
  | .lose n =>
    if l.receiving ∧ l.applied + n ≤ l.published then
      some { l with applied := l.applied + n, synced := false }
    else none
  | .peerWrite w => some { l with peer := l.peer.write w }

/-- Before the peer has subscribed to anything. -/
def start (owner peer : Store) : Link :=
  ⟨owner, [], [], 0, peer, false, false, 0, none, none, false⟩

/-- The owner's attached uids after its first `n` writes. -/
def ownAt (l : Link) (n : ℕ) (uid : String) : Prop :=
  ∃ s, (l.past ++ [l.owner])[n]? = some s ∧ Attached s uid

end Link

end MbTools.Peering
