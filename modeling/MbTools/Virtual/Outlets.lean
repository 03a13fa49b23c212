import Mathlib.Data.List.Dedup
import MbTools.Api.Requests
import MbTools.Peering.Listing
import MbTools.Virtual.Lifecycle

/-! # What leaves the host

A registry with peering on has two kinds of outlet: what it sends its peers
(snapshot replies and published events), and the lines of its remote port
(responses, and the event feed of a `watch`). An event of the daemon or of a
registration is told to both after the section it comes from; the display
callback of the lock table is told within the section.
-/

namespace MbTools.Virtual

open Store Api Peering

/-- An event on the bus, before it is put into its wire shape. -/
inductive BusEvent where
  | device (type : EventType) (r : DeviceRecord)
  | lockState (uid : String) (lock : Option LockStatus)
  | deviceRemoved (uid : String) (host : Option String)
  | peerRemoved (host : String)
  | peerUp (host : String)
  | peerDown (host : String)
  | nameSet (e : Entry)
  | nameClear (name : String)
  deriving DecidableEq, Repr

namespace BusEvent

/-- The `uid` field of the event, if it has one. -/
def uid : BusEvent → Option String
  | .device _ r => some r.uid
  | .lockState uid _ => some uid
  | .deviceRemoved uid _ => some uid
  | _ => none

/-- Is the event put on the bus, or is it a stale claim? -/
def onBus : BusEvent → Bool
  | .device type r => (daemonEventPayload type r).isSome
  | _ => true

/-- Is the event published to the peers? What is about a peer is not, nor is a purge. -/
def toPeers : BusEvent → Bool
  | .device type r => (publishDaemonEvent type r).isSome
  | .lockState uid _ => !isVirtualUid uid
  | .nameSet _ => true
  | .nameClear _ => true
  | _ => false

end BusEvent

/-- What is sent to a peer, or written on a remote connection. -/
inductive Message where
  | snapshot (reply : SnapshotReply)
  | published (e : BusEvent)
  | response (i : ℕ) (r : Response)
  | watched (i : ℕ) (e : BusEvent)
  deriving DecidableEq, Repr

/-- What the error names the device by. -/
def errorUid : ApiError → Option String
  | .invalidRequest _ => none
  | .notFound token => some token
  | .notAttached uid _ => some uid
  | .ambiguousName token _ => some token
  | .locked uid _ => some uid
  | .notLocked uid _ => some uid
  | .internalError _ => none

def responseUids : Response → List String
  | .ok => []
  | .devices l => l.map (·.record.uid)
  | .device d => [d.record.uid]
  | .released _ => []
  | .error e => (errorUid e).toList

namespace Message

/-- The uids a message carries. -/
def uids : Message → List String
  | .snapshot reply => reply.devices.filterMap DeviceDict.uid
  | .published e => e.uid.toList
  | .response _ r => responseUids r
  | .watched _ e => e.uid.toList

def isForPeers : Message → Bool
  | .snapshot _ => true
  | .published _ => true
  | .response _ _ => false
  | .watched _ _ => false

end Message

/-- The registry with its outlets. -/
structure Exposed where
  boards : Boards
  /-- The remote connections that `watch`. -/
  watchers : List ℕ
  /-- The events of sections that are over, still to be told. -/
  pending : List BusEvent

inductive ExposedAction where
  | board (x : BoardAction)
  | list (i : ℕ)
  | find (i : ℕ) (token : Option String)
  | markFlashed (i : ℕ) (token : Option String)
  | watch (i : ℕ)
  | publish (n : ℕ)
  /-- A peer comes or goes, or a name is set or cleared. -/
  | tell (e : BusEvent)
  /-- A peer asks for the snapshot. -/
  | snapshot

def boardActor : BoardAction → Option ℕ
  | .act a => actor a
  | .register i _ _ => some i
  | .ack i _ => some i
  | .detach i _ => some i

/-- The connection an action is of. -/
def client : ExposedAction → Option ℕ
  | .board x => boardActor x
  | .list i => some i
  | .find i _ => some i
  | .markFlashed i _ => some i
  | .watch i => some i
  | _ => none

/-- The response on the remote port; a flash that is let through is answered when it is done. -/
def remoteResponse (d : Daemon) (holder : HolderRef) : ExposedAction → Option Response
  | .board (.act (.lock _ now req)) =>
    match opLock .tcp d now req holder with
    | .error e => some (.error e)
    | .ok _ => some .ok
  | .board (.act (.unlock _ now uid)) =>
    match opUnlock .tcp d now uid holder with
    | .error e => some (.error e)
    | .ok (_, released, _) => some (.released released)
  | .board (.act (.flash _ uid hexPath)) =>
    match opFlashPrecheck .tcp d uid hexPath holder with
    | .error e => some (.error e)
    | .ok _ => none
  | .board (.act (.stream _ uid _)) =>
    match opStreamPrecheck .tcp d uid holder with
    | .error e => some (.error e)
    | .ok _ => some .ok
  | .list _ => some (.devices ((listVisibleDevices .tcp d.store).map (deviceDict d.store d.locks)))
  | .find _ token =>
    match field token with
    | none => some (.error (.invalidRequest "'get'/'find' requires 'uid'"))
    | some token => some (answerFind .tcp d token)
  | .markFlashed _ token =>
    match field token with
    | none => some (.error (.invalidRequest "'mark_flashed' requires 'uid'"))
    | some token => some (answerMarkFlashed .tcp d token holder).1
  | .watch _ => some .ok
  | _ => none

/-- The locks that differ, each with the callback's argument: a section changes a uid's once. -/
def lockChanges (m m' : LockManager) : List (String × Option LockStatus) :=
  ((m.keys ++ m'.keys).dedup.filter fun uid => m.status uid ≠ m'.status uid).map fun uid =>
    (uid, m'.status uid)

/-- The events of one locked block of the daemon, if nothing in it raises. -/
def cycleEvents (d : Daemon) (c : Cycle) : List BusEvent :=
  match (d.lockedBlock c).2 with
  | .error _ => []
  | .ok timedOut =>
    (d.diff c).2.1.map (.device .attach) ++ (d.diff c).2.2.2.map (.device .detach) ++
      timedOut.map (.device .identity)

/-- What a section leaves to be told, given the boards before and after it. -/
def sectionEvents (b b' : Boards) : BoardAction → List BusEvent
  | .act (.cycle c) => cycleEvents b.sys.daemon c
  | .act (.write (.probe _ uid _)) =>
    (b'.sys.daemon.store.get uid).toList.map (.device .identity)
  | .act (.write (.knownBlank _ uid)) =>
    (b'.sys.daemon.store.get uid).toList.map (.device .identity)
  | .act (.write (.purge uids hosts)) =>
    let store := b.sys.daemon.store
    let store' := b'.sys.daemon.store
    (uids.filter fun uid => (store.get uid).isSome && (store'.get uid).isNone).map
        (fun uid => .deviceRemoved uid ((store.get uid).bind DeviceRecord.host)) ++
      (hosts.filter fun host => (store.getPeer host).isSome && (store'.getPeer host).isNone).map
        .peerRemoved
  | .register i now request =>
    match b.opRegisterBoard i now request with
    | .error _ => []
    | .ok (reg, t) =>
      (t.sys.daemon.store.get reg.uid).toList.flatMap fun r =>
        [.device .attach r, .device .identity r]
  | .detach i _ =>
    match b.duty.lookup i with
    | some (.holding reg) =>
      if (b.live.remove reg).2 then
        ((b.sys.daemon.store.get reg.uid).filter DeviceRecord.isVirtual).toList.map
          (.device .detach)
      else []
    | _ => []
  | _ => []

namespace Exposed

variable (w : Exposed)

/-- An idle remote connection, which can send a request. -/
def remote (i : ℕ) : Option Conn :=
  (w.boards.sys.conns.lookup i).filter fun c =>
    c.server = .tcp && c.mode = .idle && i ∉ w.watchers

/-- A connection that watches takes no other step, but it ends. -/
def attends : BoardAction → Bool
  | .act (.hangUp _ _) => true
  | x => (boardActor x).all (· ∉ w.watchers)

def watchersAfter : BoardAction → List ℕ
  | .act (.hangUp i _) => w.watchers.filter (· ≠ i)
  | _ => w.watchers

def step (w : Exposed) : ExposedAction → Option Exposed
  | .board x =>
    if w.attends x then
      (w.boards.step x).map fun boards =>
        ⟨boards, w.watchersAfter x, w.pending ++ sectionEvents w.boards boards x⟩
    else none
  | .list i => (w.remote i).map fun _ => w
  | .find i _ => (w.remote i).map fun _ => w
  | .markFlashed i token =>
    (w.remote i).map fun c =>
      match field token with
      | none => w
      | some token =>
        let d := (answerMarkFlashed .tcp w.boards.sys.daemon token c.holder).2
        { w with boards := { w.boards with sys := w.boards.sys.setDaemon d } }
  | .watch i => (w.remote i).map fun _ => { w with watchers := i :: w.watchers }
  | .publish n =>
    if n < w.pending.length then some { w with pending := w.pending.eraseIdx n } else none
  | .tell e => if e.uid = none then some { w with pending := w.pending ++ [e] } else none
  | .snapshot => some w

/-- An event goes to the peers and to whoever watches, each in its own way. -/
def tells (e : BusEvent) : List Message :=
  (if e.toPeers then [.published e] else []) ++
    if e.onBus then w.watchers.map (.watched · e) else []

def responses (a : ExposedAction) : List Message :=
  match client a with
  | none => []
  | some i =>
    match w.boards.sys.conns.lookup i with
    | none => []
    | some c =>
      if c.server = .tcp then
        (remoteResponse w.boards.sys.daemon c.holder a).toList.map (.response i)
      else []

/-- The events the action tells: the display callback's, and one that was still to be told. -/
def events : ExposedAction → List BusEvent
  | .board x =>
    match w.boards.step x with
    | none => []
    | some b =>
      (lockChanges w.boards.sys.daemon.locks b.sys.daemon.locks).map fun p => .lockState p.1 p.2
  | .publish n => w.pending[n]?.toList
  | _ => []

def replies : ExposedAction → List Message
  | .snapshot => [.snapshot (snapshotReply w.boards.sys.daemon.store)]
  | _ => []

/-- What the action sends to peers and writes on remote connections. -/
def sends (a : ExposedAction) : List Message :=
  w.responses a ++ w.replies a ++ (w.events a).flatMap w.tells

def start (C : Casing) (store : Store) : Exposed := ⟨Boards.start C store, [], []⟩

end Exposed

end MbTools.Virtual
