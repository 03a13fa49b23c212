import Mathlib.Data.List.Infix
import MbTools.Api.Ops
import MbTools.Lib.Runs

/-! # One registry and its clients

The connections of the three servers, the streams they turn into, the relay
pool's sessions and the daemon, all on one store and one lock table. A step is
one section under the shared lock, or one thing a thread does outside of it.
-/

namespace MbTools.Api

open Store

/-- What a thread does to a serial port. -/
inductive PortOp where
  | open
  | read
  | write (data : List UInt8)
  | sendBreak
  | setDtr (on : Bool)
  | setRts (on : Bool)
  deriving DecidableEq, Repr

/-- A frame of the stream sub-protocol; `other` is one of an unknown type. -/
inductive Frame where
  | data (payload : List UInt8)
  | brk
  | setDtr (payload : List UInt8)
  | setRts (payload : List UInt8)
  | close
  | other (type : ℕ)
  deriving DecidableEq, Repr

namespace Frame

/-- What the stream's loop does to the port for a frame. -/
def op : Frame → Option PortOp
  | .data payload => some (.write payload)
  | .brk => some .sendBreak
  | .setDtr (b :: _) => some (.setDtr (b ≠ 0))
  | .setRts (b :: _) => some (.setRts (b ≠ 0))
  | .setDtr [] => none
  | .setRts [] => none
  | .close => none
  | .other _ => none

def ends : Frame → Bool
  | .close => true
  | .other _ => true
  | _ => false

end Frame

/-- A stream is accepted by its precheck, opens its port, leaves its loop, and closes the port
before it releases its lock. -/
inductive StreamPhase where
  | accepted
  | running
  | stopping
  | closed
  deriving DecidableEq, Repr

structure StreamSession where
  uid : String
  port : String
  isVirtual : Bool
  phase : StreamPhase
  /-- Does the reader thread still read? -/
  reading : Bool
  /-- The frames that arrived and are not served yet. -/
  inbox : List Frame
  deriving DecidableEq, Repr

inductive SessionStep where
  | send (f : Frame)
  | open (ok : Bool)
  | read
  | serve (ok : Bool)
  | check
  | stop
  | close
  deriving DecidableEq, Repr

def SessionStep.isSend : SessionStep → Bool
  | .send _ => true
  | _ => false

namespace StreamSession

/-- The step of a session; `valid` is what `_stream_still_valid` answers. -/
def step (t : StreamSession) (valid : Bool) : SessionStep → Option StreamSession
  | .send f => if t.phase ≠ .closed then some { t with inbox := t.inbox ++ [f] } else none
  | .open ok =>
    if t.phase = .accepted then
      some (if ok then { t with phase := .running, reading := true }
        else { t with phase := .closed })
    else none
  | .read => if t.reading ∧ (t.phase = .running ∨ t.phase = .stopping) then some t else none
  | .serve ok =>
    match t.phase, t.inbox with
    | .running, f :: inbox =>
      some { t with inbox, phase := if ok && !f.ends then .running else .stopping }
    | _, _ => none
  | .check =>
    if t.reading ∧ (t.phase = .running ∨ t.phase = .stopping) then
      some { t with reading := valid }
    else none
  | .stop => if t.phase = .running then some { t with phase := .stopping } else none
  | .close =>
    if t.phase = .stopping then some { t with phase := .closed, reading := false } else none

/-- What a step of the session does to its port. -/
def performs (t : StreamSession) (u : SessionStep) : Option PortOp :=
  if t.isVirtual then none
  else
    match u with
    | .open _ => some .open
    | .read => some .read
    | .serve _ => t.inbox.head?.bind Frame.op
    | _ => none

end StreamSession

/-- What a connection handler is in the middle of. -/
inductive Mode where
  | idle
  | tracking (uid : String)
  | untracking (uid : String)
  | flashing (uid : String)
  | streaming (t : StreamSession)
  | done
  deriving DecidableEq, Repr

/-- Where the handler's loop can end: before a request, in a flash (a failed log line raises), or
after the session it became. -/
def Mode.mayEnd : Mode → Bool
  | .idle => true
  | .flashing _ => true
  | .done => true
  | _ => false

structure Conn where
  server : Server
  holder : HolderRef
  /-- `acquired_uids`. -/
  acquired : List String
  /-- The server has shut the socket down. -/
  shut : Bool
  mode : Mode
  deriving DecidableEq, Repr

/-- A pool session resets its relay, pumps bytes, and resets it again. -/
inductive PoolPhase where
  | normalizing
  | pumping
  | resetting
  | closed
  deriving DecidableEq, Repr

structure PoolSession where
  uid : String
  port : String
  holder : HolderRef
  phase : PoolPhase
  deriving DecidableEq, Repr

inductive PoolStep where
  | io (op : PortOp)
  | pump
  | reset
  | close
  deriving DecidableEq, Repr

namespace PoolSession

/-- A pumping session is a byte pipe; the others run the relay's control protocol. -/
def allows (q : PoolSession) (op : PortOp) : Bool :=
  match q.phase, op with
  | .normalizing, _ => true
  | .resetting, _ => true
  | .pumping, .open => true
  | .pumping, .read => true
  | .pumping, .write _ => true
  | .pumping, _ => false
  | .closed, _ => false

def step (q : PoolSession) : PoolStep → Option PoolSession
  | .io op => if q.allows op then some q else none
  | .pump => if q.phase = .normalizing then some { q with phase := .pumping } else none
  | .reset =>
    if q.phase = .normalizing ∨ q.phase = .pumping then some { q with phase := .resetting }
    else none
  | .close => if q.phase = .resetting then some { q with phase := .closed } else none

end PoolSession

structure System where
  daemon : Daemon
  conns : Dict ℕ Conn
  /-- The connection a local lock was taken on. -/
  uidConnections : Dict String ℕ
  pool : Dict ℕ PoolSession

inductive Action where
  | connect (i : ℕ) (server : Server) (holder : HolderRef)
  | lock (i now : ℕ) (req : LockRequest)
  | track (i : ℕ)
  | unlock (i now : ℕ) (uid : Option String)
  | untrack (i : ℕ)
  | forceUnlock (i now : ℕ) (uid : Option String)
  | flash (i : ℕ) (uid hexPath : Option String)
  | flashEnd (i now : ℕ)
  | stream (i : ℕ) (uid : Option String) (dialed : Bool)
  | session (i : ℕ) (u : SessionStep)
  | streamEnd (i now : ℕ)
  | hangUp (i now : ℕ)
  | sweep (server : Server) (now : ℕ) (pidAlive : ℕ → Bool)
  | cycle (c : Cycle)
  | write (w : Write)
  | detachVirtual (now : ℕ) (uid : String)
  | poolAccept (p now : ℕ) (holder : HolderRef)
  | pool (p : ℕ) (u : PoolStep)
  | poolEnd (p now : ℕ)
  | poolCrash (p : ℕ)

namespace System

variable (s : System)

def setConn (i : ℕ) (c : Conn) : System := { s with conns := s.conns.insert i c }

def setDaemon (d : Daemon) : System := { s with daemon := d }

/-- `conn.shutdown`, for the connection a uid is mapped to, which is then forgotten. -/
def shutTracked (uid : String) : System :=
  match (s.uidConnections.lookup uid).bind fun j => (s.conns.lookup j).map (j, ·) with
  | none => { s with uidConnections := s.uidConnections.erase uid }
  | some (j, c) =>
    { s.setConn j { c with shut := true } with uidConnections := s.uidConnections.erase uid }

/-- Is the holder someone's already? Session ids are fresh. -/
def knows (holder : HolderRef) : Bool :=
  s.conns.rows.any (·.2.holder = holder) || s.pool.rows.any (·.2.holder = holder) ||
    s.daemon.locks.rows.any (·.2.holder = holder)

/-- `_is_holder_alive`: the local servers ask for the pid, the remote one for the session, and
each leaves the other's holders alone. -/
def isHolderAlive (server : Server) (pidAlive : ℕ → Bool) (holder : HolderRef) : Bool :=
  match server, holder.origin with
  | .tcp, .remote => s.conns.rows.any fun c => c.2.server = .tcp && c.2.holder.ref = holder.ref
  | .tcp, .local => true
  | .socket, .local => holder.pid.any pidAlive
  | .pipe, .local => holder.pid.any pidAlive
  | .socket, .remote => true
  | .pipe, .remote => true

/-- `_stream_still_valid`. -/
def streamStillValid (uid port : String) : Bool :=
  (s.daemon.store.get uid).any fun r => r.state ≠ .disconnected && r.port = some port

/-- `"RELAY" in role.upper() or "BRIDGE" in role.upper()`. -/
def isRelayRole (C : Casing) (role : Option String) : Bool :=
  role.any fun role =>
    let upper := (C.upper role).toList
    "RELAY".toList <:+: upper || "BRIDGE".toList <:+: upper

def pickFreeLocalRelay : Option DeviceRecord :=
  s.daemon.store.snapshotLocalDevices.find? fun r =>
    r.state = .connected && (field r.port).isSome && isRelayRole s.daemon.casing r.role &&
      (s.daemon.locks.status r.uid).isNone

/-- The locks a connection still lists, released when it ends. -/
def releaseAll (d : Daemon) (now : ℕ) (holder : HolderRef) (uids : List String) : Daemon :=
  uids.foldl (fun d uid => d.releaseLock now uid holder) d

/-- The end of a sweep: the local socket forgets the connections of the swept uids. -/
def swept (server : Server) (now : ℕ) (isAlive : HolderRef → Bool) : System :=
  { s with
    daemon := s.daemon.sweepLocks now isAlive
    uidConnections :=
      if server = .socket then
        ((s.daemon.locks.stale isAlive).map Prod.fst).foldl Table.erase s.uidConnections
      else s.uidConnections }

def onConn (i : ℕ) (f : Conn → Option System) : Option System := (s.conns.lookup i).bind f

/-- The requests of an idle connection. -/
def request (i : ℕ) (f : Conn → Option System) : Option System :=
  s.onConn i fun c => if c.mode = .idle then f c else none

def step (s : System) : Action → Option System
  | .connect i server holder =>
    if s.conns.lookup i = none ∧ (server = .tcp ↔ holder.origin = .remote) ∧
        (server = .tcp → s.knows holder = false) then
      some (s.setConn i ⟨server, holder, [], false, .idle⟩)
    else none
  | .lock i now req =>
    s.request i fun c =>
      match opLock c.server s.daemon now req c.holder with
      | .error _ => some s
      | .ok (uid, d) =>
        let mode := if c.server = .socket ∧ uid ∉ c.acquired then .tracking uid else .idle
        some ((s.setDaemon d).setConn i
          { c with acquired := c.acquired.insert uid, mode })
  | .track i =>
    s.onConn i fun c =>
      match c.mode with
      | .tracking uid =>
        some { s.setConn i { c with mode := .idle } with
          uidConnections := s.uidConnections.insert uid i }
      | _ => none
  | .unlock i now uid =>
    s.request i fun c =>
      match opUnlock c.server s.daemon now uid c.holder with
      | .error _ => some s
      | .ok (uid, _, d) =>
        let mode := if c.server = .socket ∧ uid ∈ c.acquired then .untracking uid else .idle
        some ((s.setDaemon d).setConn i { c with acquired := c.acquired.filter (· ≠ uid), mode })
  | .untrack i =>
    s.onConn i fun c =>
      match c.mode with
      | .untracking uid =>
        some { s.setConn i { c with mode := .idle } with
          uidConnections := s.uidConnections.erase uid }
      | _ => none
  | .forceUnlock i now uid =>
    s.request i fun c =>
      if c.server = .socket then
        match opForceUnlock s.daemon now uid with
        | .error _ => some s
        | .ok (uid, _, d) => some ((s.setDaemon d).shutTracked uid)
      else none
  | .flash i uid hexPath =>
    s.request i fun c =>
      if c.server = .pipe then none
      else
        match opFlashPrecheck c.server s.daemon uid hexPath c.holder with
        | .error _ => some s
        | .ok r => some (s.setConn i { c with mode := .flashing r.uid })
  | .flashEnd i now =>
    s.onConn i fun c =>
      match c.mode with
      | .flashing uid =>
        some { (s.setDaemon (s.daemon.releaseLock now uid c.holder)).setConn i
            { c with acquired := c.acquired.filter (· ≠ uid), mode := .idle } with
          uidConnections :=
            if c.server = .socket then s.uidConnections.erase uid else s.uidConnections }
      | _ => none
  | .stream i uid dialed =>
    s.request i fun c =>
      if c.server = .pipe then none
      else
        match opStreamPrecheck c.server s.daemon uid c.holder with
        | .error _ => some s
        | .ok (r, port, _) =>
          if r.isVirtual && !dialed then some s
          else
            some (s.setConn i
              { c with mode := .streaming ⟨r.uid, port, r.isVirtual, .accepted, false, []⟩ })
  | .session i u =>
    s.onConn i fun c =>
      match c.mode with
      | .streaming t =>
        let valid := s.streamStillValid t.uid t.port
        -- a shut socket delivers what it has, and no more
        if c.shut && u.isSend then none
        else
          (t.step valid u).map fun t =>
            s.setConn i { c with
              mode := .streaming t, shut := c.shut || (u = .check && !valid) }
      | _ => none
  | .streamEnd i now =>
    s.onConn i fun c =>
      match c.mode with
      | .streaming t =>
        if t.phase = .closed then
          some ((s.setDaemon (s.daemon.releaseLock now t.uid c.holder)).setConn i
            { c with acquired := c.acquired.filter (· ≠ t.uid), mode := .done })
        else none
      | _ => none
  | .hangUp i now =>
    s.onConn i fun c =>
      if c.mode.mayEnd then
        some { s with
          daemon := releaseAll s.daemon now c.holder c.acquired
          conns := s.conns.erase i
          uidConnections :=
            if c.server = .socket then c.acquired.foldl Table.erase s.uidConnections
            else s.uidConnections }
      else none
  | .sweep server now pidAlive => some (s.swept server now (s.isHolderAlive server pidAlive))
  | .cycle c => some (s.setDaemon (s.daemon.lockedBlock c).1)
  | .write w => some (s.setDaemon { s.daemon with store := s.daemon.store.write w })
  | .detachVirtual now uid =>
    match s.daemon.store.get uid with
    | none => none
    | some r =>
      if r.isVirtual then
        let d := match s.daemon.locks.status uid with
          | none => s.daemon
          | some st => s.daemon.releaseLock now uid st.holder
        some ((s.setDaemon { d with store := d.store.removeVirtual uid }).shutTracked uid)
      else none
  | .poolAccept p now holder =>
    match s.pool.lookup p, s.pickFreeLocalRelay with
    | none, some r =>
      match s.daemon.locks.acquire now r.uid .relay holder none with
      | .error _ => none
      | .ok locks =>
        if s.knows holder then none
        else
          some { s.setDaemon { s.daemon with locks } with
            pool := s.pool.insert p ⟨r.uid, r.port.getD "", holder, .normalizing⟩ }
    | _, _ => none
  | .pool p u =>
    match s.pool.lookup p with
    | none => none
    | some q => (q.step u).map fun q => { s with pool := s.pool.insert p q }
  | .poolEnd p now =>
    match s.pool.lookup p with
    | none => none
    | some q =>
      if q.phase = .closed then
        some { s.setDaemon (s.daemon.releaseLock now q.uid q.holder) with pool := s.pool.erase p }
      else none
  | .poolCrash p =>
    match s.pool.lookup p with
    | none => none
    | some _ => some { s with pool := s.pool.erase p }

/-! ## What a step can do -/

/-- The outcomes of a step, each with the guards it has passed. -/
inductive Step (s : System) : Action → System → Prop
  /-- A request answered with an error. -/
  | refused {a : Action} : Step s a s
  | connect {i : ℕ} {server : Server} {holder : HolderRef} (hnew : s.conns.lookup i = none)
      (horigin : server = .tcp ↔ holder.origin = .remote)
      (hfresh : server = .tcp → s.knows holder = false) :
      Step s (.connect i server holder) (s.setConn i ⟨server, holder, [], false, .idle⟩)
  | lock {i now : ℕ} {req : LockRequest} {c : Conn} {uid : String} {d : Daemon} {mode : Mode}
      (hc : s.conns.lookup i = some c) (hidle : c.mode = .idle)
      (hop : opLock c.server s.daemon now req c.holder = .ok (uid, d))
      (hmode : mode = .tracking uid ∨ mode = .idle) :
      Step s (.lock i now req)
        ((s.setDaemon d).setConn i { c with acquired := c.acquired.insert uid, mode })
  | track {i : ℕ} {c : Conn} {uid : String} (hc : s.conns.lookup i = some c)
      (hm : c.mode = .tracking uid) :
      Step s (.track i) { s.setConn i { c with mode := .idle } with
        uidConnections := s.uidConnections.insert uid i }
  | unlock {i now : ℕ} {x : Option String} {c : Conn} {uid : String} {released : Bool} {d : Daemon}
      {mode : Mode} (hc : s.conns.lookup i = some c) (hidle : c.mode = .idle)
      (hop : opUnlock c.server s.daemon now x c.holder = .ok (uid, released, d))
      (hmode : mode = .untracking uid ∨ mode = .idle) :
      Step s (.unlock i now x)
        ((s.setDaemon d).setConn i { c with acquired := c.acquired.filter (· ≠ uid), mode })
  | untrack {i : ℕ} {c : Conn} {uid : String} (hc : s.conns.lookup i = some c)
      (hm : c.mode = .untracking uid) :
      Step s (.untrack i) { s.setConn i { c with mode := .idle } with
        uidConnections := s.uidConnections.erase uid }
  | forceUnlock {i now : ℕ} {x : Option String} {c : Conn} {uid : String}
      {status : Option LockStatus} {d : Daemon} (hc : s.conns.lookup i = some c)
      (hidle : c.mode = .idle) (hserver : c.server = .socket)
      (hop : opForceUnlock s.daemon now x = .ok (uid, status, d)) :
      Step s (.forceUnlock i now x) ((s.setDaemon d).shutTracked uid)
  | flash {i : ℕ} {x hexPath : Option String} {c : Conn} {r : DeviceRecord}
      (hc : s.conns.lookup i = some c) (hidle : c.mode = .idle) (hserver : c.server ≠ .pipe)
      (hop : opFlashPrecheck c.server s.daemon x hexPath c.holder = .ok r) :
      Step s (.flash i x hexPath) (s.setConn i { c with mode := .flashing r.uid })
  | flashEnd {i now : ℕ} {c : Conn} {uid : String} (hc : s.conns.lookup i = some c)
      (hm : c.mode = .flashing uid) :
      Step s (.flashEnd i now)
        { (s.setDaemon (s.daemon.releaseLock now uid c.holder)).setConn i
            { c with acquired := c.acquired.filter (· ≠ uid), mode := .idle } with
          uidConnections :=
            if c.server = .socket then s.uidConnections.erase uid else s.uidConnections }
  | stream {i : ℕ} {x : Option String} {dialed : Bool} {c : Conn} {r : DeviceRecord} {port : String}
      {kind : LockKind} (hc : s.conns.lookup i = some c) (hidle : c.mode = .idle)
      (hserver : c.server ≠ .pipe)
      (hop : opStreamPrecheck c.server s.daemon x c.holder = .ok (r, port, kind))
      (hdialed : r.isVirtual = true → dialed = true) :
      Step s (.stream i x dialed)
        (s.setConn i { c with mode := .streaming ⟨r.uid, port, r.isVirtual, .accepted, false, []⟩ })
  | session {i : ℕ} {u : SessionStep} {c : Conn} {t t' : StreamSession} {shut : Bool}
      (hc : s.conns.lookup i = some c) (hm : c.mode = .streaming t)
      (hsend : c.shut = true → u.isSend = false)
      (ht : t.step (s.streamStillValid t.uid t.port) u = some t') :
      Step s (.session i u) (s.setConn i { c with mode := .streaming t', shut })
  | streamEnd {i now : ℕ} {c : Conn} {t : StreamSession} (hc : s.conns.lookup i = some c)
      (hm : c.mode = .streaming t) (hclosed : t.phase = .closed) :
      Step s (.streamEnd i now) ((s.setDaemon (s.daemon.releaseLock now t.uid c.holder)).setConn i
        { c with acquired := c.acquired.filter (· ≠ t.uid), mode := .done })
  | hangUp {i now : ℕ} {c : Conn} {uidConnections : Dict String ℕ}
      (hc : s.conns.lookup i = some c) (hm : c.mode.mayEnd = true) :
      Step s (.hangUp i now)
        { s with
          daemon := releaseAll s.daemon now c.holder c.acquired
          conns := s.conns.erase i
          uidConnections }
  | sweep {server : Server} {now : ℕ} {pidAlive : ℕ → Bool} :
      Step s (.sweep server now pidAlive) (s.swept server now (s.isHolderAlive server pidAlive))
  | cycle {c : Cycle} : Step s (.cycle c) (s.setDaemon (s.daemon.lockedBlock c).1)
  | write {w : Write} :
      Step s (.write w) (s.setDaemon { s.daemon with store := s.daemon.store.write w })
  | detachVirtual {now : ℕ} {uid : String} {r : DeviceRecord} {d : Daemon}
      (hr : s.daemon.store.get uid = some r) (hv : r.isVirtual = true)
      (hd : d = s.daemon ∨ ∃ h, d = s.daemon.releaseLock now uid h) :
      Step s (.detachVirtual now uid)
        ((s.setDaemon { d with store := d.store.removeVirtual uid }).shutTracked uid)
  | poolAccept {p now : ℕ} {holder : HolderRef} {r : DeviceRecord} {locks : LockManager}
      (hnew : s.pool.lookup p = none) (hr : s.pickFreeLocalRelay = some r)
      (hl : s.daemon.locks.acquire now r.uid .relay holder none = .ok locks)
      (hfresh : s.knows holder = false) :
      Step s (.poolAccept p now holder)
        { s.setDaemon { s.daemon with locks } with
          pool := s.pool.insert p ⟨r.uid, r.port.getD "", holder, .normalizing⟩ }
  | pool {p : ℕ} {u : PoolStep} {q q' : PoolSession} (hq : s.pool.lookup p = some q)
      (hu : q.step u = some q') : Step s (.pool p u) { s with pool := s.pool.insert p q' }
  | poolEnd {p now : ℕ} {q : PoolSession} (hq : s.pool.lookup p = some q)
      (hclosed : q.phase = .closed) :
      Step s (.poolEnd p now)
        { s.setDaemon (s.daemon.releaseLock now q.uid q.holder) with pool := s.pool.erase p }
  | poolCrash {p : ℕ} {q : PoolSession} (hq : s.pool.lookup p = some q) :
      Step s (.poolCrash p) { s with pool := s.pool.erase p }

section Inversion

variable {s s' : System} {a : Action} {i : ℕ} {f : Conn → Option System}

theorem onConn_eq_some (hs : s.onConn i f = some s') :
    ∃ c, s.conns.lookup i = some c ∧ f c = some s' := Option.bind_eq_some_iff.mp hs

theorem request_eq_some (hs : s.request i f = some s') :
    ∃ c, s.conns.lookup i = some c ∧ c.mode = .idle ∧ f c = some s' := by
  obtain ⟨c, hc, hs⟩ := onConn_eq_some hs
  split at hs
  · exact ⟨c, hc, ‹_›, hs⟩
  · cases hs

theorem step_cases (hs : s.step a = some s') : s.Step a s' := by
  cases a with
  | connect i server holder =>
    simp only [step, Option.ite_none_right_eq_some, Option.some.injEq] at hs
    obtain ⟨⟨hnew, horigin, hfresh⟩, rfl⟩ := hs
    exact .connect hnew horigin hfresh
  | lock i now req =>
    obtain ⟨c, hc, hm, hs⟩ := request_eq_some hs
    split at hs <;> cases hs
    · exact .refused
    · rename_i uid d hop
      apply Step.lock hc hm hop
      split
      · exact Or.inl rfl
      · exact Or.inr rfl
  | track i =>
    obtain ⟨c, hc, hs⟩ := onConn_eq_some hs
    split at hs <;> cases hs
    rename_i hm
    exact .track hc hm
  | unlock i now x =>
    obtain ⟨c, hc, hm, hs⟩ := request_eq_some hs
    split at hs <;> cases hs
    · exact .refused
    · rename_i hop
      apply Step.unlock hc hm hop
      split
      · exact Or.inl rfl
      · exact Or.inr rfl
  | untrack i =>
    obtain ⟨c, hc, hs⟩ := onConn_eq_some hs
    split at hs <;> cases hs
    rename_i hm
    exact .untrack hc hm
  | forceUnlock i now x =>
    obtain ⟨c, hc, hm, hs⟩ := request_eq_some hs
    split at hs
    · rename_i hserver
      split at hs <;> cases hs
      · exact .refused
      · rename_i hop
        exact .forceUnlock hc hm hserver hop
    · cases hs
  | flash i x hexPath =>
    obtain ⟨c, hc, hm, hs⟩ := request_eq_some hs
    split at hs
    · cases hs
    · rename_i hserver
      split at hs <;> cases hs
      · exact .refused
      · rename_i hop
        exact .flash hc hm hserver hop
  | flashEnd i now =>
    obtain ⟨c, hc, hs⟩ := onConn_eq_some hs
    split at hs <;> cases hs
    rename_i hm
    exact .flashEnd hc hm
  | stream i x dialed =>
    obtain ⟨c, hc, hm, hs⟩ := request_eq_some hs
    split at hs
    · cases hs
    · rename_i hserver
      split at hs
      · cases hs
        exact .refused
      · rename_i hop
        split at hs <;> cases hs
        · exact .refused
        · rename_i hdialed
          exact .stream hc hm hserver hop (by simpa using hdialed)
  | session i u =>
    obtain ⟨c, hc, hs⟩ := onConn_eq_some hs
    split at hs
    · rename_i hm
      dsimp only at hs
      split at hs
      · cases hs
      · rename_i hsend
        obtain ⟨t', ht, rfl⟩ := Option.map_eq_some_iff.mp hs
        exact .session hc hm (by simpa using hsend) ht
    · cases hs
  | streamEnd i now =>
    obtain ⟨c, hc, hs⟩ := onConn_eq_some hs
    split at hs
    · rename_i hm
      split at hs <;> cases hs
      rename_i hclosed
      exact .streamEnd hc hm hclosed
    · cases hs
  | hangUp i now =>
    obtain ⟨c, hc, hs⟩ := onConn_eq_some hs
    split at hs <;> cases hs
    rename_i hm
    exact .hangUp hc hm
  | sweep server now pidAlive =>
    cases hs
    exact .sweep
  | cycle c =>
    cases hs
    exact .cycle
  | write w =>
    cases hs
    exact .write
  | detachVirtual now uid =>
    simp only [step] at hs
    split at hs
    · cases hs
    · rename_i r hr
      split at hs <;> cases hs
      rename_i hv
      apply Step.detachVirtual hr hv
      split
      · exact Or.inl rfl
      · exact Or.inr ⟨_, rfl⟩
  | poolAccept p now holder =>
    simp only [step] at hs
    split at hs
    case h_2 => cases hs
    rename_i r hnew hr
    split at hs
    · cases hs
    · rename_i hl
      split at hs <;> cases hs
      rename_i hfresh
      exact .poolAccept hnew hr hl (by simpa using hfresh)
  | pool p u =>
    simp only [step] at hs
    split at hs
    · cases hs
    · rename_i q hq
      obtain ⟨q', hu, rfl⟩ := Option.map_eq_some_iff.mp hs
      exact .pool hq hu
  | poolEnd p now =>
    simp only [step] at hs
    split at hs
    · cases hs
    · rename_i q hq
      split at hs <;> cases hs
      rename_i hclosed
      exact .poolEnd hq hclosed
  | poolCrash p =>
    simp only [step] at hs
    split at hs <;> cases hs
    rename_i hq
    exact .poolCrash hq

end Inversion

/-- What a step does to a port: whose session does it, on which uid. -/
def performs (s : System) : Action → Option (String × HolderRef × PortOp)
  | .session i u =>
    match s.conns.lookup i with
    | none => none
    | some c =>
      match c.mode with
      | .streaming t => (t.performs u).map (t.uid, c.holder, ·)
      | _ => none
  | .pool p (.io op) => (s.pool.lookup p).map fun q => (q.uid, q.holder, op)
  | _ => none

/-- A registry that has just started. -/
def start (C : Casing) (store : Store) : System :=
  ⟨⟨store, Table.empty, Table.empty, Table.empty, 8, C⟩, Table.empty, Table.empty, Table.empty⟩

end System

end MbTools.Api
