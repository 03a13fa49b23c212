import MbTools.Api.Requests
import MbTools.Api.Rescan
import MbTools.Flash.Pyocd
import MbTools.Names.Requests
import MbTools.Virtual.Endpoint
import MbTools.Virtual.Registration

/-! # What an operation does

Each operation of the two dispatchers, from a request object to a response, or
to the exception that leaves it. Between two sections under the shared lock
other threads run. What is outside of this code (a decoder, a file, a USB scan,
an endpoint) is given with the request.
-/

namespace MbTools.Dispatch

open Api Virtual

/-- The staging of a hex file; an error of `mkstemp` itself is not caught. -/
inductive Staging where
  | path (p : String)
  | fails (message : String)
  | raises (e : Uncaught)

/-- What a request meets. -/
structure World where
  now : ℕ
  /-- `str` and `repr` of a value that is no string. -/
  text : Json → String
  repr : Json → String
  /-- The text of the exception a request is refused with. -/
  reason : Json → String
  message : Uncaught → String
  intError : List ℕ → String
  loads : String → Loaded
  loadsBytes : List UInt8 → Loaded
  /-- Can a label be published, and can it be written in a response? The encoder raises
  `RecursionError` on a value that the decoder has just let through, if it is put deeper. -/
  tells : String → Bool
  encodes : String → Bool
  /-- What the other threads do in the `n`-th gap between two sections. -/
  meanwhile : ℕ → Boards → Boards
  /-- The poll of a rescan. -/
  cycle : Cycle
  dial : List ℕ × ℕ → Dial
  script : Flash.Script
  /-- Why the bytes of the hex file cannot be read. -/
  unreadable : Option String
  /-- An exception of the hex checks that is of none of the types they expect: the path holds a
  null or a lone surrogate, or the file is no text. -/
  hexRaises : Option Uncaught
  /-- The number of bytes that base64 text stands for. -/
  b64decode : String → Except String ℕ
  stage : Staging

/-- The two servers whose lines are dispatched here. -/
inductive Port where
  | local
  | remote
  deriving DecidableEq, Repr

def Port.server : Port → Server
  | .local => .socket
  | .remote => .tcp

/-- The connection a line comes in on. -/
structure Caller where
  port : Port
  conn : ℕ
  holder : HolderRef
  /-- `uploaded_hex_paths`. -/
  staged : List String

inductive Verb where
  | list
  | find
  | lock
  | unlock
  | forceUnlock
  | flash
  | markFlashed
  | rescan
  | namesGet
  | namesSet
  | namesClear
  | namesList
  | stream
  | watch
  | registerBoard
  | sendHex
  deriving DecidableEq, Repr

/-- The branches of the two `_dispatch_line`. -/
def verbs : Port → List (String × Verb)
  | .local =>
    [("list", .list), ("get", .find), ("find", .find), ("lock", .lock), ("unlock", .unlock),
      ("force_unlock", .forceUnlock), ("flash", .flash), ("mark_flashed", .markFlashed),
      ("rescan", .rescan), ("names_get", .namesGet), ("names_set", .namesSet),
      ("names_clear", .namesClear), ("names_list", .namesList), ("stream", .stream),
      ("watch", .watch), ("register_board", .registerBoard)]
  | .remote =>
    [("list", .list), ("get", .find), ("find", .find), ("lock", .lock), ("unlock", .unlock),
      ("mark_flashed", .markFlashed), ("send_hex", .sendHex), ("flash", .flash),
      ("stream", .stream), ("watch", .watch)]

def verbOf (port : Port) : Json → Option Verb
  | .str op => (verbs port).lookup op
  | _ => none

/-- An entry of `names_list`, with the names on its link and on its channel in other groups. -/
structure ListedEntry where
  entry : Entry
  conflict : List String
  channelConflict : List String
  deriving DecidableEq, Repr

/-- `Store.listing`. -/
def listing (s : Store) : List ListedEntry :=
  s.allNameEntries.map fun e =>
    let others := s.allNameEntries.filter fun o => o.channel = e.channel && o.name ≠ e.name
    ⟨e, (others.filter fun o => o.group = e.group).map Entry.name,
      (others.filter fun o => o.group ≠ e.group).map Entry.name⟩

/-- A response line. -/
inductive Reply where
  | response (r : Response)
  | forced (uid : String) (dropped : Option LockStatus)
  | rescanned (r : RescanResponse)
  | entry (e : Option Entry)
  | entries (l : List ListedEntry)
  | registered (uid : String) (device : Option DeviceEntry)
  | registerError (e : RegisterError)
  | notRegistered (uid : String)
  | staged (path : String)
  | flashed (r : Flash.FlashResult)
  | flashError (e : ApiError)
  /-- A message of an endpoint, verbatim. -/
  | relayed (msg : Json)
  /-- An endpoint's refusal, made into the result of a flash. -/
  | refused (ack : Json)

namespace Reply

/-- The `ok` field. -/
def ok : Reply → Bool
  | .response (.error _) => false
  | .response _ => true
  | .forced _ _ => true
  | .rescanned _ => true
  | .entry _ => true
  | .entries _ => true
  | .registered _ _ => true
  | .registerError _ => false
  | .notRegistered _ => false
  | .staged _ => true
  | .flashed r => r.success
  | .flashError _ => false
  | .relayed msg => isAck msg
  | .refused _ => false

def deviceLabels (d : DeviceEntry) : List String := (d.lock.bind LockFields.label).toList

/-- The lock labels in it. -/
def labels : Reply → List String
  | .response (.devices l) => l.flatMap deviceLabels
  | .response (.device d) => deviceLabels d
  | .response (.error (.locked _ current)) => current.label.toList
  | .forced _ dropped => (dropped.bind LockStatus.label).toList
  | .registered _ device => device.toList.flatMap deviceLabels
  | _ => []

end Reply

/-- What becomes of the connection after the response. -/
inductive Handoff where
  | next
  | stream (r : DeviceRecord)
  | watch
  | hold (reg : VirtualRegistration)
  deriving DecidableEq, Repr

/-- The log lines an operation has written, what it returns or raises, and the state it leaves. -/
structure Outcome where
  logs : List String
  result : Except Uncaught (Reply × Handoff)
  boards : Boards

namespace Outcome

def answer (r : Reply) (b : Boards) : Outcome := ⟨[], .ok (r, .next), b⟩

def refuse (message : String) (b : Boards) : Outcome :=
  answer (.response (.error (.invalidRequest message))) b

def raise (e : Uncaught) (b : Boards) : Outcome := ⟨[], .error e, b⟩

end Outcome

open Outcome

section Ops

variable (w : World) (c : Caller) (b : Boards) (req : Json)

def withDaemon (d : Daemon) : Boards := { b with sys := b.sys.setDaemon d }

def ofRaised : Except Raised (Response × Daemon) → Outcome
  | .error _ => raise .unicodeError b
  | .ok (r, d) => answer (.response r) (withDaemon b d)

def opList : Outcome :=
  answer (.response (.devices ((listVisibleDevices c.port.server b.sys.daemon.store).map
    (deviceDict b.sys.daemon.store b.sys.daemon.locks)))) b

def opFind : Outcome :=
  ofRaised b <| (tokenOf w.text (findToken req)).run
    (.error (.invalidRequest "'get'/'find' requires 'uid'"), b.sys.daemon)
    fun token => (answerFind c.port.server b.sys.daemon token, b.sys.daemon)

/-- A lock that is granted is told to the peers before the response. -/
def opLock : Outcome :=
  match lockRequest w.text c.port.server b.sys.daemon w.now c.holder req with
  | .error _ => raise .unicodeError b
  | .ok (.ok, d) =>
    if (labelOf w.text (req.get "label")).all w.tells then
      answer (.response .ok) (withDaemon b d)
    else raise .recursionError (withDaemon b d)
  | .ok (r, d) => answer (.response r) (withDaemon b d)

def opUnlock : Outcome :=
  ofRaised b <| (tokenOf w.text (req.get "uid")).run
    (.error (.invalidRequest "'unlock' requires 'uid'"), b.sys.daemon)
    fun token => answerUnlock c.port.server b.sys.daemon w.now token c.holder

def opMarkFlashed : Outcome :=
  ofRaised b <| (tokenOf w.text (req.get "uid")).run
    (.error (.invalidRequest "'mark_flashed' requires 'uid'"), b.sys.daemon)
    fun token => answerMarkFlashed c.port.server b.sys.daemon token c.holder

def opForceUnlock : Outcome :=
  match tokenOf w.text (req.get "uid") with
  | .missing => refuse "'force_unlock' requires 'uid'" b
  | .lone => raise .unicodeError b
  | .text token =>
    match Api.opForceUnlock b.sys.daemon w.now (some token) with
    | .error e => answer (.response (.error e)) b
    | .ok (uid, dropped, d) => answer (.forced uid dropped) (withDaemon b d)

/-- `_maybe_probe`, which runs in two sections with the probe between them. -/
def maybeProbe (n : ℕ) (uid : String) : Except Uncaught Unit × Boards :=
  match b.sys.daemon.probeEligible uid with
  | .error _ => (.error .keyError, b)
  | .ok false => (.ok (), b)
  | .ok true =>
    let b := w.meanwhile n b
    let reading := w.cycle.probe uid
    let chip := if b.sys.daemon.needsSwd uid reading.result then reading.chip else none
    match b.sys.daemon.probeWrite w.cycle.wall uid reading.result chip with
    | .error _ => (.error .keyError, b)
    | .ok d => (.ok (), withDaemon b d)

/-- The probes of a poll, one board after another. -/
def probeEach : ℕ → List String → Boards → Except Uncaught Unit × Boards
  | _, [], b => (.ok (), b)
  | n, uid :: rest, b =>
    match maybeProbe w b n uid with
    | (.error e, b) => (.error e, b)
    | (.ok (), b) => probeEach (n + 2) rest (w.meanwhile (n + 1) b)

/-- `run_once`, among the other threads. -/
def poll : Except Uncaught Unit × Boards :=
  let owned := (b.sys.daemon.diff w.cycle).2.2.1
  match b.sys.daemon.lockedBlock w.cycle with
  | (d, .error _) => (.error .keyError, withDaemon b d)
  | (d, .ok _) => probeEach w 2 owned (w.meanwhile 1 (withDaemon b d))

def opRescan : Outcome :=
  let dryRun := (req.get "dry_run").truthy
  let purge := Api.opRescan b.sys.daemon.store b.sys.daemon.locks true dryRun
  let b := withDaemon b { b.sys.daemon with store := purge.store }
  if purge.triggers then
    match poll w (w.meanwhile 0 b) with
    | (.error e, b) => raise e b
    | (.ok (), b) => answer (.rescanned purge.response) b
  else answer (.rescanned purge.response) b

/-- The text of a name; none with a lone surrogate is well formed, so the empty one stands for
it. -/
def nameText : Json → String
  | .lone _ => ""
  | v => w.text v

def opNamesGet : Outcome :=
  if (req.get "name").truthy then
    match b.sys.daemon.store.getName ((req.get "name").strOf (nameText w)) with
    | .error _ => refuse (w.reason req) b
    | .ok e => answer (.entry e) b
  else refuse "'names_get' requires 'name'" b

def opNamesSet : Outcome :=
  match Names.opNamesSet (nameText w) b.sys.daemon.store w.now req with
  | .error .invalidRequest =>
    if !(req.get "name").truthy || (req.get "channel").isNull || (req.get "group").isNull then
      refuse "'names_set' requires 'name', 'channel', 'group'" b
    else refuse (w.reason req) b
  | .error .raised => raise .overflowError b
  | .ok (store, rest) =>
    let entry := match rest with
      | some (.publishSet e) => some e
      | _ => none
    answer (.entry entry) (withDaemon b { b.sys.daemon with store })

def opNamesClear : Outcome :=
  match Names.opNamesClear (nameText w) b.sys.daemon.store req with
  | .error _ =>
    if (req.get "name").truthy then refuse (w.reason req) b
    else refuse "'names_clear' requires 'name'" b
  | .ok (store, _) => answer (.response .ok) (withDaemon b { b.sys.daemon with store })

def opNamesList : Outcome := answer (.entries (listing b.sys.daemon.store)) b

/-- `VirtualBoards.by_uid`. -/
def byUid (live : VirtualBoards) (uid : String) : Option VirtualRegistration :=
  (live.rows.map Prod.snd).find? fun reg => reg.uid = uid

def unreachable (endpoint : List ℕ × ℕ) (e : String) : ApiError :=
  .internalError <| "cannot reach the board's endpoint " ++
    String.ofList (endpoint.1.map Char.ofNat) ++ s!":{endpoint.2}: {e}"

def virtualStreamOpen (r : DeviceRecord) : Outcome :=
  let b := w.meanwhile 0 b
  match byUid b.live r.uid with
  | none => answer (.notRegistered r.uid) b
  | some reg =>
    match w.dial reg.endpoint with
    | .raises e => raise e b
    | .failed e => answer (.response (.error (unreachable reg.endpoint e))) b
    | .connected ep =>
      match ep.openStream w.loadsBytes with
      | .error (.uncaught e) => raise e b
      | .error (.endpoint e) => answer (.response (.error (.internalError e))) b
      | .ok (some ack) => answer (.relayed ack) b
      | .ok none => ⟨[], .ok (.response .ok, .stream r), b⟩

def opStream : Outcome :=
  match tokenOf w.text (req.get "uid") with
  | .missing => refuse "'stream' requires 'uid'" b
  | .lone => raise .unicodeError b
  | .text token =>
    match opStreamPrecheck c.port.server b.sys.daemon (some token) c.holder with
    | .error e => answer (.response (.error e)) b
    | .ok (r, _, _) =>
      if r.isVirtual then virtualStreamOpen w b r else ⟨[], .ok (.response .ok, .stream r), b⟩

def opWatch : Outcome := ⟨[], .ok (.response .ok, .watch), b⟩

def opRegisterBoard : Outcome :=
  match b.opRegisterBoard c.conn w.now (validateRegistration w.intError req) with
  | .error e => answer (.registerError e) b
  | .ok (reg, b') =>
    let d := b'.sys.daemon
    ⟨[], .ok (.registered reg.uid ((d.store.get reg.uid).map (deviceDict d.store d.locks)),
      .hold reg), b'⟩

def maxHexPayloadBytes : ℕ := 8 * 1024 * 1024

def maxHexB64Chars : ℕ := 4 * ((maxHexPayloadBytes + 2) / 3)

def tooLarge : String := s!"hex payload exceeds the {maxHexPayloadBytes}-byte limit"

def opSendHex : Outcome :=
  match req.get "data" with
  | .str data =>
    if data = "" then refuse "'send_hex' requires 'data' (base64)" b
    else if maxHexB64Chars < data.length then refuse tooLarge b
    else
      match w.b64decode data with
      | .error e => refuse s!"'data' is not valid base64: {e}" b
      | .ok bytes =>
        if maxHexPayloadBytes < bytes then refuse tooLarge b
        else
          match w.stage with
          | .path p => answer (.staged p) b
          | .fails e => refuse s!"could not stage hex file: {e}" b
          | .raises e => raise e b
  | .lone codes =>
    if maxHexB64Chars < codes.length then refuse tooLarge b
    else refuse s!"'data' is not valid base64: {w.reason req}" b
  | _ => refuse "'send_hex' requires 'data' (base64)" b

end Ops

end MbTools.Dispatch
