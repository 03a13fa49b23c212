import MbTools.Dispatch.Ops

/-! # Flashing, and the two dispatchers

A local `flash` runs pyocd here or forwards the hex to a simulated board's
endpoint; a remote one flashes what was staged. Only they write lines of their
own before the response, which every branch of a dispatcher ends with.
-/

namespace MbTools.Dispatch

open Api Virtual Outcome

section Ops

variable (w : World) (c : Caller) (b : Boards) (req : Json)

/-- The last section of a flash. -/
def freed (uid : String) : Boards :=
  withDaemon b (b.sys.daemon.releaseLock w.now uid c.holder)

/-- The count of a flash that was attempted, unless the row is gone. -/
def counted (uid : String) : Boards :=
  match b.sys.daemon.store.incrementFlashCount uid with
  | .error _ => b
  | .ok store => withDaemon b { b.sys.daemon with store }

def hasFlashLock (uid : String) : Bool :=
  (b.sys.daemon.locks.status uid).any fun st => st.kind = .flash

/-- What is wrong with a hex file that is to be forwarded. -/
def vetHex : Option String :=
  match w.script.normalized with
  | .error e => some e
  | .ok _ => w.script.precheckHex.or w.unreadable

def flashVirtual (r : DeviceRecord) : Outcome :=
  let b := w.meanwhile 0 b
  let released (b : Boards) := freed w c (w.meanwhile 2 b) r.uid
  match w.hexRaises with
  | some e => raise e (released b)
  | none =>
    match vetHex w with
    | some e => answer (.flashError (.invalidRequest e)) (released b)
    | none =>
      match byUid b.live r.uid with
      | none => answer (.notRegistered r.uid) (released b)
      | some reg =>
        match w.dial reg.endpoint with
        | .raises e => raise e (released b)
        | .failed e => answer (.flashError (unreachable reg.endpoint e)) (released b)
        | .connected ep =>
          match ep.flash w.loadsBytes w.text with
          | .failed (.uncaught e) => raise e (released b)
          | .failed (.endpoint e) => answer (.flashError (.internalError e)) (released b)
          | .refused ack => answer (.refused ack) (released b)
          | .relayed logs result =>
            let b := released (counted (w.meanwhile 1 b) r.uid)
            match result with
            | .error (.uncaught e) => ⟨logs, .error e, b⟩
            | .error (.endpoint e) => ⟨logs, .ok (.flashError (.internalError e), .next), b⟩
            | .ok msg => ⟨logs, .ok (.relayed msg, .next), b⟩

def logLines (l : Log Flash.Event Flash.Run) : List String :=
  l.events.filterMap fun e =>
    match e.1 with
    | .line text => some text
    | _ => none

def idle : Log Flash.Event Flash.Run := ⟨[], ⟨[], 0⟩⟩

def defaultMcu : String := "nrf52833"

/-- The run of a local `flash`. A `HexValidationError` is answered; that of a Universal Hex without
this target's image cannot be built, and the failed attempt is a `TypeError`. -/
def flashBoard (r : DeviceRecord) : Outcome :=
  let b := w.meanwhile 0 b
  if !hasFlashLock b r.uid then raise .flashLockNotHeldError b
  else
    match w.hexRaises, w.script.normalized with
    | some e, _ => raise e b
    | none, .error _ => raise .typeError b
    | none, .ok path =>
      let b := w.meanwhile 1 b
      match w.script.precheckHex, b.sys.daemon.store.find b.sys.daemon.casing r.uid with
      | none, .error _ => raise .ambiguousNameError b
      | _, found =>
        let name := (found.toOption.bind id).bind DeviceRecord.deviceName
        match Flash.flashLocked w.script ⟨r.uid, path, defaultMcu, name⟩ .all idle with
        | (.error e, l) =>
          ⟨logLines l, .ok (.flashError (.invalidRequest e.message), .next),
            freed w c (w.meanwhile 3 b) r.uid⟩
        | (.ok result, l) =>
          if w.script.precheckPerm.isSome then
            ⟨logLines l, .ok (.flashed result, .next), freed w c (w.meanwhile 3 b) r.uid⟩
          else
            let b := w.meanwhile 2 b
            match b.sys.daemon.store.incrementFlashCount r.uid with
            | .error _ => ⟨logLines l, .error .keyError, b⟩
            | .ok store =>
              ⟨logLines l, .ok (.flashed result, .next),
                freed w c (w.meanwhile 3 (withDaemon b { b.sys.daemon with store })) r.uid⟩

/-- The run of a remote `flash`, in which no exception is let through. -/
def runStaged (r : DeviceRecord) (hexPath : String) : List String × Flash.FlashResult :=
  match w.hexRaises with
  | some e => ([], ⟨false, none, some (w.message e)⟩)
  | none =>
    match Flash.opFlash w.script ⟨r.uid, hexPath, defaultMcu, r.deviceName⟩ .tcp true .all idle with
    | (.error e, l) => (logLines l, .ofRaised e)
    | (.ok result, l) => (logLines l, result)

def flashStaged (r : DeviceRecord) (hexPath : String) : Outcome :=
  let (logs, result) := runStaged w r hexPath
  let b := freed w c (w.meanwhile 0 b) r.uid
  if result.success then
    match b.sys.daemon.store.incrementFlashCount r.uid with
    | .error _ => ⟨logs, .error .keyError, b⟩
    | .ok store =>
      ⟨logs, .ok (.flashed result, .next), withDaemon b { b.sys.daemon with store }⟩
  else ⟨logs, .ok (.flashed result, .next), b⟩

def flashMissing : ApiError := .invalidRequest "'flash' requires 'uid' and 'hex_path'"

def notStaged : ApiError :=
  .invalidRequest "'hex_path' must be a path staged by this connection's own 'send_hex' call"

/-- A path with a lone surrogate has no text. -/
def hexPathOf (t : Token) : String := t.text?.getD "\ufffd"

/-- `RegistryAPIServer._op_flash`, which looks the token up without the translation of an ambiguous
name into an error. -/
def opFlashLocal : Outcome :=
  match tokenOf w.text (req.get "uid"), tokenOf w.text (req.get "hex_path") with
  | .missing, _ => answer (.flashError flashMissing) b
  | _, .missing => answer (.flashError flashMissing) b
  | .lone, _ => raise .unicodeError b
  | .text token, path =>
    match opFlashPrecheck .socket b.sys.daemon (some token) (some (hexPathOf path)) c.holder with
    | .error (.ambiguousName _ _) => raise .ambiguousNameError b
    | .error e => answer (.flashError e) b
    | .ok r => if r.isVirtual then flashVirtual w c b r else flashBoard w c b r

/-- `RemoteAPIServer._op_flash`. -/
def opFlashRemote : Outcome :=
  match tokenOf w.text (req.get "uid"), tokenOf w.text (req.get "hex_path") with
  | .missing, _ => answer (.flashError flashMissing) b
  | _, .missing => answer (.flashError flashMissing) b
  | _, .lone => answer (.flashError notStaged) b
  | token, .text hexPath =>
    if hexPath ∉ c.staged then answer (.flashError notStaged) b
    else
      match token with
      | .text token =>
        match opFlashPrecheck .tcp b.sys.daemon (some token) (some hexPath) c.holder with
        | .error e => answer (.flashError e) b
        | .ok r => flashStaged w c b r hexPath
      | _ => raise .unicodeError b

def perform : Verb → Outcome
  | .list => opList c b
  | .find => opFind w c b req
  | .lock => opLock w c b req
  | .unlock => opUnlock w c b req
  | .forceUnlock => opForceUnlock w b req
  | .flash =>
    match c.port with
    | .local => opFlashLocal w c b req
    | .remote => opFlashRemote w c b req
  | .markFlashed => opMarkFlashed w c b req
  | .rescan => opRescan w b req
  | .namesGet => opNamesGet w b req
  | .namesSet => opNamesSet w b req
  | .namesClear => opNamesClear w b req
  | .namesList => opNamesList b
  | .stream => opStream w c b req
  | .watch => opWatch b
  | .registerBoard => opRegisterBoard w c b req
  | .sendHex => opSendHex w b req

/-- What is written on the connection. -/
inductive Message where
  | log (line : String)
  | terminal (r : Reply)

structure Dispatched where
  written : List Message
  result : Except Uncaught Handoff
  boards : Boards

/-- `_write` of the response, on a connection that takes what is written. -/
def Outcome.write (o : Outcome) : Dispatched :=
  match o.result with
  | .error e => ⟨o.logs.map .log, .error e, o.boards⟩
  | .ok (r, handoff) =>
    if r.labels.all w.encodes then ⟨o.logs.map .log ++ [.terminal r], .ok handoff, o.boards⟩
    else ⟨o.logs.map .log, .error .recursionError, o.boards⟩

/-- The two `_dispatch_line`, each branch of which writes the response it has. -/
def dispatchLine (line : String) : Dispatched :=
  match w.loads line with
  | .raises e => ⟨[], .error e, b⟩
  | .malformed => (refuse "malformed JSON request" b).write w
  | .value (.obj fields) =>
    match verbOf c.port ((Json.obj fields).get "op") with
    | none => (refuse ("unknown op " ++ w.repr ((Json.obj fields).get "op")) b).write w
    | some verb => (perform w c b (.obj fields) verb).write w
  | .value _ => (refuse "request must be a JSON object" b).write w

end Ops

end MbTools.Dispatch
