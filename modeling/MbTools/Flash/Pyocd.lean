import Mathlib.Data.List.Infix
import MbTools.Api.Ops
import MbTools.Lib.Talk

/-! # Flashing with pyocd

One `flash` request from its log lines' point of view: pyocd runs one at a time
under the watchdog, every line it prints is written to the client at once, and
a write to a client that is gone raises from inside the watching loop. What
pyocd, the hex parser and the file system answer is given by a script.
-/

namespace MbTools.Flash

/-- How a process ends if it is not killed for what it prints: by itself, once it has closed its
output, or never, after falling silent. -/
inductive Ending where
  | exits (rc : ℤ)
  | silent
  deriving DecidableEq, Repr

/-- One pyocd process. -/
structure Process where
  lines : List String
  ending : Ending
  killedRc : ℤ
  /-- If nobody has waited for it by then, is it still running when the lock is released? -/
  outlives : Bool
  deriving DecidableEq, Repr

/-- The processes started and not waited for, the last one first, and how many were started. -/
structure Run where
  running : List Process
  runs : ℕ
  deriving DecidableEq, Repr

/-- What a request does, one thing after another. -/
inductive Event where
  | line (text : String)
  | started (p : Process)
  | waited
  deriving DecidableEq, Repr

def Event.isLine : Event → Bool
  | .line _ => true
  | _ => false

inductive Raised where
  | clientGone (message : String)
  | notStarted (message : String)
  | hexValidation (hexPath message : String)
  | flashLockNotHeld (uid : String)
  | typeError (message : String)
  deriving DecidableEq, Repr

def Raised.message : Raised → String
  | .clientGone message => message
  | .notStarted message => message
  | .hexValidation _ message => message
  | .flashLockNotHeld uid => uid ++ ": no flash-kind lock held -- refusing to flash"
  | .typeError message => message

/-- What the request meets outside of this code. -/
structure Script where
  python : String
  /-- The text of the exception of a failed write. -/
  gone : String
  /-- The plain hex file to flash, or the error of a Universal Hex without this target. -/
  normalized : Except String String
  /-- The checks the local operation makes first. -/
  precheckHex : Option String
  precheckPerm : Option String
  /-- The same checks, made by the shared flash logic. -/
  hexError : Option String
  permError : Option String
  /-- The `n`-th process, by what it is asked to do, or why it could not be started. -/
  pyocd : ℕ → List String → Except String Process
  /-- Who holds the probe's USB interface. -/
  blocker : Option String
  casing : Casing

abbrev FlashM (α : Type) := Talk Event Run Raised α

/-- `any(sig in output.lower() for sig in signatures)` -/
def mentions (signatures : List String) (C : Casing) (output : String) : Bool :=
  let lowered := (C.lower output).toList
  signatures.any fun sig => decide (sig.toList <:+: lowered)

def looksPermissionDenied : Casing → String → Bool :=
  mentions ["access denied", "permission denied", "insufficient permissions", "udev rule",
    "errno 13"]

def looksTransient : Casing → String → Bool :=
  mentions ["timeout reading from probe", "probe timeout", "communication failure",
    "communication fault", "transfer fault", "transfer error", "dapaccess",
    "unable to claim interface"]

def looksLocked : Casing → String → Bool :=
  mentions ["0x67", "flash erase sector failure", "approtect", "access port protection",
    "authentication failed", "not authenticated", "device is locked", "target is locked"]

def looksClaimBlocked : Casing → String → Bool := mentions ["unable to claim interface"]

variable (script : Script)

def log (line : String) : FlashM Unit := Talk.say (.clientGone script.gone) (.line line)

def noProgress : String :=
  "Error: pyocd produced no output for 60s -- treating it as hung and killing it (see " ++
    "'mbregistry install-service' -- ticket 008 -- if this turns out to be a permission problem)."

def permissionReported : String :=
  "Error: pyocd reported a permission/access error opening the device -- not retrying or " ++
    "waiting for it to time out. Install the udev rule ('mbregistry install-service' -- " ++
    "ticket 008), then start a new session (or replug the board), or run this command with sudo."

/-- The watching loop on the lines still to come: was the process killed, and what did it print? -/
def pump (ending : Ending) : List String → FlashM (Bool × List String)
  | [] =>
    match ending with
    | .exits _ => pure (false, [])
    | .silent => do
      log script noProgress
      pure (true, [])
  | line :: rest => do
    log script line
    if looksPermissionDenied script.casing line then do
      log script permissionReported
      pure (true, [line])
    else do
      let (killed, seen) ← pump ending rest
      pure (killed, line :: seen)

/-- The exit code reported for a process; a killed one never counts as a success. -/
def exitCode (p : Process) (killed : Bool) : ℤ :=
  if killed then if p.killedRc = 0 then 1 else p.killedRc
  else
    match p.ending with
    | .exits rc => rc
    | .silent => p.killedRc

def popen (cmd : List String) : FlashM Process := do
  let r ← Talk.get
  match script.pyocd r.runs cmd with
  | .error e => Talk.raise (.notStarted e)
  | .ok p => do
    Talk.note (.started p) fun r => { running := p :: r.running, runs := r.runs + 1 }
    pure p

/-- `proc.wait()`, for the process started last. -/
def wait : FlashM Unit := Talk.note .waited fun r => { r with running := r.running.tail }

/-- `run_streamed_with_watchdog`: the exit code and the output. -/
def runStreamed (cmd : List String) : FlashM (ℤ × String) := do
  let p ← popen script cmd
  let (killed, seen) ← pump script p.ending p.lines
  wait
  pure (exitCode p killed, "\n".intercalate seen)

/-- A board, a hex file and a chip. -/
structure Job where
  uid : String
  hexPath : String
  targetMcu : String
  boardName : Option String
  deriving DecidableEq, Repr

def Job.command (job : Job) (verb : String) (rest : List String) : List String :=
  [script.python, "-m", "pyocd", verb, "-t", job.targetMcu, "--uid", job.uid] ++ rest

def Job.flashCmd (job : Job) : List String := job.command script "flash" [job.hexPath]

variable (job : Job)

def reset : FlashM ℤ := do
  let (rc, _) ← runStreamed script (job.command script "reset" [])
  pure rc

/-- The mass erase of a locked device, and the flash after it. -/
def recover : FlashM ℤ := do
  log script
    "flash failed — attempting CTRL-AP mass erase to recover a locked device, then retrying."
  let (eraseRc, _) ← runStreamed script (job.command script "erase" ["--mass"])
  if eraseRc ≠ 0 then do
    log script s!"Error: mass erase failed (exit {eraseRc})."
    pure eraseRc
  else do
    let (rc, _) ← runStreamed script (job.flashCmd script)
    if rc ≠ 0 then do
      let name := (Api.field job.boardName).getD job.uid
      log script
        (s!"Error: flash still failed after mass erase (exit {rc}) — {name} WAS ERASED AND NOW HAS " ++
          "NO FIRMWARE. It will not run until it is successfully reflashed.")
      pure rc
    else reset script job

/-- What is done about the result of the flash. -/
def conclude (rc : ℤ) (output : String) : FlashM ℤ :=
  if rc ≠ 0 ∧ looksLocked script.casing output = true then recover script job
  else if rc ≠ 0 ∧ looksClaimBlocked script.casing output = true then do
    log script (match script.blocker with
      | some blocker => s!"Error: {blocker}"
      | none =>
        "Error: could not claim the probe -- another program (often a WebUSB browser tab such " ++
          "as MakeCode) has this board open. Close it, then flash again.")
    pure rc
  else if rc ≠ 0 then do
    log script
      (s!"Error: flash failed (exit {rc}) with no recognized recoverable signature -- not " ++
        "mass-erasing. If this device is actually locked/protected, run 'pyocd erase --mass' " ++
        "manually.")
    pure rc
  else reset script job

/-- The flash itself, with its one blind retry. -/
def flashRetrying : FlashM ℤ := do
  let (rc, output) ← runStreamed script (job.flashCmd script)
  if rc ≠ 0 ∧ looksPermissionDenied script.casing output = true then pure rc
  else if rc ≠ 0 ∧ looksTransient script.casing output = true then do
    log script <| "flash failed with a transient-looking probe/communication error — " ++
      "retrying once before any mass-erase decision."
    let (rc, output) ← runStreamed script (job.flashCmd script)
    conclude script job rc output
  else conclude script job rc output

/-- `flashlogic._flash_hex`. -/
def flashHexPlain : FlashM ℤ :=
  match script.hexError with
  | some e => do
    log script s!"Error: {e}"
    pure 1
  | none =>
    match script.permError with
    | some e => do
      log script s!"Error: {e}"
      pure 1
    | none => flashRetrying script job

/-- `flashlogic.flash_hex`. -/
def flashHex : FlashM ℤ :=
  match script.normalized with
  | .error e => do
    log script s!"Error: {e}"
    pure 1
  | .ok path =>
    if path ≠ job.hexPath then do
      log script s!"{job.hexPath} is a Universal Hex; flashing its {job.targetMcu} image."
      flashHexPlain script { job with hexPath := path }
    else flashHexPlain script job

structure FlashResult where
  success : Bool
  exitCode : Option ℤ
  error : Option String
  deriving DecidableEq, Repr

def FlashResult.ofExitCode (rc : ℤ) : FlashResult :=
  if rc = 0 then ⟨true, some rc, none⟩
  else ⟨false, some rc, some s!"pyocd flash failed (exit {rc})"⟩

/-- The result of a flash whose runner raised. -/
def FlashResult.ofRaised (e : Raised) : FlashResult := ⟨false, none, some e.message⟩

/-- `FlashOp._flash_locked`. -/
def flashLocked : FlashM FlashResult :=
  match script.precheckHex with
  | some message => Talk.raise (.hexValidation job.hexPath message)
  | none =>
    match script.precheckPerm with
    | some e => do
      log script s!"Error: {e}"
      pure ⟨false, none, some e⟩
    | none =>
      Talk.attempt (do
        let rc ← flashHexPlain script job
        pure (.ofExitCode rc)) fun e => .ok (.ofRaised e)

/-- `FlashOp.flash_hex`; `held` tells whether the uid still has a flash-kind lock. The exception
for an unusable Universal Hex is built with one argument too few. -/
def flashOp (held : Bool) : FlashM FlashResult :=
  if held then
    match script.normalized with
    | .ok path => flashLocked script { job with hexPath := path }
    | .error _ =>
      Talk.raise (.typeError
        "HexValidationError.__init__() missing 1 required positional argument: 'message'")
  else Talk.raise (.flashLockNotHeld job.uid)

/-- The run of a `flash` request, on the local socket and on the remote port, between the two
bookkeeping steps: when it is over, in whatever way, the flash lock is released. The local
server lets all but a bad hex end the connection, which releases it as well. -/
def opFlash (server : Api.Server) (held : Bool) : FlashM FlashResult :=
  match server with
  | .tcp =>
    Talk.attempt (do
      let rc ← flashHex script job
      pure (.ofExitCode rc)) fun e => .ok (.ofRaised e)
  | .socket =>
    Talk.attempt (flashOp script job held) fun e =>
      match e with
      | .hexValidation _ message => .ok ⟨false, none, some message⟩
      | e => .error e
  -- the Windows pipe does not flash
  | .pipe => pure ⟨false, none, some "unknown op 'flash'"⟩

/-- The request from beginning to end. -/
def request (server : Api.Server) (held : Bool) (client : Client) : Log Event Run :=
  (opFlash script job server held client ⟨[], ⟨[], 0⟩⟩).2

/-- The processes at the moment the lock is released: at the end of the request, or before its
event `freed`, when a sweep, a `force_unlock` or another connection of the holder takes it. -/
def atRelease (server : Api.Server) (held : Bool) (client : Client) (freed : Option ℕ) : Run :=
  let l := request script job server held client
  match freed.bind fun t => l.events[t]? with
  | some (_, r) => r
  | none => l.state

end MbTools.Flash
