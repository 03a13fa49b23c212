import MbTools.Api.Resolve
import MbTools.Flash.Convert
import MbTools.Flash.LockLifetime

/-! # The flash operation and its contract

`FlashOp`: the lock, the hex file and the permission are looked at first, then pyocd
runs, through the flash logic or the injected runner, and the flash is counted.
-/

namespace MbTools.Flash.Operation

open UniversalHex

/-- What `intelhex` raises on a file. -/
inductive LoadError
  | os (message : String)
  | intelHex (message : String)
  deriving DecidableEq, Repr

/-- What the operation meets outside of this code; of the script it uses the processes and
the checks that the flash logic makes itself. -/
structure World where
  script : Script
  targetMcu : String
  /-- The content of the hex file, `none` where it cannot be read. -/
  file : Option (List UInt8)
  tmpPath : String
  loadhex : Normalized → Option LoadError
  /-- `repr` of a path. -/
  repr : String → String
  pathExists : String → Bool
  mayAccess : String → Bool
  /-- The injected runner: an exit code, or the text of what it raised. -/
  runner : Option (List String → Except String ℤ)
  /-- Which log lines are taken. -/
  takes : Client

inductive OpRaise
  | flashLockNotHeld (uid : String)
  | hexValidation (hexPath message : String)
  | typeError (message : String)
  | normalize (e : NormalizeRaise)
  | store (e : Error)
  | clientGone (message : String)
  deriving DecidableEq, Repr

/-- Is it one of the two exceptions the callers catch? -/
def OpRaise.isNamed : OpRaise → Bool
  | flashLockNotHeld _ | hexValidation _ _ => true
  | _ => false

/-- What is left of an operation: its result or what it raised, the store, the pyocd
processes started, and whether the injected runner was. -/
structure Done where
  result : Except OpRaise FlashResult
  store : Store
  runs : ℕ
  ran : Bool

def Done.started (d : Done) : Prop := 0 < d.runs ∨ d.ran = true

variable (w : World) (locks : LockManager) (s : Store) (uid hexPath : String)

/-- `_validate_hex`: the message of the exception it raises. -/
def validatePlain (n : Normalized) (path : String) : Option String :=
  match w.loadhex n with
  | some (.os e) => some s!"cannot read hex file {w.repr path}: {e}"
  | some (.intelHex e) => some s!"invalid hex file {w.repr path}: {e}"
  | none => none

def checkDevicePermission (port : Option String) : Option String :=
  match Api.field port with
  | none => none
  | some port =>
    if w.pathExists port = false then none
    else if w.mayAccess port then none
    else some <| s!"permission denied opening {port} -- this user has no " ++
      "read/write access to the device. Install the udev rule " ++
      "(run 'mbregistry install-service' as root -- ticket 008) then " ++
      "start a new session (or replug the board) for the new group " ++
      "membership to take effect, or run this command with sudo."

def pathOf : Normalized → String
  | .given => hexPath
  | .temporary _ => w.tmpPath

def normalized : Except NormalizeRaise Normalized := normalizedHex w.file w.targetMcu.toList

def validateHex : Except OpRaise Unit :=
  match normalized w with
  | .error e =>
    if e.isUniversalHexError then .error (.hexValidation hexPath (String.ofList e.message))
    else .error (.normalize e)
  | .ok n =>
    match validatePlain w n (pathOf w hexPath n) with
    | some message => .error (.hexValidation (pathOf w hexPath n) message)
    | none => .ok ()

def jobOf (record : Option DeviceRecord) (path : String) : Job :=
  ⟨uid, path, w.targetMcu, some ((Api.field (record.bind DeviceRecord.deviceName)).getD uid)⟩

/-- The flash itself: its exit code or the text of what it raised, the processes started,
and whether the injected runner was. -/
def runFlash (job : Job) : Except String ℤ × ℕ × Bool :=
  match w.runner with
  | none =>
    let (r, l) := flashHexPlain w.script job w.takes ⟨[], ⟨[], 0⟩⟩
    (r.mapError Raised.message, l.state.runs, false)
  | some runner => (runner (job.flashCmd w.script), 0, true)

def resultOf : Except String ℤ → FlashResult
  | .ok rc => .ofExitCode rc
  | .error message => ⟨false, none, some message⟩

/-- `_flash_locked`, on the file at `path`. -/
def flashLocked (n : Normalized) (path : String) : Done :=
  match validatePlain w n path with
  | some message => ⟨.error (.hexValidation path message), s, 0, false⟩
  | none =>
    match s.find w.script.casing uid with
    | .error hosts => ⟨.error (.store (.ambiguousName uid hosts)), s, 0, false⟩
    | .ok record =>
      match checkDevicePermission w (record.bind DeviceRecord.port) with
      | some permError =>
        if w.takes 0 then ⟨.ok ⟨false, none, some permError⟩, s, 0, false⟩
        else ⟨.error (.clientGone w.script.gone), s, 0, false⟩
      | none =>
        let (r, runs, ran) := runFlash w (jobOf w uid record path)
        match s.incrementFlashCount uid with
        | .error e => ⟨.error (.store e), s, runs, ran⟩
        | .ok s => ⟨.ok (resultOf r), s, runs, ran⟩

/-- Does the uid have a flash-kind lock? -/
def held : Bool := (locks.status uid).any fun holder => holder.kind = .flash

/-- `flash_hex`. The exception for an unusable Universal Hex is built with one argument
too few. -/
def flashHex : Done :=
  if held locks uid then
    match normalized w with
    | .error e =>
      if e.isUniversalHexError then
        ⟨.error (.typeError
          "HexValidationError.__init__() missing 1 required positional argument: 'message'"),
          s, 0, false⟩
      else ⟨.error (.normalize e), s, 0, false⟩
    | .ok n => flashLocked w s uid n (pathOf w hexPath n)
  else ⟨.error (.flashLockNotHeld uid), s, 0, false⟩

/-! ## The operation as its log lines see it -/

def OpRaise.ofRaised : Raised → OpRaise
  | .clientGone message => clientGone message
  | .notStarted message => clientGone message
  | .hexValidation hexPath message => hexValidation hexPath message
  | .flashLockNotHeld uid => flashLockNotHeld uid
  | .typeError message => typeError message

/-- Does the script say of the file and the device what they are? -/
structure Agrees (record : Option DeviceRecord) : Prop where
  runner : w.runner = none
  universal : ∀ e, normalized w = .error e →
    e.isUniversalHexError = true ∧ w.script.normalized = .error (String.ofList e.message)
  hex : ∀ n, normalized w = .ok n → w.script.normalized = .ok (pathOf w hexPath n) ∧
    w.script.precheckHex = validatePlain w n (pathOf w hexPath n)
  perm : w.script.precheckPerm = checkDevicePermission w (record.bind DeviceRecord.port)

section Script

variable {w locks s uid hexPath} {r : DeviceRecord} {record : Option DeviceRecord}

theorem flashLocked_denied {script : Script} (job : Job) (takes : Client) {permError : String}
    (hhex : script.precheckHex = none) (hperm : script.precheckPerm = some permError) :
    ∃ l : Log Event Run, l.state.runs = 0 ∧ Flash.flashLocked script job takes ⟨[], ⟨[], 0⟩⟩ =
      (if takes 0 = true then .ok ⟨false, none, some permError⟩
        else .error (.clientGone script.gone), l) := by
  have hlocked : Flash.flashLocked script job = (do
      log script s!"Error: {permError}"
      pure ⟨false, none, some permError⟩) := by
    simp only [Flash.flashLocked, hhex, hperm]
  have hlog : log script s!"Error: {permError}" takes ⟨[], ⟨[], 0⟩⟩ =
      (if takes 0 = true then .ok () else .error (.clientGone script.gone),
        ⟨[(.line s!"Error: {permError}", ⟨[], 0⟩)], ⟨[], 0⟩⟩) := rfl
  rw [hlocked]
  by_cases htakes : takes 0 = true
  · rw [if_pos htakes] at hlog ⊢
    exact ⟨_, rfl, Talk.bind_of_ok hlog⟩
  · rw [if_neg htakes] at hlog ⊢
    exact ⟨_, rfl, Talk.bind_of_error hlog⟩

/-- What the flash logic raises becomes a result. -/
theorem flashLocked_ran {script : Script} (job : Job) (takes : Client)
    (hhex : script.precheckHex = none) (hperm : script.precheckPerm = none) (l : Log Event Run) :
    Flash.flashLocked script job takes l =
      (.ok (resultOf ((flashHexPlain script job takes l).1.mapError Raised.message)),
        (flashHexPlain script job takes l).2) := by
  simp only [Flash.flashLocked, hhex, hperm]
  unfold Talk.attempt
  rcases hrun : flashHexPlain script job takes l with ⟨result, l₁⟩
  cases result with
  | ok rc =>
    rw [Talk.bind_of_ok hrun]
    rfl
  | error e =>
    rw [Talk.bind_of_error hrun]
    rfl

/-- On a device that has a row, and a hex file that is refused by name or converts, the
operation goes the way of its log. -/
theorem flashHex_eq_flashOp (h : Agrees w hexPath record) (hr : s.get uid = some r)
    (hrecord : s.find w.script.casing uid = .ok record) :
    let (result, l) := flashOp w.script (jobOf w uid record hexPath) (held locks uid) w.takes
      ⟨[], ⟨[], 0⟩⟩
    (flashHex w locks s uid hexPath).result = result.mapError .ofRaised ∧
      (flashHex w locks s uid hexPath).runs = l.state.runs := by
  unfold flashHex flashOp
  cases held locks uid with
  | false => exact ⟨rfl, rfl⟩
  | true =>
    cases hn : normalized w with
    | error e =>
      obtain ⟨huniversal, hnormalized⟩ := h.universal e hn
      simp only [hnormalized, huniversal, if_true]
      exact ⟨rfl, rfl⟩
    | ok n =>
      obtain ⟨hnormalized, hhex⟩ := h.hex n hn
      simp only [hnormalized, if_true]
      let job := jobOf w uid record (pathOf w hexPath n)
      change (flashLocked w s uid n (pathOf w hexPath n)).result =
          (Flash.flashLocked w.script job w.takes ⟨[], ⟨[], 0⟩⟩).1.mapError .ofRaised ∧
        (flashLocked w s uid n (pathOf w hexPath n)).runs =
          (Flash.flashLocked w.script job w.takes ⟨[], ⟨[], 0⟩⟩).2.state.runs
      unfold flashLocked
      cases hvalid : validatePlain w n (pathOf w hexPath n) with
      | some message =>
        rw [hvalid] at hhex
        simp only [Flash.flashLocked, hhex]
        exact ⟨rfl, rfl⟩
      | none =>
        rw [hvalid] at hhex
        simp only [hrecord]
        cases hperm : checkDevicePermission w (record.bind DeviceRecord.port) with
        | some permError =>
          obtain ⟨l, hruns, hlocked⟩ :=
            flashLocked_denied job w.takes hhex (h.perm.trans hperm)
          rw [hlocked, hruns]
          dsimp only
          split
          · exact ⟨rfl, rfl⟩
          · exact ⟨rfl, rfl⟩
        | none =>
          rw [flashLocked_ran job w.takes hhex (h.perm.trans hperm),
            Store.incrementFlashCount_of_row hr]
          simp only [runFlash, h.runner]
          exact ⟨rfl, rfl⟩

end Script

/-! ## The contract -/

/-- A named exception leaves everything as it was; a result comes with the count of what
was started. -/
structure FlashContract (count : ℕ) (d : Done) : Prop where
  raised : ∀ e, d.result = .error e → e.isNamed = true ∧ ¬ d.started ∧
    (d.store.get uid).map DeviceRecord.flashCount = some count
  counted : ∀ r, d.result = .ok r → ∃ more, (d.store.get uid).map DeviceRecord.flashCount =
    some (count + more) ∧ (d.started → more = 1) ∧ (¬ d.started → more = 0)

def ValidateContract (result : Except OpRaise Unit) : Prop :=
  ∀ e, result = .error e → e.isNamed = true

/-- Does the flash logic get as far as its first pyocd process? -/
def Starts (script : Script) (job : Job) : Prop :=
  script.hexError = none ∧ script.permError = none ∧
    ∃ p, script.pyocd 0 (job.flashCmd script) = .ok p

/-- For a file that `intelhex` reads: the refusal for the permission can be logged, or
something is started. -/
def Runs (record : Option DeviceRecord) (n : Normalized) : Prop :=
  (∃ permError, checkDevicePermission w (record.bind DeviceRecord.port) = some permError ∧
    w.takes 0 = true) ∨
  (checkDevicePermission w (record.bind DeviceRecord.port) = none ∧
    (w.runner = none → Starts w.script (jobOf w uid record (pathOf w hexPath n))))

/-- The hex file converts, and where it reads, the flash is refused or started. -/
def FlashReady : Prop :=
  Converts w.file w.targetMcu.toList ∧
    ∀ n, normalized w = .ok n → w.loadhex n = none →
      ∀ record, s.find w.script.casing uid = .ok record → Runs w uid hexPath record n

/-! ## What is started -/

/-- The processes started are only counted up. -/
def Grows {α : Type} (f : FlashM α) : Prop :=
  ∀ takes l, l.state.runs ≤ (f takes l).2.state.runs

namespace Grows

variable {α β : Type} {f : FlashM α} {script : Script}

theorem pure (a : α) : Grows (pure a) := fun _ _ => le_rfl

/-- What follows a program only adds to it. -/
theorem after (f : FlashM α) {g : α → FlashM β} (hg : ∀ a, Grows (g a)) (takes : Client)
    (l : Log Event Run) : (f takes l).2.state.runs ≤ ((f >>= g) takes l).2.state.runs := by
  rcases hr : f takes l with ⟨r, l₁⟩
  cases r with
  | ok a =>
    rw [Talk.bind_of_ok hr]
    exact hg a takes l₁
  | error e => rw [Talk.bind_of_error hr]

theorem bind {g : α → FlashM β} (hf : Grows f) (hg : ∀ a, Grows (g a)) : Grows (f >>= g) :=
  fun takes l => (hf takes l).trans (after f hg takes l)

theorem log_then (line : String) (hf : Grows f) : Grows (do log script line; f) :=
  bind (fun _ _ => le_rfl) fun _ => hf

theorem ite {c : Prop} [Decidable c] {g : FlashM α} (hf : Grows f) (hg : Grows g) :
    Grows (if c then f else g) := by
  split
  · exact hf
  · exact hg

theorem pump (ending : Ending) (lines : List String) : Grows (pump script ending lines) := by
  induction lines with
  | nil =>
    cases ending with
    | exits rc => exact pure _
    | silent => exact log_then _ (pure _)
  | cons line rest ih =>
    apply log_then
    apply ite
    · exact log_then _ (pure _)
    · exact ih.bind fun _ => pure _

theorem watch (p : Process) : Grows (do
    let (killed, seen) ← Flash.pump script p.ending p.lines
    wait
    Pure.pure (exitCode p killed, "\n".intercalate seen)) :=
  (pump p.ending p.lines).bind fun _ => bind (fun _ _ => le_rfl) fun _ => pure _

theorem popen (cmd : List String) : Grows (popen script cmd) := by
  intro takes l
  cases h : script.pyocd l.state.runs cmd with
  | error e => rw [popen_of_error h]
  | ok p =>
    rw [popen_of_ok h]
    exact Nat.le_succ _

theorem runStreamed (cmd : List String) : Grows (runStreamed script cmd) :=
  (popen cmd).bind fun p => watch p

variable (job : Job)

theorem reset : Grows (reset script job) := (runStreamed _).bind fun _ => pure _

theorem recover : Grows (recover script job) := by
  apply log_then
  apply (runStreamed _).bind
  intro _
  apply ite
  · exact log_then _ (pure _)
  · apply (runStreamed _).bind
    intro _
    exact ite (log_then _ (pure _)) (reset job)

theorem conclude (rc : ℤ) (output : String) : Grows (conclude script job rc output) := by
  apply ite
  · exact recover job
  apply ite
  · exact log_then _ (pure _)
  · exact ite (log_then _ (pure _)) (reset job)

variable (script) in
theorem judge (x : ℤ × String) :
    Grows (if x.1 ≠ 0 ∧ looksPermissionDenied script.casing x.2 = true then
      Pure.pure x.1
    else if x.1 ≠ 0 ∧ looksTransient script.casing x.2 = true then do
      log script <| "flash failed with a transient-looking probe/communication error — " ++
        "retrying once before any mass-erase decision."
      let (rc, output) ← Flash.runStreamed script (job.flashCmd script)
      Flash.conclude script job rc output
    else Flash.conclude script job x.1 x.2) := by
  apply ite
  · exact pure _
  apply ite
  · exact log_then _ ((runStreamed _).bind fun _ => conclude job _ _)
  · exact conclude job _ _

end Grows

/-- A message and a code: nothing is started. -/
theorem log_state (script : Script) (line : String) (rc : ℤ) (takes : Client)
    (l : Log Event Run) :
    ((do log script line; pure rc : FlashM ℤ) takes l).2.state = l.state := by
  rcases hr : log script line takes l with ⟨r, l₁⟩
  have hstate : (log script line takes l).2.state = l.state := rfl
  rw [hr] at hstate
  cases r with
  | ok _ =>
    rw [Talk.bind_of_ok hr]
    exact hstate
  | error e =>
    rw [Talk.bind_of_error hr]
    exact hstate

theorem starts_iff (script : Script) (job : Job) (takes : Client) :
    0 < (flashHexPlain script job takes ⟨[], ⟨[], 0⟩⟩).2.state.runs ↔ Starts script job := by
  unfold flashHexPlain Starts
  cases hhex : script.hexError with
  | some e =>
    dsimp only
    rw [log_state]
    simp
  | none =>
    cases hperm : script.permError with
    | some e =>
      dsimp only
      rw [log_state]
      simp
    | none =>
      cases hp : script.pyocd 0 (job.flashCmd script) with
      | error e =>
        have hrun : runStreamed script (job.flashCmd script) takes ⟨[], ⟨[], 0⟩⟩ =
            (.error (.notStarted e), ⟨[], ⟨[], 0⟩⟩) :=
          Talk.bind_of_error (popen_of_error hp takes)
        dsimp only
        rw [flashRetrying, Talk.bind_of_error hrun]
        simp
      | ok p =>
        have hfirst : 1 ≤ (runStreamed script (job.flashCmd script) takes
            ⟨[], ⟨[], 0⟩⟩).2.state.runs := by
          rw [runStreamed, Talk.bind_of_ok (popen_of_ok hp takes)]
          exact Grows.watch p takes ⟨[(.started p, ⟨[], 0⟩)], ⟨[p], 1⟩⟩
        have hrest := Grows.after (runStreamed script (job.flashCmd script))
          (Grows.judge script job) takes ⟨[], ⟨[], 0⟩⟩
        exact ⟨fun _ => ⟨rfl, rfl, p, rfl⟩, fun _ => hfirst.trans hrest⟩

/-! ## When the contract is kept -/

variable {w locks s uid hexPath} {r : DeviceRecord} {count : ℕ} {d : Done}

theorem contract_raised {e : OpRaise} (hr : s.get uid = some r) :
    FlashContract uid r.flashCount ⟨.error e, s, 0, false⟩ ↔ e.isNamed = true := by
  constructor
  · exact fun h => (h.raised e rfl).1
  · intro he
    refine ⟨?_, nofun⟩
    rintro _ ⟨⟩
    exact ⟨he, by simp [Done.started], by rw [hr]; rfl⟩

theorem contract_refused {result : FlashResult} (hr : s.get uid = some r) :
    FlashContract uid r.flashCount ⟨.ok result, s, 0, false⟩ := by
  refine ⟨nofun, ?_⟩
  rintro _ ⟨⟩
  exact ⟨0, by rw [hr]; rfl, by simp [Done.started], fun _ => rfl⟩

/-- A flash that is counted has to have started something. -/
theorem contract_counted {result : FlashResult} {runs : ℕ} {ran : Bool}
    (hr : s.get uid = some r) :
    FlashContract uid r.flashCount ⟨.ok result, s.writeRow r.flashed, runs, ran⟩ ↔
      0 < runs ∨ ran = true := by
  have hcount : ((s.writeRow r.flashed).get uid).map DeviceRecord.flashCount =
      some (r.flashCount + 1) := by
    have huid : r.flashed.uid = uid := r.flashed_uid.trans (Store.uid_of_get hr)
    rw [Store.get_writeRow_self huid]
    rfl
  constructor
  · intro h
    obtain ⟨more, hmore, -, hnot⟩ := h.counted result rfl
    by_contra hs
    rw [hcount, hnot hs] at hmore
    simp at hmore
  · intro hs
    refine ⟨nofun, ?_⟩
    rintro _ ⟨⟩
    exact ⟨1, hcount, fun _ => rfl, fun h => absurd hs h⟩

/-- A row is found by its uid, or the token is taken for a name and a host. -/
theorem find_of_get (C : Casing) (hr : s.get uid = some r) :
    ∃ record, s.find C uid = .ok record := by
  unfold Store.find
  cases rpartitionAt uid with
  | some nameHost => exact ⟨_, rfl⟩
  | none => exact ⟨some r, by rw [hr]; rfl⟩

theorem runFlash_started (job : Job) :
    (0 < (runFlash w job).2.1 ∨ (runFlash w job).2.2 = true) ↔
      (w.runner = none → Starts w.script job) := by
  unfold runFlash
  cases w.runner with
  | none =>
    dsimp only
    rw [starts_iff]
    simp
  | some runner => simp

theorem flashLocked_contract_iff {n : Normalized} {path : String} (hr : s.get uid = some r)
    (hpath : path = pathOf w hexPath n) :
    FlashContract uid r.flashCount (flashLocked w s uid n path) ↔
      (w.loadhex n = none → ∀ record, s.find w.script.casing uid = .ok record →
        Runs w uid hexPath record n) := by
  obtain ⟨record, hrecord⟩ := find_of_get w.script.casing hr
  unfold flashLocked validatePlain
  cases hload : w.loadhex n with
  | some e =>
    have hnamed : ∀ message, (OpRaise.hexValidation path message).isNamed = true := fun _ => rfl
    cases e with
    | os message => simp only [contract_raised hr, hnamed]; simp
    | intelHex message => simp only [contract_raised hr, hnamed]; simp
  | none =>
    simp only [hrecord, forall_const, Except.ok.injEq, forall_eq']
    unfold Runs
    cases hperm : checkDevicePermission w (record.bind DeviceRecord.port) with
    | some permError =>
      by_cases htakes : w.takes 0 = true
      · simp [htakes, contract_refused hr]
      · simp [htakes, contract_raised hr, OpRaise.isNamed]
    | none =>
      dsimp only
      rw [Store.incrementFlashCount_of_row hr]
      dsimp only
      rw [contract_counted hr, runFlash_started, hpath]
      simp

theorem flashHex_keeps_iff (hr : s.get uid = some r) :
    FlashContract uid r.flashCount (flashHex w locks s uid hexPath) ↔
      (held locks uid = true → FlashReady w s uid hexPath) := by
  unfold flashHex FlashReady
  by_cases hheld : held locks uid = true
  · rw [if_pos hheld]
    simp only [hheld, forall_const]
    rcases normalizedHex_cases w.file w.targetMcu.toList with
      ⟨hconv, -, n, hn⟩ | ⟨hconv, -, e, he, huniversal⟩ | ⟨hconv, -, e, he, huniversal⟩
    · have hn' : normalized w = .ok n := hn
      simp only [hn', hconv, true_and, Except.ok.injEq, forall_eq']
      exact flashLocked_contract_iff hr rfl
    · have he' : normalized w = .error e := he
      simp only [he', huniversal, hconv, if_true, false_and, iff_false]
      rw [contract_raised hr]
      simp [OpRaise.isNamed]
    · have he' : normalized w = .error e := he
      simp only [he', huniversal, hconv, false_and, iff_false]
      rw [if_neg (by simp), contract_raised hr]
      simp [OpRaise.isNamed]
  · rw [if_neg hheld]
    simp only [contract_raised hr, hheld]
    simp [OpRaise.isNamed]

theorem validateHex_keeps_iff :
    ValidateContract (validateHex w hexPath) ↔ Judged w.file w.targetMcu.toList := by
  unfold ValidateContract validateHex
  rcases normalizedHex_cases w.file w.targetMcu.toList with
    ⟨-, hj, n, hn⟩ | ⟨-, hj, e, he, huniversal⟩ | ⟨-, hj, e, he, huniversal⟩
  · have hn' : normalized w = .ok n := hn
    simp only [hn', hj, iff_true]
    split
    · rintro _ ⟨⟩
      rfl
    · nofun
  · have he' : normalized w = .error e := he
    simp only [he', huniversal, hj, iff_true, if_true]
    rintro _ ⟨⟩
    rfl
  · have he' : normalized w = .error e := he
    simp only [he', huniversal, hj, iff_false]
    intro h
    exact absurd (h _ rfl) (by simp [OpRaise.isNamed])

def hexFile (text : String) : List UInt8 := text.toList.map fun c => UInt8.ofNat c.toNat

/-- pyocd flashes whatever it is given, and every file reads. -/
def bench (text : String) : World where
  script := programming
  targetMcu := "nrf52833"
  file := some (hexFile text)
  tmpPath := "mbtools-1.hex"
  loadhex := fun _ => none
  repr := fun path => "'" ++ path ++ "'"
  pathExists := fun _ => true
  mayAccess := fun _ => true
  runner := none
  takes := .all

def flashLock : LockManager :=
  Dict.insert Table.empty "9904" ⟨.flash, ⟨.local, "cli", some 1, none⟩, none, 0⟩

def boardStore : Store := Store.empty.upsertAttached 1 "9904" "/dev/ttyACM0" "0d28:0204"

def boardRow : DeviceRecord := .new 1 "9904" none (some "/dev/ttyACM0") (some "0d28:0204")

def plainText : String := ":00000001FF\n"

/-- A Universal Hex without the image of the target. -/
def v1Only : String := ":0400000A9900C0DEBB\n:00000001FF\n"

end MbTools.Flash.Operation
