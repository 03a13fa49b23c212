import MbTools.Flash.LockLifetime

/-! # What the flash logic decides

The shared flash logic seen from its pyocd invocations: which commands it issues,
given the exit code and the output of each, what it reports and what it returns.
-/

namespace MbTools.Flash.Decision

inductive Verb where
  | flash
  | erase
  | reset
  deriving DecidableEq, Repr

/-- One pyocd invocation and what it came to. -/
structure Call where
  verb : Verb
  rc : ℤ
  output : String
  deriving DecidableEq, Repr

/-- The commands issued, the messages logged (the output of pyocd itself left out) and
the exit code returned. -/
structure Outcome where
  calls : List Call
  logged : List String
  rc : ℤ
  deriving DecidableEq, Repr

namespace Outcome

def stop (rc : ℤ) : Outcome := ⟨[], [], rc⟩

def say (message : String) (o : Outcome) : Outcome := { o with logged := message :: o.logged }

def call (c : Call) (o : Outcome) : Outcome := { o with calls := c :: o.calls }

end Outcome

/-- What the invocation with a number returns, by what it is asked to do. -/
abbrev Answers := ℕ → Verb → ℤ × String

variable (C : Casing) (answers : Answers) (job : Job) (blocker : Option String)

def invoke (n : ℕ) (verb : Verb) : Call := ⟨verb, (answers n verb).1, (answers n verb).2⟩

def reset (n : ℕ) : Outcome :=
  let c := invoke answers n .reset
  .call c (.stop c.rc)

def boardName : String := (Api.field job.boardName).getD job.uid

def noFirmware (rc : ℤ) (name : String) : String :=
  s!"Error: flash still failed after mass erase (exit {rc}) — {name} WAS ERASED AND NOW HAS " ++
    "NO FIRMWARE. It will not run until it is successfully reflashed."

/-- The mass erase of a locked device, and the flash after it. -/
def recover (n : ℕ) : Outcome :=
  .say "flash failed — attempting CTRL-AP mass erase to recover a locked device, then retrying." <|
    let erase := invoke answers n .erase
    .call erase <|
      if erase.rc ≠ 0 then
        .say s!"Error: mass erase failed (exit {erase.rc})." (.stop erase.rc)
      else
        let flash := invoke answers (n + 1) .flash
        .call flash <|
          if flash.rc ≠ 0 then .say (noFirmware flash.rc (boardName job)) (.stop flash.rc)
          else reset answers (n + 2)

/-- What is done about the result of the flash, with `n` invocations made. -/
def conclude (flash : Call) (n : ℕ) : Outcome :=
  if flash.rc ≠ 0 ∧ looksLocked C flash.output = true then recover answers job n
  else if flash.rc ≠ 0 ∧ looksClaimBlocked C flash.output = true then
    .say (match blocker with
      | some blocker => s!"Error: {blocker}"
      | none =>
        "Error: could not claim the probe -- another program (often a WebUSB browser tab such " ++
          "as MakeCode) has this board open. Close it, then flash again.") (.stop flash.rc)
  else if flash.rc ≠ 0 then
    .say
      (s!"Error: flash failed (exit {flash.rc}) with no recognized recoverable signature -- not " ++
        "mass-erasing. If this device is actually locked/protected, run 'pyocd erase --mass' " ++
        "manually.")
      (.stop flash.rc)
  else reset answers n

/-- The flash itself, with its one blind retry. -/
def flashRetrying : Outcome :=
  let first := invoke answers 0 .flash
  .call first <|
    if first.rc ≠ 0 ∧ looksPermissionDenied C first.output = true then .stop first.rc
    else if first.rc ≠ 0 ∧ looksTransient C first.output = true then
      .say ("flash failed with a transient-looking probe/communication error — " ++
        "retrying once before any mass-erase decision.") <|
        let second := invoke answers 1 .flash
        .call second (conclude C answers job blocker second 2)
    else conclude C answers job blocker first 1

/-- `_flash_hex`: the checks before any pyocd, then the flash. -/
def flashHex (hexError permError : Option String) : Outcome :=
  match hexError with
  | some e => .say s!"Error: {e}" (.stop 1)
  | none =>
    match permError with
    | some e => .say s!"Error: {e}" (.stop 1)
    | none => flashRetrying C answers job blocker

/-! ## The procedure in the flash logic -/

section Processes

variable (script : Script) (job : Job)

def Verb.command : Verb → List String
  | .flash => job.flashCmd script
  | .erase => job.command script "erase" ["--mass"]
  | .reset => job.command script "reset" []

/-- What is seen of a process: was it killed, and what did it print until then? -/
def watched (C : Casing) (ending : Ending) : List String → Bool × List String
  | [] => (ending = .silent, [])
  | line :: rest =>
    if looksPermissionDenied C line then (true, [line])
    else ((watched C ending rest).1, line :: (watched C ending rest).2)

def Process.answer (C : Casing) (p : Process) : ℤ × String :=
  (exitCode p (watched C p.ending p.lines).1, "\n".intercalate (watched C p.ending p.lines).2)

/-- The processes of the script, as answers; one that does not start ends the run instead. -/
def answersOf : Answers := fun n verb =>
  match script.pyocd n (verb.command script job) with
  | .ok p => Process.answer script.casing p
  | .error _ => (0, "")

def linesOf (events : List (Event × Run)) : List String :=
  events.filterMap fun x =>
    match x.1 with
    | .line text => some text
    | _ => none

/-- With `n` processes started, does the program start the processes of the outcome, log
its messages and return its code? -/
def Follows (n : ℕ) (f : FlashM ℤ) (o : Outcome) : Prop :=
  ∀ l : Log Event Run, l.state.runs = n → ∃ new state,
    f .all l = (.ok o.rc, ⟨l.events ++ new, state⟩) ∧
      state.runs = n + o.calls.length ∧ o.logged.Sublist (linesOf new)

variable {script job} {n : ℕ}

theorem follows_stop (rc : ℤ) : Follows n (pure rc) (.stop rc) := by
  rintro l rfl
  exact ⟨[], l.state, by rw [List.append_nil]; rfl, rfl, List.nil_sublist _⟩

theorem follows_say (message : String) {f : FlashM ℤ} {o : Outcome} (h : Follows n f o) :
    Follows n (do log script message; f) (.say message o) := by
  rintro l rfl
  obtain ⟨new, state, hrun, hruns, hlogged⟩ :=
    h ⟨l.events ++ [(.line message, l.state)], l.state⟩ rfl
  refine ⟨(.line message, l.state) :: new, state, ?_, hruns, hlogged.cons_cons message⟩
  rw [List.append_cons]
  exact hrun

theorem pump_watched (ending : Ending) (lines : List String) (l : Log Event Run) :
    ∃ new, pump script ending lines .all l =
      (.ok (watched script.casing ending lines), ⟨l.events ++ new, l.state⟩) := by
  induction lines generalizing l with
  | nil =>
    cases ending with
    | exits rc => exact ⟨[], by rw [List.append_nil]; rfl⟩
    | silent => exact ⟨_, rfl⟩
  | cons line rest ih =>
    obtain ⟨new, hrest⟩ := ih ⟨l.events ++ [(.line line, l.state)], l.state⟩
    unfold pump watched
    split
    · exact ⟨_, by
        rw [Talk.bind_of_ok rfl, Talk.bind_of_ok rfl]
        exact congrArg _ (congrArg (Log.mk · _) (List.append_assoc ..))⟩
    · refine ⟨(.line line, l.state) :: new, ?_⟩
      rw [Talk.bind_of_ok rfl, Talk.bind_of_ok hrest, List.append_assoc]
      rfl

theorem runStreamed_watched {cmd : List String} {p : Process} {l : Log Event Run}
    (hp : script.pyocd l.state.runs cmd = .ok p) :
    ∃ new, runStreamed script cmd .all l = (.ok (Process.answer script.casing p),
      ⟨l.events ++ new, ⟨l.state.running, l.state.runs + 1⟩⟩) := by
  obtain ⟨new, hpump⟩ := pump_watched p.ending p.lines
    ⟨l.events ++ [(.started p, l.state)], ⟨p :: l.state.running, l.state.runs + 1⟩⟩
  refine ⟨(.started p, l.state) ::
    (new ++ [(.waited, ⟨p :: l.state.running, l.state.runs + 1⟩)]), ?_⟩
  rw [runStreamed, Talk.bind_of_ok (popen_of_ok hp .all), Talk.bind_of_ok hpump]
  exact congrArg (fun e => (Except.ok _, Log.mk e _))
    ((List.append_assoc ..).trans (List.append_assoc ..))

theorem linesOf_append (events more : List (Event × Run)) :
    linesOf (events ++ more) = linesOf events ++ linesOf more := List.filterMap_append

/-- A process that starts is watched to its end, and its answer decides what follows. -/
theorem follows_call (verb : Verb) {g : ℤ × String → FlashM ℤ} {o : Outcome}
    (hp : ∃ p, script.pyocd n (verb.command script job) = .ok p)
    (h : Follows (n + 1) (g (answersOf script job n verb)) o) :
    Follows n (runStreamed script (verb.command script job) >>= g)
      (.call (invoke (answersOf script job) n verb) o) := by
  rintro l rfl
  obtain ⟨p, hp⟩ := hp
  have hanswer : answersOf script job l.state.runs verb = Process.answer script.casing p := by
    rw [answersOf, hp]
  obtain ⟨new, hrun⟩ := runStreamed_watched hp
  obtain ⟨more, state, hrest, hruns, hlogged⟩ :=
    h ⟨l.events ++ new, ⟨l.state.running, l.state.runs + 1⟩⟩ rfl
  refine ⟨new ++ more, state, ?_, ?_, ?_⟩
  · rw [Talk.bind_of_ok hrun, ← hanswer, hrest, List.append_assoc]
    rfl
  · rw [hruns]
    exact (Nat.add_right_comm ..).trans (Nat.add_assoc ..)
  · rw [linesOf_append]
    exact hlogged.trans (List.sublist_append_right _ _)

theorem follows_ite {c : Prop} [Decidable c] {f g : FlashM ℤ} {o o' : Outcome}
    (hf : Follows n f o) (hg : Follows n g o') :
    Follows n (if c then f else g) (if c then o else o') := by
  split
  · exact hf
  · exact hg

section Logic

variable (hstart : ∀ n cmd, ∃ p, script.pyocd n cmd = .ok p)

include hstart

theorem follows_reset : Follows n (Flash.reset script job) (reset (answersOf script job) n) :=
  follows_call .reset (hstart _ _) (follows_stop _)

theorem follows_recover :
    Follows n (Flash.recover script job) (recover (answersOf script job) job n) := by
  apply follows_say
  apply follows_call .erase (hstart _ _)
  refine follows_ite (follows_say _ (follows_stop _)) ?_
  apply follows_call .flash (hstart _ _)
  exact follows_ite (follows_say _ (follows_stop _)) (follows_reset hstart)

theorem follows_conclude (verb : Verb) (m : ℕ) :
    Follows n (Flash.conclude script job (answersOf script job m verb).1
        (answersOf script job m verb).2)
      (conclude script.casing (answersOf script job) job script.blocker
        (invoke (answersOf script job) m verb) n) := by
  refine follows_ite (follows_recover hstart) ?_
  refine follows_ite (follows_say _ (follows_stop _)) ?_
  exact follows_ite (follows_say _ (follows_stop _)) (follows_reset hstart)

theorem follows_flashRetrying :
    Follows 0 (Flash.flashRetrying script job)
      (flashRetrying script.casing (answersOf script job) job script.blocker) := by
  apply follows_call .flash (hstart _ _)
  refine follows_ite (follows_stop _) ?_
  refine follows_ite ?_ (follows_conclude hstart .flash 0)
  apply follows_say
  exact follows_call .flash (hstart _ _) (follows_conclude hstart .flash 1)

end Logic

/-- Once every pyocd starts, the flash logic goes the way its answers decide. -/
theorem follows_flashHex (hstart : ∀ n cmd, ∃ p, script.pyocd n cmd = .ok p) :
    Follows 0 (flashHexPlain script job)
      (flashHex script.casing (answersOf script job) job script.blocker script.hexError
        script.permError) := by
  unfold flashHexPlain flashHex
  cases script.hexError with
  | some e => exact follows_say _ (follows_stop _)
  | none =>
    cases script.permError with
    | some e => exact follows_say _ (follows_stop _)
    | none => exact follows_flashRetrying hstart

end Processes

/-! ## The contract -/

def Call.failed (c : Call) : Prop := c.rc ≠ 0

/-- Each invocation with the one directly after it. -/
def following (calls : List Call) : List (Call × Call) := calls.zip calls.tail

/-- A flash directly after a flash is a blind retry. -/
def isRetry (p : Call × Call) : Bool := p.1.verb = .flash && p.2.verb = .flash

/-- The procedure with at most `retries` blind retries, for the board of this name. -/
structure Contract (C : Casing) (name : String) (retries : ℕ) (o : Outcome) : Prop where
  retry : (following o.calls).countP isRetry ≤ retries
  oneErase : o.calls.countP (fun c => c.verb = .erase) ≤ 1
  noFirst : ∀ c ∈ o.calls.head?, c.verb ≠ .erase
  erase : ∀ p ∈ following o.calls, p.2.verb = .erase →
    p.1.verb = .flash ∧ p.1.failed ∧ looksLocked C p.1.output ∧ ¬ looksPermissionDenied C p.1.output
  denied : ∀ p ∈ following o.calls, p.1.verb = .flash ∨ p.1.verb = .erase → p.1.failed →
    ¬ looksPermissionDenied C p.1.output
  success : o.rc = 0 → ∃ before flash reset, o.calls = before ++ [flash, reset] ∧
    flash.verb = .flash ∧ flash.rc = 0 ∧ reset.verb = .reset ∧ reset.rc = 0
  noFirmware : ∀ p ∈ following o.calls, p.1.verb = .erase → p.1.rc = 0 → p.2.verb = .flash →
    p.2.failed → noFirmware p.2.rc name ∈ o.logged

/-- The retry's output is taken for a locked device although it names a permission
problem. -/
def RetryDenied (C : Casing) (answers : Answers) : Prop :=
  let first := invoke answers 0 .flash
  let second := invoke answers 1 .flash
  first.rc ≠ 0 ∧ ¬ looksPermissionDenied C first.output ∧ looksTransient C first.output ∧
    second.rc ≠ 0 ∧ looksLocked C second.output ∧ looksPermissionDenied C second.output

variable {C : Casing} {answers job blocker} {name : String} {flash : Call} {n : ℕ}

theorem contract_stop {logged : List String} (hf : flash.verb = .flash) (hrc : flash.rc ≠ 0) :
    Contract C name 0 ⟨[flash], logged, flash.rc⟩ where
  retry := by simp [following]
  oneErase := by simp [hf]
  noFirst := by simp [hf]
  erase := by simp [following]
  denied := by simp [following]
  success h := absurd h hrc
  noFirmware := by simp [following]

theorem contract_reset {logged : List String} (hf : flash.verb = .flash) (hrc : flash.rc = 0)
    (reset : Call) (hr : reset.verb = .reset) :
    Contract C name 0 ⟨[flash, reset], logged, reset.rc⟩ where
  retry := by simp [following, isRetry, hr]
  oneErase := by simp [hf, hr]
  noFirst := by simp [hf]
  erase := by simp [following, hr]
  denied := by simp [following, hf, hrc, Call.failed]
  success h := ⟨[], flash, reset, rfl, hf, hrc, hr, h⟩
  noFirmware := by simp [following, hf]

section Recover

variable (hf : flash.verb = .flash) (hfail : flash.failed)
  (hlocked : looksLocked C flash.output = true) (hperm : ¬ looksPermissionDenied C flash.output)

include hf hfail hlocked hperm

theorem contract_eraseFailed {logged : List String} (erase : Call) (he : erase.verb = .erase)
    (hrc : erase.rc ≠ 0) : Contract C name 0 ⟨[flash, erase], logged, erase.rc⟩ where
  retry := by simp [following, isRetry, he]
  oneErase := by simp [hf, he]
  noFirst := by simp [hf]
  erase := by simp [following, hf, hfail, hlocked, hperm]
  denied := by simp [following, hperm]
  success h := absurd h hrc
  noFirmware := by simp [following, hf]

theorem contract_erased {logged : List String} {rc : ℤ} (erase : Call) (he : erase.verb = .erase)
    (hrc : erase.rc = 0) (more : List Call) (again : Call) (ha : again.verb = .flash)
    (hmore : again.rc ≠ 0 ∧ more = [] ∧ rc = again.rc ∧ noFirmware again.rc name ∈ logged ∨
      again.rc = 0 ∧ ∃ reset : Call, reset.verb = .reset ∧ more = [reset] ∧ rc = reset.rc) :
    Contract C name 0 ⟨flash :: erase :: again :: more, logged, rc⟩ := by
  rcases hmore with ⟨hfail', rfl, rfl, hlog⟩ | ⟨hok, reset, hr, rfl, rfl⟩
  · exact
      { retry := by simp [following, isRetry, he]
        oneErase := by simp [hf, he, ha]
        noFirst := by simp [hf]
        erase := by simp [following, hf, hfail, hlocked, hperm, he, ha]
        denied := by simp [following, hperm, he, hrc, Call.failed]
        success := fun h => absurd h hfail'
        noFirmware := by simp [following, hf, he, hlog] }
  · exact
      { retry := by simp [following, isRetry, he, hr]
        oneErase := by simp [hf, he, ha, hr]
        noFirst := by simp [hf]
        erase := by simp [following, hf, hfail, hlocked, hperm, he, ha, hr]
        denied := by simp [following, hperm, he, hrc, ha, hok, Call.failed]
        success := fun h => ⟨[flash, erase], again, reset, rfl, ha, hok, hr, h⟩
        noFirmware := by simp [following, hf, he, ha, hok, Call.failed] }

end Recover

/-- What is done about a flash keeps the contract, unless the flash failed for a
permission problem and is taken for a locked device. -/
theorem contract_conclude (hf : flash.verb = .flash)
    (hsafe : ¬(flash.rc ≠ 0 ∧ looksLocked C flash.output ∧ looksPermissionDenied C flash.output)) :
    Contract C (boardName job) 0 (.call flash (conclude C answers job blocker flash n)) := by
  unfold conclude
  split
  next hl =>
    have hperm : ¬ looksPermissionDenied C flash.output := fun hp => hsafe ⟨hl.1, hl.2, hp⟩
    unfold recover
    dsimp only
    split
    next he => exact contract_eraseFailed hf hl.1 hl.2 hperm _ rfl he
    next he =>
      split
      next ha =>
        exact contract_erased hf hl.1 hl.2 hperm _ rfl (not_not.mp he) [] _ rfl
          (.inl ⟨ha, rfl, rfl, by simp [Outcome.say, Outcome.call, Outcome.stop]⟩)
      next ha =>
        exact contract_erased hf hl.1 hl.2 hperm _ rfl (not_not.mp he) _ _ rfl
          (.inr ⟨not_not.mp ha, _, rfl, rfl, rfl⟩)
  next =>
    split
    next hc => exact contract_stop hf hc.1
    next =>
      split
      next hrc => exact contract_stop hf hrc
      next hrc => exact contract_reset hf (not_not.mp hrc) _ rfl

theorem following_cons (c d : Call) (cs : List Call) :
    following (c :: d :: cs) = (c, d) :: following (d :: cs) := rfl

theorem Contract.retried {k : ℕ} {first second : Call} {o : Outcome} {message : String}
    (h : Contract C name k (.call second o)) (hf : first.verb = .flash) (hs : second.verb = .flash)
    (hperm : ¬ looksPermissionDenied C first.output) :
    Contract C name (k + 1) (.call first (.say message (.call second o))) where
  retry := by
    have := h.retry
    simp only [Outcome.call, Outcome.say, following_cons, List.countP_cons] at this ⊢
    split <;> omega
  oneErase := by
    have := h.oneErase
    simp only [Outcome.call, Outcome.say] at this ⊢
    rwa [List.countP_cons_of_neg (by simp [hf])]
  noFirst := by simp [Outcome.call, hf]
  erase p hp hv := by
    rcases List.mem_cons.mp hp with rfl | hp
    · rw [hs] at hv
      cases hv
    · exact h.erase p hp hv
  denied p hp hv hfail := by
    rcases List.mem_cons.mp hp with rfl | hp
    · exact hperm
    · exact h.denied p hp hv hfail
  success hrc := by
    obtain ⟨before, flash, reset, hcalls, hrest⟩ := h.success hrc
    exact ⟨first :: before, flash, reset, congrArg (first :: ·) hcalls, hrest⟩
  noFirmware p hp he hrc hv hfail := by
    rcases List.mem_cons.mp hp with rfl | hp
    · rw [hf] at he
      cases he
    · exact List.mem_cons_of_mem _ (h.noFirmware p hp he hrc hv hfail)

theorem Contract.mono {k l : ℕ} {o : Outcome} (h : Contract C name k o) (hkl : k ≤ l) :
    Contract C name l o := { h with retry := Nat.le_trans h.retry hkl }

theorem contract_checks (e : String) : Contract C name 1 (.say e (.stop 1)) where
  retry := by simp [Outcome.say, Outcome.stop, following]
  oneErase := by simp [Outcome.say, Outcome.stop]
  noFirst := by simp [Outcome.say, Outcome.stop]
  erase := by simp [Outcome.say, Outcome.stop, following]
  denied := by simp [Outcome.say, Outcome.stop, following]
  success h := absurd h (by simp [Outcome.say, Outcome.stop])
  noFirmware := by simp [Outcome.say, Outcome.stop, following]

theorem contract_flashRetrying (h : ¬ RetryDenied C answers) :
    Contract C (boardName job) 1 (flashRetrying C answers job blocker) := by
  unfold flashRetrying
  dsimp only
  split
  next hd => exact (contract_stop rfl hd.1).mono (Nat.le_succ 0)
  next hd =>
    split
    next ht =>
      have hperm : ¬ looksPermissionDenied C (invoke answers 0 .flash).output :=
        fun hp => hd ⟨ht.1, hp⟩
      refine (contract_conclude rfl fun hs => h ?_).retried rfl rfl hperm
      exact ⟨ht.1, hperm, ht.2, hs⟩
    next => exact (contract_conclude rfl fun hs => hd ⟨hs.1, hs.2.2⟩).mono (Nat.le_succ 0)

theorem recover_head (answers : Answers) (job : Job) (n : ℕ) :
    ∃ calls, (recover answers job n).calls = invoke answers n .erase :: calls :=
  ⟨_, rfl⟩

/-- A retry denied and taken for a locked device is followed by the mass erase. -/
theorem not_contract_of_retryDenied {k : ℕ} (h : RetryDenied C answers) :
    ¬ Contract C name k (flashRetrying C answers job blocker) := by
  obtain ⟨hrc, hperm, htransient, hrc', hlocked, hperm'⟩ := h
  intro hc
  obtain ⟨calls, hcalls⟩ := recover_head answers job 2
  have hrun : (flashRetrying C answers job blocker).calls =
      invoke answers 0 .flash :: invoke answers 1 .flash :: invoke answers 2 .erase :: calls := by
    unfold flashRetrying
    dsimp only
    rw [if_neg fun hd => hperm hd.2, if_pos ⟨hrc, htransient⟩]
    unfold conclude
    rw [if_pos ⟨hrc', hlocked⟩]
    simp only [Outcome.call, Outcome.say, hcalls]
  refine hc.denied (invoke answers 1 .flash, invoke answers 2 .erase) ?_ (.inl rfl) hrc' hperm'
  rw [hrun, following_cons, following_cons]
  exact List.mem_cons_of_mem _ List.mem_cons_self

/-- Whatever the pyocd invocations come to, the procedure keeps its contract exactly
when no retry is taken for a locked device while its output names a permission
problem. -/
theorem flashHex_contract_iff (C : Casing) (answers : Answers) (job : Job)
    (blocker hexError permError : Option String) :
    Contract C (boardName job) 1 (flashHex C answers job blocker hexError permError) ↔
      (hexError = none → permError = none → ¬ RetryDenied C answers) := by
  cases hexError with
  | some e => exact ⟨fun _ h => absurd h (by simp), fun _ => contract_checks _⟩
  | none =>
    cases permError with
    | some e => exact ⟨fun _ _ h => absurd h (by simp), fun _ => contract_checks _⟩
    | none =>
      constructor
      · intro hc _ _ hr
        exact not_contract_of_retryDenied hr hc
      · intro h
        exact contract_flashRetrying (h rfl rfl)

def bench : Job := ⟨"9900a", "blink.hex", "nrf52833", some "zavaz"⟩

/-- The probe times out, and the retry fails on a locked region of a board this user may
not open. -/
def deniedAnswers : Answers := fun n _ =>
  if n = 0 then (1, "probe timeout")
  else if n = 1 then (1, "target is locked\naccess denied")
  else (0, "")

theorem flashHex_erases_denied :
    ¬ ∀ C answers job blocker hexError permError,
      Contract C (boardName job) 1 (flashHex C answers job blocker hexError permError) := by
  intro h
  have hr : RetryDenied .ascii deniedAnswers := by
    unfold RetryDenied
    decide +kernel
  exact not_contract_of_retryDenied hr (h .ascii deniedAnswers bench none none none)

end MbTools.Flash.Decision
