import MbTools.Relay.PoolHandler

/-! # The planes of a relay session

`_run_session` acquires a relay, tunes it and puts it in the data plane with `!GO`; from
then on all bytes go out over the radio until a BREAK. Its release writes `!DEFAULTS` on
every way out, after the data plane too.

The board and the clock are an oracle: each call on the channel has a moment, which says
whether the call raises, what reaches the board and what a wait finds.
-/

namespace MbTools.RelaySession

open Unwind RelayPool

inductive Plane where
  | command
  | data
  deriving DecidableEq

/-- What comes to the board, and when it acts on a `!GO`. -/
inductive Event where
  | wrote (line : String)
  | typed (data : String)
  | broke
  | acted
  deriving DecidableEq

structure Board where
  plane : Plane
  goWaiting : Bool

def goLine : String := "!GO\n"

def defaultsLine : String := "!DEFAULTS\n"

/-- Only in the command plane is a line a command. -/
def Board.hear (b : Board) (line : String) : Board :=
  if b.plane = .command ∧ line = goLine then { b with goWaiting := true } else b

def Board.step (b : Board) : Event → Board
  | .wrote line => b.hear line
  | .typed data => b.hear data
  | .broke => ⟨.command, false⟩
  | .acted => ⟨.data, false⟩

/-- One call on the channel: whether it raises, whether it has reached the board even so,
whether the board then acts on a `!GO` that it has, and what a wait finds. A match may be
one that the caller does not hope for, such as an error line. -/
structure Moment where
  raised : Option Exn
  reached : Bool
  acts : Bool
  found : Option Bool

def Moment.quiet : Moment := ⟨none, true, false, none⟩

structure World where
  start : Plane
  events : List Event
  moments : List Moment

def World.board (w : World) : Board := w.events.foldl Board.step ⟨w.start, false⟩

def World.add (e : Event) (w : World) : World := { w with events := w.events ++ [e] }

abbrev SessionM (α : Type) := Unwind World Exn α

def moment : SessionM Moment := fun w =>
  (.ok (w.moments.headD .quiet), { w with moments := w.moments.tail })

/-- The board acts while time passes. -/
def elapse (m : Moment) : SessionM Unit :=
  change fun w => if m.acts = true ∧ w.board.goWaiting = true then w.add .acted else w

/-- A call that brings something to the board. -/
def send (e : Event) : SessionM Unit := do
  let m ← moment
  change fun w => if m.raised = none ∨ m.reached = true then w.add e else w
  elapse m
  raises m.raised

def writeNowait (line : String) : SessionM Unit := send (.wrote line)

/-- A call that brings nothing to the board, or a pause. -/
def pause : SessionM Unit := do
  let m ← moment
  elapse m
  raises m.raised

/-- `Reader.wait_for`. -/
def waitFor : SessionM (Option Bool) := do
  let m ← moment
  elapse m
  raises m.raised
  pure m.found

/-- `Reader.wait_for` for the board's word that it enters the data plane, which it does not
give before. -/
def waitForGo : SessionM Bool := do
  let found ← waitFor
  fun w => (.ok (found.isSome && w.board.plane = .data), w)

def relayError (message : String) : SessionM Unit := raises (some (.relayError message))

/-- The arguments of a session: the attempts of `hello`, the robot's link, whether to probe
it, what the user sends or types, and the exit code of the script or the terminal. -/
structure Session where
  helloAttempts : ℕ
  channel : ℕ
  group : ℕ
  probe : Bool
  typed : List String
  code : ℕ

/-- `RelayControl._ask_hello`: whether there is a banner. -/
def askHello : ℕ → SessionM Bool
  | 0 => pure false
  | attempts + 1 => do
    writeNowait "HELLO\n"
    let found ← waitFor
    if found = some true then pure true else askHello attempts

/-- The BREAK of `hello`, and what the board says after it. -/
def breakAndAsk (attempts : ℕ) : SessionM Bool := do
  let sent ← except (fun _ => true)
    (do
      send .broke
      pure true)
    fun _ => pure false
  if sent then do
    pause
    askHello attempts
  else pure false

def hello (attempts : ℕ) : SessionM Unit := do
  let info ← askHello attempts
  if info then pure ()
  else do
    let info ← breakAndAsk attempts
    if info then pure () else relayError "no DEVICE banner"

def firmwareVersion : SessionM Unit := do
  writeNowait "!VER?\n"
  let _ ← waitFor

/-- The commands of `NORMALIZE_STEPS`. -/
def normalizeSteps : List String :=
  ["!MODE RAW250\n", "!FRAG OFF\n", "!ECHO OFF\n", "!P 7\n", "!C 0\n"]

def normalizeStep : List String → SessionM Unit
  | [] => pure ()
  | command :: commands => do
    writeNowait command
    let _ ← waitFor
    normalizeStep commands

def normalize : ℕ → SessionM Unit
  | 0 => relayError "board did not confirm factory defaults after normalize"
  | attempts + 1 => do
    normalizeStep normalizeSteps
    writeNowait "?\n"
    let config ← waitFor
    if config = some true then pure ()
    else do
      pause
      normalize attempts

def cgLine (channel group : ℕ) : String :=
  "!CG " ++ toString channel ++ " " ++ toString group ++ "\n"

/-- `_tune` up to its `!GO`. -/
def tuneLink (s : Session) : SessionM Unit := do
  writeNowait (cgLine s.channel s.group)
  let reply ← waitFor
  match reply with
  | none => relayError "relay did not answer !CG"
  | some false => relayError "relay refused !CG"
  | some true => pause

/-- `_tune` from its `!GO`. -/
def enterDataPlane (s : Session) : SessionM Unit := do
  writeNowait goLine
  let entered ← waitForGo
  if entered then
    if s.probe then do
      pause
      writeNowait "PING\n"
      let _ ← waitFor
    else pure ()
  else relayError "relay did not enter the data plane"

def tune (s : Session) : SessionM Unit := do
  tuneLink s
  enterDataPlane s

/-- `_run_script` and `_interactive`, as far as they write. -/
def handOff : List String → SessionM Unit
  | [] => pause
  | data :: typed => do
    send (.typed data)
    handOff typed

def exitHardware : ℕ := 6

/-- A part of the session whose `RelayError` ends it: whether it is over without one. -/
def succeeds (part : SessionM Unit) : SessionM Bool :=
  except Exn.isRelayError
    (do
      part
      pure true)
    fun _ => pure false

def acquire (s : Session) : SessionM Unit := do
  hello s.helloAttempts
  firmwareVersion
  normalize 2

/-- The body of `_run_session`. -/
def body (s : Session) : SessionM ℕ := do
  let acquired ← succeeds (acquire s)
  if acquired then do
    let tuned ← succeeds (tune s)
    if tuned then do
      pause
      handOff s.typed
      pure s.code
    else pure exitHardware
  else pure exitHardware

def clearStoredConfig : SessionM Unit := do
  writeNowait defaultsLine
  let _ ← waitFor

/-- What `_run_session` does on every way out. -/
def release : SessionM Unit := do
  pause
  let _ ← succeeds clearStoredConfig
  pause

def runSession (s : Session) : SessionM ℕ := do
  pause
  pause
  pause
  ensure (body s) release

/-- What happens in a session with a board that is in the plane `start` when its channel is
opened. -/
def events (s : Session) (start : Plane) (moments : List Moment) : List Event :=
  (runSession s ⟨start, [], moments⟩).2.events

def isCommand (line : String) : Bool :=
  line.toList.head? = some '!' || line.toList.head? = some '?'

def planeAt (start : Plane) (before : List Event) : Plane :=
  (before.foldl Board.step ⟨start, false⟩).plane

/-- Every command the tool writes is written in the command plane. -/
def CommandsInPlane (start : Plane) (es : List Event) : Prop :=
  ∀ before line behind, es = before ++ .wrote line :: behind → isCommand line = true →
    planeAt start before = .command

/-- No command goes out to a board that is in the data plane from the start and has had no
BREAK, and `!DEFAULTS` does not go out once the board has acted on `!GO`. -/
def Spared (start : Plane) (es : List Event) : Prop :=
  ∀ before line behind, es = before ++ .wrote line :: behind → isCommand line = true →
    (start = .command ∨ .broke ∈ before) ∧ (line = defaultsLine → .acted ∉ before)

/-! ### What the parts of a session bring to the board -/

/-- What may happen before the session's `!GO`. -/
def Event.Early (e : Event) : Prop := e = .broke ∨ ∃ line, e = .wrote line ∧ line ≠ goLine

/-- What may happen after it. -/
def Event.Late (e : Event) : Prop :=
  e = .acted ∨ (∃ data, e = .typed data) ∨
    ∃ line, e = .wrote line ∧ (isCommand line = true → line = defaultsLine)

/-- Only events of a kind are added. -/
def Adds (P : Event → Prop) (w w' : World) : Prop :=
  w'.start = w.start ∧ ∃ es, w'.events = w.events ++ es ∧ ∀ e ∈ es, P e

/-- A board without a `!GO` is left without one. -/
def AddsEarly (w w' : World) : Prop :=
  w.board.goWaiting = false → w'.board.goWaiting = false ∧ Adds Event.Early w w'

/-- The events split at the session's `!GO`. -/
def AddsBoth (w w' : World) : Prop :=
  w.board.goWaiting = false → w'.start = w.start ∧ ∃ es late,
    w'.events = w.events ++ es ++ late ∧ .acted ∉ es ∧ ∀ e ∈ late, e.Late

variable {P : Event → Prop} {w w' w'' : World} {e : Event} {s : Session}

theorem Adds.rfl : Adds P w w := ⟨Eq.refl _, [], by simp⟩

theorem Adds.trans (h : Adds P w w') (h' : Adds P w' w'') : Adds P w w'' := by
  obtain ⟨hs, es, he, hP⟩ := h
  obtain ⟨hs', es', he', hP'⟩ := h'
  refine ⟨hs'.trans hs, es ++ es', by rw [he', he, List.append_assoc], fun e hm => ?_⟩
  exact (List.mem_append.mp hm).elim (hP e) (hP' e)

theorem Adds.one (h : P e) : Adds P w (w.add e) := ⟨Eq.refl _, [e], Eq.refl _, by simpa using h⟩

theorem AddsEarly.rfl : AddsEarly w w := fun h => ⟨h, .rfl⟩

theorem AddsEarly.trans (h : AddsEarly w w') (h' : AddsEarly w' w'') : AddsEarly w w'' := by
  intro hw
  obtain ⟨hg, ha⟩ := h hw
  obtain ⟨hg', ha'⟩ := h' hg
  exact ⟨hg', ha.trans ha'⟩

theorem not_early_acted : ¬ Event.Early .acted := by simp [Event.Early]

theorem AddsEarly.both (h : AddsEarly w w') : AddsBoth w w' := by
  intro hw
  obtain ⟨-, hs, es, he, hes⟩ := h hw
  exact ⟨hs, es, [], by simpa using he, fun hm => not_early_acted (hes _ hm), by simp⟩

theorem AddsEarly.trans_both (h : AddsEarly w w') (h' : AddsBoth w' w'') : AddsBoth w w'' := by
  intro hw
  obtain ⟨hg, hs, es, he, hes⟩ := h hw
  obtain ⟨hs', es', late, he', hes', hlate⟩ := h' hg
  refine ⟨hs'.trans hs, es ++ es', late, by rw [he', he, List.append_assoc w.events], ?_, hlate⟩
  intro hm
  rcases List.mem_append.mp hm with hm | hm
  · exact not_early_acted (hes _ hm)
  · exact hes' hm

theorem AddsBoth.trans_late (h : AddsBoth w w') (h' : Adds Event.Late w' w'') :
    AddsBoth w w'' := by
  intro hw
  obtain ⟨hs, es, late, he, hes, hlate⟩ := h hw
  obtain ⟨hs', late', he', hlate'⟩ := h'
  refine ⟨hs'.trans hs, es, late ++ late', by rw [he', he, List.append_assoc], hes, fun e hm => ?_⟩
  exact (List.mem_append.mp hm).elim (hlate e) (hlate' e)

theorem add_board (e : Event) (w : World) : (w.add e).board = w.board.step e := by
  rw [World.board, World.add, List.foldl_append]
  rfl

theorem early_step (b : Board) (he : e.Early) (h : b.goWaiting = false) :
    (b.step e).goWaiting = false := by
  rcases he with rfl | ⟨line, rfl, hne⟩
  · rfl
  · rw [Board.step, Board.hear, if_neg fun hc => hne hc.2]
    exact h

theorem within_moment_early : Within AddsEarly moment := fun _ hw => ⟨hw, rfl, [], by simp [moment]⟩

theorem within_moment (P : Event → Prop) : Within (Adds P) moment :=
  fun _ => ⟨rfl, [], by simp [moment]⟩

theorem elapse_early (m : Moment) : Within AddsEarly (elapse m) := by
  refine .change fun w hw => ?_
  rw [if_neg fun h => by rw [hw] at h; exact Bool.noConfusion h.2]
  exact ⟨hw, .rfl⟩

theorem elapse_late (m : Moment) : Within (Adds Event.Late) (elapse m) := by
  refine .change fun w => ?_
  split
  · exact .one (.inl rfl)
  · exact .rfl

/-- What is needed of a relation for the calls on the channel to be within it. -/
structure Covers (R : World → World → Prop) (P : Event → Prop) : Prop where
  refl : ∀ w, R w w
  trans : ∀ w w' w'', R w w' → R w' w'' → R w w''
  moment : Within R moment
  elapse : ∀ m, Within R (elapse m)
  add : ∀ e, P e → ∀ w, R w (w.add e)

theorem covers_early : Covers AddsEarly Event.Early where
  refl _ := .rfl
  trans _ _ _ := .trans
  moment := within_moment_early
  elapse := elapse_early
  add e he w hw := ⟨by rw [add_board]; exact early_step _ he hw, .one he⟩

theorem covers_late : Covers (Adds Event.Late) Event.Late where
  refl _ := .rfl
  trans _ _ _ := .trans
  moment := within_moment _
  elapse := elapse_late
  add _ he _ := .one he

namespace Covers
variable {R : World → World → Prop} (h : Covers R P)
include h

theorem answer {α : Type} (x : Except Exn α) : Within R (answer x) :=
  .of_silent h.refl (.answer x)

theorem pure {α : Type} (a : α) : Within R (pure a : SessionM α) :=
  .of_silent h.refl (.pure a)

theorem bind {α β : Type} {f : SessionM α} {g : α → SessionM β} (hf : Within R f)
    (hg : ∀ a, Within R (g a)) : Within R (f >>= g) :=
  Within.bind h.trans hf hg

theorem send (he : P e) : Within R (send e) := by
  refine h.bind h.moment fun m => h.bind (.change fun w => ?_) fun _ =>
    h.bind (h.elapse m) fun _ => h.answer _
  split
  · exact h.add e he w
  · exact h.refl w

theorem pause : Within R pause :=
  h.bind h.moment fun m => h.bind (h.elapse m) fun _ => h.answer _

theorem waitFor : Within R waitFor :=
  h.bind h.moment fun m => h.bind (h.elapse m) fun _ => h.bind (h.answer _) fun _ => h.pure _

theorem succeeds {part : SessionM Unit} (hp : Within R part) : Within R (succeeds part) :=
  Within.except h.trans (h.bind hp fun _ => h.pure _) fun _ => h.pure _

end Covers

/-! ### The parts of a session -/

theorem early_write {line : String} (h : line ≠ goLine) :
    Within AddsEarly (writeNowait line) := covers_early.send (.inr ⟨line, rfl, h⟩)

theorem askHello_early (attempts : ℕ) : Within AddsEarly (askHello attempts) := by
  induction attempts with
  | zero => exact covers_early.pure _
  | succ attempts ih =>
    refine covers_early.bind (early_write (by decide)) fun _ =>
      covers_early.bind covers_early.waitFor fun found => ?_
    exact .ite (covers_early.pure _) ih

theorem hello_early (attempts : ℕ) : Within AddsEarly (hello attempts) := by
  refine covers_early.bind (askHello_early attempts) fun info => ?_
  refine .ite (covers_early.pure _) (covers_early.bind ?_ fun info => ?_)
  · refine covers_early.bind (Within.except covers_early.trans ?_ fun _ => covers_early.pure _)
      fun sent => ?_
    · exact covers_early.bind (covers_early.send (.inl rfl)) fun _ => covers_early.pure _
    · refine .ite ?_ (covers_early.pure _)
      exact covers_early.bind covers_early.pause fun _ => askHello_early attempts
  · exact .ite (covers_early.pure _) (covers_early.answer _)

theorem firmwareVersion_early : Within AddsEarly firmwareVersion :=
  covers_early.bind (early_write (by decide)) fun _ =>
    covers_early.bind covers_early.waitFor fun _ => covers_early.pure _

theorem normalizeStep_early {commands : List String} (h : goLine ∉ commands) :
    Within AddsEarly (normalizeStep commands) := by
  induction commands with
  | nil => exact covers_early.pure _
  | cons command commands ih =>
    rw [List.mem_cons, not_or] at h
    exact covers_early.bind (early_write (Ne.symm h.1)) fun _ =>
      covers_early.bind covers_early.waitFor fun _ => ih h.2

theorem normalize_early (attempts : ℕ) : Within AddsEarly (normalize attempts) := by
  induction attempts with
  | zero => exact covers_early.answer _
  | succ attempts ih =>
    refine covers_early.bind (normalizeStep_early (by decide)) fun _ =>
      covers_early.bind (early_write (by decide)) fun _ =>
        covers_early.bind covers_early.waitFor fun config => ?_
    exact .ite (covers_early.pure _) (covers_early.bind covers_early.pause fun _ => ih)

theorem acquire_early (s : Session) : Within AddsEarly (acquire s) :=
  covers_early.bind (hello_early _) fun _ =>
    covers_early.bind firmwareVersion_early fun _ => normalize_early _

theorem cgLine_ne (channel group : ℕ) : cgLine channel group ≠ goLine := by
  intro h
  have hlist := congrArg (fun line => line.toList[1]?) h
  simp [cgLine, goLine] at hlist

theorem tuneLink_early (s : Session) : Within AddsEarly (tuneLink s) := by
  refine covers_early.bind (early_write (cgLine_ne _ _)) fun _ =>
    covers_early.bind covers_early.waitFor fun reply => ?_
  rcases reply with _ | _ | _
  · exact covers_early.answer _
  · exact covers_early.answer _
  · exact covers_early.pause

theorem bind_early_both {α β : Type} {f : SessionM α} {g : α → SessionM β}
    (hf : Within AddsEarly f) (hg : ∀ a, Within AddsBoth (g a)) : Within AddsBoth (f >>= g) :=
  hf.bind_comp (fun _ _ h => h.both) (fun _ _ _ h h' => h.trans_both h') hg

theorem bind_both_late {α β : Type} {f : SessionM α} {g : α → SessionM β}
    (hf : Within AddsBoth f) (hg : ∀ a, Within (Adds Event.Late) (g a)) :
    Within AddsBoth (f >>= g) :=
  hf.bind_comp (fun _ _ => id) (fun _ _ _ h h' => h.trans_late h') hg

theorem late_write {line : String} (h : isCommand line = true → line = defaultsLine) :
    Within (Adds Event.Late) (writeNowait line) := covers_late.send (.inr (.inr ⟨line, rfl, h⟩))

/-- Up to the session's `!GO` the board has not acted, and behind it only `!DEFAULTS` can be
a command. -/
theorem enterDataPlane_both (s : Session) : Within AddsBoth (enterDataPlane s) := by
  have hgo : Within AddsBoth (writeNowait goLine) := by
    refine bind_early_both within_moment_early fun m => bind_both_late (.change fun w _ => ?_)
      fun _ => covers_late.bind (elapse_late m) fun _ => covers_late.answer _
    split
    · exact ⟨rfl, [.wrote goLine], [], by simp [World.add], by simp, by simp⟩
    · exact ⟨rfl, [], [], by simp, by simp, by simp⟩
  have hrest : ∀ entered : Bool, Within (Adds Event.Late) (if entered then
      if s.probe then do
        pause
        writeNowait "PING\n"
        let _ ← waitFor
      else pure ()
    else relayError "relay did not enter the data plane") := by
    intro entered
    refine .ite (.ite ?_ (covers_late.pure _)) (covers_late.answer _)
    refine covers_late.bind covers_late.pause fun _ => covers_late.bind (late_write ?_) fun _ =>
      covers_late.bind covers_late.waitFor fun _ => covers_late.pure _
    exact fun h => absurd h (by decide)
  refine bind_both_late hgo fun _ => covers_late.bind ?_ hrest
  exact covers_late.bind covers_late.waitFor fun _ => .of_silent covers_late.refl fun _ => rfl

theorem handOff_late (typed : List String) : Within (Adds Event.Late) (handOff typed) := by
  induction typed with
  | nil => exact covers_late.pause
  | cons data typed ih =>
    exact covers_late.bind (covers_late.send (.inr (.inl ⟨data, rfl⟩))) fun _ => ih

theorem AddsBoth.rfl : AddsBoth w w := AddsEarly.rfl.both

theorem body_both (s : Session) : Within AddsBoth (body s) := by
  have hpure : ∀ code : ℕ, Within AddsBoth (pure code : SessionM ℕ) :=
    fun code => .of_silent (fun _ => .rfl) (.pure code)
  have htune : Within AddsBoth (tune s) :=
    bind_early_both (tuneLink_early s) fun _ => enterDataPlane_both s
  have htuned : Within AddsBoth (succeeds (tune s)) :=
    Within.except_silent (bind_both_late htune fun _ => covers_late.pure _) fun _ => .pure _
  refine bind_early_both (covers_early.succeeds (acquire_early s)) fun acquired =>
    .ite ?_ (hpure _)
  refine bind_both_late htuned fun tuned => .ite ?_ (covers_late.pure _)
  exact covers_late.bind covers_late.pause fun _ =>
    covers_late.bind (handOff_late _) fun _ => covers_late.pure _

theorem release_late : Within (Adds Event.Late) release := by
  have hclear : Within (Adds Event.Late) clearStoredConfig :=
    covers_late.bind (late_write fun _ => rfl) fun _ =>
      covers_late.bind covers_late.waitFor fun _ => covers_late.pure _
  exact covers_late.bind covers_late.pause fun _ =>
    covers_late.bind (covers_late.succeeds hclear) fun _ => covers_late.pause

/-- A session first has no `!GO`, and then no BREAK and no command but `!DEFAULTS`. -/
theorem runSession_both (s : Session) : Within AddsBoth (runSession s) := by
  have hbody : Within AddsBoth (ensure (body s) release) :=
    Within.ensure_comp (S := Adds Event.Late) (fun _ _ _ h h' => AddsBoth.trans_late h h')
      (body_both s) release_late
  exact bind_early_both covers_early.pause fun _ => bind_early_both covers_early.pause fun _ =>
    bind_early_both covers_early.pause fun _ => hbody

/-! ### The plane a command meets -/

variable {start : Plane} {before es late : List Event}

theorem plane_hear (b : Board) (line : String) : (b.hear line).plane = b.plane := by
  rw [Board.hear]
  split <;> rfl

/-- Before the board acts on `!GO` it is in the command plane if it was, or was reset. -/
theorem plane_foldl_of_not_acted (b : Board) (h : .acted ∉ es) :
    (es.foldl Board.step b).plane = .command ↔ b.plane = .command ∨ .broke ∈ es := by
  induction es generalizing b with
  | nil => simp
  | cons e es ih =>
    rw [List.mem_cons, not_or] at h
    rw [List.foldl_cons, ih _ h.2, List.mem_cons]
    cases e with
    | wrote line => simp [Board.step, plane_hear]
    | typed data => simp [Board.step, plane_hear]
    | broke => simp [Board.step]
    | acted => exact absurd rfl h.1

theorem planeAt_of_not_acted (h : .acted ∉ before) :
    planeAt start before = .command ↔ start = .command ∨ .broke ∈ before :=
  plane_foldl_of_not_acted ⟨start, false⟩ h

/-- Once it has acted only a BREAK brings it back. -/
theorem plane_foldl_of_acted (b : Board) (hb : .broke ∉ es)
    (h : b.plane = .data ∨ .acted ∈ es) : (es.foldl Board.step b).plane = .data := by
  induction es generalizing b with
  | nil => simpa using h
  | cons e es ih =>
    rw [List.mem_cons, not_or] at hb
    rw [List.foldl_cons]
    refine ih _ hb.2 ?_
    rcases h with h | h
    · left
      cases e with
      | wrote line => rw [Board.step, plane_hear, h]
      | typed data => rw [Board.step, plane_hear, h]
      | broke => exact absurd rfl hb.1
      | acted => rfl
    · rcases List.mem_cons.mp h with rfl | h
      · exact .inl rfl
      · exact .inr h

theorem not_late_broke : ¬ Event.Late .broke := by simp [Event.Late]

/-- One command meets the command plane exactly if it is spared. -/
theorem planeAt_iff (hes : .acted ∉ es) (hlate : ∀ e ∈ late, e.Late) {line : String}
    {behind : List Event} (h : es ++ late = before ++ .wrote line :: behind)
    (hline : isCommand line = true) :
    planeAt start before = .command ↔
      (start = .command ∨ .broke ∈ before) ∧ (line = defaultsLine → .acted ∉ before) := by
  by_cases hacted : .acted ∈ before
  · -- the command is behind the session's `!GO`
    rcases List.append_eq_append_iff.mp h with ⟨mid, rfl, hmid⟩ | ⟨mid, rfl, -⟩
    · have hmem : ∀ e ∈ mid, e.Late := fun e he => hlate e (by rw [hmid]; simp [he])
      have hactedMid := (List.mem_append.mp hacted).resolve_left hes
      have hbroke : .broke ∉ mid := fun he => not_late_broke (hmem _ he)
      have hdata : planeAt start (es ++ mid) = .data := by
        rw [planeAt, List.foldl_append]
        exact plane_foldl_of_acted _ hbroke (.inr hactedMid)
      have hdefaults : line = defaultsLine := by
        have hl : Event.Late (.wrote line) := hlate _ (by rw [hmid]; simp)
        rcases hl with hl | ⟨data, hl⟩ | ⟨line', hl, hd⟩
        · cases hl
        · cases hl
        · cases hl
          exact hd hline
      rw [hdata]
      exact iff_of_false (by decide) fun hspared => hspared.2 hdefaults hacted
    · exact absurd (List.mem_append_left _ hacted) hes
  · rw [planeAt_of_not_acted hacted]
    exact ⟨fun hplane => ⟨hplane, fun _ => hacted⟩, fun hspared => hspared.1⟩

/-- A session that sends one line. -/
def oneLine : Session := ⟨4, 7, 10, true, ["hi\n"], 0⟩

/-- The board answers everything as it should, and acts on `!GO` at once. -/
def prompt : List Moment := List.replicate 40 ⟨none, true, true, some true⟩

end MbTools.RelaySession
