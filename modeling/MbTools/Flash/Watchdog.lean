import MbTools.Flash.Pyocd
import MbTools.Lib.Runs
import Mathlib.Data.List.ReduceOption

/-! # The watchdog and its reader

pyocd writes to a pipe, a thread reads the lines and queues them, and the watching loop takes
them from the queue: three parties that take turns in any order. What comes of it is
what the loop makes of some list of lines, as in `runStreamed`.
-/

namespace MbTools.Flash.Watchdog

open Runs

/-- Where the thread in `_reader` is. -/
inductive Reader where
  | reading
  | holding (line : String)
  /-- In its `finally`. -/
  | finishing
  | ended
  deriving DecidableEq, Repr

def Reader.held : Reader → List String
  | holding line => [line]
  | _ => []

/-- Where `run_streamed_with_watchdog` is. -/
inductive Main where
  | polling
  | joining
  | waiting
  | returned (rc : ℤ) (output : String)
  | raised (e : Raised)
  deriving DecidableEq, Repr

structure Watch where
  /-- What pyocd wrote. -/
  written : List String
  /-- What of it was not read yet. -/
  pipe : List String
  /-- Does a process have the pipe open for writing? -/
  pipeOpen : Bool
  /-- The exit code of pyocd, if it has ended. -/
  status : Option ℤ
  reader : Reader
  /-- Has the reader met bytes that are no text? -/
  garbled : Bool
  queue : List (Option String)
  main : Main
  lines : List String
  killed : Bool
  log : Log Event Run

inductive Action where
  | write (line : String)
  | closePipe
  | exit (rc : ℤ)
  | read
  /-- The next line cannot be decoded. -/
  | garble
  | atEnd
  | put
  | get
  | timeOut
  /-- The wait for the reader is over, whether it has ended or not. -/
  | join
  | wait
  deriving DecidableEq, Repr

section Step

variable (script : Script) (takes : Client)

/-- What the loop does with a line: does it kill pyocd for it? -/
def onLine (line : String) : FlashM Bool := do
  Flash.log script line
  if looksPermissionDenied script.casing line then do
    Flash.log script permissionReported
    pure true
  else pure false

def start (l : Log Event Run) : Watch :=
  ⟨[], [], true, none, .reading, false, [], .polling, [], false, l⟩

variable (s : Watch)

/-- The loop goes on after one of its turns, in which it may have killed pyocd. -/
def Watch.afterTurn (lines : List String) : Except Raised Bool × Log Event Run → Watch
  | (.ok true, log) => { s with lines, log, killed := true, main := .joining }
  | (.ok false, log) => { s with lines, log }
  | (.error e, log) => { s with lines, log, main := .raised e }

def Watch.step : Action → Option Watch
  | .write line =>
    if s.pipeOpen then some { s with written := s.written ++ [line], pipe := s.pipe ++ [line] }
    else none
  | .closePipe => if s.pipeOpen then some { s with pipeOpen := false } else none
  | .exit rc => if s.status = none then some { s with status := some rc } else none
  | .read =>
    match s.reader, s.pipe with
    | .reading, line :: rest => some { s with reader := .holding line, pipe := rest }
    | _, _ => none
  | .garble =>
    match s.reader, s.pipe with
    | .reading, _ :: _ => some { s with reader := .finishing, garbled := true }
    | _, _ => none
  | .atEnd =>
    if s.reader = .reading ∧ s.pipe = [] ∧ s.pipeOpen = false then
      some { s with reader := .finishing }
    else none
  | .put =>
    match s.reader with
    | .holding line => some { s with reader := .reading, queue := s.queue ++ [some line] }
    | .finishing => some { s with reader := .ended, queue := s.queue ++ [none] }
    | _ => none
  | .get =>
    match s.main, s.queue with
    | .polling, some line :: rest =>
      some (Watch.afterTurn { s with queue := rest } (s.lines ++ [line])
        (onLine script line takes s.log))
    | .polling, none :: rest => some { s with queue := rest, main := .joining }
    | _, _ => none
  | .timeOut =>
    if s.main = .polling ∧ s.queue = [] then
      some (s.afterTurn s.lines ((do Flash.log script noProgress; pure true) takes s.log))
    else none
  | .join => if s.main = .joining then some { s with main := .waiting } else none
  | .wait =>
    match s.main, s.status with
    | .waiting, some rc =>
      some { s with
        main := .returned (if s.killed ∧ rc = 0 then 1 else rc) ("\n".intercalate s.lines)
        log := (Flash.wait takes s.log).2 }
    | _, _ => none

end Step

/-! ## The loop on a list of lines -/

section Lines

variable {script : Script} {takes : Client}

/-- What `runStreamed` does with a process it has started. -/
def watched (script : Script) (p : Process) : FlashM (ℤ × String) := do
  let (killed, seen) ← pump script p.ending p.lines
  Flash.wait
  pure (exitCode p killed, "\n".intercalate seen)

theorem runStreamed_eq (cmd : List String) :
    runStreamed script cmd = popen script cmd >>= watched script := rfl

/-- The result for the lines that follow, with those that were seen before. -/
def prefixed (seen : List String) (r : Except Raised (Bool × List String) × Log Event Run) :
    Except Raised (Bool × List String) × Log Event Run :=
  (r.1.map fun x => (x.1, seen ++ x.2), r.2)

theorem prefixed_nil (r : Except Raised (Bool × List String) × Log Event Run) :
    prefixed [] r = r := by
  rcases r with ⟨_ | _, _⟩ <;> rfl

theorem prefixed_prefixed (a b : List String)
    (r : Except Raised (Bool × List String) × Log Event Run) :
    prefixed a (prefixed b r) = prefixed (a ++ b) r := by
  rcases r with ⟨_ | _, _⟩
  · rfl
  · simp [prefixed, Except.map]

theorem pump_cons (ending : Ending) (line : String) (rest : List String) (l : Log Event Run) :
    pump script ending (line :: rest) takes l =
      match onLine script line takes l with
      | (.ok true, l') => (.ok (true, [line]), l')
      | (.ok false, l') => prefixed [line] (pump script ending rest takes l')
      | (.error e, l') => (.error e, l') := by
  rw [pump, onLine]
  rcases hlog : Flash.log script line takes l with ⟨_ | ⟨⟩, l'⟩
  · rw [Talk.bind_of_error hlog, Talk.bind_of_error hlog]
  · rw [Talk.bind_of_ok hlog, Talk.bind_of_ok hlog]
    split
    · rcases hreport : Flash.log script permissionReported takes l' with ⟨_ | ⟨⟩, l''⟩
      · rw [Talk.bind_of_error hreport, Talk.bind_of_error hreport]
      · rw [Talk.bind_of_ok hreport, Talk.bind_of_ok hreport]
        rfl
    · change _ = prefixed [line] (pump script ending rest takes l')
      rcases hpump : pump script ending rest takes l' with ⟨e | ⟨killed, seen⟩, l''⟩
      · rw [Talk.bind_of_error hpump]
        rfl
      · rw [Talk.bind_of_ok hpump]
        rfl

end Lines

/-! ## From pyocd to the loop -/

section Flow

variable {script : Script} {takes : Client} {l₀ : Log Event Run} {s t : Watch} {a : Action}

/-- A step of another party than the loop. -/
def Action.isLoops : Action → Bool
  | get | timeOut | join | wait => true
  | _ => false

/-- Every line is in one place on its way, and the queue ends when the reader does. -/
structure Flow (s : Watch) : Prop where
  flow : s.written = s.lines ++ s.queue.reduceOption ++ s.reader.held ++ s.pipe
  sentinel : none ∈ s.queue → s.reader = .ended
  last : ∀ before after, s.queue = before ++ none :: after → after = []
  atEnd : s.reader = .finishing ∨ s.reader = .ended → s.garbled = false →
    s.pipe = [] ∧ s.pipeOpen = false

/-- The reader is done, with all there was if it could decode it. -/
structure Whole (s : Watch) : Prop where
  reader : s.reader = .ended
  lines : s.garbled = false → s.written = s.lines ∧ s.pipeOpen = false

theorem flow_start (l : Log Event Run) : Flow (start l) where
  flow := rfl
  sentinel := nofun
  last before after h := by
    rw [start, eq_comm, List.append_eq_nil_iff] at h
    cases h.2
  atEnd := by
    rintro (h | h)
    · cases h
    · cases h

/-- What the loop takes from the queue leaves the rest in order. -/
theorem Flow.tail (hs : Flow s) {item : Option String} {rest : List (Option String)}
    (hqueue : s.queue = item :: rest) :
    (none ∈ rest → s.reader = .ended) ∧
      ∀ before after, rest = before ++ none :: after → after = [] := by
  constructor
  · intro hmem
    exact hs.sentinel (hqueue ▸ List.mem_cons_of_mem _ hmem)
  · intro before after hrest
    exact hs.last (item :: before) after (by rw [hqueue, hrest, List.cons_append])

theorem Flow.put (hs : Flow s) {item : Option String} {reader : Reader}
    (hrun : s.reader ≠ .ended) (hheld : item.toList ++ reader.held = s.reader.held)
    (hnone : item = none → reader = .ended)
    (hend : reader = .finishing ∨ reader = .ended → s.reader = .finishing) :
    Flow { s with reader, queue := s.queue ++ [item] } where
  flow := by
    rw [hs.flow, List.reduceOption_append, ← hheld]
    cases item <;> simp [List.reduceOption]
  sentinel hmem := by
    rcases List.mem_append.mp hmem with hold | hnew
    · exact absurd (hs.sentinel hold) hrun
    · exact hnone (List.mem_singleton.mp hnew).symm
  last before after h := by
    rcases List.eq_nil_or_concat after with rfl | ⟨init, last, rfl⟩
    · rfl
    rw [List.concat_eq_append, ← List.cons_append, ← List.append_assoc] at h
    have hqueue := (List.append_inj' h rfl).1
    have hmem : none ∈ s.queue := hqueue ▸ List.mem_append_right _ List.mem_cons_self
    exact absurd (hs.sentinel hmem) hrun
  atEnd hreader hgarbled := hs.atEnd (Or.inl (hend hreader)) hgarbled

/-- A turn of the loop changes nothing on the way of the lines. -/
theorem Flow.afterTurn {lines : List String} (hs : Flow { s with lines })
    (r : Except Raised Bool × Log Event Run) : Flow (s.afterTurn lines r) := by
  rcases r with ⟨_ | _ | _, _⟩
  · exact ⟨hs.flow, hs.sentinel, hs.last, hs.atEnd⟩
  · exact ⟨hs.flow, hs.sentinel, hs.last, hs.atEnd⟩
  · exact ⟨hs.flow, hs.sentinel, hs.last, hs.atEnd⟩

/-- While the reader is at work the end is not in the queue. -/
theorem Flow.sentinel_of_ne (hs : Flow s) {reader : Reader} (hrun : s.reader ≠ .ended) :
    none ∈ s.queue → reader = .ended := fun hmem => absurd (hs.sentinel hmem) hrun

theorem flow_step (hs : Flow s) (h : s.step script takes a = some t) : Flow t := by
  cases a with
  | write line =>
    obtain ⟨hopen, ⟨⟩⟩ := Option.ite_none_right_eq_some.mp h
    refine ⟨?_, hs.sentinel, hs.last, fun hreader hgarbled => ?_⟩
    · dsimp only
      rw [hs.flow, List.append_assoc]
    · rw [(hs.atEnd hreader hgarbled).2] at hopen
      cases hopen
  | closePipe =>
    obtain ⟨-, ⟨⟩⟩ := Option.ite_none_right_eq_some.mp h
    exact ⟨hs.flow, hs.sentinel, hs.last, fun hreader hgarbled =>
      ⟨(hs.atEnd hreader hgarbled).1, rfl⟩⟩
  | exit rc =>
    obtain ⟨-, ⟨⟩⟩ := Option.ite_none_right_eq_some.mp h
    exact ⟨hs.flow, hs.sentinel, hs.last, hs.atEnd⟩
  | read =>
    simp only [Watch.step] at h
    split at h
    next line rest hreader hpipe =>
      cases h
      have hflow := hs.flow
      rw [hreader, hpipe] at hflow
      refine ⟨?_, hs.sentinel_of_ne (by simp [hreader]), hs.last, by simp⟩
      simpa [Reader.held] using hflow
    · cases h
  | garble =>
    simp only [Watch.step] at h
    split at h
    next hreader hpipe =>
      cases h
      have hflow := hs.flow
      rw [hreader] at hflow
      exact ⟨hflow, hs.sentinel_of_ne (by simp [hreader]), hs.last, fun _ => nofun⟩
    · cases h
  | atEnd =>
    obtain ⟨⟨hreader, hpipe, hopen⟩, ⟨⟩⟩ := Option.ite_none_right_eq_some.mp h
    have hflow := hs.flow
    rw [hreader] at hflow
    exact ⟨hflow, hs.sentinel_of_ne (by simp [hreader]), hs.last, fun _ _ => ⟨hpipe, hopen⟩⟩
  | put =>
    simp only [Watch.step] at h
    split at h
    next line hreader =>
      cases h
      refine hs.put (by simp [hreader]) ?_ nofun ?_
      · rw [hreader]
        rfl
      · rintro (hreader' | hreader')
        · cases hreader'
        · cases hreader'
    next hreader =>
      cases h
      refine hs.put (by simp [hreader]) ?_ (fun _ => rfl) fun _ => hreader
      rw [hreader]
      rfl
    · cases h
  | get =>
    simp only [Watch.step] at h
    split at h
    next line rest hmain hqueue =>
      cases h
      have htail := hs.tail hqueue
      refine Flow.afterTurn (s := { s with queue := rest }) ⟨?_, htail.1, htail.2, hs.atEnd⟩ _
      have hflow := hs.flow
      rw [hqueue, List.reduceOption_cons_of_some] at hflow
      simpa using hflow
    next rest hmain hqueue =>
      cases h
      have htail := hs.tail hqueue
      refine ⟨?_, htail.1, htail.2, hs.atEnd⟩
      have hflow := hs.flow
      rwa [hqueue, List.reduceOption_cons_of_none] at hflow
    · cases h
  | timeOut =>
    obtain ⟨-, ⟨⟩⟩ := Option.ite_none_right_eq_some.mp h
    exact Flow.afterTurn ⟨hs.flow, hs.sentinel, hs.last, hs.atEnd⟩ _
  | join =>
    obtain ⟨-, ⟨⟩⟩ := Option.ite_none_right_eq_some.mp h
    exact ⟨hs.flow, hs.sentinel, hs.last, hs.atEnd⟩
  | wait =>
    simp only [Watch.step] at h
    split at h
    · cases h
      exact ⟨hs.flow, hs.sentinel, hs.last, hs.atEnd⟩
    · cases h

theorem Flow.whole (hs : Flow s) {rest : List (Option String)} (hqueue : s.queue = none :: rest) :
    Whole s where
  reader := hs.sentinel (hqueue ▸ List.mem_cons_self)
  lines hgarbled := by
    have hended := hs.sentinel (hqueue ▸ List.mem_cons_self)
    obtain ⟨hpipe, hopen⟩ := hs.atEnd (Or.inr hended) hgarbled
    have hflow := hs.flow
    obtain rfl := hs.last [] rest hqueue
    rw [hqueue, hended, hpipe] at hflow
    exact ⟨by simpa [Reader.held] using hflow, hopen⟩

/-- What a step of another party than the loop leaves as it is. -/
structure Aside (s t : Watch) : Prop where
  main : t.main = s.main
  lines : t.lines = s.lines
  killed : t.killed = s.killed
  log : t.log = s.log
  whole : Whole s → Whole t
  status : ∀ rc, s.status = some rc → t.status = some rc

theorem aside_step (ha : a.isLoops = false) (h : s.step script takes a = some t) : Aside s t := by
  cases a with
  | write line =>
    obtain ⟨hopen, ⟨⟩⟩ := Option.ite_none_right_eq_some.mp h
    refine ⟨rfl, rfl, rfl, rfl, fun hwhole => ⟨hwhole.reader, fun hgarbled => ?_⟩, fun _ => id⟩
    rw [(hwhole.lines hgarbled).2] at hopen
    cases hopen
  | closePipe =>
    obtain ⟨-, ⟨⟩⟩ := Option.ite_none_right_eq_some.mp h
    exact ⟨rfl, rfl, rfl, rfl, fun hwhole => ⟨hwhole.reader, fun hgarbled =>
      ⟨(hwhole.lines hgarbled).1, rfl⟩⟩, fun _ => id⟩
  | exit rc =>
    obtain ⟨hstatus, ⟨⟩⟩ := Option.ite_none_right_eq_some.mp h
    refine ⟨rfl, rfl, rfl, rfl, fun hwhole => ⟨hwhole.reader, hwhole.lines⟩, fun rc' hrc' => ?_⟩
    rw [hstatus] at hrc'
    cases hrc'
  | read | garble =>
    simp only [Watch.step] at h
    split at h
    next hreader _ =>
      cases h
      refine ⟨rfl, rfl, rfl, rfl, fun hwhole => ?_, fun _ => id⟩
      have hended := hwhole.reader
      rw [hreader] at hended
      cases hended
    · cases h
  | atEnd =>
    obtain ⟨⟨hreader, -⟩, ⟨⟩⟩ := Option.ite_none_right_eq_some.mp h
    refine ⟨rfl, rfl, rfl, rfl, fun hwhole => ?_, fun _ => id⟩
    have hended := hwhole.reader
    rw [hreader] at hended
    cases hended
  | put =>
    simp only [Watch.step] at h
    split at h
    · cases h
      refine ⟨rfl, rfl, rfl, rfl, fun hwhole => ?_, fun _ => id⟩
      have hended := hwhole.reader
      simp_all
    · cases h
      exact ⟨rfl, rfl, rfl, rfl, fun hwhole => ⟨rfl, hwhole.lines⟩, fun _ => id⟩
    · cases h
  | get | timeOut | join | wait => cases ha

/-! ## What the loop has done -/

/-- A result of the call is one that the loop has with some process. -/
def Explained (script : Script) (takes : Client) (l₀ : Log Event Run) (s : Watch)
    (r : Except Raised (ℤ × String)) : Prop :=
  ∃ p : Process, p.lines = s.lines ∧ watched script p takes l₀ = (r, s.log)

/-- At each point the loop on the lines seen so far has done what the call did. -/
structure Told (script : Script) (takes : Client) (l₀ : Log Event Run) (s : Watch) : Prop where
  polling : s.main = .polling → s.killed = false ∧ ∀ ending rest,
    pump script ending (s.lines ++ rest) takes l₀ =
      prefixed s.lines (pump script ending rest takes s.log)
  killed : s.main = .joining ∨ s.main = .waiting → s.killed = true →
    ∃ ending, pump script ending s.lines takes l₀ = (.ok (true, s.lines), s.log)
  atEnd : s.main = .joining ∨ s.main = .waiting → s.killed = false → Whole s ∧ ∀ rc,
    pump script (.exits rc) s.lines takes l₀ = (.ok (false, s.lines), s.log)
  returned : ∀ rc output, s.main = .returned rc output →
    Explained script takes l₀ s (.ok (rc, output)) ∧ s.status.isSome ∧
      (rc = 0 → s.status = some 0 ∧ s.killed = false ∧ Whole s)
  raised : ∀ e, s.main = .raised e →
    s.killed = false ∧ Explained script takes l₀ s (.error e)

theorem told_start (script : Script) (takes : Client) (l₀ : Log Event Run) :
    Told script takes l₀ (start l₀) where
  polling _ := ⟨rfl, fun _ _ => (prefixed_nil _).symm⟩
  killed := by
    rintro (h | h)
    · cases h
    · cases h
  atEnd := by
    rintro (h | h)
    · cases h
    · cases h
  returned := nofun
  raised := nofun

theorem Told.aside (hs : Told script takes l₀ s) (hst : Aside s t) : Told script takes l₀ t := by
  obtain ⟨hmain, hlines, hkilled, hlog, hwhole, hstatus⟩ := hst
  constructor
  · intro h
    rw [hlines, hkilled, hlog]
    exact hs.polling (hmain ▸ h)
  · rw [hmain, hlines, hkilled, hlog]
    exact hs.killed
  · rw [hmain, hlines, hkilled, hlog]
    intro h hk
    exact (hs.atEnd h hk).imp_left hwhole
  · intro rc output h
    obtain ⟨⟨p, hp, hwatched⟩, hsome, hzero⟩ := hs.returned rc output (hmain ▸ h)
    obtain ⟨c, hc⟩ := Option.isSome_iff_exists.mp hsome
    refine ⟨⟨p, hp.trans hlines.symm, hlog ▸ hwatched⟩, ?_, fun hrc => ?_⟩
    · rw [hstatus c hc]
      rfl
    · obtain ⟨hstatus', hkilled', hwhole'⟩ := hzero hrc
      exact ⟨hstatus 0 hstatus', hkilled.trans hkilled', hwhole hwhole'⟩
  · intro e h
    obtain ⟨hk, p, hp, hwatched⟩ := hs.raised e (hmain ▸ h)
    exact ⟨hkilled.trans hk, p, hp.trans hlines.symm, hlog ▸ hwatched⟩

theorem watched_of_error {p : Process} {e : Raised} {l : Log Event Run}
    (h : pump script p.ending p.lines takes l₀ = (.error e, l)) :
    watched script p takes l₀ = (.error e, l) := Talk.bind_of_error h

theorem watched_of_ok {p : Process} {killed : Bool} {seen : List String} {l : Log Event Run}
    (h : pump script p.ending p.lines takes l₀ = (.ok (killed, seen), l)) :
    watched script p takes l₀ =
      (.ok (exitCode p killed, "\n".intercalate seen), (Flash.wait takes l).2) :=
  Talk.bind_of_ok h

theorem Told.ofError (hs : Told script takes l₀ s) (hmain : s.main = .polling) {lines : List String}
    {e : Raised} {l : Log Event Run} {ending : Ending} {queue : List (Option String)}
    (hpump : pump script ending lines takes l₀ = (.error e, l)) :
    Told script takes l₀ (Watch.afterTurn { s with queue } lines (.error e, l)) where
  polling := nofun
  killed := by
    rintro (h | h)
    · cases h
    · cases h
  atEnd := by
    rintro (h | h)
    · cases h
    · cases h
  returned := nofun
  raised e' h := by
    obtain rfl : e = e' := Main.raised.inj h
    exact ⟨(hs.polling hmain).1, ⟨lines, ending, 1, false⟩, rfl, watched_of_error hpump⟩

theorem told_of_kill {lines : List String} {l : Log Event Run} {ending : Ending}
    {queue : List (Option String)}
    (hpump : pump script ending lines takes l₀ = (.ok (true, lines), l)) :
    Told script takes l₀ (Watch.afterTurn { s with queue } lines (.ok true, l)) where
  polling := nofun
  killed _ _ := ⟨ending, hpump⟩
  atEnd _ := nofun
  returned := nofun
  raised := nofun

theorem told_get (hs : Told script takes l₀ s) (hflow : Flow s)
    (h : s.step script takes .get = some t) : Told script takes l₀ t := by
  simp only [Watch.step] at h
  split at h
  next line rest hmain hqueue =>
    cases h
    obtain ⟨hkilled, hpolling⟩ := hs.polling hmain
    have hpump (ending : Ending) (more : List String) :
        pump script ending ((s.lines ++ [line]) ++ more) takes l₀ =
          prefixed s.lines (match onLine script line takes s.log with
            | (.ok true, l) => (.ok (true, [line]), l)
            | (.ok false, l) => prefixed [line] (pump script ending more takes l)
            | (.error e, l) => (.error e, l)) := by
      rw [List.append_assoc, hpolling]
      exact congrArg _ (pump_cons ending line more s.log)
    rcases hline : onLine script line takes s.log with ⟨e | _ | _, l⟩
    · have herror := hpump .silent []
      rw [hline, List.append_nil] at herror
      exact hs.ofError hmain herror
    · constructor
      · refine fun _ => ⟨hkilled, fun ending more => ?_⟩
        have hmore := hpump ending more
        rw [hline] at hmore
        exact hmore.trans (prefixed_prefixed _ _ _)
      · intro h
        rw [Watch.afterTurn, hmain] at h
        rcases h with h | h <;> cases h
      · intro h
        rw [Watch.afterTurn, hmain] at h
        rcases h with h | h <;> cases h
      · intro rc output h
        rw [Watch.afterTurn, hmain] at h
        cases h
      · intro e h
        rw [Watch.afterTurn, hmain] at h
        cases h
    · have hkill := hpump .silent []
      rw [hline, List.append_nil] at hkill
      exact told_of_kill hkill
  next rest hmain hqueue =>
    cases h
    obtain ⟨hkilled, hpolling⟩ := hs.polling hmain
    constructor
    · nofun
    · intro _ hk
      rw [hkilled] at hk
      cases hk
    · refine fun _ _ => ⟨⟨(hflow.whole hqueue).reader, (hflow.whole hqueue).lines⟩, fun rc => ?_⟩
      have hend := hpolling (.exits rc) []
      rw [List.append_nil] at hend
      rw [hend]
      simp [pump, prefixed, Except.map, pure]
    · nofun
    · nofun
  · cases h

theorem told_timeOut (hs : Told script takes l₀ s)
    (h : s.step script takes .timeOut = some t) : Told script takes l₀ t := by
  obtain ⟨⟨hmain, -⟩, ⟨⟩⟩ := Option.ite_none_right_eq_some.mp h
  have hsilent := (hs.polling hmain).2 .silent []
  rw [List.append_nil] at hsilent
  rcases hlog : Flash.log script noProgress takes s.log with ⟨e | ⟨⟩, l⟩
  · have hpump : pump script .silent [] takes s.log = (.error e, l) := Talk.bind_of_error hlog
    rw [hpump] at hsilent
    rw [Talk.bind_of_error hlog]
    exact hs.ofError hmain hsilent
  · have hpump : pump script .silent [] takes s.log = (.ok (true, []), l) := Talk.bind_of_ok hlog
    rw [hpump] at hsilent
    rw [Talk.bind_of_ok hlog]
    refine told_of_kill (hsilent.trans ?_)
    simp [prefixed, Except.map]

theorem told_wait (hs : Told script takes l₀ s)
    (h : s.step script takes .wait = some t) : Told script takes l₀ t := by
  simp only [Watch.step] at h
  split at h
  next rc hmain hstatus =>
    cases h
    refine ⟨nofun, ?_, ?_, fun rc' output h => ?_, nofun⟩
    · rintro (h | h)
      · cases h
      · cases h
    · rintro (h | h)
      · cases h
      · cases h
    obtain ⟨rfl, rfl⟩ := Main.returned.inj h
    refine ⟨?_, hstatus ▸ rfl, fun hzero => ?_⟩
    · cases hk : s.killed with
      | true =>
        obtain ⟨ending, hpump⟩ := hs.killed (Or.inr hmain) hk
        refine ⟨⟨s.lines, ending, rc, false⟩, rfl, ?_⟩
        rw [watched_of_ok hpump]
        simp [exitCode]
      | false =>
        refine ⟨⟨s.lines, .exits rc, rc, false⟩, rfl, ?_⟩
        rw [watched_of_ok ((hs.atEnd (Or.inr hmain) hk).2 rc)]
        simp [exitCode]
    · cases hk : s.killed with
      | true =>
        simp only [hk, true_and] at hzero
        split at hzero
        · cases hzero
        next hne => exact absurd hzero hne
      | false =>
        simp only [hk, Bool.false_eq_true, false_and, if_false] at hzero
        have hwhole := (hs.atEnd (Or.inr hmain) hk).1
        exact ⟨hstatus.trans (congrArg some hzero), rfl, hwhole.reader, hwhole.lines⟩
  · cases h

theorem told_step (hs : Told script takes l₀ s) (hflow : Flow s)
    (h : s.step script takes a = some t) : Told script takes l₀ t := by
  cases ha : a.isLoops with
  | false => exact hs.aside (aside_step ha h)
  | true =>
    cases a with
    | get => exact told_get hs hflow h
    | timeOut => exact told_timeOut hs h
    | wait => exact told_wait hs h
    | join =>
      obtain ⟨hmain, ⟨⟩⟩ := Option.ite_none_right_eq_some.mp h
      refine ⟨nofun, fun _ => hs.killed (Or.inl hmain), fun _ hk => ?_, nofun, nofun⟩
      exact (hs.atEnd (Or.inl hmain) hk).imp_left fun hwhole => ⟨hwhole.reader, hwhole.lines⟩
    | _ => cases ha

end Flow

/-- However pyocd, the reader and the loop take their turns: what the call returns, raises and
has logged is what the loop on a list of lines makes of the first lines that pyocd wrote. It
returns when pyocd has ended, and 0 only if that ended with 0 by itself and all it wrote was
logged, if it was text. -/
theorem watchdog_is_the_loop {script : Script} {takes : Client} {l : Log Event Run}
    {as : List Action} {s : Watch}
    (h : exec (fun s => s.step script takes) (start l) as = some s) :
    (∀ rc output, s.main = .returned rc output → s.status.isSome ∧
      ∃ p : Process, p.lines <+: s.written ∧ watched script p takes l = (.ok (rc, output), s.log) ∧
        (rc = 0 → s.status = some 0 ∧ s.killed = false ∧
          (s.garbled = false → p.lines = s.written))) ∧
    ∀ e, s.main = .raised e → s.killed = false ∧
      ∃ p : Process, p.lines <+: s.written ∧ watched script p takes l = (.error e, s.log) := by
  have hstep (s : Watch) (a : Action) (t : Watch) (hs : Flow s ∧ Told script takes l s)
      (hst : s.step script takes a = some t) : Flow t ∧ Told script takes l t :=
    ⟨flow_step hs.1 hst, told_step hs.2 hs.1 hst⟩
  obtain ⟨hflow, htold⟩ := inv_of_exec hstep ⟨flow_start l, told_start script takes l⟩ h
  have hprefix : s.lines <+: s.written := by
    rw [hflow.flow, List.append_assoc, List.append_assoc]
    exact List.prefix_append _ _
  constructor
  · intro rc output hmain
    obtain ⟨⟨p, hp, hwatched⟩, hsome, hzero⟩ := htold.returned rc output hmain
    refine ⟨hsome, p, hp ▸ hprefix, hwatched, fun hrc => ?_⟩
    obtain ⟨hstatus, hkilled, hwhole⟩ := hzero hrc
    exact ⟨hstatus, hkilled, fun hgarbled => hp.trans (hwhole.lines hgarbled).1.symm⟩
  · intro e hmain
    obtain ⟨hkilled, p, hp, hwatched⟩ := htold.raised e hmain
    exact ⟨hkilled, p, hp ▸ hprefix, hwatched⟩

/-- A host whose checks find nothing. -/
def bench : Script where
  python := "python3"
  gone := "Broken pipe"
  normalized := .ok "a.hex"
  precheckHex := none
  precheckPerm := none
  hexError := none
  permError := none
  pyocd := fun _ _ => .error "not found"
  blocker := none
  casing := .ascii

/-- pyocd writes one line and ends. -/
def oneLine : List Action :=
  [.write "erasing", .read, .put, .get, .closePipe, .atEnd, .put, .exit 0, .get, .join, .wait]

theorem oneLine_is_the_loop :
    ∃ s, exec (fun s => s.step bench .all) (start ⟨[], ⟨[], 0⟩⟩) oneLine = some s ∧
      s.main = .returned 0 "erasing" ∧ ∃ p : Process, p.lines = ["erasing"] ∧
        watched bench p .all ⟨[], ⟨[], 0⟩⟩ = (.ok (0, "erasing"), s.log) := by
  have hrun : (exec (fun s => s.step bench .all) (start ⟨[], ⟨[], 0⟩⟩) oneLine).any (fun s =>
      s.main = .returned 0 "erasing" && s.written = ["erasing"] && !s.garbled) = true := by
    decide +kernel
  obtain ⟨s, hs, hend⟩ := (Option.any_eq_true _ _).mp hrun
  simp only [Bool.and_eq_true, decide_eq_true_eq, Bool.not_eq_true'] at hend
  obtain ⟨⟨hmain, hwritten⟩, hgarbled⟩ := hend
  obtain ⟨-, p, -, hwatched, hzero⟩ := (watchdog_is_the_loop hs).1 0 "erasing" hmain
  exact ⟨s, hs, hmain, p, ((hzero rfl).2.2 hgarbled).trans hwritten, hwatched⟩

end MbTools.Flash.Watchdog
