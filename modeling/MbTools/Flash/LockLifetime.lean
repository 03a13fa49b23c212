import MbTools.Flash.Pyocd

/-! # The flash lock and the pyocd processes

A process is waited for before the next one starts and before the request ends,
as long as every log line is taken. A line refused while pyocd runs ends the
request without a kill or a wait, and the lock is released all the same.
-/

namespace MbTools.Flash

open Talk (Cuts Takes FirstRefused)

/-- No process started for the request is still running at the end of it. -/
def Run.Quiet (r : Run) : Prop := ∀ p ∈ r.running, p.outlives = false

instance (r : Run) : Decidable r.Quiet :=
  inferInstanceAs (Decidable (∀ p ∈ r.running, p.outlives = false))

/-- Is the program done with every process it starts, when the client takes every line? -/
def Waits {α : Type} (f : FlashM α) : Prop :=
  ∀ l, (f .all l).2.state.running = l.state.running

namespace Waits

variable {α β : Type}

theorem pure (a : α) : Waits (pure a) := fun _ => rfl

theorem raise (e : Raised) : Waits (Talk.raise e : FlashM α) := fun _ => rfl

theorem bind {f : FlashM α} {g : α → FlashM β} (hf : Waits f) (hg : ∀ a, Waits (g a)) :
    Waits (f >>= g) := by
  intro l
  have hl := hf l
  rcases hr : f .all l with ⟨r, l₁⟩
  rw [hr] at hl
  cases r with
  | ok a => rw [Talk.bind_of_ok hr, hg a l₁, hl]
  | error e => rw [Talk.bind_of_error hr, hl]

theorem attempt {f : FlashM α} (hf : Waits f) (h : Raised → Except Raised α) :
    Waits (Talk.attempt f h) := by
  intro l
  rw [Talk.attempt_log, hf l]

end Waits

/-- What is true of every program built here: a client that stays has its processes waited for, and
a client that goes away stops it at the line it refuses. -/
structure Flashes {α : Type} (script : Script) (f : FlashM α) : Prop where
  waits : Waits f
  cuts : Cuts Event.isLine (.clientGone script.gone) f

variable {script : Script} {α β : Type}

namespace Flashes

theorem pure (a : α) : Flashes script (pure a) := ⟨Waits.pure a, Cuts.pure a⟩

theorem raise (e : Raised) : Flashes script (Talk.raise e : FlashM α) :=
  ⟨Waits.raise e, Cuts.raise e⟩

theorem bind {f : FlashM α} {g : α → FlashM β} (hf : Flashes script f)
    (hg : ∀ a, Flashes script (g a)) : Flashes script (f >>= g) :=
  ⟨hf.waits.bind fun a => (hg a).waits, hf.cuts.bind fun a => (hg a).cuts⟩

theorem ite {c : Prop} [Decidable c] {f g : FlashM α} (hf : Flashes script f)
    (hg : Flashes script g) : Flashes script (if c then f else g) := by
  split
  · exact hf
  · exact hg

end Flashes

theorem log_flashes (line : String) : Flashes script (log script line) :=
  ⟨fun _ => rfl, Cuts.say rfl⟩

/-- A line, and then the end. -/
theorem log_then (line : String) {f : FlashM α} (hf : Flashes script f) :
    Flashes script (do log script line; f) := (log_flashes line).bind fun _ => hf

/-- Under a client that stays, the program only writes. -/
def Writes {α : Type} (f : FlashM α) : Prop :=
  ∀ l, ∃ a l', f .all l = (.ok a, l') ∧ l'.state = l.state

theorem Writes.pure (a : α) : Writes (pure a) := fun l => ⟨a, l, rfl, rfl⟩

theorem Writes.log_then (line : String) {f : FlashM α} (hf : Writes f) :
    Writes (do log script line; f) := by
  intro l
  obtain ⟨a, l', hl', hstate⟩ := hf { l with events := l.events ++ [(.line line, l.state)] }
  refine ⟨a, l', ?_, hstate⟩
  rw [← hl']
  exact Talk.bind_of_ok rfl

theorem Writes.bind {f : FlashM α} {g : α → FlashM β} (hf : Writes f) (hg : ∀ a, Writes (g a)) :
    Writes (f >>= g) := by
  intro l
  obtain ⟨a, l₁, hl₁, h₁⟩ := hf l
  obtain ⟨b, l₂, hl₂, h₂⟩ := hg a l₁
  exact ⟨b, l₂, (Talk.bind_of_ok hl₁).trans hl₂, h₂.trans h₁⟩

/-- The watching loop, on a client that stays, comes back to the wait. -/
theorem pump_writes (ending : Ending) (lines : List String) :
    Writes (pump script ending lines) := by
  induction lines with
  | nil =>
    cases ending with
    | exits rc => exact Writes.pure _
    | silent => exact Writes.log_then _ (Writes.pure _)
  | cons line rest ih =>
    apply Writes.log_then
    split
    · exact Writes.log_then _ (Writes.pure _)
    · exact ih.bind fun _ => Writes.pure _

theorem pump_cuts (ending : Ending) (lines : List String) :
    Cuts Event.isLine (.clientGone script.gone) (pump script ending lines) := by
  induction lines with
  | nil =>
    cases ending with
    | exits rc => exact Cuts.pure _
    | silent => exact (Cuts.say rfl).bind fun _ => Cuts.pure _
  | cons line rest ih =>
    apply (Cuts.say rfl).bind
    intro _
    split
    · exact (Cuts.say rfl).bind fun _ => Cuts.pure _
    · exact ih.bind fun _ => Cuts.pure _

theorem popen_cuts (cmd : List String) :
    Cuts Event.isLine (.clientGone script.gone) (popen script cmd) := by
  apply Cuts.get.bind
  intro r
  rcases script.pyocd r.runs cmd with e | p
  · exact Cuts.raise _
  · exact (Cuts.note rfl _).bind fun _ => Cuts.pure _

theorem popen_of_error {cmd : List String} {l : Log Event Run} {e : String}
    (h : script.pyocd l.state.runs cmd = .error e) (takes : Client) :
    popen script cmd takes l = (.error (.notStarted e), l) := by
  have hget : (Talk.get : FlashM Run) takes l = (.ok l.state, l) := rfl
  rw [popen, Talk.bind_of_ok hget, h]
  rfl

theorem popen_of_ok {cmd : List String} {l : Log Event Run} {p : Process}
    (h : script.pyocd l.state.runs cmd = .ok p) (takes : Client) :
    popen script cmd takes l = (.ok p, ⟨l.events ++ [(.started p, l.state)],
      ⟨p :: l.state.running, l.state.runs + 1⟩⟩) := by
  have hget : (Talk.get : FlashM Run) takes l = (.ok l.state, l) := rfl
  rw [popen, Talk.bind_of_ok hget, h]
  rfl

/-- A process is started, watched and waited for. -/
theorem runStreamed_waits (cmd : List String) : Waits (runStreamed script cmd) := by
  intro l
  rcases hp : script.pyocd l.state.runs cmd with e | p
  · rw [runStreamed, Talk.bind_of_error (popen_of_error hp .all)]
  · obtain ⟨seen, l', hpump, hstate⟩ := pump_writes p.ending p.lines
      ⟨l.events ++ [(.started p, l.state)], ⟨p :: l.state.running, l.state.runs + 1⟩⟩
    rw [runStreamed, Talk.bind_of_ok (popen_of_ok hp .all), Talk.bind_of_ok hpump]
    change l'.state.running.tail = l.state.running
    rw [hstate, List.tail_cons]

theorem runStreamed_flashes (cmd : List String) : Flashes script (runStreamed script cmd) := by
  constructor
  · exact runStreamed_waits cmd
  · apply (popen_cuts cmd).bind
    intro p
    apply (pump_cuts p.ending p.lines).bind
    intro _
    exact (Cuts.note rfl _).bind fun _ => Cuts.pure _

section Logic

variable (job : Job)

theorem reset_flashes : Flashes script (reset script job) :=
  (runStreamed_flashes _).bind fun _ => .pure _

theorem recover_flashes : Flashes script (recover script job) := by
  apply log_then
  apply (runStreamed_flashes _).bind
  intro _
  apply Flashes.ite
  · exact log_then _ (.pure _)
  · apply (runStreamed_flashes _).bind
    intro _
    apply Flashes.ite
    · exact log_then _ (.pure _)
    · exact reset_flashes job

theorem conclude_flashes (rc : ℤ) (output : String) :
    Flashes script (conclude script job rc output) := by
  apply Flashes.ite
  · exact recover_flashes job
  apply Flashes.ite
  · exact log_then _ (.pure _)
  apply Flashes.ite
  · exact log_then _ (.pure _)
  · exact reset_flashes job

theorem flashRetrying_flashes : Flashes script (flashRetrying script job) := by
  apply (runStreamed_flashes _).bind
  intro _
  apply Flashes.ite
  · exact .pure _
  apply Flashes.ite
  · apply log_then
    exact (runStreamed_flashes _).bind fun _ => conclude_flashes job _ _
  · exact conclude_flashes job _ _

theorem flashHexPlain_flashes : Flashes script (flashHexPlain script job) := by
  unfold flashHexPlain
  split
  · exact log_then _ (.pure _)
  · split
    · exact log_then _ (.pure _)
    · exact flashRetrying_flashes job

theorem flashHex_flashes : Flashes script (flashHex script job) := by
  unfold flashHex
  split
  · exact log_then _ (.pure _)
  · apply Flashes.ite
    · exact log_then _ (flashHexPlain_flashes _)
    · exact flashHexPlain_flashes job

end Logic

/-- Does the program end where one that catches no exception does? -/
def EndsLike (script : Script) (f : FlashM α) : Prop :=
  ∃ g : FlashM α, Flashes script g ∧ ∀ takes l, (f takes l).2 = (g takes l).2

theorem Flashes.endsLike {f : FlashM α} (hf : Flashes script f) : EndsLike script f :=
  ⟨f, hf, fun _ _ => rfl⟩

/-- A handler that neither writes nor starts anything changes what is answered, and no more. -/
theorem EndsLike.attempt {f : FlashM α} (hf : EndsLike script f) (h : Raised → Except Raised α) :
    EndsLike script (Talk.attempt f h) := by
  obtain ⟨g, hg, hends⟩ := hf
  exact ⟨g, hg, fun takes l => (Talk.attempt_log f h takes l).trans (hends takes l)⟩

theorem flashLocked_endsLike (job : Job) : EndsLike script (flashLocked script job) := by
  unfold flashLocked
  split
  · exact (Flashes.raise _).endsLike
  · split
    · exact (log_then _ (.pure _)).endsLike
    · apply EndsLike.attempt
      exact ((flashHexPlain_flashes job).bind fun _ => .pure _).endsLike

theorem flashOp_endsLike (job : Job) (held : Bool) : EndsLike script (flashOp script job held) := by
  unfold flashOp
  split
  · split
    · exact flashLocked_endsLike _
    · exact (Flashes.raise _).endsLike
  · exact (Flashes.raise _).endsLike

theorem opFlash_endsLike (job : Job) (server : Api.Server) (held : Bool) :
    EndsLike script (opFlash script job server held) := by
  cases server with
  | tcp =>
    apply EndsLike.attempt
    exact ((flashHex_flashes job).bind fun _ => .pure _).endsLike
  | socket => exact (flashOp_endsLike job held).attempt _
  | pipe => exact (Flashes.pure _).endsLike

/-- Is event `n` the first one at which the client refuses a line or the lock is taken away? -/
structure FirstCut (client : Client) (freed : Option ℕ) (events : List (Event × Run)) (n : ℕ)
    (x : Event × Run) : Prop where
  at_event : events[n]? = some x
  cut : freed = some n ∨ x.1.isLine = true ∧ client n = false
  not_freed : ∀ m < n, freed ≠ some m
  before : Takes Event.isLine client 0 (events.take n)

theorem FirstCut.of_freed {client : Client} {events : List (Event × Run)} {t : ℕ} {x : Event × Run}
    (ht : events[t]? = some x) (hbefore : Takes Event.isLine client 0 (events.take t)) :
    FirstCut client (some t) events t x := by
  refine ⟨ht, Or.inl rfl, ?_, hbefore⟩
  intro m hm heq
  rw [Option.some.injEq] at heq
  omega

theorem FirstCut.of_refused {client : Client} {freed : Option ℕ} {events : List (Event × Run)}
    {n : ℕ} {x : Event × Run} (hn : FirstRefused Event.isLine client 0 events n x)
    (hfreed : ∀ m < n, freed ≠ some m) : FirstCut client freed events n x :=
  ⟨hn.at_event, Or.inr ⟨hn.is_line, hn.refused⟩, hfreed, hn.before⟩

theorem FirstCut.le {client : Client} {freed : Option ℕ} {events : List (Event × Run)} {m n : ℕ}
    {x y : Event × Run} (hm : FirstCut client freed events m x)
    (hn : FirstCut client freed events n y) : m ≤ n := by
  by_contra hlt
  have hlt : n < m := by omega
  rcases hn.cut with (hfreed | ⟨hline, hno⟩)
  · exact hm.not_freed n hlt hfreed
  · have htakes := hm.before n y (Nat.zero_le n)
      (by rw [List.getElem?_take_of_lt hlt, hn.at_event]) hline
    rw [hno] at htakes
    exact absurd htakes (by simp)

theorem FirstCut.unique {client : Client} {freed : Option ℕ} {events : List (Event × Run)} {m n : ℕ}
    {x y : Event × Run} (hm : FirstCut client freed events m x)
    (hn : FirstCut client freed events n y) : x = y := by
  obtain rfl : m = n := Nat.le_antisymm (hm.le hn) (hn.le hm)
  have hx := hm.at_event
  rw [hn.at_event, Option.some.injEq] at hx
  exact hx.symm

variable (script) (job : Job) (server : Api.Server) (held : Bool)

/-- What the request does for a client that stays, each event with the processes of its moment. -/
def transcript : List (Event × Run) := (request script job server held .all).events

/-- A client that stays gets the whole transcript, and nothing is left running; any other one gets
it up to the line it refuses, and leaves what was running there. -/
theorem request_cases (client : Client) :
    (Takes Event.isLine client 0 (transcript script job server held) ∧
      (request script job server held client).events = transcript script job server held ∧
      (request script job server held client).state.running = []) ∨
    ∃ n x, FirstRefused Event.isLine client 0 (transcript script job server held) n x ∧
      (request script job server held client).events =
        (transcript script job server held).take (n + 1) ∧
      (request script job server held client).state = x.2 := by
  obtain ⟨g, hg, hends⟩ : EndsLike script (opFlash script job server held) :=
    opFlash_endsLike job server held
  have hrequest : ∀ takes, request script job server held takes = (g takes ⟨[], ⟨[], 0⟩⟩).2 :=
    fun takes => hends takes _
  rw [transcript, hrequest, hrequest]
  rcases hg.cuts.ends client ⟨[], ⟨[], 0⟩⟩ with (⟨htakes, hsame⟩ | ⟨n, x, hn, hstop⟩)
  · rw [hsame]
    exact Or.inl ⟨htakes, rfl, hg.waits _⟩
  · rw [hstop]
    exact Or.inr ⟨n, x, hn, rfl, rfl⟩

variable {script job server held}

theorem atRelease_of_freed {client : Client} {t : ℕ} {x : Event × Run}
    (h : (request script job server held client).events[t]? = some x) :
    atRelease script job server held client (some t) = x.2 := by
  dsimp only [atRelease]
  rw [Option.bind_some, h]

theorem atRelease_of_end {client : Client} {freed : Option ℕ}
    (h : ∀ t, freed = some t → (request script job server held client).events[t]? = none) :
    atRelease script job server held client freed =
      (request script job server held client).state := by
  have hnone : (freed.bind fun t => (request script job server held client).events[t]?) = none :=
    Option.bind_eq_none_iff.mpr h
  dsimp only [atRelease]
  rw [hnone]

variable (script job server held)

/-- The release is at the first cut, or it is after everything started was waited for. -/
theorem atRelease_cases (client : Client) (freed : Option ℕ) :
    (∃ n x, FirstCut client freed (transcript script job server held) n x ∧
      atRelease script job server held client freed = x.2) ∨
    (∀ n x, ¬ FirstCut client freed (transcript script job server held) n x) ∧
      (atRelease script job server held client freed).running = [] := by
  rcases request_cases script job server held client with
    (⟨htakes, hevents, hempty⟩ | ⟨n, x, hn, hevents, hstate⟩)
  · by_cases hfreed : ∃ t x, freed = some t ∧ (transcript script job server held)[t]? = some x
    · obtain ⟨t, x, rfl, ht⟩ := hfreed
      exact Or.inl ⟨t, x, .of_freed ht (htakes.take t), atRelease_of_freed (hevents ▸ ht)⟩
    · refine Or.inr ⟨?_, ?_⟩
      · intro n x hcut
        rcases hcut.cut with (hn | ⟨hline, hno⟩)
        · exact hfreed ⟨n, x, hn, hcut.at_event⟩
        · have hall := htakes n x (Nat.zero_le n) hcut.at_event hline
          rw [hno] at hall
          exact absurd hall (by simp)
      · rw [atRelease_of_end, hempty]
        intro t ht
        rw [hevents, Option.eq_none_iff_forall_ne_some]
        exact fun x hx => hfreed ⟨t, x, ht, hx⟩
  · -- the lock may be taken away before the line that is refused
    have hlt := hn.lt
    by_cases hfreed : ∃ t ≤ n, freed = some t
    · obtain ⟨t, hle, rfl⟩ := hfreed
      have ht := List.getElem?_eq_getElem (Nat.lt_of_le_of_lt hle hlt)
      refine Or.inl ⟨t, _, .of_freed ht ?_, atRelease_of_freed ?_⟩
      · have hbefore := hn.before.take t
        rwa [List.take_take, Nat.min_eq_left hle] at hbefore
      · rw [hevents, List.getElem?_take_of_lt (Nat.lt_succ_of_le hle), ht]
    · refine Or.inl ⟨n, x, .of_refused hn fun m hm hfree => hfreed ⟨m, Nat.le_of_lt hm, hfree⟩, ?_⟩
      rw [atRelease_of_end, hstate]
      intro t ht
      rw [hevents]
      apply List.getElem?_take_eq_none
      have hnle : ¬ t ≤ n := fun htn => hfreed ⟨t, htn, ht⟩
      omega

/-- The lock is released on a running process exactly when the first cut came under one that
outlives the release. -/
theorem released_quiet_iff (client : Client) (freed : Option ℕ) :
    (atRelease script job server held client freed).Quiet ↔
      ∀ n e r, FirstCut client freed (transcript script job server held) n (e, r) → r.Quiet := by
  rcases atRelease_cases script job server held client freed with (⟨n, x, hn, hat⟩ | ⟨hno, hat⟩)
  · rw [hat]
    constructor
    · intro hquiet m e r hm
      obtain rfl : x = (e, r) := hn.unique hm
      exact hquiet
    · intro h
      exact h n x.1 x.2 hn
  · constructor
    · intro _ n e r hn
      exact absurd hn (hno n (e, r))
    · intro _
      rw [Run.Quiet, hat]
      nofun

/-- pyocd prints one line, and is not done when it has. -/
def programming : Script where
  python := "python3"
  gone := "[Errno 32] Broken pipe"
  normalized := .ok "blink.hex"
  precheckHex := none
  precheckPerm := none
  hexError := none
  permError := none
  pyocd := fun _ _ => .ok ⟨["0000710 I Loading blink.hex"], .exits 0, -9, true⟩
  blocker := none
  casing := .ascii

def blinkJob : Job := ⟨"9904", "blink.hex", "nrf52833", some "zutev"⟩

/-- On both servers: the client goes away before the first line of pyocd. -/
theorem released_on_running_pyocd :
    ¬ (atRelease programming blinkJob .socket true (fun _ => false) none).Quiet ∧
      ¬ (atRelease programming blinkJob .tcp true (fun _ => false) none).Quiet := by
  decide

end MbTools.Flash
