import MbTools.Lib.Runs
import MbTools.Lib.Table

/-! # The background reading of a relay channel

A channel reads its port, or its remote stream, on a thread of its own and hands on what arrives
to the callbacks last installed. Its owner starts and stops the reading; a stop
waits a second for the thread, and goes on without it if it has not ended by then.
-/

namespace MbTools.RelayChannel

open Dict

abbrev Bytes := List UInt8

/-- Where a reading thread is in `_pump`. -/
inductive Phase where
  | checking
  | reading
  | got (data : Bytes)
  /-- It is about to call `on_error`. -/
  | failing
  | ended
  deriving DecidableEq, Repr

/-- A chunk that was read and not settled yet. -/
def Phase.held : Phase → List Bytes
  | .got data => [data]
  | _ => []

structure Channel where
  /-- Is it a channel over a remote stream? That one looks at the stop flag again after a read. -/
  remote : Bool
  thread : Option ℕ
  stop : Bool
  /-- Between setting the flag and the end of the `join`. -/
  stopping : Bool
  /-- Whose callbacks are installed. -/
  sink : ℕ
  pumps : Dict ℕ Phase
  /-- What was read, in order. -/
  arrived : List Bytes
  /-- What became of it: whom it was handed to, `none` for nothing read or for what a stop drops. -/
  settled : List (Bytes × Option ℕ)
  /-- Who was told of an error. -/
  errors : List ℕ
  /-- The threads a `join` gave up on. -/
  abandoned : List ℕ
  deriving DecidableEq, Repr

inductive Action where
  /-- `start_reading`, with the number of the thread it makes, if it makes one. -/
  | start (sink p : ℕ)
  | stop
  | join
  | timeOut
  | check (p : ℕ)
  | read (p : ℕ) (data : Bytes)
  /-- The read raises, or the stream is at its end. -/
  | fail (p : ℕ)
  /-- The rest of the turn; the callback may raise. -/
  | deliver (p : ℕ) (ok : Bool)
  | report (p : ℕ)
  deriving DecidableEq, Repr

namespace Channel

def new (remote : Bool) : Channel :=
  ⟨remote, none, false, false, 0, Table.empty, [], [], [], []⟩

variable (c : Channel)

def isAlive (p : ℕ) : Bool := (c.pumps.lookup p).any (· ≠ .ended)

def setPump (p : ℕ) (phase : Phase) : Channel := { c with pumps := c.pumps.insert p phase }

/-- The end of a turn of the loop, for what was read. -/
def settle (p : ℕ) (data : Bytes) (ok : Bool) : Channel :=
  if c.remote && c.stop then
    { c with pumps := c.pumps.insert p .ended, settled := c.settled ++ [(data, none)] }
  else if data = [] then
    { c with pumps := c.pumps.insert p .checking, settled := c.settled ++ [(data, none)] }
  else
    { c with
      pumps := c.pumps.insert p (if ok then .checking else .ended)
      settled := c.settled ++ [(data, some c.sink)] }

def step : Action → Option Channel
  | .start sink p =>
    if c.stopping then none
    else if c.thread.any c.isAlive then some { c with sink }
    else
      match c.pumps.lookup p with
      | none =>
        some { c with sink, stop := false, thread := some p, pumps := c.pumps.insert p .checking }
      | some _ => none
  | .stop => if c.stopping then none else some { c with stop := true, stopping := true }
  | .join =>
    if c.stopping ∧ c.thread.any c.isAlive = false then
      some { c with thread := none, stopping := false }
    else none
  | .timeOut =>
    match c.thread with
    | none => none
    | some p =>
      if c.stopping ∧ c.isAlive p then
        some { c with thread := none, stopping := false, abandoned := p :: c.abandoned }
      else none
  | .check p =>
    match c.pumps.lookup p with
    | some .checking => some (c.setPump p (if c.stop then .ended else .reading))
    | _ => none
  | .read p data =>
    match c.pumps.lookup p with
    | some .reading => some { c.setPump p (.got data) with arrived := c.arrived ++ [data] }
    | _ => none
  | .fail p =>
    match c.pumps.lookup p with
    | some .reading => some (c.setPump p (if c.stop then .ended else .failing))
    | _ => none
  | .deliver p ok =>
    match c.pumps.lookup p with
    | some (.got data) => some (c.settle p data ok)
    | _ => none
  | .report p =>
    match c.pumps.lookup p with
    | some .failing => some { c.setPump p .ended with errors := c.errors ++ [c.sink] }
    | _ => none

/-- What the channel's own thread has read and not settled. -/
def held : List Bytes := ((c.thread.bind c.pumps.lookup).map Phase.held).getD []

end Channel

open Channel

/-- A step of the channel's owner. -/
def Action.isOwners : Action → Bool
  | .start _ _ => true
  | .stop => true
  | .join => true
  | .timeOut => true
  | _ => false

/-- What a step of the thread `p` does: it moves the thread, reads a chunk or settles one, and
leaves the rest alone. -/
structure Turn (c c' : Channel) (p : ℕ) (phase phase' : Phase) (new : List Bytes)
    (out : List (Bytes × Option ℕ)) : Prop where
  before : c.pumps.lookup p = some phase
  alive : phase ≠ .ended
  after : c'.pumps = c.pumps.insert p phase'
  thread : c'.thread = c.thread
  abandoned : c'.abandoned = c.abandoned
  remote : c'.remote = c.remote
  arrived : c'.arrived = c.arrived ++ new
  settled : c'.settled = c.settled ++ out
  balance : phase.held ++ new = out.map Prod.fst ++ phase'.held
  handed : c.remote = false → ∀ x ∈ out, x.2 = none → x.1 = []

section Steps

variable {c c' : Channel} {a : Action} {as bs : List Action} {p : ℕ} {remote : Bool}

theorem turn_settle {data : Bytes} {ok : Bool} (hp : c.pumps.lookup p = some (.got data)) :
    ∃ phase' out, Turn c (c.settle p data ok) p (.got data) phase' [] out := by
  unfold settle
  split
  · rename_i hdrop
    refine ⟨.ended, [(data, none)], hp, by simp, rfl, rfl, rfl, rfl, by simp, rfl, rfl, ?_⟩
    intro hlocal
    simp [hlocal] at hdrop
  · split
    · rename_i hempty
      refine ⟨.checking, [(data, none)], hp, by simp, rfl, rfl, rfl, rfl, by simp, rfl, rfl, ?_⟩
      simp [hempty]
    · refine ⟨_, [(data, some c.sink)], hp, by simp, rfl, rfl, rfl, rfl, by simp, rfl, ?_, ?_⟩
      · cases ok <;> rfl
      · simp

theorem turn_of_step (ha : a.isOwners = false) (hs : c.step a = some c') :
    ∃ p phase phase' new out, Turn c c' p phase phase' new out := by
  cases a with
  | start sink p => cases ha
  | stop => cases ha
  | join => cases ha
  | timeOut => cases ha
  | check p =>
    simp only [Channel.step] at hs
    split at hs
    · rename_i hp
      obtain rfl := Option.some.inj hs
      refine ⟨p, .checking, _, [], [], hp, by simp, rfl, rfl, rfl, rfl, ?_, ?_, ?_, by simp⟩
      · simp [setPump]
      · simp [setPump]
      · cases c.stop <;> rfl
    · cases hs
  | read p data =>
    simp only [Channel.step] at hs
    split at hs
    · rename_i hp
      obtain rfl := Option.some.inj hs
      refine ⟨p, .reading, _, [data], [], hp, by simp, rfl, rfl, rfl, rfl, rfl, ?_, rfl, by simp⟩
      simp [setPump]
    · cases hs
  | fail p =>
    simp only [Channel.step] at hs
    split at hs
    · rename_i hp
      obtain rfl := Option.some.inj hs
      refine ⟨p, .reading, _, [], [], hp, by simp, rfl, rfl, rfl, rfl, ?_, ?_, ?_, by simp⟩
      · simp [setPump]
      · simp [setPump]
      · cases c.stop <;> rfl
    · cases hs
  | deliver p ok =>
    simp only [Channel.step] at hs
    split at hs
    · rename_i data hp
      obtain rfl := Option.some.inj hs
      obtain ⟨phase', out, hturn⟩ := turn_settle hp
      exact ⟨p, _, phase', [], out, hturn⟩
    · cases hs
  | report p =>
    simp only [Channel.step] at hs
    split at hs
    · rename_i hp
      obtain rfl := Option.some.inj hs
      refine ⟨p, .failing, .ended, [], [], hp, by simp, rfl, rfl, rfl, rfl, ?_, ?_, rfl, by simp⟩
      · simp [setPump]
      · simp [setPump]
    · cases hs

/-- The threads that are not the channel's own have ended, but for those it gave up on; and while it
gave up on none, what was read is what was handed on, but for the chunk in hand. -/
structure Orderly (remote : Bool) (c : Channel) : Prop where
  kind : c.remote = remote
  alive : ∀ p, c.isAlive p = true → c.thread = some p ∨ p ∈ c.abandoned
  order : c.abandoned = [] → c.arrived = c.settled.map Prod.fst ++ c.held
  handed : remote = false → ∀ x ∈ c.settled, x.2 = none → x.1 = []

theorem orderly_new (remote : Bool) : Orderly remote (Channel.new remote) where
  kind := rfl
  alive := by simp [Channel.new, isAlive]
  order := by simp [Channel.new, held]
  handed := by simp [Channel.new]

theorem held_of_thread {phase : Phase} (h : c.thread = some p)
    (hp : c.pumps.lookup p = some phase) : c.held = phase.held := by
  simp [held, h, hp]

/-- A thread that is not alive holds nothing. -/
theorem held_of_not_alive (h : c.thread.any c.isAlive = false) : c.held = [] := by
  cases hthread : c.thread with
  | none => simp [held, hthread]
  | some p =>
    cases hp : c.pumps.lookup p with
    | none => simp [held, hthread, hp]
    | some phase =>
      have h : phase = .ended := by simpa [hthread, isAlive, hp] using h
      rw [held_of_thread hthread hp, h]
      rfl

theorem Orderly.turn {phase phase' : Phase} {new : List Bytes} {out : List (Bytes × Option ℕ)}
    (h : Orderly remote c) (ht : Turn c c' p phase phase' new out) : Orderly remote c' := by
  have hp : c.thread = some p ∨ p ∈ c.abandoned :=
    h.alive p (by simp [isAlive, ht.before, ht.alive])
  refine ⟨ht.remote.trans h.kind, fun q hq => ?_, fun hnone => ?_, fun hlocal x hx hx' => ?_⟩
  · rw [ht.thread, ht.abandoned]
    by_cases hqp : p = q
    · exact hqp ▸ hp
    · refine h.alive q ?_
      rwa [isAlive, ht.after, lookup_insert_of_ne hqp] at hq
  · rw [ht.abandoned] at hnone
    have hthread : c.thread = some p := hp.resolve_right (by simp [hnone])
    have hthread' : c'.thread = some p := ht.thread.trans hthread
    have hafter : c'.pumps.lookup p = some phase' := by rw [ht.after, lookup_insert_self]
    rw [ht.arrived, ht.settled, h.order hnone, held_of_thread hthread ht.before,
      held_of_thread hthread' hafter, List.map_append, List.append_assoc, List.append_assoc,
      ht.balance]
  · rw [ht.settled] at hx
    rcases List.mem_append.mp hx with hx | hx
    · exact h.handed hlocal x hx hx'
    · exact ht.handed (h.kind.trans hlocal) x hx hx'

theorem Orderly.step (h : Orderly remote c) (hs : c.step a = some c') : Orderly remote c' := by
  cases ha : a.isOwners with
  | false =>
    obtain ⟨p, phase, phase', new, out, hturn⟩ := turn_of_step ha hs
    exact h.turn hturn
  | true =>
    cases a with
    | start sink p =>
      simp only [Channel.step] at hs
      split at hs
      · cases hs
      · split at hs
        · obtain rfl := Option.some.inj hs
          exact ⟨h.kind, h.alive, h.order, h.handed⟩
        · rename_i hdead
          split at hs
          · obtain rfl := Option.some.inj hs
            have hdead : c.thread.any c.isAlive = false := by simpa using hdead
            refine ⟨h.kind, fun q hq => ?_, fun hnone => ?_, h.handed⟩
            · by_cases hqp : p = q
              · exact Or.inl (congrArg some hqp)
              · have hq' : c.isAlive q = true := by
                  rwa [isAlive, lookup_insert_of_ne hqp] at hq
                rcases h.alive q hq' with hthread | hmem
                · rw [hthread, Option.any_some, hq'] at hdead
                  cases hdead
                · exact Or.inr hmem
            · rw [held_of_thread rfl lookup_insert_self, h.order hnone, held_of_not_alive hdead]
              rfl
          · cases hs
    | stop =>
      simp only [Channel.step] at hs
      split at hs
      · cases hs
      · obtain rfl := Option.some.inj hs
        exact ⟨h.kind, h.alive, h.order, h.handed⟩
    | join =>
      simp only [Channel.step, Option.ite_none_right_eq_some, Option.some.injEq] at hs
      obtain ⟨⟨-, hdead⟩, rfl⟩ := hs
      refine ⟨h.kind, fun q hq => ?_, fun hnone => ?_, h.handed⟩
      · rcases h.alive q hq with hthread | hmem
        · rw [hthread, Option.any_some] at hdead
          exact absurd hq (by simpa [isAlive] using hdead)
        · exact Or.inr hmem
      · exact (h.order hnone).trans (by rw [held_of_not_alive hdead]; rfl)
    | timeOut =>
      simp only [Channel.step] at hs
      split at hs
      · cases hs
      · rename_i p hthread
        split at hs
        · obtain rfl := Option.some.inj hs
          refine ⟨h.kind, fun q hq => ?_, by simp, h.handed⟩
          rcases h.alive q hq with hq' | hmem
          · obtain rfl := Option.some.inj (hthread.symm.trans hq')
            exact Or.inr List.mem_cons_self
          · exact Or.inr (List.mem_cons_of_mem p hmem)
        · cases hs
    | _ => cases ha

theorem orderly_of_exec (hr : Runs.exec Channel.step (.new remote) as = some c) :
    Orderly remote c :=
  Runs.inv_of_exec (fun _ _ _ h hs => h.step hs) (orderly_new remote) hr

/-- A channel that does not read: its reading was never started, or its last stop is over. -/
def Silent (c : Channel) : Prop := ∀ p, c.isAlive p = false

theorem Silent.step (h : Silent c) (hs : c.step a = some c') (ha : ∀ sink p, a ≠ .start sink p) :
    Silent c' ∧ c'.settled = c.settled ∧ c'.errors = c.errors := by
  cases hown : a.isOwners with
  | false =>
    obtain ⟨p, phase, phase', new, out, hturn⟩ := turn_of_step hown hs
    have hp := h p
    simp [isAlive, hturn.before, hturn.alive] at hp
  | true =>
    cases a with
    | start sink p => exact absurd rfl (ha sink p)
    | stop =>
      simp only [Channel.step] at hs
      split at hs
      · cases hs
      · obtain rfl := Option.some.inj hs
        exact ⟨h, rfl, rfl⟩
    | join =>
      simp only [Channel.step, Option.ite_none_right_eq_some, Option.some.injEq] at hs
      obtain ⟨-, rfl⟩ := hs
      exact ⟨h, rfl, rfl⟩
    | timeOut =>
      simp only [Channel.step] at hs
      split at hs
      · cases hs
      · rename_i p hthread
        rw [h p] at hs
        simp at hs
    | _ => cases hown

theorem Silent.exec (h : Silent c) (hr : Runs.exec Channel.step c bs = some c')
    (hb : ∀ sink p, .start sink p ∉ bs) : c'.settled = c.settled ∧ c'.errors = c.errors := by
  induction bs generalizing c with
  | nil =>
    obtain rfl := Option.some.inj hr
    exact ⟨rfl, rfl⟩
  | cons b bs ih =>
    obtain ⟨u, hu, hr⟩ := Runs.exec_cons.mp hr
    have hb' : ∀ sink p, b ≠ .start sink p := by
      rintro sink p rfl
      exact hb sink p List.mem_cons_self
    obtain ⟨hsilent, hsettled, herrors⟩ := h.step hu hb'
    obtain ⟨hsettled', herrors'⟩ :=
      ih hsilent hr fun sink p hmem => hb sink p (List.mem_cons_of_mem b hmem)
    exact ⟨hsettled'.trans hsettled, herrors'.trans herrors⟩

/-- As long as no stop gave up on its thread, one thread at most reads, what it reads is handed on
in order and once, and after a stop nothing is handed on and no error told until the next start. -/
theorem channel_reads_in_order (remote : Bool) (as : List Action)
    (hr : Runs.exec Channel.step (.new remote) as = some c) (hjoined : c.abandoned = []) :
    (∀ p, c.isAlive p = true → c.thread = some p) ∧
      c.arrived = c.settled.map Prod.fst ++ c.held ∧
      (remote = false → ∀ x ∈ c.settled, x.2 = none → x.1 = []) ∧
      (c.thread = none → ∀ bs c', (∀ sink p, .start sink p ∉ bs) →
        Runs.exec Channel.step c bs = some c' →
          c'.settled = c.settled ∧ c'.errors = c.errors) := by
  have h := orderly_of_exec hr
  have halive : ∀ p, c.isAlive p = true → c.thread = some p := fun p hp =>
    (h.alive p hp).resolve_right (by simp [hjoined])
  refine ⟨halive, h.order hjoined, h.handed, fun hnone bs c' hb hr' => ?_⟩
  have hsilent : Silent c := by
    intro p
    by_contra hp
    rw [Bool.not_eq_false] at hp
    rw [halive p hp] at hnone
    cases hnone
  exact hsilent.exec hr' hb

/-- A reset's reading, its stop, and the reading of the session after it. -/
def twoReadings : List Action :=
  [.start 1 1, .check 1, .read 1 [68, 69], .deliver 1 true, .stop, .check 1, .join, .start 2 2,
    .check 2, .read 2 [62], .deliver 2 true, .stop, .check 2, .join]

def readTwice : Channel := (Runs.exec Channel.step (.new false) twoReadings).getD (.new false)

theorem twoReadings_in_order :
    (∀ p, readTwice.isAlive p = true → readTwice.thread = some p) ∧
      readTwice.arrived = readTwice.settled.map Prod.fst ++ readTwice.held ∧
      (∀ x ∈ readTwice.settled, x.2 = none → x.1 = []) ∧
      (readTwice.thread = none → ∀ bs c', (∀ sink p, .start sink p ∉ bs) →
        Runs.exec Channel.step readTwice bs = some c' →
          c'.settled = readTwice.settled ∧ c'.errors = readTwice.errors) :=
  have h := channel_reads_in_order false twoReadings rfl (by decide)
  ⟨h.1, h.2.1, h.2.2.1 rfl, h.2.2.2⟩

/-- A thread that a stop gave up on reads on once the next start clears the flag, and what it holds
is handed on after what was read later. -/
example : ((Runs.exec Channel.step (.new false)
    [.start 1 1, .check 1, .read 1 [68], .stop, .timeOut, .start 2 2, .check 2, .read 2 [69],
      .deliver 2 true, .deliver 1 true]).map fun c => (c.arrived, c.settled)) =
    some ([[68], [69]], [([69], some 2), ([68], some 2)]) := by decide

end Steps

end MbTools.RelayChannel
