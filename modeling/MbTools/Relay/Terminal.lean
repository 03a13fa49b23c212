import MbTools.Lib.Runs
import MbTools.Lib.Utf8

/-! # The terminal and the script of a relay session

What a user sees and sends while the relay is in its data plane: typed by hand, or sent by a
script that waits for an answer. The channel's thread queues what arrives.
-/

namespace MbTools.RelayTerminal

open Runs

abbrev Bytes := List UInt8

/-- Why `_interactive` ends; all but an exception are `EXIT_OK`. -/
inductive Exit where
  | relayClosed
  | inputClosed
  | escaped
  | interrupted
  | raised
  deriving DecidableEq, Repr

inductive Phase where
  | starting
  | draining
  | reading
  | left (e : Exit)
  deriving DecidableEq, Repr

def Phase.isOpen : Phase → Bool
  | left _ => false
  | _ => true

/-- What a call raises: `BrokenPipeError` or `ConnectionResetError`, which end the session, or
something else. -/
inductive Failure where
  | disconnected
  | other
  deriving DecidableEq, Repr

def Failure.exit : Failure → Exit
  | disconnected => .interrupted
  | other => .raised

structure Terminal where
  isTty : Bool
  /-- Is it in raw mode? -/
  raw : Bool
  queue : List (Option Bytes)
  phase : Phase
  /-- What was queued: the chunks, and `none` for an error of the channel. -/
  arrived : List (Option Bytes)
  /-- The chunks that were shown, and the text on the screen. -/
  taken : List Bytes
  shown : List Char
  typed : Bytes
  written : List Bytes
  /-- Did a write to the channel fail? -/
  lost : Bool
  deriving DecidableEq, Repr

inductive Action where
  | arrive (item : Option Bytes)
  | enter
  /-- One turn of the inner loop; writing to the screen may fail. -/
  | drain (failure : Option Failure)
  /-- `select` finds nothing to read. -/
  | idle
  /-- Input is read and passed on; writing to the channel may fail. -/
  | input (data : Bytes) (failure : Option Failure)
  /-- Ctrl-C in another mode than raw. -/
  | interrupt
  deriving DecidableEq, Repr

def start (isTty : Bool) : Terminal := ⟨isTty, false, [], .starting, [], [], [], [], [], false⟩

namespace Terminal

variable (s : Terminal)

/-- The loop is left, by way of the `finally`. -/
def leave (e : Exit) : Terminal := { s with phase := .left e, raw := false }

def write (data : Bytes) (failure : Option Failure) (next : Terminal → Terminal) : Terminal :=
  match failure with
  | none => next { s with written := s.written ++ [data] }
  | some e => { s with lost := true }.leave e.exit

def step (escape : UInt8) : Action → Option Terminal
  | .arrive item => some { s with queue := s.queue ++ [item], arrived := s.arrived ++ [item] }
  | .enter =>
    if s.phase = .starting then some { s with phase := .draining, raw := s.isTty } else none
  | .drain failure =>
    if s.phase = .draining then
      match s.queue with
      | [] => some { s with phase := .reading }
      | none :: rest => some ({ s with queue := rest }.leave .relayClosed)
      | some data :: rest =>
        match failure with
        | some e => some ({ s with queue := rest }.leave e.exit)
        | none =>
          some { s with
            queue := rest
            taken := s.taken ++ [data]
            shown := s.shown ++ Utf8.decode Utf8.replace data }
    else none
  | .idle =>
    if s.phase = .reading ∧ s.isTty = true then some { s with phase := .draining } else none
  | .input data failure =>
    if s.phase = .reading then
      let s := { s with typed := s.typed ++ data }
      if data = [] then some (s.leave .inputClosed)
      else if data.contains escape then
        let before := data.takeWhile (· != escape)
        if before = [] then some (s.leave .escaped)
        else some (s.write before failure fun s => s.leave .escaped)
      else some (s.write data failure fun s => { s with phase := .draining })
    else none
  | .interrupt =>
    if s.phase = .draining ∨ s.phase = .reading then some (s.leave .interrupted) else none

end Terminal

variable {escape : UInt8} {s t : Terminal} {a : Action}

/-- What the user typed before the escape. -/
def meant (escape : UInt8) (typed : Bytes) : Bytes := typed.takeWhile (· != escape)

theorem meant_append {a b : Bytes} (h : escape ∉ a) :
    meant escape (a ++ b) = a ++ meant escape b := by
  refine List.takeWhile_append_of_pos fun x hx => ?_
  rw [bne_iff_ne]
  exact fun heq => h (heq ▸ hx)

theorem meant_eq_self {a : Bytes} (h : escape ∉ a) : meant escape a = a := by
  have happend := meant_append (b := []) h
  rwa [List.append_nil, meant, meant, List.takeWhile_nil, List.append_nil] at happend

/-- What holds of a terminal after any number of steps. -/
structure Sound (escape : UInt8) (s : Terminal) : Prop where
  raw : s.raw = true → s.isTty = true ∧ s.phase.isOpen = true
  shown : s.shown = s.taken.flatMap (Utf8.decode Utf8.replace)
  arrived : s.taken.map some <+: s.arrived
  closed : s.phase = .left .relayClosed → ∃ rest, s.arrived = s.taken.map some ++ none :: rest
  written : s.written.flatten <+: meant escape s.typed
  whole : s.lost = false → s.written.flatten = meant escape s.typed
  opened : s.phase.isOpen = true → s.arrived = s.taken.map some ++ s.queue ∧
    escape ∉ s.typed ∧ s.written.flatten = s.typed

theorem sound_start (escape : UInt8) (isTty : Bool) : Sound escape (start isTty) where
  raw := nofun
  shown := rfl
  arrived := List.prefix_rfl
  closed := nofun
  written := List.prefix_rfl
  whole _ := rfl
  opened _ := ⟨rfl, nofun, rfl⟩

/-- The loop is left with nothing else done than taking from the queue. -/
theorem Sound.leave (hs : Sound escape s) {e : Exit} {queue : List (Option Bytes)}
    (hclosed : e = .relayClosed → ∃ rest, s.arrived = s.taken.map some ++ none :: rest) :
    Sound escape (Terminal.leave { s with queue } e) where
  raw := nofun
  shown := hs.shown
  arrived := hs.arrived
  closed h := hclosed (Phase.left.inj h)
  written := hs.written
  whole := hs.whole
  opened := nofun

/-- Input has been passed on up to the escape, and the loop is left. -/
theorem Sound.leaveAfter (hs : Sound escape s) (hopen : s.phase.isOpen = true) {data : Bytes}
    {written : List Bytes} {e : Exit} (he : e ≠ .relayClosed)
    (hwritten : written.flatten = s.typed ++ meant escape data) :
    Sound escape (Terminal.leave { s with typed := s.typed ++ data, written } e) := by
  obtain ⟨-, htyped, -⟩ := hs.opened hopen
  have hmeant : written.flatten = meant escape (s.typed ++ data) := by
    rw [hwritten, meant_append htyped]
  exact ⟨nofun, hs.shown, hs.arrived, fun h => absurd (Phase.left.inj h) he,
    hmeant ▸ List.prefix_rfl, fun _ => hmeant, nofun⟩

theorem Sound.leaveWithout (hs : Sound escape s) (hopen : s.phase.isOpen = true) {data : Bytes}
    {e : Exit} (he : e ≠ .relayClosed) :
    Sound escape (Terminal.leave { s with typed := s.typed ++ data, lost := true } e) := by
  obtain ⟨-, htyped, hwritten⟩ := hs.opened hopen
  refine ⟨nofun, hs.shown, hs.arrived, fun h => absurd (Phase.left.inj h) he, ?_, nofun, nofun⟩
  change s.written.flatten <+: meant escape (s.typed ++ data)
  rw [meant_append htyped, hwritten]
  exact List.prefix_append _ _

theorem Sound.goOn (hs : Sound escape s) (hopen : s.phase.isOpen = true) {data : Bytes}
    (hdata : escape ∉ data) :
    Sound escape { s with
      typed := s.typed ++ data, written := s.written ++ [data], phase := .draining } := by
  obtain ⟨hqueue, htyped, hwritten⟩ := hs.opened hopen
  have hflatten : (s.written ++ [data]).flatten = s.typed ++ data := by
    rw [List.flatten_append, hwritten, List.flatten_singleton]
  have hnone : escape ∉ s.typed ++ data := by
    rw [List.mem_append]
    exact not_or_intro htyped hdata
  have hmeant : (s.written ++ [data]).flatten = meant escape (s.typed ++ data) := by
    rw [hflatten, meant_eq_self hnone]
  exact ⟨fun hraw => ⟨(hs.raw hraw).1, rfl⟩, hs.shown, hs.arrived, nofun,
    hmeant ▸ List.prefix_rfl, fun _ => hmeant, fun _ => ⟨hqueue, hnone, hflatten⟩⟩

theorem Sound.turn (hs : Sound escape s) (hopen : s.phase.isOpen = true) {phase : Phase}
    {raw : Bool} (hphase : phase.isOpen = true) (hraw : raw = true → s.isTty = true) :
    Sound escape { s with phase, raw } where
  raw h := ⟨hraw h, hphase⟩
  shown := hs.shown
  arrived := hs.arrived
  closed h := by
    rw [show phase = _ from h] at hphase
    cases hphase
  written := hs.written
  whole := hs.whole
  opened _ := hs.opened hopen

theorem Sound.arrive (hs : Sound escape s) (item : Option Bytes) :
    Sound escape { s with queue := s.queue ++ [item], arrived := s.arrived ++ [item] } where
  raw := hs.raw
  shown := hs.shown
  arrived := hs.arrived.trans (List.prefix_append _ _)
  closed h := by
    obtain ⟨rest, harrived⟩ := hs.closed h
    exact ⟨rest ++ [item], by rw [harrived, List.append_assoc, List.cons_append]⟩
  written := hs.written
  whole := hs.whole
  opened h := by
    obtain ⟨harrived, htyped⟩ := hs.opened h
    exact ⟨by rw [harrived, List.append_assoc], htyped⟩

theorem Sound.drain (hs : Sound escape s) (hphase : s.phase = .draining)
    {failure : Option Failure} (h : s.step escape (.drain failure) = some t) : Sound escape t := by
  have hopen : s.phase.isOpen = true := hphase ▸ rfl
  obtain ⟨harrived, htyped, hwritten⟩ := hs.opened hopen
  rw [Terminal.step, if_pos hphase] at h
  split at h
  · cases h
    exact hs.turn hopen rfl fun hraw => (hs.raw hraw).1
  next rest hqueue =>
    cases h
    exact hs.leave fun _ => ⟨rest, by rw [harrived, hqueue]⟩
  next data rest hqueue =>
    split at h
    next e =>
      cases h
      refine hs.leave fun he => ?_
      cases e <;> cases he
    · cases h
      have hmore : s.arrived = (s.taken ++ [data]).map some ++ rest := by
        rw [harrived, hqueue, List.map_append, List.append_assoc]
        rfl
      refine ⟨hs.raw, ?_, hmore ▸ List.prefix_append _ _, fun h => ?_, hs.written, hs.whole,
        fun _ => ⟨hmore, htyped, hwritten⟩⟩
      · dsimp only
        rw [hs.shown, List.flatMap_append, List.flatMap_singleton]
      · rw [show s.phase = _ from h] at hopen
        cases hopen

theorem Sound.input (hs : Sound escape s) (hphase : s.phase = .reading) {data : Bytes}
    {failure : Option Failure} (h : s.step escape (.input data failure) = some t) :
    Sound escape t := by
  have hopen : s.phase.isOpen = true := hphase ▸ rfl
  obtain ⟨-, -, hwritten⟩ := hs.opened hopen
  have hfailure (e : Failure) : e.exit ≠ .relayClosed := by cases e <;> exact nofun
  rw [Terminal.step, if_pos hphase] at h
  dsimp only at h
  split at h
  next hempty =>
    cases h
    refine hs.leaveAfter hopen nofun ?_
    rw [hempty, hwritten]
    exact (List.append_nil _).symm
  · split at h
    · split at h
      next hbefore =>
        cases h
        refine hs.leaveAfter hopen nofun ?_
        rw [meant, hbefore, hwritten, List.append_nil]
      · cases h
        cases failure with
        | none =>
          refine hs.leaveAfter hopen nofun ?_
          rw [List.flatten_append, hwritten, List.flatten_singleton]
          rfl
        | some e => exact hs.leaveWithout hopen (hfailure e)
    next hescape =>
      cases h
      cases failure with
      | none => exact hs.goOn hopen (by simpa using hescape)
      | some e => exact hs.leaveWithout hopen (hfailure e)

theorem sound_step (hs : Sound escape s) (h : s.step escape a = some t) : Sound escape t := by
  cases a with
  | arrive item =>
    cases h
    exact hs.arrive item
  | enter =>
    obtain ⟨hphase, ⟨⟩⟩ := Option.ite_none_right_eq_some.mp h
    exact hs.turn (hphase ▸ rfl) rfl id
  | drain failure =>
    obtain ⟨hphase, -⟩ := Option.ite_none_right_eq_some.mp h
    exact hs.drain hphase h
  | idle =>
    obtain ⟨⟨hphase, -⟩, ⟨⟩⟩ := Option.ite_none_right_eq_some.mp h
    exact hs.turn (hphase ▸ rfl) rfl fun hraw => (hs.raw hraw).1
  | input data failure =>
    obtain ⟨hphase, -⟩ := Option.ite_none_right_eq_some.mp h
    exact hs.input hphase h
  | interrupt =>
    obtain ⟨-, ⟨⟩⟩ := Option.ite_none_right_eq_some.mp h
    exact hs.leave nofun

/-- In every run of `_interactive` the screen shows the chunks that arrived, in order, up to
where it was left, and what they spell if none is cut within a character; all of them if the
relay ended the session. The channel gets what was typed before the escape, up to a write that
failed. A terminal in raw mode is one that was not left. -/
theorem terminal_is_transparent {isTty : Bool} {as : List Action}
    (h : exec (fun s => s.step escape) (start isTty) as = some s) :
    (s.raw = true → s.isTty = true ∧ s.phase.isOpen = true) ∧
    s.taken.map some <+: s.arrived ∧
    (s.phase = .left .relayClosed → ∃ rest, s.arrived = s.taken.map some ++ none :: rest) ∧
    s.shown = s.taken.flatMap (Utf8.decode Utf8.replace) ∧
    ((∀ data ∈ s.taken, Utf8.begunAfter Utf8.replace none data = none) →
      s.shown = Utf8.decode Utf8.replace s.taken.flatten) ∧
    s.written.flatten <+: meant escape s.typed ∧
    (s.lost = false → s.written.flatten = meant escape s.typed) := by
  have hs : Sound escape s :=
    inv_of_exec (fun _ _ _ hs hstep => sound_step hs hstep) (sound_start escape isTty) h
  refine ⟨hs.raw, hs.arrived, hs.closed, hs.shown, fun hcut => ?_, hs.written, hs.whole⟩
  rw [hs.shown, Utf8.flatMap_decode hcut]

/-- A line arrives, and the user types one and leaves with Ctrl-]. -/
def shortSession : List Action :=
  [.enter, .arrive (some [104, 105, 10]), .drain none, .drain none, .idle, .drain none,
    .input [111, 107, 29, 33] none]

theorem shortSession_is_transparent : ∃ s,
    exec (fun s => Terminal.step s 29) (start true) shortSession = some s ∧
      s.raw = false ∧ s.written.flatten = [111, 107] := by
  have hrun : (exec (fun s => Terminal.step s 29) (start true) shortSession).any (fun s =>
      !s.lost && s.phase = .left .escaped && s.typed = [111, 107, 29, 33]) = true := by
    decide +kernel
  obtain ⟨s, hs, hend⟩ := (Option.any_eq_true _ _).mp hrun
  simp only [Bool.and_eq_true, decide_eq_true_eq, Bool.not_eq_true'] at hend
  obtain ⟨⟨hlost, hphase⟩, htyped⟩ := hend
  obtain ⟨hraw, -, -, -, -, -, hwhole⟩ := terminal_is_transparent hs
  refine ⟨s, hs, ?_, ?_⟩
  · rw [Bool.eq_false_iff]
    intro h
    have hopen := (hraw h).2
    rw [hphase] at hopen
    cases hopen
  · rw [hwhole hlost, htyped]
    decide

/-! ## Scripts -/

def exitOk : ℕ := 0

def exitError : ℕ := 1

/-- One turn of the loop in `_run_script`: the clock at its test, what came from the queue in
time, and the clock after it. -/
structure Turn where
  now : ℕ
  item : Option (Option Bytes)
  later : ℕ
  deriving DecidableEq, Repr

def Turn.data (t : Turn) : List Bytes := (t.item.getD none).toList

/-- A line of `--send`, with the escapes resolved and a newline at its end. -/
def payload (unescape : String → Bytes) (line : String) : Bytes :=
  if [10] <:+ unescape line then unescape line else unescape line ++ [10]

section Script

variable (search : Option (Bytes → Bool)) (deadline idleGap : ℕ)

/-- The loop: what was received, and whether it has a match; nothing while the turns do not
bring it to its end. -/
def loop (buf : Bytes) (quietAfter : ℕ) : List Turn → Option (Bytes × Bool)
  | [] => none
  | t :: ts =>
    if deadline ≤ t.now then some (buf, false)
    else
      match t.item with
      | none =>
        if search.isNone && buf ≠ [] && quietAfter ≤ t.later then some (buf, false)
        else loop buf quietAfter ts
      | some none => some (buf, false)
      | some (some data) =>
        if search.any (· (buf ++ data)) then some (buf ++ data, true)
        else loop (buf ++ data) (t.later + idleGap) ts

structure Report where
  sent : List Bytes
  printed : List Char
  code : ℕ
  deriving DecidableEq, Repr

/-- `_run_script`, on a channel that takes what is sent. -/
def runScript (unescape : String → Bytes) (sends : List String) (turns : List Turn) :
    Option Report :=
  (loop search deadline idleGap [] deadline turns).map fun (buf, found) =>
    { sent := sends.map (payload unescape)
      printed := Utf8.decode Utf8.replace buf
      code :=
        if found then exitOk
        else if search.isSome || buf = [] then exitError
        else exitOk }

variable {search deadline idleGap} {turns : List Turn} {buf rest : Bytes} {quietAfter : ℕ}
  {found : Bool}

/-- What the loop takes, and where it stops. -/
structure Takes (search : Option (Bytes → Bool)) (buf : Bytes) (turns : List Turn)
    (taken : List Bytes) (found : Bool) : Prop where
  prefix_of : taken <+: turns.flatMap Turn.data
  found_iff : found = true ↔ ∃ n, 0 < n ∧ n ≤ taken.length ∧
    search.any (· (buf ++ (taken.take n).flatten)) = true
  first : ∀ n, 0 < n → n < taken.length →
    search.any (· (buf ++ (taken.take n).flatten)) = false

theorem Takes.nil : Takes search buf turns [] false where
  prefix_of := List.nil_prefix
  found_iff := by
    constructor
    · nofun
    · rintro ⟨n, hpos, hle, -⟩
      exact absurd hle (Nat.not_le_of_lt hpos)
  first n _ hlt := absurd hlt (Nat.not_lt_zero n)

theorem Takes.skip {t : Turn} {ts : List Turn} {taken : List Bytes} (ht : t.data = [])
    (h : Takes search buf ts taken found) : Takes search buf (t :: ts) taken found where
  prefix_of := by
    rw [List.flatMap_cons, ht]
    exact h.prefix_of
  found_iff := h.found_iff
  first := h.first

theorem Takes.one {t : Turn} {ts : List Turn} {data : Bytes} (ht : t.data = [data])
    (hmatch : search.any (· (buf ++ data)) = true) : Takes search buf (t :: ts) [data] true where
  prefix_of := by
    rw [List.flatMap_cons, ht]
    exact List.prefix_append _ _
  found_iff := ⟨fun _ => ⟨1, Nat.one_pos, Nat.le_refl 1, by simpa using hmatch⟩, fun _ => rfl⟩
  first n hpos hlt := absurd (Nat.lt_one_iff.mp hlt) (Nat.ne_of_gt hpos)

theorem Takes.cons {t : Turn} {ts : List Turn} {data : Bytes} {taken : List Bytes}
    (ht : t.data = [data]) (hmiss : search.any (· (buf ++ data)) = false)
    (h : Takes search (buf ++ data) ts taken found) :
    Takes search buf (t :: ts) (data :: taken) found where
  prefix_of := by
    rw [List.flatMap_cons, ht]
    exact List.prefix_cons_inj data |>.mpr h.prefix_of
  found_iff := by
    rw [h.found_iff]
    constructor
    · rintro ⟨n, -, hle, hn⟩
      refine ⟨n + 1, Nat.succ_pos n, Nat.succ_le_succ hle, ?_⟩
      rwa [List.take_succ_cons, List.flatten_cons, ← List.append_assoc]
    · rintro ⟨n, hpos, hle, hn⟩
      obtain ⟨n, rfl⟩ := Nat.exists_eq_succ_of_ne_zero (Nat.ne_of_gt hpos)
      rw [List.take_succ_cons, List.flatten_cons, ← List.append_assoc] at hn
      rcases Nat.eq_zero_or_pos n with rfl | hn'
      · rw [List.take_zero, List.flatten_nil, List.append_nil, hmiss] at hn
        cases hn
      · exact ⟨n, hn', Nat.le_of_succ_le_succ hle, hn⟩
  first n hpos hlt := by
    obtain ⟨n, rfl⟩ := Nat.exists_eq_succ_of_ne_zero (Nat.ne_of_gt hpos)
    rw [List.take_succ_cons, List.flatten_cons, ← List.append_assoc]
    rcases Nat.eq_zero_or_pos n with rfl | hn'
    · rwa [List.take_zero, List.flatten_nil, List.append_nil]
    · exact h.first n hn' (Nat.lt_of_succ_lt_succ hlt)

theorem loop_takes (h : loop search deadline idleGap buf quietAfter turns = some (rest, found)) :
    ∃ taken, rest = buf ++ taken.flatten ∧ Takes search buf turns taken found := by
  induction turns generalizing buf quietAfter with
  | nil => cases h
  | cons t ts ih =>
    rw [loop] at h
    split at h
    · cases h
      exact ⟨[], (List.append_nil _).symm, .nil⟩
    split at h
    next hitem =>
      split at h
      · cases h
        exact ⟨[], (List.append_nil _).symm, .nil⟩
      · obtain ⟨taken, hrest, htakes⟩ := ih h
        exact ⟨taken, hrest, htakes.skip (by rw [Turn.data, hitem]; rfl)⟩
    · cases h
      exact ⟨[], (List.append_nil _).symm, .nil⟩
    next data hitem =>
      have hdata : t.data = [data] := by rw [Turn.data, hitem]; rfl
      split at h
      next hmatch =>
        cases h
        exact ⟨[data], by simp, .one hdata hmatch⟩
      next hmiss =>
        obtain ⟨taken, hrest, htakes⟩ := ih h
        refine ⟨data :: taken, ?_, htakes.cons hdata (Bool.not_eq_true _ ▸ hmiss)⟩
        rw [hrest, List.flatten_cons, List.append_assoc]

theorem loop_ends (h : ∃ t ∈ turns, deadline ≤ t.now) :
    (loop search deadline idleGap buf quietAfter turns).isSome := by
  induction turns generalizing buf quietAfter with
  | nil =>
    obtain ⟨t, ht, -⟩ := h
    cases ht
  | cons t ts ih =>
    rw [loop]
    split
    · rfl
    next hlate =>
      have hrest : ∃ t ∈ ts, deadline ≤ t.now := by
        obtain ⟨t', ht', hle⟩ := h
        rcases List.mem_cons.mp ht' with rfl | hmem
        · exact absurd hle hlate
        · exact ⟨t', hmem, hle⟩
      split
      · split
        · rfl
        · exact ih hrest
      · rfl
      · split
        · rfl
        · exact ih hrest

/-- With a pattern the loop gives up at the deadline or the end of the channel only. -/
theorem loop_gives_up (hsearch : search.isSome = true)
    (h : loop search deadline idleGap buf quietAfter turns = some (rest, false)) :
    ∃ before t after, turns = before ++ t :: after ∧
      (deadline ≤ t.now ∨ t.item = some none) ∧
      rest = buf ++ (before.flatMap Turn.data).flatten := by
  induction turns generalizing buf quietAfter with
  | nil => cases h
  | cons t ts ih =>
    rw [loop] at h
    split at h
    next hlate =>
      cases h
      exact ⟨[], t, ts, rfl, Or.inl hlate, (List.append_nil _).symm⟩
    split at h
    next hitem =>
      rw [Option.isNone_eq_false_iff.mpr hsearch, Bool.false_and, Bool.false_and,
        if_neg Bool.false_ne_true] at h
      obtain ⟨before, t', after, rfl, hstop, hrest⟩ := ih h
      refine ⟨t :: before, t', after, rfl, hstop, ?_⟩
      have hdata : t.data = [] := by rw [Turn.data, hitem]; rfl
      rw [hrest, List.flatMap_cons, hdata, List.nil_append]
    next hitem =>
      cases h
      exact ⟨[], t, ts, rfl, Or.inr hitem, (List.append_nil _).symm⟩
    next data hitem =>
      split at h
      · cases h
      · obtain ⟨before, t', after, rfl, hstop, hrest⟩ := ih h
        refine ⟨t :: before, t', after, rfl, hstop, ?_⟩
        have hdata : t.data = [data] := by rw [Turn.data, hitem]; rfl
        rw [hrest, List.flatMap_cons, hdata, List.flatten_append, List.flatten_singleton,
          List.append_assoc]

theorem code_of_search {f : Bytes → Bool} (hsearch : search = some f) :
    (if found then exitOk else if search.isSome || buf = [] then exitError else exitOk) = exitOk ↔
      found = true := by
  subst hsearch
  cases found <;> simp [exitOk, exitError]

theorem code_of_none (hfound : found = false) (hsearch : search = none) :
    (if found then exitOk else if search.isSome || buf = [] then exitError else exitOk) = exitOk ↔
      buf ≠ [] := by
  subst hfound hsearch
  by_cases hbuf : buf = [] <;> simp [exitOk, exitError, hbuf]

end Script

/-- In every run of `_run_script` what is printed is all that was received. With a pattern the
exit code is 0 exactly if the bytes received so far had a match when some chunk came, and
it is the first such; if they never had one, the script waited until the deadline or the end of
the channel. Without a pattern it is 0 exactly if something came. Past the deadline the run is
over. -/
theorem script_waits_for_its_answer (search : Option (Bytes → Bool)) (deadline idleGap : ℕ)
    (unescape : String → Bytes) (sends : List String) (turns : List Turn) :
    (∀ r, runScript search deadline idleGap unescape sends turns = some r →
      ∃ taken, taken <+: turns.flatMap Turn.data ∧
        r.printed = Utf8.decode Utf8.replace taken.flatten ∧
        (∀ f, search = some f →
          (r.code = exitOk ↔ ∃ n, 0 < n ∧ n ≤ taken.length ∧ f (taken.take n).flatten = true) ∧
          (∀ n, 0 < n → n < taken.length → f (taken.take n).flatten = false) ∧
          (r.code ≠ exitOk → ∃ before t after, turns = before ++ t :: after ∧
            (deadline ≤ t.now ∨ t.item = some none) ∧
            taken.flatten = (before.flatMap Turn.data).flatten)) ∧
        (search = none → (r.code = exitOk ↔ taken.flatten ≠ []))) ∧
    ((∃ t ∈ turns, deadline ≤ t.now) →
      (runScript search deadline idleGap unescape sends turns).isSome) := by
  constructor
  · intro r hr
    obtain ⟨⟨buf, found⟩, hloop, rfl⟩ := Option.map_eq_some_iff.mp hr
    obtain ⟨taken, hbuf, htakes⟩ := loop_takes hloop
    rw [List.nil_append] at hbuf
    refine ⟨taken, htakes.prefix_of, by rw [hbuf], fun f hsearch => ⟨?_, ?_, ?_⟩, fun hnone => ?_⟩
    · rw [code_of_search hsearch, htakes.found_iff, hsearch]
      rfl
    · intro n hpos hlt
      have hfirst := htakes.first n hpos hlt
      rwa [hsearch] at hfirst
    · intro hcode
      rw [ne_eq, code_of_search hsearch, Bool.not_eq_true] at hcode
      rw [hcode] at hloop
      obtain ⟨before, t, after, hturns, hstop, hrest⟩ :=
        loop_gives_up (hsearch ▸ rfl : search.isSome = true) hloop
      exact ⟨before, t, after, hturns, hstop, hbuf ▸ hrest⟩
    · have hfound : found = false := by
        rw [Bool.eq_false_iff]
        intro h
        obtain ⟨n, -, -, hn⟩ := htakes.found_iff.mp h
        rw [hnone] at hn
        cases hn
      rw [code_of_none hfound hnone, hbuf]
  · intro h
    rw [runScript, Option.isSome_map]
    exact loop_ends h

end MbTools.RelayTerminal
