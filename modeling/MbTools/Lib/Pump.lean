import MbTools.Lib.Chunks

/-! # Pumps

A loop that takes what arrives on one connection and writes it to another, until one of the two
ends it. What it has written is then the first of what there was to take, and all of
it when the loop saw the end of the connection it reads.
-/

namespace MbTools.Chunks

variable {α : Type}

/-- Why a pump is over. -/
inductive Ending where
  /-- The connection it reads was closed by its sender. -/
  | closed
  /-- That connection was given up on this side: a `recv` gave nothing or raised. -/
  | cut
  /-- A socket raised. -/
  | failed
  deriving DecidableEq, Repr

inductive Pump.Phase (α : Type) where
  | reading
  | writing (data : List α)
  | ended (how : Ending)
  deriving DecidableEq, Repr

structure Pump (α : Type) where
  source : Source α
  phase : Pump.Phase α
  /-- What was written. -/
  out : List α
  deriving DecidableEq, Repr

inductive Pump.Move where
  | recv
  | cut
  /-- All of it is written. -/
  | write
  /-- The write raises, with some of it written. -/
  | fail (taken : ℕ)
  deriving DecidableEq, Repr

namespace Pump

/-- A pump that has `buf` to write before it reads. -/
def start (buf : List α) (source : Source α) : Pump α :=
  ⟨source, if buf.isEmpty then .reading else .writing buf, []⟩

/-- A move of a pump whose `recv` takes at most `n + 1` items. -/
def move (n : ℕ) (p : Pump α) : Move → Option (Pump α)
  | .recv =>
    match p.phase with
    | .reading =>
      match Chunks.recv (n + 1) p.source with
      | (none, source) => some { p with source, phase := .ended .failed }
      | (some data, source) =>
        some { p with source, phase := if data.isEmpty then .ended .closed else .writing data }
    | _ => none
  | .cut => if p.phase matches .reading then some { p with phase := .ended .cut } else none
  | .write =>
    match p.phase with
    | .writing data => some { p with phase := .reading, out := p.out ++ data }
    | _ => none
  | .fail taken =>
    match p.phase with
    | .writing data => some { p with phase := .ended .failed, out := p.out ++ data.take taken }
    | _ => none

def ended (p : Pump α) : Bool := p.phase matches .ended _

/-- What it has taken and not written. -/
def held (p : Pump α) : List α :=
  match p.phase with
  | .writing data => data
  | _ => []

/-- What a pump is at when there is `all` to write: it has written the first of it, with the rest
still in its hands while it goes on, and all of it once it has seen the end. -/
structure Sound (all : List α) (p : Pump α) : Prop where
  prefix_all : p.out <+: all
  rest : p.ended = false → p.out ++ (p.held ++ p.source.items) = all
  closed : p.phase = .ended .closed → p.out = all

/-- How much a pump has still to do at most. -/
def rank (p : Pump α) : ℕ :=
  match p.phase with
  | .reading => 2 * p.source.items.length + 1
  | .writing _ => 2 * p.source.items.length + 2
  | .ended _ => 0

section Moves

variable {n : ℕ} {p p' : Pump α} {m : Move} {all data : List α}

theorem ended_eq_true_iff : p.ended = true ↔ ∃ how, p.phase = .ended how := by
  unfold ended
  cases p.phase with
  | reading => simp
  | writing data => simp
  | ended how => simp

theorem move_recv (h : p.move n .recv = some p') : p.phase = .reading ∧ p'.out = p.out ∧
    ((p'.phase = .ended .failed ∨ p.source.items = [] ∧ p'.phase = .ended .closed) ∨
      ∃ data, data ≠ [] ∧ p'.phase = .writing data ∧
        data ++ p'.source.items = p.source.items) := by
  cases hp : p.phase with
  | writing data => simp [move, hp] at h
  | ended how => simp [move, hp] at h
  | reading =>
    simp only [move, hp] at h
    by_cases hs : p.source.items = []
    · rw [recv_nil hs] at h
      cases hr : p.source.resets with
      | true =>
        rw [hr] at h
        obtain rfl := Option.some.inj h
        exact ⟨rfl, rfl, .inl (.inl rfl)⟩
      | false =>
        rw [hr] at h
        obtain rfl := Option.some.inj h
        exact ⟨rfl, rfl, .inl (.inr ⟨hs, rfl⟩)⟩
    · obtain ⟨a, as, source, hr, -, hsplit, -⟩ := recv_of_ne (n := n) hs
      rw [hr] at h
      obtain rfl := Option.some.inj h
      exact ⟨rfl, rfl, .inr ⟨a :: as, List.cons_ne_nil a as, rfl, hsplit.symm⟩⟩

theorem move_cut_eq_some_iff :
    p.move n .cut = some p' ↔ p.phase = .reading ∧ p' = { p with phase := .ended .cut } := by
  unfold move
  cases p.phase with
  | reading => simp [eq_comm]
  | writing data => simp
  | ended how => simp

theorem move_write_eq_some_iff : p.move n .write = some p' ↔
    ∃ data, p.phase = .writing data ∧ p' = { p with phase := .reading, out := p.out ++ data } := by
  unfold move
  cases p.phase with
  | reading => simp
  | writing data => simp [eq_comm]
  | ended how => simp

theorem move_fail_eq_some_iff {taken : ℕ} : p.move n (.fail taken) = some p' ↔
    ∃ data, p.phase = .writing data ∧
      p' = { p with phase := .ended .failed, out := p.out ++ data.take taken } := by
  unfold move
  cases p.phase with
  | reading => simp
  | writing data => simp [eq_comm]
  | ended how => simp

@[simp] theorem ended_start (buf : List α) (source : Source α) :
    (start buf source).ended = false := by
  cases buf <;> rfl

theorem sound_start (buf : List α) (source : Source α) :
    Sound (buf ++ source.items) (start buf source) := by
  refine ⟨List.nil_prefix, fun _ => ?_, fun h => ?_⟩
  · cases buf with
    | nil => rfl
    | cons b buf => rfl
  · cases buf with
    | nil => cases h
    | cons b buf => cases h

/-- What a pump still has to write comes behind what it has written. -/
theorem Sound.of_rest (h : p'.out ++ (p'.held ++ p'.source.items) = all)
    (ho : p'.phase ≠ .ended .closed) : Sound all p' :=
  ⟨⟨_, h⟩, fun _ => h, fun hc => absurd hc ho⟩

theorem Sound.move (hs : Sound all p) (h : p.move n m = some p') : Sound all p' := by
  have hrest (hp : p.phase = .reading) : p.out ++ p.source.items = all := by
    have := hs.rest (by simp [ended, hp])
    rwa [held, hp] at this
  have hwrite {data : List α} (hp : p.phase = .writing data) :
      p.out ++ (data ++ p.source.items) = all := by
    have := hs.rest (by simp [ended, hp])
    rwa [held, hp] at this
  cases m with
  | recv =>
    obtain ⟨hp, hout, (hf | ⟨hnil, hc⟩) | ⟨data, -, hw, hsplit⟩⟩ := move_recv h
    · refine ⟨hout ▸ hs.prefix_all, fun ho => ?_, fun hc => ?_⟩
      · simp [ended, hf] at ho
      · rw [hf] at hc
        cases hc
    · have hall : p'.out = all := by
        rw [hout, ← hrest hp, hnil, List.append_nil]
      refine ⟨hall ▸ List.prefix_refl _, fun ho => ?_, fun _ => hall⟩
      simp [ended, hc] at ho
    · refine .of_rest ?_ (by simp [hw])
      rw [held, hw, hout]
      exact hsplit ▸ hrest hp
  | cut =>
    obtain ⟨-, rfl⟩ := move_cut_eq_some_iff.mp h
    exact ⟨hs.prefix_all, nofun, nofun⟩
  | write =>
    obtain ⟨data, hp, rfl⟩ := move_write_eq_some_iff.mp h
    refine .of_rest ?_ nofun
    rw [← hwrite hp, held, List.nil_append, List.append_assoc]
  | fail taken =>
    obtain ⟨data, hp, rfl⟩ := move_fail_eq_some_iff.mp h
    refine ⟨?_, nofun, nofun⟩
    have hpre : p.out ++ data.take taken <+: p.out ++ (data ++ p.source.items) :=
      (List.prefix_append_right_inj _).mpr
        ((List.take_prefix taken data).trans (List.prefix_append data _))
    rwa [hwrite hp] at hpre

theorem prefix_of_move (hm : m ≠ .recv) (h : p.move n m = some p') :
    p'.out ++ p'.held <+: p.out ++ p.held := by
  cases m with
  | recv => exact absurd rfl hm
  | cut =>
    obtain ⟨hp, rfl⟩ := move_cut_eq_some_iff.mp h
    simp [held, hp]
  | write =>
    obtain ⟨data, hp, rfl⟩ := move_write_eq_some_iff.mp h
    simp [held, hp]
  | fail taken =>
    obtain ⟨data, hp, rfl⟩ := move_fail_eq_some_iff.mp h
    simp only [held, hp, List.append_nil]
    exact (List.prefix_append_right_inj _).mpr (List.take_prefix taken data)

theorem rank_move (h : p.move n m = some p') : p'.rank < p.rank := by
  cases m with
  | recv =>
    obtain ⟨hp, -, (hf | ⟨-, hc⟩) | ⟨data, hne, hw, hsplit⟩⟩ := move_recv h
    · simp [rank, hp, hf]
    · simp [rank, hp, hc]
    · have hpos := List.length_pos_iff.mpr hne
      simp only [rank, hp, hw, ← hsplit, List.length_append]
      omega
  | cut =>
    obtain ⟨hp, rfl⟩ := move_cut_eq_some_iff.mp h
    simp [rank, hp]
  | write =>
    obtain ⟨data, hp, rfl⟩ := move_write_eq_some_iff.mp h
    simp [rank, hp]
  | fail taken =>
    obtain ⟨data, hp, rfl⟩ := move_fail_eq_some_iff.mp h
    simp [rank, hp]

theorem exists_move (h : p.ended = false) : (∃ p', p.move n .recv = some p') ∨
    (∃ p', p.move n .write = some p') ∧ ∀ taken, ∃ p', p.move n (.fail taken) = some p' := by
  cases hp : p.phase with
  | ended how => simp [ended, hp] at h
  | writing data =>
    exact .inr ⟨⟨_, move_write_eq_some_iff.mpr ⟨data, hp, rfl⟩⟩,
      fun taken => ⟨_, move_fail_eq_some_iff.mpr ⟨data, hp, rfl⟩⟩⟩
  | reading =>
    refine .inl ?_
    simp only [move, hp]
    cases hr : (Chunks.recv (n + 1) p.source).1 with
    | none => exact ⟨_, by rw [← Prod.eta (Chunks.recv _ _), hr]⟩
    | some data => exact ⟨_, by rw [← Prod.eta (Chunks.recv _ _), hr]⟩

theorem rank_start_le (buf : List α) (source : Source α) :
    (start buf source).rank ≤ 2 * (buf ++ source.items).length + 2 := by
  cases buf with
  | nil => simp [rank, start]
  | cons b buf =>
    simp only [rank, start, List.isEmpty_cons, Bool.false_eq_true, if_false, List.length_append]
    omega

theorem not_ended_of_move (h : p.move n m = some p') : p.ended = false := by
  by_contra ho
  obtain ⟨how, hp⟩ := ended_eq_true_iff.mp (by simpa using ho)
  cases m with
  | recv => simp [move, hp] at h
  | cut => simp [move, hp] at h
  | write => simp [move, hp] at h
  | fail taken => simp [move, hp] at h

theorem phase_ne_cut (hm : m ≠ .cut) (h : p.move n m = some p') : p'.phase ≠ .ended .cut := by
  cases m with
  | recv =>
    obtain ⟨-, -, (hf | ⟨-, hc⟩) | ⟨data, -, hw, -⟩⟩ := move_recv h
    · simp [hf]
    · simp [hc]
    · simp [hw]
  | cut => exact absurd rfl hm
  | write =>
    obtain ⟨data, -, rfl⟩ := move_write_eq_some_iff.mp h
    nofun
  | fail taken =>
    obtain ⟨data, -, rfl⟩ := move_fail_eq_some_iff.mp h
    nofun

end Moves

end Pump

end MbTools.Chunks
