import Mathlib.Data.Finset.Insert
import Mathlib.Data.Fintype.Defs
import Mathlib.Data.Set.Basic

/-! # A register on two sides

Two sides each hold a value, tell each other their writes, and exchange their
values whenever they are connected again. Nothing arbitrates: what arrives is
taken. The value written last reaches both sides if nothing else is ever put
over it: on the side that is behind, it is still on its way.
-/

namespace MbTools.Exchange

inductive Side where
  | here
  | there
  deriving DecidableEq, Repr

namespace Side

instance : Fintype Side := ⟨{here, there}, fun x => by cases x <;> decide⟩

def other : Side → Side
  | here => there
  | there => here

@[simp] theorem other_other (x : Side) : x.other.other = x := by cases x <;> rfl

@[simp] theorem other_ne (x : Side) : x.other ≠ x := by cases x <;> nofun

@[simp] theorem ne_other (x : Side) : x ≠ x.other := by cases x <;> nofun

theorem eq_or_eq_other (x y : Side) : x = y ∨ x = y.other := by cases x <;> cases y <;> decide

end Side

/-- What concerns one register: its value on each side, and what each side has under way. -/
structure View (α : Type) where
  last : Option α
  value : Side → Option α
  up : Prop
  /-- The values of the events a side has written and the other has not seen. -/
  events : Side → Set (Option α)
  /-- A value of this side has been asked for. -/
  asked : Side → Prop
  /-- The values of this side in answers under way. -/
  replies : Side → Set (Option α)

variable {α : Type} {c c' : View α} {x y : Side} {v : Option α}

/-- How a side that is behind gets the value written last. Where that value is an absence no answer
tells it, and it is the answer of the side behind that cannot be taken. -/
inductive Way (c : View α) (y : Side) : Prop
  | down (h : ¬ c.up)
  | event (h : c.last ∈ c.events y.other)
  | asked (hl : c.last ≠ none) (h : c.asked y.other)
  | reply (hl : c.last ≠ none) (h : c.last ∈ c.replies y.other)
  | behindAsked (hl : c.last = none) (h : c.asked y)
  | behindReply (hl : c.last = none) (a : α) (h : some a ∈ c.replies y)

/-- One side has the value written last, and if the other has not there is a way for it. -/
structure Repairable (c : View α) : Prop where
  current : ∃ x, c.value x = c.last
  way : ∀ y, c.value y ≠ c.last → Way c y

theorem Way.mono (h : Way c y) (hlast : c'.last = c.last) (hup : c'.up → c.up)
    (hevents : c.last ∈ c.events y.other → c.last ∈ c'.events y.other)
    (hasked : ∀ x, c.asked x → c'.asked x)
    (hreply : c.last ≠ none → c.last ∈ c.replies y.other → c.last ∈ c'.replies y.other)
    (hbehind : c.last = none → ∀ a, some a ∈ c.replies y → some a ∈ c'.replies y) : Way c' y := by
  cases h with
  | down h => exact .down fun hu => h (hup hu)
  | event h => exact .event (hlast ▸ hevents h)
  | asked hl h => exact .asked (hlast ▸ hl) (hasked _ h)
  | reply hl h => exact .reply (hlast ▸ hl) (hlast ▸ hreply hl h)
  | behindAsked hl h => exact .behindAsked (hlast ▸ hl) (hasked _ h)
  | behindReply hl a h => exact .behindReply (hlast ▸ hl) a (hbehind hl a h)

/-- A step that leaves the sides that have the last value with it, and the others a way. -/
theorem Repairable.mono (h : Repairable c) (hlast : c'.last = c.last)
    (hkeep : ∀ x, c.value x = c.last → c'.value x = c.last)
    (hway : ∀ y, c.value y ≠ c.last → c'.value y ≠ c.last → Way c y → Way c' y) :
    Repairable c' where
  current := by
    obtain ⟨x, hx⟩ := h.current
    exact ⟨x, hlast ▸ hkeep x hx⟩
  way y hy := by
    rw [hlast] at hy
    have hy' : c.value y ≠ c.last := fun he => hy (hkeep y he)
    exact hway y hy' hy (h.way y hy')

theorem Repairable.frame (h : Repairable c) (hlast : c'.last = c.last) (hvalue : c'.value = c.value)
    (hway : ∀ y, c.value y ≠ c.last → Way c y → Way c' y) : Repairable c' :=
  h.mono hlast (fun _ hx => hvalue ▸ hx) fun y hy _ => hway y hy

/-- A side that writes has the last value, and its event is under way to the other. -/
theorem Repairable.of_write (hvalue : c.value x = c.last) (hevent : c.last ∈ c.events x) :
    Repairable c where
  current := ⟨x, hvalue⟩
  way y hy := by
    rcases y.eq_or_eq_other x with (rfl | rfl)
    · exact absurd hvalue hy
    · exact .event (by rwa [Side.other_other])

theorem Repairable.other_current (h : Repairable c) (hy : c.value y ≠ c.last) :
    c.value y.other = c.last := by
  obtain ⟨x, hx⟩ := h.current
  rcases x.eq_or_eq_other y with (rfl | rfl)
  · exact absurd hx hy
  · exact hx

theorem Repairable.take (h : Repairable c) (hlast : c'.last = c.last)
    (hx : c'.value x = v) (hother : c'.value x.other = c.value x.other)
    (hok : c.value x = c.last → v = c.last)
    (hway : ∀ y, c.value y ≠ c.last → (y = x → v ≠ c.last) → Way c y → Way c' y) :
    Repairable c' := by
  refine h.mono hlast (fun z hz => ?_) fun y hy hy' hw => hway y hy (fun he => ?_) hw
  · rcases z.eq_or_eq_other x with (rfl | rfl)
    · exact hx.trans (hok hz)
    · exact hother.trans hz
  · subst he
    exact hx ▸ hy'

theorem Repairable.adds (h : Repairable c) (hlast : c'.last = c.last) (hvalue : c'.value = c.value)
    (hup : c'.up → c.up) (hevents : ∀ y u, u ∈ c.events y → u ∈ c'.events y)
    (hasked : ∀ y, c.asked y → c'.asked y)
    (hreplies : ∀ y u, u ∈ c.replies y → u ∈ c'.replies y) : Repairable c' :=
  h.frame hlast hvalue fun _ _ hw =>
    hw.mono hlast hup (hevents _ _) hasked (fun _ => hreplies _ _) fun _ _ => hreplies _ _

theorem Repairable.reconnect (h : Repairable c) (hlast : c'.last = c.last)
    (hvalue : c'.value = c.value) (hasked : ∀ y, c'.asked y) : Repairable c' := by
  refine h.frame hlast hvalue fun y _ _ => ?_
  by_cases hl : c'.last = none
  · exact .behindAsked hl (hasked y)
  · exact .asked hl (hasked y.other)

/-- The side `x` answers with its value: the last one if it has it, else one to be refused. -/
theorem Repairable.answer (h : Repairable c) (hlast : c'.last = c.last)
    (hvalue : c'.value = c.value) (hup : c'.up → c.up)
    (hevents : ∀ y u, u ∈ c.events y → u ∈ c'.events y)
    (hasked : ∀ y, y ≠ x → c.asked y → c'.asked y)
    (hreplies : ∀ y u, u ∈ c.replies y → u ∈ c'.replies y) (hnew : c.value x ∈ c'.replies x) :
    Repairable c' := by
  refine h.frame hlast hvalue fun y hy hway => ?_
  have hother := h.other_current hy
  cases hway with
  | down hd => exact .down fun hu => hd (hup hu)
  | event he => exact .event (hlast ▸ hevents _ _ he)
  | asked hl hpos =>
    by_cases hyx : y.other = x
    · refine .reply (hlast ▸ hl) ?_
      rw [hyx, hlast, ← hother, hyx]
      exact hnew
    · exact .asked (hlast ▸ hl) (hasked _ hyx hpos)
  | reply hl hr => exact .reply (hlast ▸ hl) (hlast ▸ hreplies _ _ hr)
  | behindAsked hl hpos =>
    by_cases hyx : y = x
    · subst hyx
      rw [hl] at hy
      obtain ⟨a, ha⟩ := Option.ne_none_iff_exists'.mp hy
      exact .behindReply (hlast ▸ hl) a (ha ▸ hnew)
    · exact .behindAsked (hlast ▸ hl) (hasked _ hyx hpos)
  | behindReply hl a hr => exact .behindReply (hlast ▸ hl) a (hreplies _ _ hr)

theorem Repairable.retry (h : Repairable c) (hlast : c'.last = c.last)
    (hvalue : c'.value = c.value) (hup : c'.up → c.up)
    (hevents : ∀ y u, u ∈ c.events y → u ∈ c'.events y)
    (hasked : ∀ y, c.asked y → c'.asked y)
    (hreplies : ∀ y u, y ≠ x → u ∈ c.replies y → u ∈ c'.replies y) (hx : c'.asked x) :
    Repairable c' := by
  refine h.frame hlast hvalue fun y _ hway => ?_
  cases hway with
  | down hd => exact .down fun hu => hd (hup hu)
  | event he => exact .event (hlast ▸ hevents _ _ he)
  | asked hl hpos => exact .asked (hlast ▸ hl) (hasked _ hpos)
  | reply hl hr =>
    by_cases hyx : y.other = x
    · exact .asked (hlast ▸ hl) (hyx ▸ hx)
    · exact .reply (hlast ▸ hl) (hlast ▸ hreplies _ _ hyx hr)
  | behindAsked hl hpos => exact .behindAsked (hlast ▸ hl) (hasked _ hpos)
  | behindReply hl a hr =>
    by_cases hyx : y = x
    · exact .behindAsked (hlast ▸ hl) (hyx ▸ hx)
    · exact .behindReply (hlast ▸ hl) a (hreplies _ _ hyx hr)

/-- An event with the value `v` leaves the side `x` and is taken by the other. -/
theorem Repairable.receive (h : Repairable c) (hlast : c'.last = c.last) (hup : c'.up → c.up)
    (hevents : ∀ y u, (y = x → u ≠ v) → u ∈ c.events y → u ∈ c'.events y)
    (hasked : ∀ y, c.asked y → c'.asked y)
    (hreplies : ∀ y u, u ∈ c.replies y → u ∈ c'.replies y)
    (htaken : c'.value x.other = v) (hself : c'.value x = c.value x)
    (hok : c.value x.other = c.last → v = c.last) : Repairable c' := by
  refine h.take hlast htaken (by rwa [Side.other_other]) hok fun y _ hv hway => ?_
  refine hway.mono hlast hup (hevents _ _ fun hyx => ?_) hasked (fun _ => hreplies _ _)
    fun _ _ => hreplies _ _
  -- this event was no way for the side that has taken it and is still behind
  have hy : y = x.other := by rw [← hyx, Side.other_other]
  exact (hv hy).symm

/-- An answer of the side `x` leaves it; the other takes its value, if it tells one. -/
theorem Repairable.adopt {u : Option α} (h : Repairable c) (hlast : c'.last = c.last)
    (hup : c'.up → c.up) (hevents : ∀ y r, r ∈ c.events y → r ∈ c'.events y)
    (hasked : ∀ y, c.asked y → c'.asked y)
    (hreplies : ∀ y r, (y = x → r ≠ u) → r ∈ c.replies y → r ∈ c'.replies y)
    (htaken : c'.value x.other = u.or (c.value x.other)) (hself : c'.value x = c.value x)
    (hok : u ≠ none → c.value x.other = c.last → u = c.last) : Repairable c' := by
  cases u with
  | none =>
    refine h.frame hlast (funext fun z => ?_) fun y _ hway => ?_
    · rcases z.eq_or_eq_other x with (rfl | rfl)
      · exact hself
      · exact htaken
    · exact hway.mono hlast hup (hevents _ _) hasked (fun hl => hreplies _ _ fun _ => hl)
        fun _ a => hreplies _ _ fun _ => nofun
  | some a =>
    have hok := hok nofun
    refine h.take hlast htaken (by rwa [Side.other_other]) hok fun y hy hv hway => ?_
    refine hway.mono hlast hup (hevents _ _) hasked (fun _ => hreplies _ _ fun hyx => ?_)
      fun hl b => hreplies _ _ fun hyx => ?_
    · have hy' : y = x.other := by rw [← hyx, Side.other_other]
      exact (hv hy').symm
    · -- the answer of a side that is behind is never taken by the other
      subst hyx
      have ha := (hok (h.other_current hy)).trans hl
      cases ha

theorem Repairable.settled (h : Repairable c) (hup : c.up) (hevents : ∀ x, c.events x = ∅)
    (hasked : ∀ x, ¬ c.asked x) (hreplies : ∀ x, c.replies x = ∅) (x : Side) :
    c.value x = c.last := by
  by_contra hx
  cases h.way x hx with
  | down h => exact h hup
  | event h =>
    rw [hevents] at h
    exact h.elim
  | asked _ h => exact hasked _ h
  | reply _ h =>
    rw [hreplies] at h
    exact h.elim
  | behindAsked _ h => exact hasked _ h
  | behindReply _ a h =>
    rw [hreplies] at h
    exact h.elim

end MbTools.Exchange
