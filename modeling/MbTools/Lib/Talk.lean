import Mathlib.Data.List.Basic
import Mathlib.Data.Nat.Find

/-! # Programs that talk to a client

A program on a state that writes lines to a client. The client may refuse a
line, by going away, and the write then raises. Until it does, the program does
what it would do for a client that takes everything; so the first line refused
says where the program stopped, and in which state.
-/

namespace MbTools

/-- What happened so far, each event with the state it happened in, and the state now. -/
structure Log (κ σ : Type) where
  events : List (κ × σ)
  state : σ
  deriving DecidableEq, Repr

/-- Which lines the client takes, by their number among the events. -/
abbrev Client := ℕ → Bool

def Client.all : Client := fun _ => true

def Talk (κ σ ε α : Type) := Client → Log κ σ → Except ε α × Log κ σ

namespace Talk

variable {κ σ ε α β : Type}

instance : Monad (Talk κ σ ε) where
  pure a := fun _ l => (.ok a, l)
  bind f g := fun takes l =>
    match f takes l with
    | (.ok a, l) => g a takes l
    | (.error e, l) => (.error e, l)

/-- Write a line; `gone` is the exception of a client that does not take it. -/
def say (gone : ε) (line : κ) : Talk κ σ ε Unit := fun takes l =>
  (if takes l.events.length then .ok () else .error gone,
    { l with events := l.events ++ [(line, l.state)] })

/-- A change of the state, which the client does not see. -/
def note (event : κ) (f : σ → σ) : Talk κ σ ε Unit := fun _ l =>
  (.ok (), { events := l.events ++ [(event, l.state)], state := f l.state })

def get : Talk κ σ ε σ := fun _ l => (.ok l.state, l)

def raise (e : ε) : Talk κ σ ε α := fun _ l => (.error e, l)

/-- `try f except: h`, with a handler that neither writes nor changes the state. -/
def attempt (f : Talk κ σ ε α) (h : ε → Except ε α) : Talk κ σ ε α := fun takes l =>
  match f takes l with
  | (.ok a, l) => (.ok a, l)
  | (.error e, l) => (h e, l)

theorem bind_of_ok {f : Talk κ σ ε α} {g : α → Talk κ σ ε β} {takes : Client} {l l' : Log κ σ}
    {a : α} (h : f takes l = (.ok a, l')) : (f >>= g) takes l = g a takes l' := by
  change (match f takes l with
    | (.ok a, l) => g a takes l
    | (.error e, l) => (.error e, l)) = _
  rw [h]

theorem bind_of_error {f : Talk κ σ ε α} {g : α → Talk κ σ ε β} {takes : Client} {l l' : Log κ σ}
    {e : ε} (h : f takes l = (.error e, l')) : (f >>= g) takes l = (.error e, l') := by
  change (match f takes l with
    | (.ok a, l) => g a takes l
    | (.error e, l) => (.error e, l)) = _
  rw [h]

theorem attempt_log (f : Talk κ σ ε α) (h : ε → Except ε α) (takes : Client) (l : Log κ σ) :
    (f.attempt h takes l).2 = (f takes l).2 := by
  unfold attempt
  split <;> (rename_i he; rw [he])

/-- Does the client take all lines from number `k` on, among these events? -/
def Takes (isLine : κ → Bool) (takes : Client) (k : ℕ) (events : List (κ × σ)) : Prop :=
  ∀ n x, k ≤ n → events[n]? = some x → isLine x.1 = true → takes n = true

/-- Is event `n` the first line, from number `k` on, that the client does not take? -/
structure FirstRefused (isLine : κ → Bool) (takes : Client) (k : ℕ) (events : List (κ × σ)) (n : ℕ)
    (x : κ × σ) : Prop where
  from_le : k ≤ n
  at_event : events[n]? = some x
  is_line : isLine x.1 = true
  refused : takes n = false
  before : Takes isLine takes k (events.take n)

/-- The program does the same for every client up to the first line refused, and stops there. -/
structure Cuts (isLine : κ → Bool) (gone : ε) (f : Talk κ σ ε α) : Prop where
  grows : ∀ l, ∃ new, (f .all l).2.events = l.events ++ new
  same : ∀ takes l, Takes isLine takes l.events.length (f .all l).2.events → f takes l = f .all l
  stops : ∀ takes l n x, FirstRefused isLine takes l.events.length (f .all l).2.events n x →
    f takes l = (.error gone, ⟨(f .all l).2.events.take (n + 1), x.2⟩)

variable {isLine : κ → Bool} {gone : ε} {f : Talk κ σ ε α} {g : α → Talk κ σ ε β}

theorem FirstRefused.lt {takes : Client} {k n : ℕ} {events : List (κ × σ)} {x : κ × σ}
    (h : FirstRefused isLine takes k events n x) : n < events.length :=
  (List.getElem?_eq_some_iff.mp h.at_event).1

/-- The events of a shorter run. -/
theorem Takes.of_append {takes : Client} {k : ℕ} {events rest : List (κ × σ)}
    (h : Takes isLine takes k (events ++ rest)) : Takes isLine takes k events := by
  intro n x hn hx hline
  have hlt := (List.getElem?_eq_some_iff.mp hx).1
  exact h n x hn (by rwa [List.getElem?_append_left hlt]) hline

theorem Takes.take {takes : Client} {k : ℕ} {events : List (κ × σ)}
    (h : Takes isLine takes k events) (n : ℕ) : Takes isLine takes k (events.take n) := by
  rw [← List.take_append_drop n events] at h
  exact h.of_append

theorem Takes.mono {takes : Client} {j k : ℕ} {events : List (κ × σ)}
    (h : Takes isLine takes j events) (hjk : j ≤ k) : Takes isLine takes k events :=
  fun n x hn => h n x (Nat.le_trans hjk hn)

/-- A program that is silent and looks at nothing but the state. -/
theorem Cuts.of_silent (h : ∀ takes l, f takes l = f .all l ∧ (f takes l).2.events = l.events) :
    Cuts isLine gone f where
  grows := fun l => ⟨[], by rw [(h .all l).2, List.append_nil]⟩
  same := fun takes l _ => (h takes l).1
  stops := by
    intro takes l n x hfirst
    have hlt := hfirst.lt
    have hle := hfirst.from_le
    rw [(h .all l).2] at hlt
    omega

theorem Cuts.pure (a : α) : Cuts isLine gone (pure a : Talk κ σ ε α) :=
  .of_silent fun _ _ => ⟨rfl, rfl⟩

theorem Cuts.get : Cuts isLine gone (get : Talk κ σ ε σ) := .of_silent fun _ _ => ⟨rfl, rfl⟩

theorem Cuts.raise (e : ε) : Cuts isLine gone (raise e : Talk κ σ ε α) :=
  .of_silent fun _ _ => ⟨rfl, rfl⟩

theorem Cuts.note {event : κ} (hevent : isLine event = false) (u : σ → σ) :
    Cuts isLine gone (note event u : Talk κ σ ε Unit) where
  grows := fun l => ⟨[(event, l.state)], rfl⟩
  same := fun _ _ _ => rfl
  stops := by
    intro takes l n x hfirst
    have hlt := hfirst.lt
    have hle := hfirst.from_le
    have hx := hfirst.at_event
    simp only [Talk.note, List.length_append, List.length_singleton] at hlt hx
    obtain rfl : n = l.events.length := by omega
    rw [List.getElem?_concat_length, Option.some.injEq] at hx
    have hline := hfirst.is_line
    rw [← hx, hevent] at hline
    exact absurd hline (by simp)

theorem Cuts.say {line : κ} (hline : isLine line = true) :
    Cuts isLine gone (say gone line : Talk κ σ ε Unit) where
  grows := fun l => ⟨[(line, l.state)], rfl⟩
  same := by
    intro takes l h
    have ht := h l.events.length (line, l.state) (Nat.le_refl _) (by simp [Talk.say]) hline
    simp [Talk.say, ht, Client.all]
  stops := by
    intro takes l n x hfirst
    have hlt := hfirst.lt
    have hle := hfirst.from_le
    have hx := hfirst.at_event
    simp only [Talk.say, List.length_append, List.length_singleton] at hlt hx
    obtain rfl : n = l.events.length := by omega
    rw [List.getElem?_concat_length, Option.some.injEq] at hx
    have hall : (Talk.say gone line .all l).2.events.take (l.events.length + 1) =
        l.events ++ [(line, l.state)] := List.take_of_length_le (by simp [Talk.say])
    rw [hall, ← hx]
    simp [Talk.say, hfirst.refused]

/-- One program after another. -/
theorem Cuts.bind (hf : Cuts isLine gone f) (hg : ∀ a, Cuts isLine gone (g a)) :
    Cuts isLine gone (f >>= g) := by
  have hall : ∀ l, ∃ new, ((f >>= g) .all l).2.events = (f .all l).2.events ++ new := by
    intro l
    rcases hr : f .all l with ⟨r, l₁⟩
    cases r with
    | ok a =>
      rw [bind_of_ok hr]
      exact (hg a).grows l₁
    | error e => exact ⟨[], by rw [bind_of_error hr, List.append_nil]⟩
  have hle : ∀ l, l.events.length ≤ (f .all l).2.events.length := by
    intro l
    obtain ⟨new, hnew⟩ := hf.grows l
    rw [hnew, List.length_append]
    omega
  constructor
  · intro l
    obtain ⟨new, hnew⟩ := hf.grows l
    obtain ⟨rest, hrest⟩ := hall l
    exact ⟨new ++ rest, by rw [hrest, hnew, List.append_assoc]⟩
  · intro takes l h
    obtain ⟨rest, hrest⟩ := hall l
    have hsame : f takes l = f .all l := hf.same takes l ((hrest ▸ h).of_append)
    have hlen := hle l
    rcases hr : f .all l with ⟨r, l₁⟩
    rw [hr] at hlen
    cases r with
    | ok a =>
      rw [bind_of_ok (hsame.trans hr), bind_of_ok hr]
      rw [bind_of_ok hr] at h
      exact (hg a).same takes l₁ (h.mono hlen)
    | error e => rw [bind_of_error (hsame.trans hr), bind_of_error hr]
  · intro takes l n x hfirst
    obtain ⟨rest, hrest⟩ := hall l
    have hbefore := hfirst.before
    rcases Nat.lt_or_ge n (f .all l).2.events.length with (hlt | hge)
    · -- the line refused is one of the first program's
      have hx := hfirst.at_event
      rw [hrest, List.getElem?_append_left hlt] at hx
      rw [hrest, List.take_append_of_le_length (Nat.le_of_lt hlt)] at hbefore
      have hstop := hf.stops takes l n x
        ⟨hfirst.from_le, hx, hfirst.is_line, hfirst.refused, hbefore⟩
      rw [bind_of_error hstop, hrest, List.take_append_of_le_length hlt]
    · have hsame : f takes l = f .all l := by
        apply hf.same
        rw [hrest, List.take_append, List.take_of_length_le hge] at hbefore
        exact hbefore.of_append
      have hlen := hle l
      rcases hr : f .all l with ⟨r, l₁⟩
      rw [hr] at hge hlen
      cases r with
      | ok a =>
        have hx := hfirst.at_event
        rw [bind_of_ok hr] at hx hbefore
        rw [bind_of_ok (hsame.trans hr), bind_of_ok hr]
        exact (hg a).stops takes l₁ n x
          ⟨hge, hx, hfirst.is_line, hfirst.refused, hbefore.mono hlen⟩
      | error e =>
        have hlt := hfirst.lt
        rw [bind_of_error hr] at hlt
        exact absurd hlt (Nat.not_lt.mpr hge)

/-- Either every line is taken, and the program does what it does for a client that takes
everything, or it stops at the first line refused. -/
theorem Cuts.ends (hf : Cuts isLine gone f) (takes : Client) (l : Log κ σ) :
    (Takes isLine takes l.events.length (f .all l).2.events ∧ f takes l = f .all l) ∨
      ∃ n x, FirstRefused isLine takes l.events.length (f .all l).2.events n x ∧
        f takes l = (.error gone, ⟨(f .all l).2.events.take (n + 1), x.2⟩) := by
  by_cases h : Takes isLine takes l.events.length (f .all l).2.events
  · exact Or.inl ⟨h, hf.same takes l h⟩
  · have hex : ∃ n x, l.events.length ≤ n ∧ (f .all l).2.events[n]? = some x ∧
        isLine x.1 = true ∧ takes n = false := by
      simpa [Takes, not_forall, and_assoc] using h
    classical
    obtain ⟨x, hn, hx, hline, hno⟩ := Nat.find_spec hex
    have hfirst :
        FirstRefused isLine takes l.events.length (f .all l).2.events (Nat.find hex) x := by
      refine ⟨hn, hx, hline, hno, ?_⟩
      intro m y hm hy hyline
      rw [List.getElem?_take] at hy
      split at hy
      · rename_i hlt
        by_contra htakes
        exact Nat.find_min hex hlt ⟨y, hm, hy, hyline, by simpa using htakes⟩
      · exact absurd hy (by simp)
    exact Or.inr ⟨_, x, hfirst, hf.stops takes l _ x hfirst⟩

end Talk

end MbTools
