import Mathlib.Data.List.Basic

/-! # Programs that raise and clean up

A program on a state that returns or raises, with the two ways of going on after an
exception: to catch it, and to clean up and raise it again.
-/

namespace MbTools

def Unwind (σ ε α : Type) := σ → Except ε α × σ

namespace Unwind

variable {σ ε α β : Type}

instance : Monad (Unwind σ ε) where
  pure a := fun s => (.ok a, s)
  bind f g := fun s =>
    match f s with
    | (.ok a, s) => g a s
    | (.error e, s) => (.error e, s)

/-- A call with this outcome, on something that is not part of the state. -/
def answer (x : Except ε α) : Unwind σ ε α := fun s => (x, s)

/-- The same for a call that returns nothing. -/
def raises (x : Option ε) : Unwind σ ε Unit :=
  answer (match x with
    | some e => .error e
    | none => .ok ())

def change (f : σ → σ) : Unwind σ ε Unit := fun s => (.ok (), f s)

/-- `try: body except caught: handler` -/
def except (caught : ε → Bool) (body : Unwind σ ε α) (handler : ε → Unwind σ ε α) :
    Unwind σ ε α := fun s =>
  match body s with
  | (.ok a, s) => (.ok a, s)
  | (.error e, s) => if caught e then handler e s else (.error e, s)

/-- `try: body finally: cleanup` -/
def ensure (body : Unwind σ ε α) (cleanup : Unwind σ ε Unit) : Unwind σ ε α := fun s =>
  match cleanup (body s).2 with
  | (.ok _, s') => ((body s).1, s')
  | (.error e, s') => (.error e, s')

variable {f : Unwind σ ε α} {g : α → Unwind σ ε β} {s s' : σ}

theorem bind_of_ok {a : α} (h : f s = (.ok a, s')) : (f >>= g) s = g a s' := by
  change (match f s with
    | (.ok a, s) => g a s
    | (.error e, s) => (.error e, s)) = _
  rw [h]

theorem bind_of_error {e : ε} (h : f s = (.error e, s')) : (f >>= g) s = (.error e, s') := by
  change (match f s with
    | (.ok a, s) => g a s
    | (.error e, s) => (.error e, s)) = _
  rw [h]

theorem answer_bind (a : α) (g : α → Unwind σ ε β) : (answer (.ok a) >>= g) = g a := rfl

theorem change_bind (h : σ → σ) (g : Unit → Unwind σ ε β) (s : σ) :
    (change h >>= g) s = g () (h s) := rfl

/-- Whatever the body comes to, the cleanup has the last word on the state. -/
theorem ensure_state (body : Unwind σ ε α) (cleanup : Unwind σ ε Unit) (s : σ) :
    (ensure body cleanup s).2 = (cleanup (body s).2).2 := by
  unfold ensure
  rcases hc : cleanup (body s).2 with ⟨r, s'⟩
  cases r <;> rfl

/-- A program that leaves the state as it is, whatever it comes to. -/
def Silent (f : Unwind σ ε α) : Prop := ∀ s, (f s).2 = s

namespace Silent

theorem pure (a : α) : Silent (pure a : Unwind σ ε α) := fun _ => rfl

theorem answer (x : Except ε α) : Silent (answer x : Unwind σ ε α) := fun _ => rfl

theorem bind (hf : Silent f) (hg : ∀ a, Silent (g a)) : Silent (f >>= g) := by
  intro s
  have hs := hf s
  rcases hr : f s with ⟨r, s'⟩
  rw [hr] at hs
  cases r with
  | ok a =>
    rw [bind_of_ok hr, hg a s']
    exact hs
  | error e =>
    rw [bind_of_error hr]
    exact hs

theorem except {caught : ε → Bool} {handler : ε → Unwind σ ε α} (hf : Silent f)
    (hh : ∀ e, Silent (handler e)) : Silent (except caught f handler) := by
  intro s
  have hs := hf s
  unfold Unwind.except
  rcases hr : f s with ⟨r, s'⟩
  rw [hr] at hs
  cases r with
  | ok a => exact hs
  | error e =>
    dsimp only
    split
    · rw [hh e s']
      exact hs
    · exact hs

theorem ensure {cleanup : Unwind σ ε Unit} (hf : Silent f) (hc : Silent cleanup) :
    Silent (ensure f cleanup) := fun s => by rw [ensure_state, hc, hf]

theorem ite {c : Prop} [Decidable c] {h : Unwind σ ε α} (hf : Silent f) (hh : Silent h) :
    Silent (if c then f else h) := by
  split
  · exact hf
  · exact hh

end Silent

/-- A program that moves the state along `R`, whatever it comes to. -/
def Within (R : σ → σ → Prop) (f : Unwind σ ε α) : Prop := ∀ s, R s (f s).2

namespace Within

variable {R S T : σ → σ → Prop} {body : Unwind σ ε α} {cleanup : Unwind σ ε Unit}

theorem of_silent (hR : ∀ s, R s s) (hf : Silent f) : Within R f := by
  intro s
  rw [hf s]
  exact hR s

theorem mono (h : ∀ s t, R s t → S s t) (hf : Within R f) : Within S f := fun s => h _ _ (hf s)

theorem change {h : σ → σ} (hh : ∀ s, R s (h s)) : Within R (change h : Unwind σ ε Unit) := hh

/-- A program whose second part moves along another relation. -/
theorem bind_comp (hR : ∀ s t, R s t → T s t) (hRS : ∀ s t u, R s t → S t u → T s u)
    (hf : Within R f) (hg : ∀ a, Within S (g a)) : Within T (f >>= g) := by
  intro s
  have hs := hf s
  rcases hr : f s with ⟨r, s'⟩
  rw [hr] at hs
  cases r with
  | ok a =>
    rw [bind_of_ok hr]
    exact hRS _ _ _ hs (hg a s')
  | error e =>
    rw [bind_of_error hr]
    exact hR _ _ hs

theorem bind (hR : ∀ s t u, R s t → R t u → R s u) (hf : Within R f) (hg : ∀ a, Within R (g a)) :
    Within R (f >>= g) :=
  hf.bind_comp (fun _ _ => id) hR hg

theorem except (hR : ∀ s t u, R s t → R t u → R s u) {caught : ε → Bool}
    {handler : ε → Unwind σ ε α} (hf : Within R body) (hh : ∀ e, Within R (handler e)) :
    Within R (except caught body handler) := by
  intro s
  have hs := hf s
  unfold Unwind.except
  rcases hr : body s with ⟨r, s'⟩
  rw [hr] at hs
  cases r with
  | ok a => exact hs
  | error e =>
    dsimp only
    split
    · exact hR _ _ _ hs (hh e s')
    · exact hs

/-- A handler that does nothing leaves the state where the body has moved it. -/
theorem except_silent {caught : ε → Bool} {handler : ε → Unwind σ ε α} (hf : Within R body)
    (hh : ∀ e, Silent (handler e)) : Within R (Unwind.except caught body handler) := by
  intro s
  have hs := hf s
  unfold Unwind.except
  rcases hr : body s with ⟨r, s'⟩
  rw [hr] at hs
  cases r with
  | ok a => exact hs
  | error e =>
    dsimp only
    split
    · rw [hh e s']
      exact hs
    · exact hs

theorem ensure_comp (hRS : ∀ s t u, R s t → S t u → T s u) (hf : Within R body)
    (hc : Within S cleanup) : Within T (ensure body cleanup) := by
  intro s
  rw [ensure_state]
  exact hRS _ _ _ (hf s) (hc _)

theorem ite {c : Prop} [Decidable c] {h : Unwind σ ε α} (hf : Within R body) (hh : Within R h) :
    Within R (if c then body else h) := by
  split
  · exact hf
  · exact hh

end Within

end Unwind

end MbTools
