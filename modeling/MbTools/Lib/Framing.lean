import Mathlib.Data.List.Basic
import Mathlib.Tactic.Common

/-! # Reading items off a stream

A reader takes one item at a time from a source. What it gives is judged by the
stream the source still holds: a whole item at its front, nothing, or an item cut
short.
-/

namespace MbTools.Framing

variable {σ φ β ε : Type}

/-- What `n` reads one after the other come to. `none` is the clean end. -/
def answers (read : σ → Except ε (Option φ) × σ) : ℕ → σ → List (Except ε (Option φ))
  | 0, _ => []
  | n + 1, s => (read s).1 :: answers read n (read s).2

@[simp] theorem length_answers (read : σ → Except ε (Option φ) × σ) (n : ℕ) (s : σ) :
    (answers read n s).length = n := by
  induction n generalizing s with
  | zero => rfl
  | succ n ih => rw [answers, List.length_cons, ih]

theorem take_answers (read : σ → Except ε (Option φ) × σ) (n m : ℕ) (s : σ) :
    (answers read (n + m) s).take n = answers read n s := by
  induction n generalizing s with
  | zero => rfl
  | succ n ih => rw [Nat.add_right_comm, answers, List.take_succ_cons, ih, answers]

theorem answers_map {φ' ε' : Type} {read : σ → Except ε (Option φ) × σ}
    {read' : σ → Except ε' (Option φ') × σ} (g : Except ε (Option φ) → Except ε' (Option φ'))
    (h : ∀ s, read' s = (g (read s).1, (read s).2)) (n : ℕ) (s : σ) :
    answers read' n s = (answers read n s).map g := by
  induction n generalizing s with
  | zero => rfl
  | succ n ih => rw [answers, answers, List.map_cons, ih, h]

/-- A reader of the items `Ok` holds of, each written as `enc` has it. -/
structure Reads (Ok : φ → Prop) (enc : φ → List β) (view : σ → List β) (Inv : σ → Prop)
    (Cut : ε → Prop) (read : σ → Except ε (Option φ) × σ) : Prop where
  item : ∀ {s f rest}, Inv s → Ok f → view s = enc f ++ rest → (read s).1 = .ok (some f)
  nothing : ∀ {s}, Inv s → view s = [] → (read s).1 = .ok none
  cut : ∀ {s f rest}, Inv s → Ok f → view s ≠ [] → rest ≠ [] → enc f = view s ++ rest →
    ∃ e, Cut e ∧ (read s).1 = .error e
  sound : ∀ {s f}, Inv s → (read s).1 = .ok (some f) →
    Ok f ∧ view s = enc f ++ view (read s).2 ∧ Inv (read s).2

/-- The items that lie wholly inside the first `n` places of their encoding. -/
def whole (enc : φ → List β) : List φ → ℕ → List φ
  | [], _ => []
  | f :: fs, n => if (enc f).length ≤ n then f :: whole enc fs (n - (enc f).length) else []

variable {Ok : φ → Prop} {enc : φ → List β} {view : σ → List β} {Inv : σ → Prop} {Cut : ε → Prop}
  {read : σ → Except ε (Option φ) × σ} {s : σ} {f : φ} {fs : List φ} {rest : List β} {n : ℕ}

theorem Reads.view_of_append (hr : Reads Ok enc view Inv Cut read) (hi : Inv s) (hf : Ok f)
    (hv : view s = enc f ++ rest) : view (read s).2 = rest ∧ Inv (read s).2 := by
  obtain ⟨-, hv', hi'⟩ := hr.sound hi (hr.item hi hf hv)
  exact ⟨List.append_cancel_left (hv'.symm.trans hv), hi'⟩

theorem Reads.front_unique {g : φ} {rest' : List β} (hr : Reads Ok enc view Inv Cut read)
    (hi : Inv s) (hf : Ok f) (hg : Ok g) (hv : view s = enc f ++ rest)
    (hv' : view s = enc g ++ rest') : f = g ∧ rest = rest' := by
  obtain rfl : f = g := by
    have hread := hr.item hi hf hv
    rw [hr.item hi hg hv'] at hread
    cases hread
    rfl
  exact ⟨rfl, List.append_cancel_left (hv.symm.trans hv')⟩

/-- The reads give back the items at the front of the stream, and go on behind
them. -/
theorem Reads.answers_append (hr : Reads Ok enc view Inv Cut read) (hi : Inv s)
    (hok : ∀ f ∈ fs, Ok f) (hv : view s = fs.flatMap enc ++ rest) :
    ∃ s', Inv s' ∧ view s' = rest ∧
      answers read (fs.length + n) s = fs.map (.ok ∘ some) ++ answers read n s' := by
  induction fs generalizing s with
  | nil => exact ⟨s, hi, hv, by simp⟩
  | cons f fs ih =>
    rw [List.forall_mem_cons] at hok
    rw [List.flatMap_cons, List.append_assoc] at hv
    have hit := hr.item hi hok.1 hv
    obtain ⟨hv', hi'⟩ := hr.view_of_append hi hok.1 hv
    obtain ⟨s', hs', hrest, hans⟩ := ih hi' hok.2 hv'
    refine ⟨s', hs', hrest, ?_⟩
    rw [List.length_cons, Nat.add_right_comm, answers, hit, hans]
    rfl

/-- From the encoding of a list the reads give that list and then the clean end. -/
theorem Reads.answers_encode (hr : Reads Ok enc view Inv Cut read) (hi : Inv s)
    (hok : ∀ f ∈ fs, Ok f) (hv : view s = fs.flatMap enc) :
    answers read (fs.length + 1) s = fs.map (.ok ∘ some) ++ [.ok none] := by
  obtain ⟨s', hi', hnil, hans⟩ :=
    hr.answers_append (n := 1) hi hok (hv.trans (List.append_nil _).symm)
  rw [hans, answers, hr.nothing hi' hnil]
  rfl

theorem take_flatMap_of_lt (h : n < (fs.flatMap enc).length) :
    ∃ f gs rest, fs = whole enc fs n ++ f :: gs ∧
      (fs.flatMap enc).take n = (whole enc fs n).flatMap enc ++ rest ∧
      ∃ missing, missing ≠ [] ∧ enc f = rest ++ missing := by
  induction fs generalizing n with
  | nil => simp at h
  | cons f fs ih =>
    rw [List.flatMap_cons, List.length_append] at h
    by_cases hle : (enc f).length ≤ n
    · obtain ⟨g, gs, rest, hfs, htake, hmiss⟩ := ih (n := n - (enc f).length) (by omega)
      refine ⟨g, gs, rest, ?_, ?_, hmiss⟩
      · rw [whole, if_pos hle, List.cons_append, ← hfs]
      · rw [whole, if_pos hle, List.flatMap_cons, List.flatMap_cons, List.take_append,
          List.take_of_length_le hle, htake, List.append_assoc]
    · refine ⟨f, fs, (enc f).take n, ?_, ?_, (enc f).drop n, ?_, ?_⟩
      · rw [whole, if_neg hle, List.nil_append]
      · rw [whole, if_neg hle, List.flatMap_cons, List.flatMap_nil, List.nil_append,
          List.take_append_of_le_length (Nat.le_of_not_le hle)]
      · rw [Ne, List.drop_eq_nil_iff]
        omega
      · exact (List.take_append_drop n (enc f)).symm

/-- From a strict prefix of an encoding the reads give the items wholly inside it,
and then the clean end if the cut is between two items and an error if it is not. -/
theorem Reads.answers_take (hr : Reads Ok enc view Inv Cut read) (hi : Inv s)
    (hok : ∀ f ∈ fs, Ok f) (hn : n < (fs.flatMap enc).length)
    (hv : view s = (fs.flatMap enc).take n) :
    ∃ last, answers read ((whole enc fs n).length + 1) s =
        (whole enc fs n).map (.ok ∘ some) ++ [last] ∧
      (((whole enc fs n).flatMap enc).length = n → last = .ok none) ∧
      (((whole enc fs n).flatMap enc).length ≠ n → ∃ e, Cut e ∧ last = .error e) := by
  obtain ⟨f, gs, rest, hfs, htake, missing, hne, henc⟩ := take_flatMap_of_lt hn
  have hwhole : ∀ g ∈ whole enc fs n, Ok g := fun g hg => hok g <| by
    rw [hfs]
    exact List.mem_append_left _ hg
  have hf : Ok f := hok f <| by
    rw [hfs]
    simp
  obtain ⟨s', hi', hrest, hans⟩ := hr.answers_append (n := 1) hi hwhole (hv.trans htake)
  have hlen : ((whole enc fs n).flatMap enc).length + rest.length = n := by
    have := congrArg List.length htake
    rw [List.length_take, List.length_append, Nat.min_eq_left (Nat.le_of_lt hn)] at this
    exact this.symm
  refine ⟨(read s').1, hans, ?_, ?_⟩
  · intro hend
    exact hr.nothing hi' (hrest.trans (List.length_eq_zero_iff.mp (by omega)))
  · intro hend
    refine hr.cut hi' hf ?_ hne (hrest ▸ henc)
    rw [hrest, Ne, ← List.length_eq_zero_iff]
    omega

theorem Reads.view_of_answers (hr : Reads Ok enc view Inv Cut read) (hi : Inv s)
    (h : answers read fs.length s = fs.map (.ok ∘ some)) :
    (∀ f ∈ fs, Ok f) ∧ ∃ rest, view s = fs.flatMap enc ++ rest := by
  induction fs generalizing s with
  | nil => exact ⟨fun f hf => (List.not_mem_nil hf).elim, view s, rfl⟩
  | cons f fs ih =>
    obtain ⟨hf, hrest⟩ := List.cons.inj h
    obtain ⟨hok, hv, hi'⟩ := hr.sound hi hf
    obtain ⟨hoks, rest, hv'⟩ := ih hi' hrest
    refine ⟨List.forall_mem_cons.mpr ⟨hok, hoks⟩, rest, ?_⟩
    rw [hv, hv', List.flatMap_cons, List.append_assoc]

end MbTools.Framing
