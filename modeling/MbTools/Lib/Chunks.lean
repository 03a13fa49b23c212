import Mathlib.Data.List.Basic
import Mathlib.Tactic.Common

/-! # Reading from a connection

What is still to come on a connection arrives in pieces, and one `recv` hands
over at most one of them. A loop of short reads that asks for exactly `n` items
does not see where the pieces end.
-/

namespace MbTools.Chunks

variable {α : Type}

/-- A piece that has arrived: it is never empty. -/
abbrev Piece (α : Type) := α × List α

def Piece.items (p : Piece α) : List α := p.1 :: p.2

/-- The reading end of a connection: the pieces that are still to come, whether
the connection is reset after them or closed, how many items have been taken and
what each `recv` asked for, with the number of items taken before it. -/
structure Source (α : Type) where
  pieces : List (Piece α)
  resets : Bool
  taken : ℕ
  requests : List (ℕ × ℕ)
  deriving Repr, DecidableEq

namespace Source

def items (s : Source α) : List α := s.pieces.flatMap Piece.items

/-- A connection whose sender closes it after the given pieces. -/
def closing (pieces : List (Piece α)) : Source α := ⟨pieces, false, 0, []⟩

@[simp] theorem resets_closing (ps : List (Piece α)) : (closing ps).resets = false := rfl

@[simp] theorem items_closing (ps : List (Piece α)) :
    (closing ps).items = ps.flatMap Piece.items := rfl

end Source

def pushBack : List α → List (Piece α) → List (Piece α)
  | [], ps => ps
  | a :: as, ps => (a, as) :: ps

@[simp] theorem flatMap_pushBack (as : List α) (ps : List (Piece α)) :
    (pushBack as ps).flatMap Piece.items = as ++ ps.flatMap Piece.items := by
  cases as <;> simp [pushBack, Piece.items]

/-- One `recv`: nothing at the end of the connection, `none` where it raises. -/
def recv (n : ℕ) (s : Source α) : Option (List α) × Source α :=
  let s := { s with requests := s.requests ++ [(s.taken, n)] }
  match s.pieces with
  | [] => (if s.resets then none else some [], s)
  | p :: ps =>
    let got := p.items.take n
    (some got, { s with pieces := pushBack (p.items.drop n) ps, taken := s.taken + got.length })

/-- The loop around `recv`. A turn that goes on takes an item, so as many turns
as items asked for are enough. -/
def readTurns : ℕ → ℕ → Source α → Option (List α) × Source α
  | 0, _, s => (some [], s)
  | turns + 1, remaining, s =>
    if remaining = 0 then (some [], s)
    else
      match recv remaining s with
      | (none, s) => (none, s)
      | (some [], s) => (some [], s)
      | (some chunk, s) =>
        match readTurns turns (remaining - chunk.length) s with
        | (none, s) => (none, s)
        | (some rest, s) => (some (chunk ++ rest), s)

def readExact (n : ℕ) (s : Source α) : Option (List α) × Source α := readTurns n n s

/-- What a read of `n` items comes to: it gets the next `n` items or what is left
of them, and asks for none beyond them. -/
structure Takes (n : ℕ) (s : Source α) (r : Option (List α) × Source α) : Prop where
  got : r.1 = if s.resets ∧ s.items.length < n then none else some (s.items.take n)
  left : r.2.items = s.items.drop n
  resets : r.2.resets = s.resets
  asked : ∃ new, r.2.requests = s.requests ++ new ∧ ∀ q ∈ new, q.1 + q.2 ≤ s.taken + n

theorem takes_zero (s : Source α) : Takes 0 s (some [], s) where
  got := by simp
  left := by simp
  resets := rfl
  asked := ⟨[], by simp⟩

theorem recv_nil {n : ℕ} {s : Source α} (h : s.items = []) :
    recv n s = (if s.resets then none else some [],
      { s with requests := s.requests ++ [(s.taken, n)] }) := by
  obtain ⟨pieces, _, _, _⟩ := s
  cases pieces with
  | nil => rfl
  | cons p ps => simp [Source.items, Piece.items] at h

theorem takes_nil {n : ℕ} {s : Source α} (h : s.items = []) :
    Takes (n + 1) s (if s.resets then none else some [],
      { s with requests := s.requests ++ [(s.taken, n + 1)] }) where
  got := by simp [h]
  left := by
    rw [h]
    exact h
  resets := rfl
  asked := ⟨[(s.taken, n + 1)], rfl, by simp⟩

/-- While something is left a `recv` gets at least one item and at most what it
asked for. -/
theorem recv_of_ne {n : ℕ} {s : Source α} (h : s.items ≠ []) :
    ∃ a as s', recv (n + 1) s = (some (a :: as), s') ∧ as.length ≤ n ∧
      s.items = a :: as ++ s'.items ∧ s'.resets = s.resets ∧
      s'.taken = s.taken + (as.length + 1) ∧ s'.requests = s.requests ++ [(s.taken, n + 1)] := by
  obtain ⟨pieces, _, _, _⟩ := s
  cases pieces with
  | nil => exact absurd rfl h
  | cons p ps =>
    obtain ⟨a, as⟩ := p
    refine ⟨a, as.take n, _, rfl, List.length_take_le n as, ?_, rfl, rfl, rfl⟩
    simp only [Source.items, Piece.items, List.flatMap_cons, List.drop_succ_cons,
      flatMap_pushBack, List.cons_append, ← List.append_assoc, List.take_append_drop]

theorem Takes.cons {n : ℕ} {s s' : Source α} {a : α} {as : List α} {r}
    (ht : Takes (n - as.length) s' r) (hle : as.length ≤ n) (hitems : s.items = a :: as ++ s'.items)
    (hre : s'.resets = s.resets) (htaken : s'.taken = s.taken + (as.length + 1))
    (hreq : s'.requests = s.requests ++ [(s.taken, n + 1)]) :
    Takes (n + 1) s (r.1.map (a :: as ++ ·), r.2) where
  got := by
    have hlen : s.items.length < n + 1 ↔ s'.items.length < n - as.length := by
      simp only [hitems, List.length_append, List.length_cons]
      omega
    rw [ht.got, hre, hitems]
    simp only [hitems] at hlen
    simp only [hlen]
    split
    · rfl
    · simp [List.take_append, List.take_of_length_le hle]
  left := by
    rw [ht.left, hitems]
    simp [List.drop_append, List.drop_of_length_le hle]
  resets := by rw [ht.resets, hre]
  asked := by
    obtain ⟨new, hnew, hq⟩ := ht.asked
    refine ⟨(s.taken, n + 1) :: new, ?_, ?_⟩
    · rw [hnew, hreq, List.append_assoc, List.singleton_append]
    · rintro q (_ | ⟨_, hm⟩)
      · exact Nat.le_refl _
      · have := hq q hm
        omega

theorem takes_readTurns (turns n : ℕ) (s : Source α) (h : n ≤ turns) :
    Takes n s (readTurns turns n s) := by
  induction turns generalizing n s with
  | zero =>
    obtain rfl : n = 0 := Nat.le_zero.mp h
    exact takes_zero s
  | succ turns ih =>
    cases n with
    | zero => simpa [readTurns] using takes_zero s
    | succ n =>
      by_cases hne : s.items = []
      · rw [readTurns, if_neg n.succ_ne_zero, recv_nil hne]
        have hnil := takes_nil (n := n) hne
        cases hre : s.resets <;> rw [hre] at hnil <;> exact hnil
      · obtain ⟨a, as, s', hr, hle, hitems, hre, htaken, hreq⟩ := recv_of_ne (n := n) hne
        have ht := ih (n - as.length) s' (by omega)
        have hcons := ht.cons hle hitems hre htaken hreq
        rw [readTurns, if_neg n.succ_ne_zero, hr]
        simp only [List.length_cons, Nat.add_sub_add_right]
        cases hr' : readTurns turns (n - as.length) s' with
        | mk got left =>
          rw [hr'] at hcons
          cases got <;> exact hcons

/-- The loop of short reads does not see where the pieces end. -/
theorem takes_readExact (n : ℕ) (s : Source α) : Takes n s (readExact n s) :=
  takes_readTurns n n s (Nat.le_refl n)

end MbTools.Chunks
