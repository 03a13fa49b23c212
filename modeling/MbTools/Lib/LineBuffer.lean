import MbTools.Lib.Chunks
import MbTools.Lib.Lines

/-! # Lines read through a buffer

A reader that takes what a connection has until there is a line feed in its
buffer, and keeps what stands behind it. Where the pieces of the connection end
decides how much is kept, and nothing else.
-/

namespace MbTools.Lines

open Chunks

/-- What was read and not handed on yet, and the connection behind it. -/
structure LineBuffer where
  buf : List UInt8
  sock : Source UInt8
  deriving DecidableEq

/-- A line without its line feed, or why there is none. -/
inductive Fetched where
  | line (bytes : List UInt8)
  | closed
  | raised
  deriving DecidableEq, Repr

namespace LineBuffer

/-- Everything that is still to be read. -/
def items (b : LineBuffer) : List UInt8 := b.buf ++ b.sock.items

/-- Take what arrives, at most `n + 1` bytes at a time, until there is a line feed or no more. A
turn that goes on takes a byte. -/
def fillTurns (n : ℕ) : ℕ → LineBuffer → Fetched × LineBuffer
  | 0, b => (.closed, b)
  | turns + 1, b =>
    match splitLine b.buf with
    | some (line, rest) => (.line line, { b with buf := rest })
    | none =>
      match recv (n + 1) b.sock with
      | (none, sock) => (.raised, { b with sock := sock })
      | (some [], sock) => (.closed, { b with sock := sock })
      | (some chunk, sock) => fillTurns n turns ⟨b.buf ++ chunk, sock⟩

/-- The next line, taken out of the buffer. -/
def fetch (n : ℕ) (b : LineBuffer) : Fetched × LineBuffer := fillTurns n (b.sock.items.length + 1) b

variable {n turns : ℕ} {b : LineBuffer} {line rest : List UInt8}

/-- What a fetch comes to: the first line of what there is, and what stands behind it. -/
structure Fetches (b : LineBuffer) (r : Fetched × LineBuffer) : Prop where
  line : ∀ {line rest}, b.items = line ++ newline :: rest → newline ∉ line →
    r.1 = .line line ∧ r.2.items = rest
  last : newline ∉ b.items → r.1 = (if b.sock.resets then .raised else .closed) ∧
    r.2.buf = b.items ∧ r.2.sock.items = []
  resets : r.2.sock.resets = b.sock.resets

theorem Fetches.of_items {b' : LineBuffer} {r : Fetched × LineBuffer} (h : Fetches b' r)
    (hi : b'.items = b.items) (hr : b'.sock.resets = b.sock.resets) : Fetches b r where
  line := fun hb hl => h.line (hi.trans hb) hl
  last := fun hn => by
    have hl := h.last (hi ▸ hn)
    rwa [hi, hr] at hl
  resets := h.resets.trans hr

theorem fetches_of_buffered (h : splitLine b.buf = some (line, rest)) :
    Fetches b (.line line, { b with buf := rest }) := by
  obtain ⟨hbuf, hl⟩ := splitLine_eq_some_iff.mp h
  have hitems : b.items = line ++ newline :: (rest ++ b.sock.items) := by
    rw [items, hbuf, List.append_assoc, List.cons_append]
  refine ⟨fun hb hl' => ?_, fun hn => ?_, rfl⟩
  · obtain ⟨rfl, rfl⟩ := eq_of_line_append (hitems.symm.trans hb) hl hl'
    exact ⟨rfl, rfl⟩
  · exact absurd (by rw [hitems]; simp) hn

theorem fetches_of_drained {sock : Source UInt8} (h : splitLine b.buf = none)
    (hs : b.sock.items = []) (hs' : sock.items = []) (hr : sock.resets = b.sock.resets) :
    Fetches b (if b.sock.resets then .raised else .closed, { b with sock := sock }) := by
  have hitems : b.items = b.buf := by rw [items, hs, List.append_nil]
  refine ⟨fun hb _ => ?_, fun _ => ⟨rfl, hitems.symm, hs'⟩, hr⟩
  refine absurd ?_ (splitLine_eq_none_iff.mp h)
  rw [← hitems, hb]
  simp

theorem fetches_fillTurns (n turns : ℕ) (b : LineBuffer) (h : b.sock.items.length < turns) :
    Fetches b (fillTurns n turns b) := by
  induction turns generalizing b with
  | zero => exact absurd h (Nat.not_lt_zero _)
  | succ turns ih =>
    rw [fillTurns]
    cases hs : splitLine b.buf with
    | some p => exact fetches_of_buffered hs
    | none =>
      by_cases hne : b.sock.items = []
      · obtain ⟨sock, hsock, hi, hre⟩ : ∃ sock, recv (n + 1) b.sock =
            (if b.sock.resets then none else some [], sock) ∧ sock.items = [] ∧
            sock.resets = b.sock.resets := ⟨_, recv_nil hne, hne, rfl⟩
        have hd := fetches_of_drained hs hne hi hre
        rw [hsock]
        cases hb : b.sock.resets with
        | true =>
          rw [hb] at hd
          exact hd
        | false =>
          rw [hb] at hd
          exact hd
      · obtain ⟨a, as, sock, hr, -, hitems, hre, -, -⟩ := recv_of_ne (n := n) hne
        rw [hr]
        have hlen : sock.items.length < turns := by
          rw [hitems, List.length_append, List.length_cons] at h
          omega
        refine (ih ⟨b.buf ++ a :: as, sock⟩ hlen).of_items ?_ hre
        rw [items, items, hitems, List.append_assoc]

/-- A fetch does not see where the pieces end. -/
theorem fetches_fetch (n : ℕ) (b : LineBuffer) : Fetches b (b.fetch n) :=
  fetches_fillTurns n _ b (Nat.lt_succ_self _)

end LineBuffer

end MbTools.Lines
