import Mathlib.Data.List.Basic

/-! # Journals of changes

A change gives one key a new value, or none. A journal lists changes in order,
and is replayed over a starting view.
-/

namespace MbTools.Journal

variable {κ ν : Type} [DecidableEq κ] {view : κ → Option ν} {l l' : List (κ × Option ν)}
  {c : κ × Option ν} {k : κ}

def change (view : κ → Option ν) (c : κ × Option ν) : κ → Option ν :=
  fun k => if c.1 = k then c.2 else view k

def replay (view : κ → Option ν) (l : List (κ × Option ν)) : κ → Option ν := l.foldl change view

theorem change_of_ne (h : c.1 ≠ k) : change view c k = view k := if_neg h

@[simp] theorem replay_nil : replay view [] = view := rfl

theorem replay_append : replay view (l ++ l') = replay (replay view l) l' :=
  List.foldl_append

theorem replay_concat : replay view (l ++ [c]) = change (replay view l) c := by
  rw [replay_append]
  rfl

end MbTools.Journal
