import Mathlib.Data.List.Basic
import Mathlib.Tactic.Common

/-! # Lists of successes

A pattern is the function that gives its results at a place of a text, the preferred one
first. A repetition of a class gives a result for every length it can stop at, the longest
one first, and a search takes the first place that has a result.
-/

namespace MbTools.Successes

variable {α β : Type}

/-- The runs of a class at the start of a text and what stands behind each. -/
def splits (p : α → Bool) : List α → List (List α × List α)
  | [] => [([], [])]
  | a :: s =>
    if p a then (splits p s).map (fun x => (a :: x.1, x.2)) ++ [([], a :: s)] else [([], a :: s)]

/-- The first result of a pattern, which is told what stands before the place. -/
def search (hits : Option α → List α → List β) : Option α → List α → Option β
  | prev, [] => (hits prev []).head?
  | prev, a :: s => (hits prev (a :: s)).head?.or (search hits (some a) s)

variable {p : α → Bool} {s t w : List α} {x : List α × List α}

theorem of_mem_splits (h : x ∈ splits p s) : s = x.1 ++ x.2 ∧ ∀ a ∈ x.1, p a = true := by
  induction s generalizing x with
  | nil =>
    rw [List.mem_singleton.mp h]
    exact ⟨rfl, nofun⟩
  | cons a s ih =>
    rw [splits] at h
    split at h
    next ha =>
      rcases List.mem_append.mp h with h | h
      · obtain ⟨y, hy, rfl⟩ := List.mem_map.mp h
        obtain ⟨hs, hall⟩ := ih hy
        exact ⟨congrArg _ hs, List.forall_mem_cons.mpr ⟨ha, hall⟩⟩
      · rw [List.mem_singleton.mp h]
        exact ⟨rfl, nofun⟩
    next =>
      rw [List.mem_singleton.mp h]
      exact ⟨rfl, nofun⟩

theorem head_flatMap_splits {f : List α × List α → List β} {b : β} (hw : ∀ a ∈ w, p a = true)
    (hlong : ∀ x ∈ splits p t, x.1 ≠ [] → f (w ++ x.1, x.2) = []) (h : (f (w, t)).head? = some b) :
    ((splits p (w ++ t)).flatMap f).head? = some b := by
  induction w generalizing f with
  | nil =>
    have hrest : ∀ l : List (List α × List α), (∀ x ∈ l, x ∈ splits p t ∧ x.1 ≠ []) →
        l.flatMap f = [] := by
      intro l hl
      exact List.flatMap_eq_nil_iff.mpr fun x hx => hlong x (hl x hx).1 (hl x hx).2
    cases t with
    | nil => simpa [splits] using h
    | cons a t =>
      rw [List.nil_append, splits]
      split
      next ha =>
        rw [List.flatMap_append, hrest, List.nil_append, List.flatMap_singleton]
        · exact h
        · intro x hx
          refine ⟨?_, ?_⟩
          · rw [splits, if_pos ha]
            exact List.mem_append_left _ hx
          · obtain ⟨y, -, rfl⟩ := List.mem_map.mp hx
            exact List.cons_ne_nil _ _
      next => simpa using h
  | cons a w ih =>
    rw [List.forall_mem_cons] at hw
    rw [List.cons_append, splits, if_pos hw.1, List.flatMap_append, List.flatMap_map,
      List.head?_append, ih hw.2 hlong h]
    rfl

theorem search_eq_none {hits : Option α → List α → List β} {prev : Option α}
    (h : ∀ prev t, t <:+ s → hits prev t = []) : search hits prev s = none := by
  induction s generalizing prev with
  | nil => rw [search, h prev [] List.suffix_rfl, List.head?_nil]
  | cons a s ih =>
    rw [search, h prev _ List.suffix_rfl, List.head?_nil, Option.none_or]
    exact ih fun prev t ht => h prev t (ht.trans (List.suffix_cons a s))

theorem search_append {hits : Option α → List α → List β} {prev : Option α} {b : β}
    (hbefore : ∀ prev t, t <:+ w → t ≠ [] → hits prev (t ++ s) = [])
    (h : ∀ prev, (hits prev s).head? = some b) : search hits prev (w ++ s) = some b := by
  induction w generalizing prev with
  | nil =>
    rw [List.nil_append]
    cases s with
    | nil => exact h prev
    | cons a s => rw [search, h prev, Option.some_or]
  | cons a w ih =>
    have hnil := hbefore prev (a :: w) List.suffix_rfl (List.cons_ne_nil _ _)
    rw [List.cons_append] at hnil
    rw [List.cons_append, search, hnil, List.head?_nil, Option.none_or]
    exact ih fun prev t ht hne => hbefore prev t (ht.trans (List.suffix_cons a w)) hne

end MbTools.Successes
