import MbTools.Lib.Table

/-! # Conditional deletes

A loop of `DELETE … WHERE key = ? AND cond` statements over a list of keys,
which reports the keys whose statement removed a row.
-/

namespace MbTools.Table

variable {κ ν : Type} [DecidableEq κ] {key : ν → κ} {t : Table key} {k k' : κ} {ks : List κ}
  {cond : ν → Bool}

/-- Is there a row at the key, and does it meet the condition? -/
def hits (cond : ν → Bool) (t : Table key) (k : κ) : Bool := (t.get? k).any cond

/-- One conditional delete. -/
def deleteIf (cond : ν → Bool) (t : Table key) (k : κ) : Table key :=
  if t.hits cond k then t.erase k else t

/-- The deletes of a list of keys, in order, and the keys whose row was deleted. -/
def deleteEach (cond : ν → Bool) : List κ → Table key → Table key × List κ
  | [], t => (t, [])
  | k :: ks, t =>
    let (t', removed) := deleteEach cond ks (t.deleteIf cond k)
    (t', if t.hits cond k then k :: removed else removed)

theorem hits_iff : t.hits cond k = true ↔ ∃ v, t.get? k = some v ∧ cond v = true :=
  Option.any_eq_true _ _

theorem get?_deleteIf_of_ne (h : k ≠ k') : (t.deleteIf cond k).get? k' = t.get? k' := by
  unfold deleteIf
  split
  · rw [get?_erase, if_neg h]
  · rfl

theorem get?_deleteIf_self :
    (t.deleteIf cond k).get? k = if t.hits cond k = true then none else t.get? k := by
  unfold deleteIf
  split
  · rw [get?_erase, if_pos rfl]
  · rfl

theorem hits_deleteIf_of_ne (h : k ≠ k') : (t.deleteIf cond k).hits cond k' = t.hits cond k' := by
  unfold hits
  rw [get?_deleteIf_of_ne h]

theorem hits_deleteIf_self : (t.deleteIf cond k).hits cond k = false := by
  unfold hits
  rw [get?_deleteIf_self]
  split
  · rfl
  · rename_i h
    simpa [hits] using h

/-- A key keeps its row unless it was listed and its row met the condition. -/
theorem get?_deleteEach (ks : List κ) (t : Table key) (k : κ) :
    (deleteEach cond ks t).1.get? k =
      if k ∈ ks ∧ t.hits cond k = true then none else t.get? k := by
  induction ks generalizing t with
  | nil => simp [deleteEach]
  | cons j ks ih =>
    simp only [deleteEach]
    rw [ih]
    by_cases hj : j = k
    · subst hj
      simp [hits_deleteIf_self, get?_deleteIf_self]
    · have hk : k ≠ j := fun h => hj h.symm
      simp [hits_deleteIf_of_ne hj, get?_deleteIf_of_ne hj, hk]

/-- Of distinct keys, the reported ones are exactly those whose row met the condition. -/
theorem deleteEach_removed (cond : ν → Bool) (t : Table key) (hn : ks.Nodup) :
    (deleteEach cond ks t).2 = ks.filter (t.hits cond) := by
  induction ks generalizing t with
  | nil => rfl
  | cons j ks ih =>
    rw [List.nodup_cons] at hn
    have hrest : ks.filter ((t.deleteIf cond j).hits cond) = ks.filter (t.hits cond) := by
      refine List.filter_congr fun k hk => hits_deleteIf_of_ne ?_
      rintro rfl
      exact hn.1 hk
    simp only [deleteEach]
    rw [ih _ hn.2, hrest]
    by_cases hh : t.hits cond j = true
    · rw [if_pos hh, List.filter_cons_of_pos hh]
    · rw [if_neg hh, List.filter_cons_of_neg hh]

theorem deleteEach_fst (ks : List κ) (t : Table key) :
    (deleteEach cond ks t).1 = ks.foldl (deleteIf cond) t := by
  induction ks generalizing t with
  | nil => rfl
  | cons k ks ih => exact ih _

end MbTools.Table
