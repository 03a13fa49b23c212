import MbTools.Lib.Table

/-! # Grouping

A dictionary that is filled from a list, each item added to what its key has so
far, holds at a key what the items of that key come to, in their order.
-/

namespace MbTools.Dict

variable {α β κ ν : Type} [DecidableEq κ] {key : α → κ} {zero : β} {add : β → α → β} {k : κ}

/-- `d[key(a)] = add(d.setdefault(key(a), zero), a)`, item by item. -/
def gather (key : α → κ) (zero : β) (add : β → α → β) (l : List α) : Dict κ β :=
  l.foldl (fun d a => d.insert (key a) (add ((lookup d (key a)).getD zero) a)) Table.empty

/-- `{k: v for k, v in d.items() if p(k, v)}`. -/
def filterItems (d : Dict κ ν) (p : κ → ν → Bool) : Dict κ ν :=
  ⟨d.rows.filter fun r => p r.1 r.2, d.nodup.sublist (List.filter_sublist.map _)⟩

theorem lookup_eq_some_iff {d : Dict κ ν} {v : ν} : lookup d k = some v ↔ (k, v) ∈ d.rows := by
  rw [lookup, Option.map_eq_some_iff]
  simp only [Table.get?_eq_some_iff]
  constructor
  · rintro ⟨r, ⟨hr, rfl⟩, rfl⟩
    exact hr
  · intro h
    exact ⟨(k, v), ⟨h, rfl⟩, rfl⟩

theorem lookup_filterItems_eq_some_iff {d : Dict κ ν} {p : κ → ν → Bool} {v : ν} :
    lookup (d.filterItems p) k = some v ↔ lookup d k = some v ∧ p k v = true := by
  rw [lookup_eq_some_iff, lookup_eq_some_iff]
  exact List.mem_filter

theorem lookup_foldl_insert (l : List α) (d : Dict κ β) (k : κ) :
    lookup (l.foldl (fun d a => d.insert (key a) (add ((lookup d (key a)).getD zero) a)) d) k =
      if l.filter (key · = k) = [] then lookup d k
      else some ((l.filter (key · = k)).foldl add ((lookup d k).getD zero)) := by
  induction l generalizing d with
  | nil => rfl
  | cons a l ih =>
    rw [List.foldl_cons, ih, lookup_insert]
    by_cases h : key a = k
    · subst h
      rw [List.filter_cons_of_pos (by simp), if_pos rfl, if_neg (List.cons_ne_nil _ _)]
      split
      · rename_i hl
        rw [hl]
        rfl
      · rfl
    · rw [List.filter_cons_of_neg (by simpa using h), if_neg h]

theorem lookup_gather (l : List α) (k : κ) : lookup (gather key zero add l) k =
    if l.filter (key · = k) = [] then none else some ((l.filter (key · = k)).foldl add zero) :=
  lookup_foldl_insert l Table.empty k

/-- A key is there when it has items, with what they come to. -/
theorem lookup_gather_eq_some_iff {l : List α} {v : β} : lookup (gather key zero add l) k = some v ↔
    l.filter (key · = k) ≠ [] ∧ (l.filter (key · = k)).foldl add zero = v := by
  rw [lookup_gather]
  split
  · rename_i h
    exact iff_of_false nofun fun hn => hn.1 h
  · rename_i h
    rw [Option.some.injEq, and_iff_right h]

end MbTools.Dict
