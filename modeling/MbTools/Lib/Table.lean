import Mathlib.Data.List.Nodup
import Mathlib.Data.List.Basic

/-! # Keyed tables

A table holds rows, at most one for each key. It is the common shape of a SQL
table with a primary key and of a dictionary; every operation keeps the keys
distinct, so a table never has to be proved well formed after it is built.
-/

namespace MbTools

/-- Rows with pairwise distinct keys, in insertion order. -/
structure Table {κ ν : Type} (key : ν → κ) where
  rows : List ν
  nodup : (rows.map key).Nodup
  deriving DecidableEq, Repr

namespace Table

variable {κ ν : Type} [DecidableEq κ] {key : ν → κ} {t : Table key} {k k' : κ} {v v' : ν}

def empty : Table key := ⟨[], List.nodup_nil⟩

def get? (t : Table key) (k : κ) : Option ν := t.rows.find? (fun v => key v = k)

def keys (t : Table key) : List κ := t.rows.map key

private theorem map_key_replace (l : List ν) (v : ν) :
    (l.map fun r => if key r = key v then v else r).map key = l.map key := by
  rw [List.map_map]
  refine List.map_congr_left fun r _ => ?_
  simp only [Function.comp_apply]
  split <;> simp_all

/-- Write one row: over the row with its key if there is one, else at the end. -/
def put (t : Table key) (v : ν) : Table key :=
  if h : key v ∈ t.rows.map key then
    ⟨t.rows.map fun r => if key r = key v then v else r, by
      rw [map_key_replace]; exact t.nodup⟩
  else
    ⟨t.rows ++ [v], by
      rw [List.map_append, List.nodup_append]
      refine ⟨t.nodup, List.nodup_singleton _, ?_⟩
      rintro a ha b hb rfl
      rw [List.map_singleton, List.mem_singleton] at hb
      exact h (hb ▸ ha)⟩

def erase (t : Table key) (k : κ) : Table key :=
  ⟨t.rows.filter fun v => key v ≠ k, t.nodup.sublist (List.filter_sublist.map key)⟩

theorem get?_eq_some_iff : t.get? k = some v ↔ v ∈ t.rows ∧ key v = k := by
  constructor
  · intro h
    exact ⟨List.mem_of_find?_eq_some h, by simpa using List.find?_some h⟩
  · rintro ⟨hv, rfl⟩
    obtain ⟨w, hw⟩ : ∃ w, t.get? (key v) = some w := by
      rw [get?, ← Option.isSome_iff_exists, List.find?_isSome]
      exact ⟨v, hv, by simp⟩
    have hk : key w = key v := by simpa using List.find?_some hw
    rw [hw, List.inj_on_of_nodup_map t.nodup (List.mem_of_find?_eq_some hw) hv hk]

theorem key_of_get? (h : t.get? k = some v) : key v = k := (get?_eq_some_iff.mp h).2

theorem mem_rows_iff : v ∈ t.rows ↔ t.get? (key v) = some v := by
  simp [get?_eq_some_iff]

theorem mem_keys_iff : k ∈ t.keys ↔ ∃ v, t.get? k = some v := by
  simp [keys, get?_eq_some_iff]

theorem get?_put (t : Table key) (v : ν) (k : κ) :
    (t.put v).get? k = if key v = k then some v else t.get? k := by
  have hmem : ∀ w, w ∈ (t.put v).rows ↔ w = v ∨ (w ∈ t.rows ∧ key w ≠ key v) := by
    intro w
    unfold put
    split
    · rename_i h
      simp only [List.mem_map]
      constructor
      · rintro ⟨r, hr, rfl⟩
        by_cases hk : key r = key v
        · simp [hk]
        · simp [hk, hr]
      · rintro (rfl | ⟨hw, hk⟩)
        · obtain ⟨r, hr, hk⟩ := List.mem_map.mp h
          exact ⟨r, hr, by simp [hk]⟩
        · exact ⟨w, hw, by simp [hk]⟩
    · rename_i h
      simp only [List.mem_append, List.mem_singleton]
      constructor
      · rintro (hw | rfl)
        · exact Or.inr ⟨hw, fun hk => h (hk ▸ List.mem_map_of_mem hw)⟩
        · exact Or.inl rfl
      · rintro (rfl | ⟨hw, -⟩)
        · exact Or.inr rfl
        · exact Or.inl hw
  split
  · rename_i h
    rw [get?_eq_some_iff, hmem]
    exact ⟨Or.inl rfl, h⟩
  · rename_i h
    ext w
    rw [get?_eq_some_iff, get?_eq_some_iff, hmem]
    constructor
    · rintro ⟨rfl | ⟨hw, -⟩, hk⟩
      · exact absurd hk h
      · exact ⟨hw, hk⟩
    · rintro ⟨hw, hk⟩
      exact ⟨Or.inr ⟨hw, fun he => h (he ▸ hk)⟩, hk⟩

theorem get?_put_self (t : Table key) (v : ν) : (t.put v).get? (key v) = some v := by
  rw [get?_put, if_pos rfl]

theorem get?_put_of_ne (h : key v ≠ k) : (t.put v).get? k = t.get? k := by
  rw [get?_put, if_neg h]

theorem get?_erase (t : Table key) (k k' : κ) :
    (t.erase k).get? k' = if k = k' then none else t.get? k' := by
  ext w
  split
  · rename_i h
    simp [get?_eq_some_iff, erase, ← h]
  · rename_i h
    simp only [get?_eq_some_iff, erase, List.mem_filter, decide_eq_true_eq]
    exact ⟨fun ⟨⟨hw, _⟩, hk⟩ => ⟨hw, hk⟩, fun ⟨hw, hk⟩ => ⟨⟨hw, fun he => h (he ▸ hk)⟩, hk⟩⟩

end Table

/-- A dictionary from `κ` to `ν`. -/
abbrev Dict (κ ν : Type) := Table (Prod.fst : κ × ν → κ)

namespace Dict

variable {κ ν : Type} [DecidableEq κ] {d : Dict κ ν} {k k' : κ} {v : ν}

def lookup (d : Dict κ ν) (k : κ) : Option ν := (d.get? k).map Prod.snd

def insert (d : Dict κ ν) (k : κ) (v : ν) : Dict κ ν := d.put (k, v)

@[simp] theorem lookup_empty : lookup (Table.empty : Dict κ ν) k = none := rfl

theorem lookup_insert (d : Dict κ ν) (k : κ) (v : ν) (k' : κ) :
    lookup (d.insert k v) k' = if k = k' then some v else lookup d k' := by
  rw [lookup, insert, Table.get?_put]
  split <;> rfl

@[simp] theorem lookup_insert_self : lookup (d.insert k v) k = some v := by
  rw [lookup_insert, if_pos rfl]

theorem lookup_insert_of_ne (h : k ≠ k') : lookup (d.insert k v) k' = lookup d k' := by
  rw [lookup_insert, if_neg h]

theorem lookup_erase (d : Dict κ ν) (k k' : κ) :
    lookup (Table.erase d k) k' = if k = k' then none else lookup d k' := by
  rw [lookup, Table.get?_erase]
  split <;> rfl

@[simp] theorem lookup_erase_self : lookup (Table.erase d k) k = none := by
  rw [lookup_erase, if_pos rfl]

theorem lookup_erase_of_ne (h : k ≠ k') : lookup (Table.erase d k) k' = lookup d k' := by
  rw [lookup_erase, if_neg h]

/-- What is found after an insertion is new or was there before. -/
theorem lookup_insert_cases {w : ν} (h : lookup (d.insert k v) k' = some w) :
    (k = k' ∧ v = w) ∨ lookup d k' = some w := by
  rw [lookup_insert] at h
  split at h
  · exact Or.inl ⟨‹_›, Option.some.inj h⟩
  · exact Or.inr h

theorem lookup_erase_eq_some (h : lookup (Table.erase d k) k' = some v) :
    k ≠ k' ∧ lookup d k' = some v := by
  rw [lookup_erase] at h
  split at h
  · cases h
  · exact ⟨‹_›, h⟩

def filterKeys (d : Dict κ ν) (p : κ → Bool) : Dict κ ν :=
  ⟨d.rows.filter fun r => p r.1, d.nodup.sublist (List.filter_sublist.map _)⟩

theorem lookup_filterKeys (d : Dict κ ν) (p : κ → Bool) (k : κ) :
    lookup (d.filterKeys p) k = if p k = true then lookup d k else none := by
  ext v
  rw [lookup, Option.map_eq_some_iff]
  simp only [Table.get?_eq_some_iff, filterKeys, List.mem_filter]
  split
  · rename_i hp
    rw [lookup, Option.map_eq_some_iff]
    simp only [Table.get?_eq_some_iff]
    constructor
    · rintro ⟨r, ⟨⟨hr, -⟩, hk⟩, hv⟩
      exact ⟨r, ⟨hr, hk⟩, hv⟩
    · rintro ⟨r, ⟨hr, rfl⟩, hv⟩
      exact ⟨r, ⟨⟨hr, hp⟩, rfl⟩, hv⟩
  · rename_i hp
    constructor
    · rintro ⟨r, ⟨⟨-, hpr⟩, rfl⟩, -⟩
      exact absurd hpr hp
    · rintro ⟨⟩

theorem mem_rows_iff_lookup : (k, v) ∈ d.rows ↔ lookup d k = some v := by
  rw [Table.mem_rows_iff, lookup, Option.map_eq_some_iff]
  constructor
  · intro h
    exact ⟨(k, v), h, rfl⟩
  · rintro ⟨⟨k', v'⟩, h, rfl⟩
    have hk : k' = k := Table.key_of_get? h
    rwa [hk] at h

end Dict

end MbTools
