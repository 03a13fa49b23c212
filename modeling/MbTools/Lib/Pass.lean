import Mathlib.Data.List.Nodup

/-! # Passes over distinct keys

A pass folds over items with pairwise distinct keys, and the turn for an item
touches nothing but what is seen at its own key. What the pass leaves at a key
is then what the one turn for that key makes of what was there before.
-/

namespace MbTools.Pass

variable {σ α κ β : Type} {f : σ → α → σ} {key : α → κ} {s : σ} {l : List α}
  {k : κ}

theorem foldl_frame (obs : σ → κ → β)
    (hframe : ∀ s a k, key a ≠ k → obs (f s a) k = obs s k)
    (h : ∀ a ∈ l, key a ≠ k) : obs (l.foldl f s) k = obs s k := by
  induction l generalizing s with
  | nil => rfl
  | cons a l ih =>
    rw [List.foldl_cons, ih fun b hb => h b (List.mem_cons_of_mem a hb)]
    exact hframe s a k (h a List.mem_cons_self)

/-- The key of an item of the pass gets what the item's own turn makes of it. -/
theorem foldl_own (obs : σ → κ → β) (g : α → β → β)
    (hframe : ∀ s a k, key a ≠ k → obs (f s a) k = obs s k)
    (hown : ∀ s a, obs (f s a) (key a) = g a (obs s (key a))) (hn : (l.map key).Nodup) {a : α}
    (ha : a ∈ l) : obs (l.foldl f s) (key a) = g a (obs s (key a)) := by
  induction l generalizing s with
  | nil => cases ha
  | cons b l ih =>
    rw [List.map_cons, List.nodup_cons] at hn
    rw [List.foldl_cons]
    rcases List.mem_cons.mp ha with (rfl | ha)
    · have hrest : ∀ b ∈ l, key b ≠ key a := fun b hb he => hn.1 (List.mem_map.mpr ⟨b, hb, he⟩)
      rw [foldl_frame obs hframe hrest, hown]
    · have hne : key b ≠ key a := fun he => hn.1 (he ▸ List.mem_map_of_mem ha)
      rw [ih hn.2 ha, hframe s b (key a) hne]

theorem foldl_inv {P : σ → Prop} (hf : ∀ s a, a ∈ l → P s → P (f s a)) (h : P s) :
    P (l.foldl f s) := by
  induction l generalizing s with
  | nil => exact h
  | cons a l ih =>
    exact ih (fun s b hb => hf s b (List.mem_cons_of_mem a hb)) (hf s a List.mem_cons_self h)

end MbTools.Pass
