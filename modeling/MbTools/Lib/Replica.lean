import Mathlib.Order.Basic
import Mathlib.Data.Nat.Notation
import Mathlib.Order.Nat

/-! # Replicas of a log

An owner goes through states `own 0, own 1, …, own w`, one write at a time, and
each write touches one key. A replica has consumed the first `n` writes, and
may have seen more of some keys through snapshots. It follows the log when each
key is as the owner had it at some moment since write `n`; then, once it has
consumed the whole log, it is equal to the owner.
-/

namespace MbTools.Replica

variable {κ : Type} {own : ℕ → κ → Prop} {view view' : κ → Prop} {n w : ℕ} {u : κ}

/-- The replica has the key as the owner had it at some moment between writes `n` and `w`. -/
def FollowsAt (own : ℕ → κ → Prop) (view : κ → Prop) (n w : ℕ) (u : κ) : Prop :=
  ∃ k, n ≤ k ∧ k ≤ w ∧ (view u ↔ own k u)

theorem FollowsAt.of_moment {k : ℕ} (hn : n ≤ k) (hw : k ≤ w) (h : view u ↔ own k u) :
    FollowsAt own view n w u := ⟨k, hn, hw, h⟩

theorem FollowsAt.write {own' : ℕ → κ → Prop} {w' : ℕ} (h : FollowsAt own view n w u) (hw : w ≤ w')
    (hown : ∀ k ≤ w, (own' k u ↔ own k u)) : FollowsAt own' view n w' u := by
  obtain ⟨k, hn, hk, hv⟩ := h
  exact ⟨k, hn, hk.trans hw, hv.trans (hown k hk).symm⟩

theorem FollowsAt.skip (h : FollowsAt own view n w u) (hnw : n < w)
    (hown : own (n + 1) u ↔ own n u) (hview : view' u ↔ view u) :
    FollowsAt own view' (n + 1) w u := by
  obtain ⟨k, hn, hk, hv⟩ := h
  rcases Nat.eq_or_lt_of_le hn with (rfl | hlt)
  · exact ⟨n + 1, le_rfl, hnw, hview.trans (hv.trans hown.symm)⟩
  · exact ⟨k, hlt, hk, hview.trans hv⟩

theorem FollowsAt.consume (hnw : n < w) (hview : view' u ↔ own (n + 1) u) :
    FollowsAt own view' (n + 1) w u := ⟨n + 1, le_rfl, hnw, hview⟩

/-- The replica consumes a write that left the key as it was, and drops it. -/
theorem FollowsAt.drop (h : FollowsAt own view n w u) (hnw : n < w)
    (hown : own (n + 1) u ↔ own n u) (hview : (view' u ↔ view u) ∨ (view' u ↔ own (n + 1) u)) :
    FollowsAt own view' (n + 1) w u := by
  rcases hview with (hv | hv)
  · exact h.skip hnw hown hv
  · exact FollowsAt.consume hnw hv

theorem FollowsAt.converged (h : FollowsAt own view w w u) : view u ↔ own w u := by
  obtain ⟨k, hn, hk, hv⟩ := h
  obtain rfl : k = w := le_antisymm hk hn
  exact hv

end MbTools.Replica
