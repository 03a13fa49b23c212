import MbTools.Peering.PeerLink

/-! # The way back from unreachable

The reconnect event and the periodic loop start a resync only for a link whose
flag is set. Whatever marks the peer unreachable has to leave the flag set, or
some fetch in flight.
-/

namespace MbTools.PeerLink

open Peering

/-- The flag is set, so that the next reconnect or round of the loop fetches again; or a fetch is in
flight, and marks the peer reachable if it succeeds. -/
def Armed (l : PeerLink) : Prop := l.dropped = true ∨ ∃ f, l.fetch f ≠ none

def Recoverable (host : String) (l : PeerLink) : Prop :=
  rowReachable host l = some false → Armed l

/-- A fetch other than a resync's fails, any fetch raises, or the monitor's callback runs, only when
the flag is set, or another fetch is in flight, or it does not leave the peer's row unreachable. -/
def Rearmed (host : String) (l : PeerLink) : Action → Prop
  | .timeout f => f = .resync ∨ l.dropped = true ∨ (∃ g, g ≠ f ∧ l.fetch g ≠ none) ∨
      rowReachable host l = none
  | .refuse f => f = .resync ∨ l.dropped = true ∨ (∃ g, g ≠ f ∧ l.fetch g ≠ none) ∨
      rowReachable host l ≠ some false
  | .raised f _ _ => l.dropped = true ∨ (∃ g, g ≠ f ∧ l.fetch g ≠ none) ∨
      rowReachable host l ≠ some false
  | .lost => Armed l ∨ rowReachable host l = none
  | _ => True

instance (l : PeerLink) : Decidable (Armed l) := inferInstanceAs (Decidable (_ ∨ _))

instance (host : String) (l : PeerLink) : (a : Action) → Decidable (Rearmed host l a)
  | .timeout _ => inferInstanceAs (Decidable (_ ∨ _))
  | .refuse _ => inferInstanceAs (Decidable (_ ∨ _))
  | .raised .. => inferInstanceAs (Decidable (_ ∨ _))
  | .lost => inferInstanceAs (Decidable (_ ∨ _))
  | .disconnected | .reconnected | .resyncTick | .enterResync | .runResync | .runForceResync
  | .answer .. | .test _ | .reached _ | .event .. | .rescan _ => inferInstanceAs (Decidable True)

section Steps

variable {l l' : PeerLink} {f g : Fetcher} {x : Fetch} {host : String} {a : Action}

theorem armed_of_fetch (h : l.fetch f = some x) : Armed l := Or.inr ⟨f, by rw [h]; nofun⟩

theorem armed_moved (stage : Stage) : Armed (l.moved f x stage) :=
  armed_of_fetch (Function.update_self f _ l.fetch)

theorem armed_ask : Armed (l.ask f) := armed_of_fetch (Function.update_self f _ l.fetch)

theorem armed_start (s : Store) : Armed (start s) :=
  armed_of_fetch (f := .initial) (x := ⟨.asked, 0⟩) rfl

theorem exists_update_none_iff (fetch : Fetcher → Option Fetch) :
    (∃ g, Function.update fetch f none g ≠ none) ↔ ∃ g, g ≠ f ∧ fetch g ≠ none := by
  refine exists_congr fun g => ?_
  by_cases hg : g = f
  · subst hg
    simp
  · simp [hg]

theorem armed_failed_iff :
    Armed (l.failed f) ↔ f = .resync ∨ l.dropped = true ∨ ∃ g, g ≠ f ∧ l.fetch g ≠ none := by
  simp only [Armed, failed, exists_update_none_iff, Bool.or_eq_true, decide_eq_true_eq]
  tauto

theorem armed_ended_iff :
    Armed (l.ended f) ↔ l.dropped = true ∨ ∃ g, g ≠ f ∧ l.fetch g ≠ none := by
  simp only [Armed, ended, exists_update_none_iff]

theorem recoverable_of_armed (h : Armed l) : Recoverable host l := fun _ => h

/-- An unreachable row takes no part in a step that leaves the flag and the fetches alone. -/
theorem Recoverable.of_row (h : Recoverable host l) (hd : l'.dropped = l.dropped)
    (hf : l'.fetch = l.fetch)
    (hr : rowReachable host l' = rowReachable host l ∨ rowReachable host l' = none) :
    Recoverable host l' := by
  intro hl
  rcases hr with (hr | hr)
  · have ha := h (hr ▸ hl)
    unfold Armed at ha ⊢
    rwa [hd, hf]
  · rw [hr] at hl
    cases hl

theorem Recoverable.startResync (h : Recoverable host l) : Recoverable host l.startResync := by
  unfold PeerLink.startResync
  split
  · exact h.of_row rfl rfl (Or.inl rfl)
  · exact h

theorem recoverable_marked_iff (b : PeerLink) (hb : rowReachable host b = (rowReachable host l).map
    fun _ => false) : Recoverable host b ↔ Armed b ∨ rowReachable host l = none := by
  unfold Recoverable
  rw [hb]
  cases rowReachable host l with
  | none => simp
  | some r => simp

/-- A step keeps a way back exactly when it meets the condition. -/
theorem recoverable_step_iff (h : Recoverable host l) (hs : step host l a = some l') :
    Recoverable host l' ↔ Rearmed host l a := by
  cases a with
  | disconnected =>
    obtain ⟨-, hl⟩ := Option.ite_none_left_eq_some.mp hs
    cases hl
    exact iff_of_true (recoverable_of_armed (Or.inl rfl)) trivial
  | lost =>
    obtain ⟨-, hl⟩ := Option.ite_none_right_eq_some.mp hs
    cases hl
    exact recoverable_marked_iff _ (rowReachable_mark false)
  | reconnected =>
    obtain ⟨-, hl⟩ := Option.ite_none_left_eq_some.mp hs
    cases hl
    exact iff_of_true h.startResync trivial
  | resyncTick =>
    cases hs
    exact iff_of_true h.startResync trivial
  | enterResync =>
    obtain ⟨-, hl⟩ := Option.ite_none_left_eq_some.mp hs
    cases hl
    exact iff_of_true (h.of_row rfl rfl (Or.inl rfl)) trivial
  | runResync =>
    obtain ⟨-, hl⟩ := Option.ite_none_left_eq_some.mp hs
    refine iff_of_true ?_ trivial
    split at hl
    · cases hl
      refine recoverable_of_armed (Or.inr ⟨.resync, ?_⟩)
      change Function.update l.fetch .resync (some ⟨.asked, l.drops⟩) .resync ≠ none
      rw [Function.update_self]
      nofun
    · cases hl
      exact h.of_row rfl rfl (Or.inl rfl)
  | runForceResync =>
    cases hs
    refine iff_of_true ?_ trivial
    split
    · exact recoverable_of_armed armed_ask
    · exact h
  | answer f now reply =>
    obtain ⟨x, -, rfl⟩ := Option.map_eq_some_iff.mp hs
    exact iff_of_true
      (recoverable_of_armed (armed_of_fetch (Function.update_self f _ l.fetch))) trivial
  | refuse f =>
    obtain ⟨x, -, rfl⟩ := Option.map_eq_some_iff.mp hs
    change (rowReachable host l = some false → Armed (l.failed f)) ↔
      (f = .resync ∨ l.dropped = true ∨ (∃ g, g ≠ f ∧ l.fetch g ≠ none) ∨
        rowReachable host l ≠ some false)
    rw [armed_failed_iff]
    by_cases hrow : rowReachable host l = some false
    · simp [hrow]
    · exact iff_of_true (fun h => absurd h hrow) (Or.inr (Or.inr (Or.inr hrow)))
  | raised f now part =>
    obtain ⟨x, -, rfl⟩ := Option.map_eq_some_iff.mp hs
    change (rowReachable host { l.ended f with store := applyPart l.store now host part } =
      some false → Armed (l.ended f)) ↔
      (l.dropped = true ∨ (∃ g, g ≠ f ∧ l.fetch g ≠ none) ∨ rowReachable host l ≠ some false)
    rw [rowReachable_ended, armed_ended_iff]
    by_cases hrow : rowReachable host l = some false
    · simp [hrow]
    · exact iff_of_true (fun h => absurd h hrow) (Or.inr (Or.inr hrow))
  | timeout f =>
    obtain ⟨x, -, rfl⟩ := Option.map_eq_some_iff.mp hs
    rw [recoverable_marked_iff ((l.mark host false).failed f) (rowReachable_mark (l := l) false),
      armed_failed_iff, or_assoc, or_assoc]
    exact Iff.rfl
  | test f =>
    obtain ⟨x, -, rfl⟩ := Option.map_eq_some_iff.mp hs
    refine iff_of_true ?_ trivial
    split
    · rename_i hd
      exact recoverable_of_armed (armed_failed_iff.mpr (Or.inr (Or.inl hd)))
    · exact recoverable_of_armed (armed_moved .passed)
  | reached f =>
    obtain ⟨x, -, rfl⟩ := Option.map_eq_some_iff.mp hs
    refine iff_of_true (fun hr => ?_) trivial
    have hrow : rowReachable host ((l.mark host true).ended f) =
        (rowReachable host l).map fun _ => true := rowReachable_mark true
    rw [hrow] at hr
    obtain ⟨b, -, hb⟩ := Option.map_eq_some_iff.mp hr
    cases hb
  | event now e =>
    cases hs
    exact iff_of_true (h.of_row rfl rfl (Or.inl (rowReachable_applyInput (.event now e)))) trivial
  | rescan locks =>
    cases hs
    exact iff_of_true (h.of_row rfl rfl (rowReachable_rescan locks)) trivial

end Steps

section Runs

/-- A link is on its way back from unreachable throughout a run exactly when every step of the run
meets the condition. -/
theorem recovery_armed_iff (host : String) (s : Store) (as : List Action) (l : PeerLink)
    (hr : Runs.exec (step host) (start s) as = some l) :
    (∀ bs k, bs <+: as → Runs.exec (step host) (start s) bs = some k →
      rowReachable host k = some false → Armed k) ↔
      Runs.Meets (step host) (Rearmed host) (start s) as := by
  have h : Recoverable host (start s) := recoverable_of_armed (armed_start s)
  have hiff := Runs.meets_iff_inv
    (fun k _ _ (hk : Recoverable host k) hs => recoverable_step_iff hk hs) h hr
  exact hiff.symm

/-- A peer that is not up yet when it is first asked. -/
theorem unanswered_not_armed :
    ¬ ∀ (host : String) (s : Store) (as : List Action) (l : PeerLink),
      Runs.exec (step host) (start s) as = some l → rowReachable host l = some false →
        Armed l := by
  intro h
  have hrun : (Runs.exec (step "loki") (start discovered) [.timeout .initial]).any (fun l =>
      rowReachable "loki" l = some false ∧ ¬ Armed l) = true := by decide
  obtain ⟨l, hl, hcond⟩ := (Option.any_eq_true _ _).mp hrun
  obtain ⟨hrow, hn⟩ := of_decide_eq_true hcond
  exact hn (h "loki" discovered _ l hl hrow)

/-- A link that drops after its first snapshot and a refresh that raised, and whose resync times
out. -/
def dropAndRetry : List Action :=
  [.answer .initial 2 ⟨[], []⟩, .test .initial, .reached .initial, .runForceResync,
    .raised .force 3 (.devices []), .disconnected, .lost, .reconnected, .enterResync, .runResync,
    .timeout .resync]

theorem recovery_armed_retry : ∃ l,
    Runs.exec (step "loki") (start discovered) dropAndRetry = some l ∧
      ∀ bs k, bs <+: dropAndRetry → Runs.exec (step "loki") (start discovered) bs = some k →
        rowReachable "loki" k = some false → Armed k := by
  have hm : Runs.Meets (step "loki") (Rearmed "loki") (start discovered) dropAndRetry := by decide
  exact ⟨_, rfl, (recovery_armed_iff "loki" discovered dropAndRetry _ rfl).mpr hm⟩

end Runs

end MbTools.PeerLink
