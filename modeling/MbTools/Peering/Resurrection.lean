import MbTools.Peering.PeerLink

/-! # A dropped peer stays down

After a disconnect event only a fetch asked later may mark the peer reachable.
The flag keeps older fetches from it, but for two windows: a resync clears the
flag before its own fetch is answered, and the callback runs after the test.
-/

namespace MbTools.PeerLink

open Peering

/-- A fetch asked before the last disconnect event finds the flag cleared only once a fetch asked
after it has been answered, and no disconnect event falls between a fetch's test of the flag and its
callback. -/
def Guarded (l : PeerLink) : Action → Prop
  | .test f => ∀ x ∈ l.fetch f, l.dropped = true ∨ l.drops ≤ x.since ∨ l.drops ≤ l.refreshed
  | .disconnected => ∀ f, ∀ x ∈ l.fetch f, x.stage ≠ .passed
  | _ => True

instance (l : PeerLink) : (a : Action) → Decidable (Guarded l a)
  | .test f => inferInstanceAs (Decidable (∀ x ∈ l.fetch f, _))
  | .disconnected => inferInstanceAs (Decidable (∀ f, ∀ x ∈ l.fetch f, x.stage ≠ .passed))
  | .timeout _ | .refuse _ | .raised .. | .lost | .reconnected | .resyncTick | .enterResync
  | .runResync | .runForceResync | .answer .. | .reached _ | .event .. | .rescan _ =>
    inferInstanceAs (Decidable True)

/-- A fetch has been answered once it is past its request, and when its callback is due some fetch
was answered that is younger than every disconnect event. -/
structure FetchOk (l : PeerLink) (x : Fetch) : Prop where
  since_le : x.since ≤ l.drops
  answered : x.stage ≠ .asked → x.since ≤ l.refreshed
  passed : x.stage = .passed → l.drops ≤ l.refreshed

structure Down (host : String) (l : PeerLink) : Prop where
  processed_le : l.processed ≤ l.drops
  fetch : ∀ f x, l.fetch f = some x → FetchOk l x
  row : l.refreshed < l.processed → rowReachable host l ≠ some true

section Steps

variable {l l' : PeerLink} {f g : Fetcher} {x y : Fetch} {host : String} {a : Action}

theorem down_start (host : String) (s : Store) : Down host (start s) where
  processed_le := le_rfl
  fetch f x hx := by
    cases f with
    | initial =>
      cases hx
      exact ⟨le_rfl, fun h => absurd rfl h, nofun⟩
    | resync => cases hx
    | force => cases hx
  row h := absurd h (lt_irrefl 0)

/-- What the answers of fetches do to the condition on another fetch. -/
theorem FetchOk.mono (h : FetchOk l x) (hd : l'.drops = l.drops) (hr : l.refreshed ≤ l'.refreshed) :
    FetchOk l' x where
  since_le := hd ▸ h.since_le
  answered hx := (h.answered hx).trans hr
  passed hx := hd ▸ (h.passed hx).trans hr

/-- A step that leaves the counters alone, starts no fetch, and marks nothing reachable. -/
theorem Down.of_eq (h : Down host l) (hd : l'.drops = l.drops) (hp : l'.processed = l.processed)
    (hr : l'.refreshed = l.refreshed)
    (hf : ∀ f x, l'.fetch f = some x → l.fetch f = some x ∨ FetchOk l x)
    (hrow : rowReachable host l' = some true → rowReachable host l = some true) :
    Down host l' where
  processed_le := by rw [hd, hp]; exact h.processed_le
  fetch f x hx := by
    have hx' : FetchOk l x := (hf f x hx).elim (h.fetch f x) id
    exact hx'.mono hd hr.ge
  row hlt hrow' := h.row (by rwa [hr, hp] at hlt) (hrow hrow')

theorem fetch_update {v : Option Fetch} (hg : Function.update l.fetch f v g = some y) :
    (g = f ∧ v = some y) ∨ l.fetch g = some y := by
  by_cases h : g = f
  · subst h
    rw [Function.update_self] at hg
    exact Or.inl ⟨rfl, hg⟩
  · rw [Function.update_of_ne h] at hg
    exact Or.inr hg

theorem fetch_failed (h : (l.failed f).fetch g = some y) : l.fetch g = some y :=
  (fetch_update h).resolve_left fun h => nomatch h.2

theorem row_marked_false (h : rowReachable host (l.mark host false) = some true) : False := by
  rw [rowReachable_mark] at h
  obtain ⟨b, -, hb⟩ := Option.map_eq_some_iff.mp h
  cases hb

theorem fetchOk_asked : FetchOk l ⟨.asked, l.drops⟩ :=
  ⟨le_rfl, fun h => absurd rfl h, nofun⟩

theorem Down.startResync (h : Down host l) : Down host l.startResync := by
  unfold PeerLink.startResync
  split
  · exact h.of_eq rfl rfl rfl (fun _ _ => Or.inl) id
  · exact h

theorem Down.ask (h : Down host l) (f : Fetcher) : Down host (l.ask f) := by
  refine h.of_eq rfl rfl rfl (fun g y hg => ?_) id
  rcases fetch_update hg with (⟨-, hy⟩ | hy)
  · cases hy
    exact Or.inr fetchOk_asked
  · exact Or.inl hy

theorem Down.failed (h : Down host l) (f : Fetcher) : Down host (l.failed f) :=
  h.of_eq rfl rfl rfl (fun _ _ hg => Or.inl (fetch_failed hg)) id

theorem Down.raised (h : Down host l) (f : Fetcher) (now : ℕ) (part : Part) :
    Down host { l.ended f with store := applyPart l.store now host part } := by
  refine h.of_eq rfl rfl rfl (fun g y hg => ?_) fun hrow => rowReachable_ended f now part ▸ hrow
  exact Or.inl ((fetch_update hg).resolve_left fun h => nomatch h.2)

theorem Down.markFalse (h : Down host l) : Down host (l.mark host false) :=
  h.of_eq rfl rfl rfl (fun _ _ => Or.inl) fun hrow => (row_marked_false hrow).elim

theorem Down.answer (h : Down host l) (hx : l.fetch f = some x) (now : ℕ) (reply : SnapshotReply) :
    Down host { l.moved f x .answered with
      store := applyInput host l.store (.snapshot now reply)
      refreshed := max l.refreshed x.since } where
  processed_le := h.processed_le
  fetch g y hy := by
    rcases fetch_update hy with (⟨-, hy⟩ | hy)
    · cases hy
      exact ⟨(h.fetch f x hx).since_le, fun _ => le_max_right _ _, nofun⟩
    · exact (h.fetch g y hy).mono rfl (le_max_left _ _)
  row hlt hrow := by
    rw [rowReachable] at hrow
    dsimp only at hrow
    rw [getPeer_applyInput] at hrow
    exact h.row ((le_max_left _ _).trans_lt hlt) hrow

/-- A test that finds the flag clear, of a fetch that may go on. -/
theorem Down.pass (h : Down host l) (hx : l.fetch f = some x) (hs : x.stage = .answered)
    (hok : l.drops ≤ x.since ∨ l.drops ≤ l.refreshed) : Down host (l.moved f x .passed) := by
  have hxok := h.fetch f x hx
  have hans : x.since ≤ l.refreshed := hxok.answered (by rw [hs]; nofun)
  refine h.of_eq rfl rfl rfl (fun g y hg => ?_) id
  rcases fetch_update hg with (⟨-, hy⟩ | hy)
  · cases hy
    exact Or.inr ⟨hxok.since_le, fun _ => hans, fun _ => hok.elim (·.trans hans) id⟩
  · exact Or.inl hy

/-- The callback runs when some fetch younger than every disconnect event was answered. -/
theorem Down.reached (h : Down host l) (hx : l.fetch f = some x) (hs : x.stage = .passed) :
    Down host ((l.mark host true).ended f) where
  processed_le := h.processed_le
  fetch g y hy := by
    have hy' : l.fetch g = some y := (fetch_update hy).resolve_left fun h => nomatch h.2
    exact (h.fetch g y hy').mono rfl le_rfl
  row hlt _ := by
    have hd := (h.fetch f x hx).passed hs
    exact absurd hlt (h.processed_le.trans hd).not_gt

theorem Down.step (h : Down host l) (hok : Guarded l a) (hs : step host l a = some l') :
    Down host l' := by
  cases a with
  | disconnected =>
    obtain ⟨-, hl⟩ := Option.ite_none_left_eq_some.mp hs
    cases hl
    refine ⟨h.processed_le.trans (Nat.le_succ _), fun f x hx => ?_, h.row⟩
    have hx' := h.fetch f x hx
    exact ⟨hx'.since_le.trans (Nat.le_succ _), hx'.answered, fun hp => absurd hp (hok f x hx)⟩
  | lost =>
    obtain ⟨-, hl⟩ := Option.ite_none_right_eq_some.mp hs
    cases hl
    exact ⟨le_rfl, fun f x hx => (h.fetch f x hx).mono rfl le_rfl, fun _ hrow =>
      row_marked_false hrow⟩
  | reconnected =>
    obtain ⟨-, hl⟩ := Option.ite_none_left_eq_some.mp hs
    cases hl
    exact h.startResync
  | resyncTick =>
    cases hs
    exact h.startResync
  | enterResync =>
    obtain ⟨-, hl⟩ := Option.ite_none_left_eq_some.mp hs
    cases hl
    exact h.of_eq rfl rfl rfl (fun _ _ => Or.inl) id
  | runResync =>
    obtain ⟨-, hl⟩ := Option.ite_none_left_eq_some.mp hs
    split at hl
    · cases hl
      exact (h.ask .resync).of_eq rfl rfl rfl (fun _ _ => Or.inl) id
    · cases hl
      exact h.of_eq rfl rfl rfl (fun _ _ => Or.inl) id
  | runForceResync =>
    cases hs
    split
    · exact h.ask .force
    · exact h
  | answer f now reply =>
    obtain ⟨x, hx, rfl⟩ := Option.map_eq_some_iff.mp hs
    exact h.answer (fetchAt_eq_some_iff.mp hx).1 now reply
  | refuse f =>
    obtain ⟨x, -, rfl⟩ := Option.map_eq_some_iff.mp hs
    exact h.failed f
  | raised f now part =>
    obtain ⟨x, -, rfl⟩ := Option.map_eq_some_iff.mp hs
    exact h.raised f now part
  | timeout f =>
    obtain ⟨x, -, rfl⟩ := Option.map_eq_some_iff.mp hs
    exact h.markFalse.failed f
  | test f =>
    obtain ⟨x, hx, rfl⟩ := Option.map_eq_some_iff.mp hs
    obtain ⟨hx, hstage⟩ := fetchAt_eq_some_iff.mp hx
    split
    · exact h.failed f
    · rename_i hd
      exact h.pass hx hstage ((hok x hx).resolve_left hd)
  | reached f =>
    obtain ⟨x, hx, rfl⟩ := Option.map_eq_some_iff.mp hs
    obtain ⟨hx, hstage⟩ := fetchAt_eq_some_iff.mp hx
    exact h.reached hx hstage
  | event now e =>
    cases hs
    exact h.of_eq rfl rfl rfl (fun _ _ => Or.inl) fun hrow =>
      rowReachable_applyInput (.event now e) ▸ hrow
  | rescan locks =>
    cases hs
    refine h.of_eq rfl rfl rfl (fun _ _ => Or.inl) fun hrow => ?_
    rcases @rowReachable_rescan l host locks with (he | he)
    · exact he ▸ hrow
    · rw [he] at hrow
      cases hrow

end Steps

section Runs

/-- In a run in which no old fetch finds the flag cleared by an unanswered resync, and no disconnect
event falls between a test and its callback: once a disconnect event has been processed, the peer's
row is not reachable before a fetch asked after the event is answered. -/
theorem dropped_stays_down (host : String) (s : Store) (as : List Action) (l : PeerLink)
    (hm : Runs.Meets (step host) Guarded (start s) as)
    (hr : Runs.exec (step host) (start s) as = some l) (n : ℕ) (hn : n ≤ l.processed)
    (hlt : l.refreshed < n) : rowReachable host l ≠ some true := by
  have h : Down host l :=
    Runs.inv_of_meets (fun _ _ _ h hok hs => Down.step h hok hs) (down_start host s) hm hr
  exact h.row (hlt.trans_le hn)

/-- A peer vanishes while its first snapshot is on the way. -/
def vanishing : List Action :=
  [.disconnected, .lost, .answer .initial 2 ⟨[], []⟩, .test .initial]

theorem dropped_stays_down_vanishing : ∃ l,
    Runs.exec (step "loki") (start discovered) vanishing = some l ∧
      rowReachable "loki" l ≠ some true :=
  ⟨_, rfl, dropped_stays_down "loki" discovered vanishing _ (by decide) rfl 1 (by decide)
    (by decide)⟩

/-- The link flaps while the first snapshot is on the way: the resync has cleared the flag when the
old reply is in. -/
def flapping : List Action :=
  [.disconnected, .lost, .reconnected, .enterResync, .runResync, .answer .initial 2 ⟨[], []⟩,
    .test .initial, .reached .initial]

theorem old_reply_resurrects :
    ¬ ∀ (host : String) (s : Store) (as : List Action) (l : PeerLink),
      Runs.exec (step host) (start s) as = some l → ∀ n ≤ l.processed, l.refreshed < n →
        rowReachable host l ≠ some true := by
  intro h
  have hrun : (Runs.exec (step "loki") (start discovered) flapping).any (fun l =>
      1 ≤ l.processed ∧ l.refreshed < 1 ∧ rowReachable "loki" l = some true) = true := by decide
  obtain ⟨l, hl, hcond⟩ := (Option.any_eq_true _ _).mp hrun
  obtain ⟨hn, hlt, hrow⟩ := of_decide_eq_true hcond
  exact h "loki" discovered flapping l hl 1 hn hlt hrow

end Runs

end MbTools.PeerLink
