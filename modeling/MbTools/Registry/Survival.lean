import MbTools.Registry.Arrival
import MbTools.Registry.Blocks

/-! # Does the cycle survive?

A cycle raises exactly when it gives up on a uid whose row is gone. Every uid
that is locked or awaits a flash has a row, and only a rescan takes it away.
-/

namespace MbTools.Blocks

open Store DeviceRecord Daemon
open Arrival (GivesUp lockedBlock_isOk_iff)

/-- The cycle returns, and no absent uid whose flash deadline has passed is still awaited. -/
def Survives (d : Daemon) (c : Cycle) : Prop :=
  (d.runOnce c).error = none ∧ ∀ u, u ∉ c.scan.keys → ∀ deadline,
    (d.runOnce c).daemon.flashPending.lookup u = some deadline → c.now < deadline

/-- Every uid that is locked or awaits a flash has a row. -/
def HasRows (d : Daemon) : Prop :=
  ∀ u, (d.locks.status u).isSome ∨ (d.flashPending.lookup u).isSome → (d.store.get u).isSome

/-- No rescan takes the row of a uid that awaits a flash. -/
def KeepsPending (w : Service) : Action → Prop
  | .op .rescan => ∀ u, (w.daemon.flashPending.lookup u).isSome →
      ¬ Api.Removed w.daemon.store w.daemon.locks u
  | _ => True

section Cycle

variable {d d' : Daemon} {c : Cycle} {u uid : String} {w w' : Service} {a : Action}

theorem isSome_diff (h : (d.store.get u).isSome) : ((d.diff c).1.store.get u).isSome := by
  rw [diff_get, rowAfterDiff]
  split
  · split
    · exact h
    · rfl
  · split
    · rw [Option.isSome_map]
      exact h
    · exact h

theorem isSome_lockedBlock (h : (d.store.get u).isSome) :
    ((d.lockedBlock c).1.store.get u).isSome := by
  unfold lockedBlock
  rcases giveUpLoop_cases (d.diff c).1.flashPending.rows (d.diff c).1 [] u with
    (hs | ⟨-, r, q, -, hq, -⟩)
  · rw [hs]
    exact isSome_diff h
  · rw [hq]
    rfl

theorem maybeProbe_isOk (h : (d.store.get uid).isSome) :
    ∃ d' records, d.maybeProbe c uid = .ok (d', records) := by
  obtain ⟨r, hr⟩ := Option.isSome_iff_exists.mp h
  rcases maybeProbe_of_get c hr with (⟨-, he⟩ | ⟨-, chip, d', -, he⟩)
  · exact ⟨d, _, he⟩
  · exact ⟨d', _, he⟩

theorem isSome_maybeProbe {records : List DeviceRecord}
    (h : d.maybeProbe c uid = .ok (d', records)) (hu : (d.store.get u).isSome) :
    (d'.store.get u).isSome := by
  by_cases hne : uid = u
  · subst hne
    rcases maybeProbe_cases h with (⟨-, rfl⟩ | ⟨-, chip, hw⟩)
    · exact hu
    · obtain ⟨r, -, hq, -⟩ := probeWrite_spec hw
      rw [hq]
      rfl
  · rw [(maybeProbe_frame h hne).1]
    exact hu

theorem maybeProbe_pending {records : List DeviceRecord}
    (h : d.maybeProbe c uid = .ok (d', records)) (u : String) :
    d'.flashPending.lookup u = d.flashPending.lookup u ∨ d'.flashPending.lookup u = none := by
  rcases maybeProbe_cases h with (⟨-, rfl⟩ | ⟨-, chip, hw⟩)
  · exact Or.inl rfl
  · obtain ⟨-, -, -, -, hp, -⟩ := probeWrite_spec hw
    rw [hp, Dict.lookup_erase]
    split
    · exact Or.inr rfl
    · exact Or.inl rfl

theorem probeLoop_error_none (l : List String) (t : List DeviceRecord)
    (hl : ∀ uid ∈ l, (d.store.get uid).isSome) : (probeLoop c l d t).2.2 = none := by
  induction l generalizing d t with
  | nil => rfl
  | cons uid l ih =>
    obtain ⟨d', records, hd⟩ := maybeProbe_isOk (c := c) (hl uid List.mem_cons_self)
    unfold probeLoop
    rw [hd]
    exact ih _ fun u hu => isSome_maybeProbe hd (hl u (List.mem_cons_of_mem uid hu))

theorem probeLoop_pending (l : List String) (d : Daemon) (t : List DeviceRecord) (u : String) :
    (probeLoop c l d t).1.flashPending.lookup u = d.flashPending.lookup u ∨
      (probeLoop c l d t).1.flashPending.lookup u = none := by
  induction l generalizing d t with
  | nil => exact Or.inl rfl
  | cons uid l ih =>
    unfold probeLoop
    split
    · exact Or.inl rfl
    · rename_i d' records hd
      rcases ih d' (t ++ records) with (h | h)
      · rw [h]
        exact maybeProbe_pending hd u
      · exact Or.inr h

/-- A locked block that returns leaves no absent uid pending past its deadline. -/
theorem lockedBlock_deadline (hok : (d.lockedBlock c).2.toOption.isSome) (hu : u ∉ c.scan.keys)
    {deadline : ℕ} (hdl : (d.lockedBlock c).1.flashPending.lookup u = some deadline) :
    c.now < deadline := by
  unfold lockedBlock at hok hdl
  by_contra hle
  rcases giveUpLoop_pending (c := c) (d.diff c).1.flashPending.rows (d.diff c).1 [] u with (h | h)
  · have hrow := h.symm.trans hdl
    have hexp : Expired c (d.diff c).1.flashPending.rows u :=
      ⟨hu, deadline, Dict.mem_rows_iff_lookup.mpr hrow, by omega⟩
    rw [giveUpLoop_pending_of_expired hok hexp] at hdl
    cases hdl
  · rw [h] at hdl
    cases hdl

/-- A cycle survives exactly when every uid it gives up on still has a row. -/
theorem survives_iff : Survives d c ↔ ∀ u, GivesUp d c u → (d.store.get u).isSome := by
  rw [← lockedBlock_isOk_iff]
  constructor
  · rintro ⟨herr, -⟩
    obtain ⟨d₁, timedOut, hg, -⟩ := runOnce_of_error_none herr
    rw [hg]
    rfl
  · intro hok
    have hdeadline := fun u hu => @lockedBlock_deadline d c u hok hu
    cases hg : d.lockedBlock c with
    | mk d₁ res =>
      rw [hg] at hok hdeadline
      cases res with
      | error e => cases hok
      | ok timedOut =>
        have howned : ∀ uid ∈ (d.diff c).2.2.1, (d₁.store.get uid).isSome := by
          intro uid hu
          obtain ⟨r, hr, -⟩ := (giveUp_attached_iff hg).mpr (Or.inl (mem_diff_owned_iff.mp hu))
          rw [hr]
          rfl
        have hrun : (d.runOnce c).error = none ∧ (d.runOnce c).daemon =
            (probeLoop c (d.diff c).2.2.1 d₁ []).1 := by
          unfold runOnce
          rw [hg]
          exact ⟨probeLoop_error_none _ _ howned, rfl⟩
        refine ⟨hrun.1, fun u hu deadline hdl => ?_⟩
        rw [hrun.2] at hdl
        -- the entry was there after the give-up pass, so its deadline had not passed
        rcases probeLoop_pending (c := c) (d.diff c).2.2.1 d₁ [] u with (h | h)
        · exact hdeadline u hu (h.symm.trans hdl)
        · rw [h] at hdl
          cases hdl

end Cycle

section Runs

variable {d d' : Daemon} {c : Cycle} {u uid : String} {w w' : Service} {a : Action}

theorem isSome_applyInput {s : Store} {host : String} {input : Peering.Input}
    (h : (s.get u).isSome) : ((Peering.applyInput host s input).get u).isSome := by
  apply Peering.get_applyInput_inv (P := fun prev => prev.isSome = true) input
  · intro now e _ _ prev hp
    unfold Peering.eventRow
    split
    · rfl
    · rw [Option.isSome_map]
      exact hp
  · exact fun _ _ _ _ _ _ _ _ => rfl
  · intro now seen prev hp
    rw [Option.isSome_map]
    exact hp
  · exact h

theorem isSome_apply (o : Op) (h : (d.store.get u).isSome)
    (hr : o = .rescan → ¬ Api.Removed d.store d.locks u) :
    ((d.apply o).store.get u).isSome := by
  rcases get_apply_cases o u with (he | he | ⟨rfl, hrem, -⟩ | ⟨host, input, rfl⟩)
  · rwa [he]
  · rwa [he, Option.isSome_map]
  · exact absurd hrem (hr rfl)
  · exact isSome_applyInput h

theorem locks_apply (o : Op) (h : ((d.apply o).locks.status u).isSome) :
    (d.locks.status u).isSome ∨ (d.store.get u).isSome := by
  cases o with
  | lock server now req holder =>
    rcases apply_lock_cases d server now req holder with (he | ⟨r, kind, hr, he⟩)
    · rw [he] at h
      exact Or.inl h
    · rw [he, LockManager.status_insert] at h
      split at h
      · rename_i hu
        rw [← hu, hr]
        exact Or.inr rfl
      · exact Or.inl h
  | release now uid holder =>
    rw [apply, releaseLock_locks] at h
    by_cases hu : uid = u
    · subst hu
      rw [LockManager.release_status_self] at h
      obtain ⟨st, hst⟩ := Option.isSome_iff_exists.mp h
      rw [(Option.filter_eq_some_iff.mp hst).1]
      exact Or.inl rfl
    · rw [LockManager.release_of_ne hu] at h
      exact Or.inl h
  | forceRelease now uid =>
    by_cases hu : uid = u
    · subst hu
      have hf := congrArg Prod.fst (forceReleaseLock_own d now uid)
      simp only [lockFacet, releasedFacet] at hf
      rw [apply, hf] at h
      cases h
    · have hf := congrArg Prod.fst (forceReleaseLock_frame d now hu)
      simp only [lockFacet] at hf
      rw [apply, hf] at h
      exact Or.inl h
  | sweep now isAlive =>
    have hf := congrArg Prod.fst (sweepLocks_lockFacet d now isAlive u)
    rw [apply] at h
    simp only [lockFacet] at hf
    rw [hf] at h
    split at h
    · cases h
    · exact Or.inl h
  | markFlashed | peer | peerSeen | peerReachable | rescan => exact Or.inl h

theorem isSome_of_flashReleases {o : Op} (h : d.FlashReleases u o) :
    (d.locks.status u).isSome := by
  cases o with
  | release now uid holder =>
    obtain ⟨-, st, hs, -⟩ := h
    rw [hs]
    rfl
  | forceRelease now uid =>
    obtain ⟨-, st, hs, -⟩ := h
    rw [hs]
    rfl
  | sweep now isAlive =>
    obtain ⟨st, hs, -⟩ := h
    rw [hs]
    rfl
  | lock | markFlashed | peer | peerSeen | peerReachable | rescan => exact h.elim

theorem HasRows.apply (h : HasRows d) (o : Op)
    (hr : o = .rescan → ∀ u, (d.flashPending.lookup u).isSome → ¬ Api.Removed d.store d.locks u) :
    HasRows (d.apply o) := by
  intro u hu
  -- a rescan leaves a locked uid alone by itself
  have hfree : (d.locks.status u).isSome → ¬ Api.Removed d.store d.locks u := by
    rintro hl ⟨-, hn⟩
    rw [hn] at hl
    cases hl
  by_cases hl : (d.locks.status u).isSome
  · exact isSome_apply o (h u (Or.inl hl)) fun _ => hfree hl
  · have hnot : ¬ d.FlashReleases u o := fun hf => hl (isSome_of_flashReleases hf)
    rw [apply_pending_of_not hnot] at hu
    rcases hu with (hlock | hp)
    · have hrow := (locks_apply o hlock).resolve_left hl
      refine isSome_apply o hrow fun he => ?_
      subst he
      exact absurd hlock hl
    · exact isSome_apply o (h u (Or.inr hp)) fun he => hr he u hp

theorem HasRows.lockedBlock (h : HasRows d) (c : Cycle) : HasRows (d.lockedBlock c).1 := by
  intro u hu
  apply isSome_lockedBlock
  unfold Daemon.lockedBlock at hu
  rw [giveUpLoop_locks, diff_locks] at hu
  rcases hu with (hl | hp)
  · split at hl
    · cases hl
    · exact h u (Or.inl hl)
  · have hpend : (pendingAfterDiff d c u).isSome := by
      rw [← diff_pending]
      rcases giveUpLoop_pending (c := c) (d.diff c).1.flashPending.rows (d.diff c).1 [] u with
        (he | he)
      · rwa [he] at hp
      · rw [he] at hp
        cases hp
    unfold pendingAfterDiff at hpend
    split at hpend
    · rename_i hprev
      obtain ⟨r, hr, -⟩ := mem_previouslyAttached_iff.mp hprev.1
      rw [hr]
      rfl
    · exact h u (Or.inr hpend)

theorem HasRows.probeWrite {wall : ℕ} {result : Option ProbeResult} {chip : Option (String × ℕ)}
    (h : HasRows d) (hw : d.probeWrite wall uid result chip = .ok d') : HasRows d' := by
  obtain ⟨r, -, hq, hother, hpend, hlocks, -⟩ := probeWrite_spec hw
  intro u hu
  by_cases hne : uid = u
  · rw [← hne, hq]
    rfl
  · rw [hother u hne]
    refine h u ?_
    rwa [hlocks, hpend, Dict.lookup_erase_of_ne hne] at hu

/-- A block keeps a row at every locked or pending uid, unless it is a rescan that takes one. -/
theorem HasRows.step (h : HasRows w.daemon) (hok : KeepsPending w a)
    (hs : step w a = some w') : HasRows w'.daemon := by
  cases a with
  | diff c =>
    cases hs
    exact h.lockedBlock c
  | check uid =>
    simp only [Blocks.step] at hs
    split at hs <;> (cases hs; exact h)
  | write wall uid result chip =>
    simp only [Blocks.step] at hs
    split at hs
    · cases hs
      cases hw : w.daemon.probeWrite wall uid result chip with
      | error e => exact h
      | ok d' => exact h.probeWrite hw
    · cases hs
  | op o =>
    cases hs
    refine h.apply o fun he => ?_
    subst he
    exact hok
  | restart =>
    cases hs
    rintro u (hl | hp)
    · cases hl
    · cases hp

theorem hasRows_restarted (d : Daemon) : HasRows d.restarted := by
  rintro u (hl | hp)
  · cases hl
  · cases hp

/-- In a run whose rescans leave the uids that await a flash alone, every next cycle survives. In
any state at all, a cycle survives exactly when what it gives up on has a row. -/
theorem cycles_survive (d : Daemon) (as : List Action) (w : Service)
    (hr : Runs.exec step (start d.restarted) as = some w) :
    (Runs.Meets step KeepsPending (start d.restarted) as → ∀ c, Survives w.daemon c) ∧
      ∀ c, Survives w.daemon c ↔ ∀ u, GivesUp w.daemon c u → (w.daemon.store.get u).isSome := by
  refine ⟨fun hm c => ?_, fun c => survives_iff⟩
  have hrows := Runs.inv_of_meets
    (fun v _ _ (hv : HasRows v.daemon) hok hs => HasRows.step hv hok hs) (hasRows_restarted d) hm hr
  rw [survives_iff]
  rintro u ⟨hu, deadline, hdl, -⟩
  -- an entry made in this very cycle is of a board that was attached, so it has a row too
  unfold pendingAfterDiff at hdl
  split at hdl
  · rename_i hprev
    obtain ⟨r, hrow, -⟩ := mem_previouslyAttached_iff.mp hprev.1
    rw [hrow]
    rfl
  · exact hrows u (Or.inr (by rw [hdl]; rfl))

/-- A client of this host. -/
def client : HolderRef := ⟨.local, "412", some 412, none⟩

/-- A board is attached and probed, then its flash lock is taken and released. -/
def flashed : List Action :=
  [.diff .oneBoard, .check "9900a", .write 20 "9900a" none none,
    .op (.lock .socket 21 ⟨some "9900a", some "flash", none⟩ client),
    .op (.release 22 "9900a" client)]

/-- The board leaves before it is probed again, and a rescan takes its row. -/
def flashedAndPurged : List Action := flashed ++ [.diff .noBoard, .op .rescan]

/-- The next cycle after the deadline raises, and so does every one after that. -/
theorem cycle_raises :
    ¬ ∀ (d : Daemon) (as : List Action) (w : Service),
      Runs.exec step (start d.restarted) as = some w → ∀ c, Survives w.daemon c := by
  intro h
  have hrun : (Runs.exec step (start blank.restarted) flashedAndPurged).any (fun w =>
      (w.daemon.runOnce { Cycle.noBoard with now := 40 }).error ≠ none) = true := by decide
  obtain ⟨w, hw, herr⟩ := (Option.any_eq_true _ _).mp hrun
  have hsurvives := (h blank flashedAndPurged w hw { Cycle.noBoard with now := 40 }).1
  simp [hsurvives] at herr

/-- Without the rescan the board is given up on, and the cycle returns. -/
theorem cycles_survive_flashed : ∃ w, Runs.exec step (start blank.restarted) flashed = some w ∧
    Survives w.daemon { Cycle.noBoard with now := 40 } := by
  have hrun : (Runs.exec step (start blank.restarted) flashed).any (fun _ => true) = true := by
    decide
  obtain ⟨w, hw, -⟩ := (Option.any_eq_true _ _).mp hrun
  refine ⟨w, hw, (cycles_survive blank flashed w hw).1 ?_ _⟩
  refine Runs.meets_of_forall fun a ha s => ?_
  simp only [flashed, List.mem_cons, List.not_mem_nil, or_false] at ha
  rcases ha with (rfl | rfl | rfl | rfl | rfl)
  all_goals trivial

end Runs

end MbTools.Blocks
