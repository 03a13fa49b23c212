import MbTools.Registry.Blocks

/-! # A board is probed once for every arrival

Once a probe of a board has started, the board is attached, and either its port
is open or its row has the time of the probe and no flash is pending. None of
the writers of the row changes that, and no check passes in such a state.
-/

namespace MbTools.Blocks

open Store DeviceRecord Daemon

/-- The blocks of a sequential run on a clock that never reads zero. -/
def Regular (w : Service) (a : Action) : Prop :=
  Sequential w a ∧ match a with
    | .write wall _ _ _ => wall ≠ 0
    | _ => True

instance (w : Service) (a : Action) : Decidable (Regular w a) :=
  match a with
  | .diff _ => inferInstanceAs (Decidable (w.inFlight = [] ∧ True))
  | .check uid => inferInstanceAs (Decidable ((w.inFlight = [] ∧ uid ∈ w.toCheck) ∧ True))
  | .write wall _ _ _ => inferInstanceAs (Decidable (True ∧ wall ≠ 0))
  | .op _ => inferInstanceAs (Decidable (True ∧ True))
  | .restart => inferInstanceAs (Decidable (w.inFlight = [] ∧ True))

/-- A scan without the uid, or a release of its flash lock. A row that leaves local ownership has
been absent from a scan before. -/
def Renews (w : Service) (u : String) : Action → Prop
  | .diff c => u ∉ c.scan.keys
  | .op o => w.daemon.FlashReleases u o
  | _ => False

/-- The row has the time of a probe, and no flash is pending. -/
def Probed (d : Daemon) (u : String) : Prop :=
  (∃ r, d.store.get u = some r ∧ r.IsLocal ∧ r.lastProbe ≠ 0) ∧ d.flashPending.lookup u = none

/-- A probe of the board has started, and it was neither absent nor flashed since. -/
def Spent (w : Service) (u : String) : Prop :=
  (w.inFlight = [u] ∧ Attached w.daemon.store u) ∨ (u ∉ w.inFlight ∧ Probed w.daemon u)

section Steps

variable {w w' : Service} {d d' : Daemon} {c : Cycle} {u uid : String} {a : Action} {o : Op}

theorem attached_apply (o : Op) (h : Attached d.store u) : Attached (d.apply o).store u := by
  obtain ⟨r, hr, hl⟩ := h
  obtain ⟨q, hq, hql, -⟩ := apply_local o hr hl
  exact ⟨q, hq, hql⟩

theorem attached_probeWrite {wall : ℕ} {result : Option ProbeResult} {chip : Option (String × ℕ)}
    (h : Attached d.store u) (hw : d.probeWrite wall uid result chip = .ok d') :
    Attached d'.store u := by
  by_cases hne : uid = u
  · subst hne
    exact (probeWrite_attached_iff h hw).mpr h
  · obtain ⟨-, -, -, hother, -⟩ := probeWrite_spec hw
    obtain ⟨r, hr, hl⟩ := h
    exact ⟨r, (hother u hne).trans hr, hl⟩

theorem attached_of_mem_checkList (h : u ∈ checkList d c) :
    Attached (d.lockedBlock c).1.store u := by
  unfold checkList at h
  cases hg : d.lockedBlock c with
  | mk d₁ res =>
    rw [hg] at h
    cases res with
    | error e => cases h
    | ok timedOut => exact (giveUp_attached_iff hg).mpr (Or.inl (mem_diff_owned_iff.mp h))

theorem toCheck_attached (h : ∀ u ∈ w.toCheck, Attached w.daemon.store u)
    (hs : step w a = some w') : ∀ u ∈ w'.toCheck, Attached w'.daemon.store u := by
  cases a with
  | diff c =>
    cases hs
    exact fun u hu => attached_of_mem_checkList hu
  | check uid =>
    simp only [step] at hs
    split at hs <;> (cases hs; exact fun u hu => h u (List.mem_of_mem_erase hu))
  | write wall uid result chip =>
    simp only [step] at hs
    split at hs
    · cases hs
      cases hw : w.daemon.probeWrite wall uid result chip with
      | error e => exact h
      | ok d' => exact fun u hu => attached_probeWrite (h u hu) hw
    · cases hs
  | op o =>
    cases hs
    exact fun u hu => attached_apply o (h u hu)
  | restart =>
    cases hs
    exact fun u hu => by cases hu

/-- A scanned board keeps its row and its pending entry through a locked block. -/
theorem Probed.lockedBlock (h : Probed d u) (hu : u ∈ c.scan.keys) :
    Probed (d.lockedBlock c).1 u := by
  obtain ⟨⟨r, hr, hl, hp⟩, hpend⟩ := h
  have hprev : u ∈ d.previouslyAttached := mem_previouslyAttached_iff.mpr ⟨r, hr, hl⟩
  have hexp : ¬ Expired c (d.diff c).1.flashPending.rows u := fun he => he.1 hu
  obtain ⟨hs, hq⟩ := giveUpLoop_of_not_expired (d := (d.diff c).1) (t := []) hexp
  obtain ⟨info, hinfo⟩ := mem_scan_keys_iff.mp hu
  unfold Daemon.lockedBlock
  refine ⟨⟨r, ?_, hl, hp⟩, ?_⟩
  · rw [hs, diff_get, rowAfterDiff, hinfo]
    simp only
    rw [if_pos (Or.inl hprev), hr]
  · rw [hq, diff_pending, pendingAfterDiff, if_neg fun hc => hc.2 hu, hpend]

theorem Probed.not_eligible (h : Probed d u) : d.probeEligible u ≠ .ok true := by
  obtain ⟨⟨r, hr, -, hp⟩, hpend⟩ := h
  rw [probeEligible_of_get hr, hpend]
  simp [hp]

theorem Probed.apply (h : Probed d u) (hf : ¬ d.FlashReleases u o) : Probed (d.apply o) u := by
  obtain ⟨⟨r, hr, hl, hp⟩, hpend⟩ := h
  obtain ⟨q, hq, hql, -, -, hqp⟩ := apply_local o hr hl
  refine ⟨⟨q, hq, hql, ?_⟩, ?_⟩
  · rwa [hqp]
  · rwa [apply_pending_of_not hf]

theorem Probed.restarted (h : Probed d u) : Probed d.restarted u := by
  obtain ⟨⟨r, hr, hl, hp⟩, -⟩ := h
  exact ⟨⟨r, get_sweepVirtual hr hl.2.2, hl, hp⟩, rfl⟩

theorem Probed.probeWrite_of_ne {wall : ℕ} {result : Option ProbeResult}
    {chip : Option (String × ℕ)} (h : Probed d u) (hne : uid ≠ u)
    (hw : d.probeWrite wall uid result chip = .ok d') : Probed d' u := by
  obtain ⟨⟨r, hr, hl, hp⟩, hpend⟩ := h
  obtain ⟨-, -, -, hother, hq, -⟩ := probeWrite_spec hw
  exact ⟨⟨r, (hother u hne).trans hr, hl, hp⟩, by rw [hq, Dict.lookup_erase_of_ne hne, hpend]⟩

/-- The write of a probe of an attached board does not raise, and it records its own time. -/
theorem probed_of_write {wall : ℕ} (result : Option ProbeResult) (chip : Option (String × ℕ))
    (h : Attached d.store u) (hwall : wall ≠ 0) :
    Probed ((d.probeWrite wall u result chip).toOption.getD d) u := by
  obtain ⟨r, hr, hl⟩ := h
  obtain ⟨d', hw⟩ := probeWrite_isOk wall result chip hr
  obtain ⟨q, hq, hnew, -, hp, -⟩ := probeWrite_spec hw
  obtain rfl : r = q := Option.some.inj (hr.symm.trans hq)
  obtain ⟨-, hh, -, hv, hst, htime⟩ :=
    outcomeRow_spec wall (d.flashPending.lookup u).isSome result chip r
  rw [hw]
  refine ⟨⟨_, hnew, ⟨hh.trans hl.1, hst, hv.trans hl.2.2⟩, ?_⟩, ?_⟩
  · rwa [htime]
  · simp only [Except.toOption, Option.getD_some]
    rw [hp, Dict.lookup_erase_self]

/-- One regular block keeps a board spent, unless the board is absent or its flash lock is
released. -/
theorem Spent.step (h : Spent w u) (hok : Regular w a ∧ ¬ Renews w u a)
    (hs : step w a = some w') : Spent w' u := by
  obtain ⟨⟨hseq, hclock⟩, hnew⟩ := hok
  rcases h with (⟨hf, hatt⟩ | ⟨hf, hp⟩)
  · -- the port is open: only the end of this probe and operations can come
    cases a with
    | diff c => exact absurd (hf.symm.trans hseq) (by simp)
    | check uid => exact absurd (hf.symm.trans hseq.1) (by simp)
    | restart => exact absurd (hf.symm.trans hseq) (by simp)
    | op o =>
      cases hs
      exact Or.inl ⟨hf, attached_apply o hatt⟩
    | write wall uid result chip =>
      simp only [Blocks.step, hf, List.mem_singleton] at hs
      split at hs
      · rename_i hu
        subst hu
        cases hs
        exact Or.inr ⟨by simp, probed_of_write result chip hatt hclock⟩
      · cases hs
  · cases a with
    | diff c =>
      cases hs
      exact Or.inr ⟨hf, hp.lockedBlock (by_contra hnew)⟩
    | check uid =>
      simp only [Blocks.step] at hs
      split at hs
      · rename_i helig
        cases hs
        refine Or.inr ⟨fun hu => ?_, hp⟩
        rcases List.mem_cons.mp hu with (rfl | hu)
        · exact hp.not_eligible helig
        · exact hf hu
      · cases hs
        exact Or.inr ⟨hf, hp⟩
    | restart =>
      cases hs
      exact Or.inr ⟨by simp, hp.restarted⟩
    | op o =>
      cases hs
      exact Or.inr ⟨hf, hp.apply hnew⟩
    | write wall uid result chip =>
      simp only [Blocks.step] at hs
      split at hs
      · rename_i hu
        have hne : uid ≠ u := by
          rintro rfl
          exact hf hu
        cases hs
        refine Or.inr ⟨fun hu => hf (List.mem_of_mem_erase hu), ?_⟩
        cases hw : w.daemon.probeWrite wall uid result chip with
        | error e => exact hp
        | ok d' => exact hp.probeWrite_of_ne hne hw
      · cases hs

theorem Spent.not_starts (h : Spent w u) (hok : Regular w (.check u)) :
    ¬ StartsProbe w u (.check u) := by
  rintro ⟨-, helig⟩
  rcases h with (⟨hf, -⟩ | ⟨-, hp⟩)
  · exact absurd (hf.symm.trans hok.1.1) (by simp)
  · exact hp.not_eligible helig

theorem status_of_startsProbe (h : StartsProbe w u a) : w.daemon.locks.status u = none := by
  obtain ⟨-, helig⟩ := h
  simp only [probeEligible, bind, Except.bind] at helig
  split at helig
  · cases helig
  · simp only [pure, Except.pure, Except.ok.injEq, Bool.and_eq_true] at helig
    simpa using helig.2

end Steps

/-- In a sequential run on a clock that never reads zero, with a restart between two cycles and
operations of clients and peers anywhere: between two starts of a probe of one uid there is a scan
without it or a release of its flash lock, and no start is of a locked uid. -/
theorem reprobe_rule (d : Daemon) (as bs : List Action) (w w' : Service) (u : String)
    (hm : Runs.Meets step Regular (start d) (as ++ .check u :: (bs ++ [.check u])))
    (hr : Runs.exec step (start d) as = some w)
    (hr' : Runs.exec step w (.check u :: bs) = some w')
    (h : StartsProbe w u (.check u)) (h' : StartsProbe w' u (.check u)) :
    Runs.Happened step (Renews · u) w (.check u :: bs) ∧
      w.daemon.locks.status u = none ∧ w'.daemon.locks.status u = none := by
  refine ⟨?_, status_of_startsProbe h, status_of_startsProbe h'⟩
  by_contra hno
  obtain ⟨v, hv, hrest⟩ := Runs.exec_cons.mp hr'
  have htail := hm.right hr
  -- the first start finds the board attached and no port open
  have hlist := Runs.inv_of_exec
    (fun v _ _ (hi : ∀ u ∈ v.toCheck, Attached v.daemon.store u) hs => toCheck_attached hi hs)
    (by simp [start]) hr
  have hfirst : Spent v u := by
    rw [step_check_of_eligible h.2] at hv
    cases hv
    obtain ⟨hf, hu⟩ := htail.head.1
    exact Or.inl ⟨by rw [hf], hlist u hu⟩
  have hquiet := Runs.meets_of_not_happened hno
  have hregular : Runs.Meets step Regular v (bs ++ [.check u]) := htail.tail hv
  have hlast := Runs.inv_of_meets (fun v _ _ (hi : Spent v u) hok hs => hi.step hok hs) hfirst
    (hregular.left.and (hquiet.tail hv)) hrest
  exact hlast.not_starts (hregular.right hrest).head h'

/-- A board is probed, leaves, comes back and is probed again. -/
theorem reprobe_rule_oneBoard : ∃ w, Runs.exec step (start blank) [.diff .oneBoard] = some w ∧
    Runs.Happened step (Renews · "9900a") w
      [.check "9900a", .write 20 "9900a" none none, .diff .noBoard, .diff .oneBoard] := by
  have hrun : (Runs.exec step (start blank) [.diff .oneBoard]).any (fun w =>
      (Runs.exec step w [.check "9900a", .write 20 "9900a" none none, .diff .noBoard,
        .diff .oneBoard]).any fun w' =>
          w.daemon.probeEligible "9900a" = .ok true ∧ w'.daemon.probeEligible "9900a" = .ok true)
      = true := by decide
  obtain ⟨w, hw, hrun⟩ := (Option.any_eq_true _ _).mp hrun
  obtain ⟨w', hw', hcond⟩ := (Option.any_eq_true _ _).mp hrun
  obtain ⟨helig, helig'⟩ := of_decide_eq_true hcond
  exact ⟨w, hw, (reprobe_rule blank [.diff .oneBoard] _ w w' "9900a" (by decide) hw hw'
    ⟨rfl, helig⟩ ⟨rfl, helig'⟩).1⟩

end MbTools.Blocks
