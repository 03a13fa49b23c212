import Mathlib.Data.List.Induction
import MbTools.Registry.Arrival
import MbTools.Registry.Blocks

/-! # The probe a flash is owed

A released flash lock leaves its uid in the pending map until a probe ends or
the daemon gives up. A probe that was already under way when the lock was
released takes the entry away as well, and then none is left.
-/

namespace MbTools.Blocks

open Store DeviceRecord Daemon
open Arrival (GivesUp pendingAfterDiff_isSome)

/-- The block records the outcome of a probe of the uid. -/
def EndsProbe (w : Service) (u : String) (a : Action) : Prop :=
  ∃ wall result chip d', a = .write wall u result chip ∧ u ∈ w.inFlight ∧
    w.daemon.probeWrite wall u result chip = .ok d'

/-- The block finds the uid absent and its flash deadline passed. -/
def Expires (w : Service) (u : String) (a : Action) : Prop :=
  ∃ c, a = .diff c ∧ GivesUp w.daemon c u

/-- The uid still awaits its probe after the run, or one was started and ended in it, or its
deadline passed while it was absent. -/
def Accounted (w : Service) (u : String) (as : List Action) (w' : Service) : Prop :=
  (w'.daemon.flashPending.lookup u).isSome ∨
    Runs.HappenedThen step (StartsProbe · u) (EndsProbe · u) w as ∨
      Runs.Happened step (Expires · u) w as

section Blocks

variable {w w' : Service} {d d' : Daemon} {c : Cycle} {u uid : String} {a : Action} {o : Op}
  {as : List Action}

theorem pending_lockedBlock (h : (d.flashPending.lookup u).isSome) (hg : ¬ GivesUp d c u) :
    ((d.lockedBlock c).1.flashPending.lookup u).isSome := by
  have hexp : ¬ Expired c (d.diff c).1.flashPending.rows u := fun he => hg (expired_iff.mp he)
  unfold lockedBlock
  rw [(giveUpLoop_of_not_expired hexp).2, diff_pending]
  exact pendingAfterDiff_isSome h

theorem pending_step (h : (w.daemon.flashPending.lookup u).isSome) (hv : isVirtualUid u = false)
    (hs : step w a = some w') (he : ¬ EndsProbe w u a) (hx : ¬ Expires w u a)
    (hr : a ≠ .restart) : (w'.daemon.flashPending.lookup u).isSome := by
  cases a with
  | diff c =>
    cases hs
    exact pending_lockedBlock h fun hg => hx ⟨c, rfl, hg⟩
  | check uid =>
    simp only [step] at hs
    split at hs <;> (cases hs; exact h)
  | write wall uid result chip =>
    simp only [step] at hs
    split at hs
    · rename_i hf
      cases hs
      cases hw : w.daemon.probeWrite wall uid result chip with
      | error e => exact h
      | ok d' =>
        obtain ⟨-, -, -, -, hp, -⟩ := probeWrite_spec hw
        have hne : uid ≠ u := by
          rintro rfl
          exact he ⟨wall, result, chip, d', rfl, hf, hw⟩
        simp only [Except.toOption, Option.getD_some]
        rwa [hp, Dict.lookup_erase_of_ne hne]
    · cases hs
  | op o =>
    cases hs
    exact apply_pending_isSome o h hv
  | restart => exact absurd rfl hr

theorem inFlight_step (hs : step w a = some w') (hu : u ∈ w'.inFlight) :
    u ∈ w.inFlight ∨ StartsProbe w u a := by
  cases a with
  | diff c =>
    cases hs
    exact Or.inl hu
  | check uid =>
    simp only [step] at hs
    split at hs
    · rename_i helig
      cases hs
      rcases List.mem_cons.mp hu with (rfl | hu)
      · exact Or.inr ⟨rfl, helig⟩
      · exact Or.inl hu
    · cases hs
      exact Or.inl hu
  | write wall uid result chip =>
    simp only [step] at hs
    split at hs
    · cases hs
      exact Or.inl (List.mem_of_mem_erase hu)
    · cases hs
  | op o =>
    cases hs
    exact Or.inl hu
  | restart =>
    cases hs
    cases hu

/-- From a state in which the uid awaits its probe and none is under way, every run accounts for
it. The induction is on the run from its end; while the entry is there, a port open for the uid
was opened in the run. -/
theorem accounted_of_not_inFlight (h : (w.daemon.flashPending.lookup u).isSome)
    (hv : isVirtualUid u = false) (hf : u ∉ w.inFlight) (as : List Action) :
    ∀ w', (∀ b ∈ as, b ≠ .restart) → Runs.exec step w as = some w' →
      Accounted w u as w' ∧ (u ∈ w'.inFlight → Runs.Happened step (StartsProbe · u) w as) := by
  induction as using List.reverseRecOn with
  | nil =>
    rintro w' - hr
    cases hr
    exact ⟨Or.inl h, fun hu => absurd hu hf⟩
  | append_singleton as a ih =>
    intro w' hnr hr
    obtain ⟨t, ht, hs⟩ := Runs.exec_concat.mp hr
    obtain ⟨hacc, hstart⟩ := ih t (fun b hb => hnr b (List.mem_append_left _ hb)) ht
    constructor
    · rcases hacc with (hp | hprobed | hgone)
      · by_cases he : EndsProbe t u a
        · have hopen := he
          obtain ⟨-, -, -, -, -, hin, -⟩ := hopen
          exact Or.inr (Or.inl ((hstart hin).thenConcat ht he))
        · by_cases hx : Expires t u a
          · exact Or.inr (Or.inr (Runs.Happened.concat ht hx))
          · have hlast : a ≠ .restart := hnr a (List.mem_append_right _ List.mem_cons_self)
            exact Or.inl (pending_step hp hv hs he hx hlast)
      · exact Or.inr (Or.inl (hprobed.append [a]))
      · exact Or.inr (Or.inr (hgone.append [a]))
    · intro hu
      rcases inFlight_step hs hu with (hu | hst)
      · exact (hstart hu).append [a]
      · exact Runs.Happened.concat ht hst

theorem not_accounted_write (hr : Attached w.daemon.store u) (hf : u ∈ w.inFlight) :
    ∃ w', Runs.exec step w [.write 1 u none none] = some w' ∧
      ¬ Accounted w u [.write 1 u none none] w' := by
  obtain ⟨r, hr, -⟩ := hr
  obtain ⟨d', hw⟩ := probeWrite_isOk 1 none none hr
  obtain ⟨-, -, -, -, hp, -⟩ := probeWrite_spec hw
  refine ⟨{ w with daemon := d', inFlight := w.inFlight.erase u }, ?_, ?_⟩
  · rw [Runs.exec_cons]
    refine ⟨_, ?_, rfl⟩
    simp [step, hf, hw, Except.toOption]
  · rintro (hpend | ⟨bs, cs, t, hsplit, -, hstart, hend⟩ | hgone)
    · rw [hp, Dict.lookup_erase_self] at hpend
      cases hpend
    · -- a run of one write has no room for a start before its end
      cases bs with
      | nil => exact hstart
      | cons b bs =>
        cases bs with
        | nil =>
          simp only [List.cons_append, List.nil_append, List.cons.injEq] at hsplit
          rw [← hsplit.2] at hend
          exact hend
        | cons b' bs => simp at hsplit
    · rcases hgone with (⟨c, hc, -⟩ | ⟨t, -, hgone⟩)
      · cases hc
      · exact hgone

end Blocks

section Runs

variable {w w₁ : Service} {u : String} {o : Op}

/-- After a flash lock of an attached board is released, every later state accounts for the probe
it is owed exactly when no probe of the board was under way at the release. -/
theorem reprobe_kept_iff (w w₁ : Service) (u : String) (o : Op) (hv : isVirtualUid u = false)
    (hu : Attached w.daemon.store u) (ho : w.daemon.FlashReleases u o)
    (hs : step w (.op o) = some w₁) :
    (∀ as w', (∀ b ∈ as, b ≠ .restart) → Runs.exec step w₁ as = some w' → Accounted w₁ u as w') ↔
      u ∉ w.inFlight := by
  cases hs
  constructor
  · intro h hf
    obtain ⟨r, hr, hl⟩ := hu
    obtain ⟨q, hq, hql, -⟩ := apply_local o hr hl
    obtain ⟨w', hw', hno⟩ := not_accounted_write
      (w := { w with daemon := w.daemon.apply o }) ⟨q, hq, hql⟩ hf
    exact hno (h _ w' (by simp) hw')
  · intro hf as w' hnr hr
    exact (accounted_of_not_inFlight (w := { w with daemon := w.daemon.apply o })
      (apply_pending_of_flashReleases ho hv) hv hf as w' hnr hr).1

/-- The port of a board is opened, and before it is closed a client takes the flash lock. -/
def flashedUnderProbe : List Action :=
  [.diff .oneBoard, .check "9900a",
    .op (.lock .socket 21 ⟨some "9900a", some "flash", none⟩ ⟨.local, "412", some 412, none⟩)]

def flashRelease : Op := .release 22 "9900a" ⟨.local, "412", some 412, none⟩

instance (d : Daemon) (uid : String) : Decidable (d.FlashReleases uid flashRelease) :=
  decidable_of_iff ("9900a" = uid ∧ (d.locks.status uid).any (fun st =>
      st.holder = ⟨.local, "412", some 412, none⟩ ∧ st.kind = .flash) = true)
    (by simp [FlashReleases, flashRelease, Option.any_eq_true])

/-- The probe that was under way ends the wait, and the flashed board is not probed again. -/
theorem reprobe_lost :
    ¬ ∀ (bs : List Action) (w w₁ : Service) (u : String) (o : Op),
      Runs.exec step (start blank) bs = some w → isVirtualUid u = false →
      Attached w.daemon.store u → w.daemon.FlashReleases u o → step w (.op o) = some w₁ →
      ∀ as w', (∀ b ∈ as, b ≠ .restart) → Runs.exec step w₁ as = some w' →
        Accounted w₁ u as w' := by
  intro h
  have hrun : (Runs.exec step (start blank) flashedUnderProbe).any (fun w =>
      "9900a" ∈ w.inFlight ∧ Attached w.daemon.store "9900a" ∧
        w.daemon.FlashReleases "9900a" flashRelease ∧
        Attached (w.daemon.apply flashRelease).store "9900a") = true := by decide
  obtain ⟨w, hw, hcond⟩ := (Option.any_eq_true _ _).mp hrun
  obtain ⟨hf, hu, ho, hu'⟩ := of_decide_eq_true hcond
  obtain ⟨w', hw', hno⟩ := not_accounted_write
    (w := { w with daemon := w.daemon.apply flashRelease }) hu' hf
  exact hno (h flashedUnderProbe w _ "9900a" flashRelease hw (by decide) hu ho rfl _ w'
    (by simp) hw')

/-- Had the port been closed before, the board would be probed again. -/
theorem reprobe_kept_after_write : ∃ w, Runs.exec step (start blank)
      [.diff .oneBoard, .check "9900a", .write 20 "9900a" none none,
        .op (.lock .socket 21 ⟨some "9900a", some "flash", none⟩ ⟨.local, "412", some 412, none⟩)]
      = some w ∧
    ∀ as w', (∀ b ∈ as, b ≠ .restart) →
      Runs.exec step { w with daemon := w.daemon.apply flashRelease } as = some w' →
      Accounted { w with daemon := w.daemon.apply flashRelease } "9900a" as w' := by
  have hrun : (Runs.exec step (start blank)
      [.diff .oneBoard, .check "9900a", .write 20 "9900a" none none,
        .op (.lock .socket 21 ⟨some "9900a", some "flash", none⟩ ⟨.local, "412", some 412, none⟩)]
      ).any (fun w => "9900a" ∉ w.inFlight ∧ Attached w.daemon.store "9900a" ∧
        w.daemon.FlashReleases "9900a" flashRelease) = true := by decide
  obtain ⟨w, hw, hcond⟩ := (Option.any_eq_true _ _).mp hrun
  obtain ⟨hf, hu, ho⟩ := of_decide_eq_true hcond
  exact ⟨w, hw, (reprobe_kept_iff w _ "9900a" flashRelease (by decide) hu ho rfl).mpr hf⟩

end Runs

end MbTools.Blocks
