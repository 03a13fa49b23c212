import MbTools.Lib.Runs
import MbTools.Registry.Diff

/-! # The probe pass, uid by uid

A probe is due when the store never recorded one or a flash is pending, and the
uid is not locked. Its write moves the row to one of the probed states and ends
the wait for a flash; rows of other uids are not touched.
-/

namespace MbTools.Daemon

open Store DeviceRecord

variable {d d' : Daemon} {uid k : String} {wall : ℕ} {c : Cycle} {r : DeviceRecord}
  {result : Option ProbeResult} {chip : Option (String × ℕ)}

/-- The row a recorded outcome leaves, given whether a flash was pending. -/
def recordedRow (wall : ℕ) (pending : Bool) (result : Option ProbeResult) (r : DeviceRecord) :
    DeviceRecord :=
  if result = none ∧ pending then r.knownBlank wall else r.probed wall result

/-- The row a probe leaves. -/
def outcomeRow (wall : ℕ) (pending : Bool) (result : Option ProbeResult) :
    Option (String × ℕ) → DeviceRecord → DeviceRecord
  | none, r => recordedRow wall pending result r
  | some (name, serial), r => (recordedRow wall pending result r).withChipIdentity name serial

theorem recordedRow_spec (wall : ℕ) (pending : Bool) (result : Option ProbeResult)
    (r : DeviceRecord) :
    let q := recordedRow wall pending result r
    q.uid = r.uid ∧ q.host = r.host ∧ q.port = r.port ∧ q.isVirtual = r.isVirtual ∧
      q.state ≠ .disconnected ∧ q.lastProbe = wall := by
  unfold recordedRow
  split
  · exact ⟨rfl, rfl, rfl, rfl, by simp [knownBlank], rfl⟩
  · exact ⟨by simp, by simp, by simp, by simp, r.probed_state_ne wall result, by simp⟩

theorem outcomeRow_spec (wall : ℕ) (pending : Bool) (result : Option ProbeResult)
    (chip : Option (String × ℕ)) (r : DeviceRecord) :
    let q := outcomeRow wall pending result chip r
    q.uid = r.uid ∧ q.host = r.host ∧ q.port = r.port ∧ q.isVirtual = r.isVirtual ∧
      q.state ≠ .disconnected ∧ q.lastProbe = wall := by
  have hq := recordedRow_spec wall pending result r
  cases chip with
  | none => exact hq
  | some x => simpa [outcomeRow] using hq

theorem recordOutcome_eq_ok_iff {s : Store} : d.recordOutcome wall uid result = .ok s ↔
    ∃ r, d.store.get uid = some r ∧ s = d.store.writeRow
      (recordedRow wall (d.flashPending.lookup uid).isSome result r) := by
  unfold recordOutcome recordedRow
  split
  · exact modifyRow_eq_ok_iff
  · exact modifyRow_eq_ok_iff

theorem probeWrite_spec (h : d.probeWrite wall uid result chip = .ok d') :
    ∃ r, d.store.get uid = some r ∧
      d'.store.get uid =
        some (outcomeRow wall (d.flashPending.lookup uid).isSome result chip r) ∧
      (∀ k, uid ≠ k → d'.store.get k = d.store.get k) ∧
      d'.flashPending = d.flashPending.erase uid ∧ d'.locks = d.locks ∧ d'.claims = d.claims ∧
      d'.flashReprobeTimeout = d.flashReprobeTimeout := by
  simp only [probeWrite, bind, Except.bind] at h
  cases hs : d.recordOutcome wall uid result with
  | error e => simp [hs] at h
  | ok s =>
    obtain ⟨r, hr, rfl⟩ := recordOutcome_eq_ok_iff.mp hs
    have hqu : (recordedRow wall (d.flashPending.lookup uid).isSome result r).uid = uid :=
      (recordedRow_spec wall _ result r).1.trans (uid_of_get hr)
    refine ⟨r, hr, ?_⟩
    simp only [hs] at h
    cases chip with
    | none =>
      simp only [pure, Except.pure, Except.ok.injEq] at h
      subst h
      exact ⟨get_writeRow_self hqu, fun k hk =>
        get_writeRow_of_ne fun he => hk (hqu.symm.trans he), rfl, rfl, rfl, rfl⟩
    | some x =>
      obtain ⟨name, serial⟩ := x
      simp only at h
      split at h
      · cases h
      · rename_i s' hs'
        obtain ⟨q', hq', rfl⟩ := modifyRow_eq_ok_iff.mp hs'
        simp only [pure, Except.pure, Except.ok.injEq] at h
        subst h
        rw [get_writeRow_self hqu, Option.some.injEq] at hq'
        subst hq'
        have hcu := hqu
        rw [← withChipIdentity_uid _ name serial] at hcu
        refine ⟨get_writeRow_self hcu, ?_, rfl, rfl, rfl, rfl⟩
        intro k hk
        exact (get_writeRow_of_ne fun he => hk (hcu.symm.trans he)).trans
          (get_writeRow_of_ne fun he => hk (hqu.symm.trans he))

theorem probeWrite_isOk (wall : ℕ) (result : Option ProbeResult) (chip : Option (String × ℕ))
    (hr : d.store.get uid = some r) : ∃ d', d.probeWrite wall uid result chip = .ok d' := by
  have hrec : d.recordOutcome wall uid result = .ok (d.store.writeRow
      (recordedRow wall (d.flashPending.lookup uid).isSome result r)) :=
    recordOutcome_eq_ok_iff.mpr ⟨r, hr, rfl⟩
  have hqu : (recordedRow wall (d.flashPending.lookup uid).isSome result r).uid = uid :=
    (recordedRow_spec wall _ result r).1.trans (uid_of_get hr)
  simp only [probeWrite, bind, Except.bind, hrec]
  cases chip with
  | none => exact ⟨_, rfl⟩
  | some x =>
    simp only [setChipIdentity, modifyRow, get_writeRow_self hqu]
    exact ⟨_, rfl⟩

theorem probeEligible_of_get (hr : d.store.get uid = some r) : d.probeEligible uid =
    .ok ((decide (r.lastProbe = 0) || (d.flashPending.lookup uid).isSome) &&
      (d.locks.status uid).isNone) := by
  simp [probeEligible, needsProbe, hr, bind, Except.bind, pure, Except.pure]

theorem maybeProbe_cases {records : List DeviceRecord}
    (h : d.maybeProbe c uid = .ok (d', records)) :
    (d.probeEligible uid = .ok false ∧ d' = d) ∨
    (d.probeEligible uid = .ok true ∧ ∃ chip,
      d.probeWrite c.wall uid (c.probe uid).result chip = .ok d') := by
  simp only [maybeProbe, bind, Except.bind] at h
  cases he : d.probeEligible uid with
  | error e => simp [he] at h
  | ok b =>
    simp only [he] at h
    cases b with
    | false =>
      simp only [Bool.false_eq_true, if_false, pure, Except.pure, Except.ok.injEq,
        Prod.mk.injEq] at h
      exact Or.inl ⟨rfl, h.1.symm⟩
    | true =>
      simp only [if_true] at h
      split at h
      · cases h
      · rename_i d₁ hd
        simp only [pure, Except.pure, Except.ok.injEq, Prod.mk.injEq] at h
        exact Or.inr ⟨rfl, _, h.1 ▸ hd⟩

theorem maybeProbe_of_get (c : Cycle) (hr : d.store.get uid = some r) :
    (d.probeEligible uid = .ok false ∧ d.maybeProbe c uid = .ok (d, [])) ∨
    (d.probeEligible uid = .ok true ∧ ∃ chip d',
      d.probeWrite c.wall uid (c.probe uid).result chip = .ok d' ∧
        d.maybeProbe c uid = .ok (d', d'.recordOf uid)) := by
  have helig := probeEligible_of_get hr
  cases hb : (decide (r.lastProbe = 0) || (d.flashPending.lookup uid).isSome) &&
      (d.locks.status uid).isNone with
  | false =>
    rw [hb] at helig
    refine Or.inl ⟨helig, ?_⟩
    simp [maybeProbe, bind, Except.bind, helig, pure, Except.pure]
  | true =>
    rw [hb] at helig
    obtain ⟨d', hw⟩ := probeWrite_isOk c.wall (c.probe uid).result
      (if d.needsSwd uid (c.probe uid).result then (c.probe uid).chip else none) hr
    refine Or.inr ⟨helig, _, d', hw, ?_⟩
    simp [maybeProbe, bind, Except.bind, helig, hw, pure, Except.pure]

theorem maybeProbe_frame {records : List DeviceRecord}
    (h : d.maybeProbe c uid = .ok (d', records)) (hk : uid ≠ k) :
    d'.store.get k = d.store.get k ∧ d'.flashPending.lookup k = d.flashPending.lookup k := by
  rcases maybeProbe_cases h with (⟨-, rfl⟩ | ⟨-, chip, hw⟩)
  · exact ⟨rfl, rfl⟩
  · obtain ⟨-, -, -, hother, hp, -⟩ := probeWrite_spec hw
    exact ⟨hother k hk, by rw [hp, Dict.lookup_erase_of_ne hk]⟩

theorem maybeProbe_local {records : List DeviceRecord}
    (h : d.maybeProbe c uid = .ok (d', records)) (hr : d.store.get uid = some r)
    (hl : r.IsLocal) : ∃ q, d'.store.get uid = some q ∧ q.IsLocal ∧ q.port = r.port := by
  rcases maybeProbe_cases h with (⟨-, rfl⟩ | ⟨-, chip, hw⟩)
  · exact ⟨r, hr, hl, rfl⟩
  · obtain ⟨r', hr', hq, -⟩ := probeWrite_spec hw
    rw [hr, Option.some.injEq] at hr'
    subst hr'
    obtain ⟨-, hh, hp, hv, hs, -⟩ :=
      outcomeRow_spec c.wall (d.flashPending.lookup uid).isSome (c.probe uid).result chip r
    exact ⟨_, hq, ⟨hh.trans hl.1, hs, hv.trans hl.2.2⟩, hp⟩

/-- The probe loop, raising or not, keeps local rows local on their ports and touches no row
outside its list. -/
theorem probeLoop_get (l : List String) (d : Daemon) (t : List DeviceRecord)
    (hl : ∀ uid ∈ l, ∃ r, d.store.get uid = some r ∧ r.IsLocal) (k : String) :
    (k ∉ l → (probeLoop c l d t).1.store.get k = d.store.get k) ∧
    (k ∈ l → ∀ r, d.store.get k = some r → ∃ q,
      (probeLoop c l d t).1.store.get k = some q ∧ q.IsLocal ∧ q.port = r.port) := by
  induction l generalizing d t with
  | nil => exact ⟨fun _ => rfl, fun h => absurd h List.not_mem_nil⟩
  | cons uid l ih =>
    unfold probeLoop
    split
    · refine ⟨fun _ => rfl, fun hk r hr => ?_⟩
      obtain ⟨r', hr', hloc⟩ := hl k hk
      rw [hr, Option.some.injEq] at hr'
      exact ⟨r, hr, hr' ▸ hloc, rfl⟩
    · rename_i d₁ records hd
      obtain ⟨r₀, hr₀, hl₀⟩ := hl uid List.mem_cons_self
      obtain ⟨q₀, hq₀, hloc₀, hport₀⟩ := maybeProbe_local hd hr₀ hl₀
      have hl₁ : ∀ u ∈ l, ∃ r, d₁.store.get u = some r ∧ r.IsLocal := by
        intro u hu
        by_cases hne : uid = u
        · exact ⟨q₀, hne ▸ hq₀, hloc₀⟩
        · rw [(maybeProbe_frame hd hne).1]
          exact hl u (List.mem_cons_of_mem uid hu)
      obtain ⟨hout, hin⟩ := ih d₁ (t ++ records) hl₁
      constructor
      · intro hk
        rw [List.mem_cons, not_or] at hk
        rw [hout hk.2]
        exact (maybeProbe_frame hd (Ne.symm hk.1)).1
      · intro hk r hr
        by_cases hne : uid = k
        · subst hne
          rw [hr₀, Option.some.injEq] at hr
          subst hr
          by_cases hmem : uid ∈ l
          · obtain ⟨q, hq, hloc, hport⟩ := hin hmem q₀ hq₀
            exact ⟨q, hq, hloc, hport.trans hport₀⟩
          · exact ⟨q₀, (hout hmem).trans hq₀, hloc₀, hport₀⟩
        · have hmem : k ∈ l := (List.mem_cons.mp hk).resolve_left (Ne.symm hne)
          exact hin hmem r ((maybeProbe_frame hd hne).1.trans hr)

section Blocks

variable {W A : Type} {step : W → A → Option W} (ok : W → A → Prop) (daemon : W → Daemon)
  (Ready : W → List String → Prop) {w w₁ : W} {a : A} {l : List String}

/-- A machine that takes one probe of the loop in a run of blocks, ready for the rest of the uids
after it, takes the whole loop in a run of blocks. -/
theorem exec_probeLoop_of_probe
    (hprobe : ∀ w uid l d' records, Ready w (uid :: l) →
      (daemon w).maybeProbe c uid = .ok (d', records) → ∃ as w', Runs.exec step w as = some w' ∧
        Runs.Meets step ok w as ∧ Ready w' l ∧ daemon w' = d')
    (h : Ready w l) (t : List DeviceRecord) : ∃ as w' l', Runs.exec step w as = some w' ∧
      Runs.Meets step ok w as ∧ Ready w' l' ∧ daemon w' = (probeLoop c l (daemon w) t).1 := by
  induction l generalizing w t with
  | nil => exact ⟨[], w, [], rfl, trivial, h, rfl⟩
  | cons uid l ih =>
    unfold probeLoop
    split
    · exact ⟨[], w, uid :: l, rfl, trivial, h, rfl⟩
    · rename_i d' records hd
      obtain ⟨as, w₁, hrun, hmeets, hready, rfl⟩ := hprobe w uid l d' records h hd
      obtain ⟨bs, w', l', hrun', hmeets', hready', hres⟩ := ih hready (t ++ records)
      refine ⟨as ++ bs, w', l', Runs.exec_append.mpr ⟨w₁, hrun, hrun'⟩, ?_, hready', hres⟩
      refine hmeets.append fun t ht => ?_
      rw [hrun] at ht
      cases ht
      exact hmeets'

/-- With a block for the part under the lock, such a machine takes every cycle in a run of blocks,
returning or raising. -/
theorem exec_runOnce_of_probe
    (hprobe : ∀ w uid l d' records, Ready w (uid :: l) →
      (daemon w).maybeProbe c uid = .ok (d', records) → ∃ as w', Runs.exec step w as = some w' ∧
        Runs.Meets step ok w as ∧ Ready w' l ∧ daemon w' = d')
    (hs : step w a = some w₁) (hok : ok w a) (hd : daemon w₁ = ((daemon w).lockedBlock c).1)
    (h : Ready w₁ l)
    (hl : ∀ timedOut, ((daemon w).lockedBlock c).2 = .ok timedOut →
      l = ((daemon w).diff c).2.2.1) :
    ∃ as w' l', Runs.exec step w (a :: as) = some w' ∧ Runs.Meets step ok w (a :: as) ∧
      Ready w' l' ∧ daemon w' = ((daemon w).runOnce c).daemon := by
  unfold runOnce
  cases hg : (daemon w).lockedBlock c with
  | mk d₁ res =>
    rw [hg] at hd hl
    obtain rfl : daemon w₁ = d₁ := hd
    cases res with
    | error e =>
      refine ⟨[], w₁, l, Runs.exec_cons.mpr ⟨w₁, hs, rfl⟩, ?_, h, rfl⟩
      exact (Runs.meets_cons_of_step hs).mpr ⟨hok, trivial⟩
    | ok timedOut =>
      obtain ⟨as, w', l', hrun, hmeets, hready, hres⟩ :=
        exec_probeLoop_of_probe ok daemon Ready hprobe h []
      refine ⟨as, w', l', Runs.exec_cons.mpr ⟨w₁, hs, hrun⟩, ?_, hready, ?_⟩
      · exact (Runs.meets_cons_of_step hs).mpr ⟨hok, hmeets⟩
      · rw [hres, hl timedOut rfl]

end Blocks

end MbTools.Daemon
