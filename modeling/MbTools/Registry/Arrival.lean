import MbTools.Lib.Runs
import MbTools.Peering.Ownership
import MbTools.Registry.Probe

/-! # Every arrival is probed

Cycles that do not overlap, block by block, between them peer inputs, lock
operations and restarts. Two ghost sets record which boards were absent from a
scan since they were last owned, and which arrived and were not probed since.
-/

namespace MbTools.Arrival

open Store DeviceRecord Daemon

/-- A daemon between two blocks of its cycles. -/
structure Watch where
  daemon : Daemon
  /-- Absent from a scan since it was last scanned and owned. -/
  absent : String → Bool
  /-- Arrived, and no probe of it was attempted since. -/
  awaiting : String → Bool
  /-- The uid whose port is open. -/
  inFlight : Option String

inductive Action where
  | diff (c : Cycle)
  | check (uid : String)
  | write (wall : ℕ) (uid : String) (result : Option ProbeResult) (chip : Option (String × ℕ))
  | peer (host : String) (input : Peering.Input)
  | acquire (now : ℕ) (uid : String) (kind : LockKind) (holder : HolderRef) (label : Option String)
  | release (now : ℕ) (uid : String) (holder : HolderRef)
  | forceRelease (now : ℕ) (uid : String)
  | restart

def peerOwned (d : Daemon) (uid : String) : Bool :=
  match d.store.get uid with
  | none => false
  | some r => r.host ≠ none

/-- Scanned and owned in this cycle. -/
def owned (d : Daemon) (c : Cycle) (uid : String) : Bool :=
  uid ∈ c.scan.keys && (uid ∈ d.previouslyAttached || c.claim uid ≠ none)

/-- Owned and present after an absence, or taken over from a peer. -/
def arrives (w : Watch) (c : Cycle) (uid : String) : Bool :=
  owned w.daemon c uid && (w.absent uid || peerOwned w.daemon uid)

def step (w : Watch) : Action → Option Watch
  | .diff c =>
    if w.inFlight = none then
      some
        { daemon := (w.daemon.lockedBlock c).1
          absent := fun u => (w.absent u || u ∉ c.scan.keys) && !owned w.daemon c u
          awaiting := fun u => w.awaiting u || arrives w c u
          inFlight := none }
    else none
  | .check uid =>
    if w.inFlight = none then
      match w.daemon.probeEligible uid with
      | .ok true =>
        some { w with inFlight := some uid, awaiting := fun u => w.awaiting u && u ≠ uid }
      | _ => some w
    else none
  | .write wall uid result chip =>
    if w.inFlight = some uid then
      some
        { w with
          daemon := (w.daemon.probeWrite wall uid result chip).toOption.getD w.daemon
          inFlight := none }
    else none
  | .peer host input =>
    some { w with daemon.store := Peering.applyInput host w.daemon.store input }
  | .acquire now uid kind holder label =>
    some { w with
      daemon.locks := (w.daemon.locks.acquire now uid kind holder label).toOption.getD
        w.daemon.locks }
  | .release now uid holder => some { w with daemon := w.daemon.releaseLock now uid holder }
  | .forceRelease now uid =>
    match w.daemon.locks.status uid with
    | none => some w
    | some st => some { w with daemon := w.daemon.releaseLock now uid st.holder }
  | .restart => some { w with daemon := w.daemon.restarted, inFlight := none }

/-- Nothing has arrived and nothing was seen absent yet. -/
def start (d : Daemon) : Watch := ⟨d, fun _ => false, fun _ => false, none⟩

/-- `needs_probe` is true, or the uid is in the flash-pending map. -/
def Eligible (d : Daemon) (uid : String) : Prop :=
  (∃ r, d.store.get uid = some r ∧ r.lastProbe = 0) ∨ (d.flashPending.lookup uid).isSome

instance (d : Daemon) (uid : String) : Decidable (Eligible d uid) :=
  decidable_of_iff ((d.store.get uid).any (·.lastProbe = 0) = true ∨
    (d.flashPending.lookup uid).isSome) (by simp [Eligible, Option.any_eq_true])

/-- Nothing known from an earlier stay hides the uid from the probe rule: it has no row, a
disconnected row, a row that was never probed, or a pending flash re-probe. -/
def Fresh (d : Daemon) (uid : String) : Prop :=
  (∀ r, d.store.get uid = some r → r.state = .disconnected ∨ r.lastProbe = 0) ∨
    (d.flashPending.lookup uid).isSome

/-- Does the entry report a probe outcome? -/
def isProbed : Option State → Bool
  | some .connected => true
  | some .attachedNoAnnounce => true
  | some .connectedNoFirmware => true
  | _ => false

/-- Does the peer input report a probe outcome of `uid`? -/
def Reports (uid : String) : Peering.Input → Prop
  | .event _ e => e.type = some .identity ∧ e.uid = some uid ∧ isProbed e.state = true
  | .snapshot _ reply => ∃ d ∈ reply.devices, d.uid = some uid ∧ isProbed d.state = true

/-- The flash give-up of this cycle is about `uid`. -/
def GivesUp (d : Daemon) (c : Cycle) (uid : String) : Prop :=
  uid ∉ c.scan.keys ∧ ∃ deadline, pendingAfterDiff d c uid = some deadline ∧ deadline ≤ c.now

/-- Never probed, and no virtual board's row. -/
def Unprobed (r : DeviceRecord) : Prop := r.lastProbe = 0 ∧ r.isVirtual = false

def HasUnprobed (s : Store) (u : String) : Prop := ∃ r, s.get u = some r ∧ Unprobed r

/-- The steps in which every arrival stays eligible. -/
def ok (w : Watch) : Action → Prop
  | .diff c =>
    (∀ u, arrives w c u = true → Fresh w.daemon u) ∧
      ∀ u, w.awaiting u = true → ¬ GivesUp w.daemon c u
  | .peer _ input => ∀ u, w.awaiting u = true →
      (∃ r, w.daemon.store.get u = some r ∧ r.host = none ∧ r.state ≠ .disconnected) ∨
        ¬ Reports u input
  | .restart => ∀ u, w.awaiting u = true → HasUnprobed w.daemon.store u
  | _ => True

section Steps

variable {d : Daemon} {c : Cycle} {uid u : String} {w w' : Watch}

theorem owned_iff : owned d c u = true ↔
    u ∈ c.scan.keys ∧ (u ∈ d.previouslyAttached ∨ c.claim u ≠ none) := by
  simp [owned]

theorem attachedRow_lastProbe {wall : ℕ} {info : PortInfo} {prev : Option DeviceRecord} :
    (attachedRow wall uid info prev).lastProbe = 0 ↔
      ∀ r, prev = some r → r.state = .disconnected ∨ r.lastProbe = 0 := by
  cases prev with
  | none => simp [attachedRow, upserted, DeviceRecord.new]
  | some r =>
    simp only [attachedRow, upserted, ne_eq, not_true_eq_false, false_and, if_false]
    split
    · rename_i hd
      simp [reattached, hd]
    · rename_i hd
      simp [refreshed, hd]

/-- An owned uid is eligible after the attach pass exactly when nothing hid it before. -/
theorem eligible_attachPass_iff (h : owned d c u = true) :
    Eligible (d.attachPass d.previouslyAttached c).1 u ↔ Fresh d u := by
  obtain ⟨hs, ho⟩ := owned_iff.mp h
  obtain ⟨info, hinfo⟩ := mem_scan_keys_iff.mp hs
  obtain ⟨-, hp, -⟩ := attachPass_rest d d.previouslyAttached c
  unfold Eligible Fresh
  rw [hp, attachPass_get_of_scanned d _ hinfo]
  refine or_congr_left ?_
  split
  · rename_i hcl
    have hprev : u ∈ d.previouslyAttached := by
      rcases hcl with (hpr | hc)
      · exact hpr
      · exact ho.resolve_right fun hne => hne hc
    obtain ⟨r, hr, hl⟩ := mem_previouslyAttached_iff.mp hprev
    simp [hr, hl.2.1]
  · simp [attachedRow_lastProbe]

/-- Eligible, through a row that is no virtual board's. -/
def Due (d : Daemon) (uid : String) : Prop :=
  HasUnprobed d.store uid ∨ (d.flashPending.lookup uid).isSome

theorem Due.eligible (h : Due d u) : Eligible d u := by
  rcases h with (⟨r, hr, hp, -⟩ | h)
  · exact Or.inl ⟨r, hr, hp⟩
  · exact Or.inr h

theorem Due.of_row_pending {d' : Daemon} (h : Due d u) (hs : d'.store.get u = d.store.get u)
    (hp : (d.flashPending.lookup u).isSome → (d'.flashPending.lookup u).isSome) : Due d' u := by
  rcases h with (⟨r, hr, hl⟩ | h)
  · exact Or.inl ⟨r, hs.trans hr, hl⟩
  · exact Or.inr (hp h)

theorem pendingAfterDiff_isSome (h : (d.flashPending.lookup u).isSome) :
    (pendingAfterDiff d c u).isSome := by
  unfold pendingAfterDiff
  split
  · unfold pendingAfterDetach
    split
    · exact h
    · split
      · rfl
      · exact h
  · exact h

/-- The attach and detach passes never hide a board that is due. -/
theorem Due.diff (h : Due d u) : Due (d.diff c).1 u := by
  rcases h with (⟨r, hr, hl, hv⟩ | h)
  · refine Or.inl ?_
    unfold HasUnprobed
    rw [diff_get, rowAfterDiff]
    split
    · split
      · exact ⟨r, hr, hl, hv⟩
      · refine ⟨_, rfl, ?_, attachedRow_spec.1.2.2⟩
        rw [attachedRow_lastProbe, hr]
        rintro q hq
        exact Or.inr (Option.some.inj hq ▸ hl)
    · split
      · exact ⟨r.gone c.wall, by rw [hr]; rfl, hl, hv⟩
      · exact ⟨r, hr, hl, hv⟩
  · refine Or.inr ?_
    rw [diff_pending]
    exact pendingAfterDiff_isSome h

theorem due_diff_of_fresh (h : owned d c u = true) (hf : Fresh d u) : Due (d.diff c).1 u := by
  obtain ⟨hs, ho⟩ := owned_iff.mp h
  obtain ⟨info, hinfo⟩ := mem_scan_keys_iff.mp hs
  rcases hf with (hrow | hp)
  · refine Or.inl ?_
    unfold HasUnprobed
    rw [diff_get, rowAfterDiff, hinfo]
    simp only
    split
    · rename_i hcl
      have hprev : u ∈ d.previouslyAttached := by
        rcases hcl with (hpr | hc)
        · exact hpr
        · exact ho.resolve_right fun hne => hne hc
      obtain ⟨r, hr, hl⟩ := mem_previouslyAttached_iff.mp hprev
      exact ⟨r, hr, (hrow r hr).resolve_left hl.2.1, hl.2.2⟩
    · exact ⟨_, rfl, attachedRow_lastProbe.mpr hrow, attachedRow_spec.1.2.2⟩
  · refine Or.inr ?_
    rw [diff_pending]
    exact pendingAfterDiff_isSome hp

/-- An absent uid keeps its row, or its lack of one, through the attach and detach passes. -/
theorem isSome_diff_of_absent (hu : u ∉ c.scan.keys) :
    ((d.diff c).1.store.get u).isSome ↔ (d.store.get u).isSome := by
  rw [diff_get, rowAfterDiff, not_mem_scan_keys_iff.mp hu]
  simp only
  split
  · rw [Option.isSome_map]
  · rfl

/-- A locked block returns exactly when every uid it gives up on has a row. -/
theorem lockedBlock_isOk_iff : (d.lockedBlock c).2.toOption.isSome ↔
    ∀ u, GivesUp d c u → (d.store.get u).isSome := by
  unfold Daemon.lockedBlock
  rw [giveUpLoop_isOk_iff]
  constructor
  · intro h u hu
    exact (isSome_diff_of_absent hu.1).mp (h u (expired_iff.mpr hu))
  · intro h u hu
    exact (isSome_diff_of_absent hu.1).mpr (h u (expired_iff.mp hu))

/-- The give-up pass, raising or not, only touches the boards it gives up on. -/
theorem Due.lockedBlock (h : Due (d.diff c).1 u) (hg : ¬ GivesUp d c u) :
    Due (d.lockedBlock c).1 u := by
  have hexp : ¬ Expired c (d.diff c).1.flashPending.rows u := fun he => hg (expired_iff.mp he)
  obtain ⟨hs, hp⟩ := giveUpLoop_of_not_expired (d := (d.diff c).1) (t := []) hexp
  refine h.of_row_pending hs fun hsome => ?_
  unfold Daemon.lockedBlock
  rwa [hp]

theorem probeWrite_rest {wall : ℕ} {result : Option ProbeResult} {chip : Option (String × ℕ)}
    (hu : uid ≠ u) (h : Due d u) :
    Due ((d.probeWrite wall uid result chip).toOption.getD d) u := by
  cases hw : d.probeWrite wall uid result chip with
  | error e => exact h
  | ok d' =>
    obtain ⟨-, -, -, hother, hpend, -⟩ := probeWrite_spec hw
    refine h.of_row_pending (hother u hu) fun hs => ?_
    simp only [Except.toOption, Option.getD_some]
    rwa [hpend, Dict.lookup_erase_of_ne hu]

theorem Due.releaseLock {now : ℕ} {holder : HolderRef} (h : Due d u) :
    Due (d.releaseLock now uid holder) u := by
  refine h.of_row_pending (by rw [releaseLock_store]) fun hs => ?_
  by_cases hu : uid = u
  · subst hu
    unfold Daemon.releaseLock
    split
    · exact hs
    · split
      · unfold onFlashRelease
        split
        · exact hs
        · simp
      · exact hs
  · rwa [releaseLock_pending_of_ne hu]

end Steps

section Peers

variable {s s' : Store} {now : ℕ} {host u k : String} {r : DeviceRecord}

theorem Unprobed.upserted {uid : String} {port vidPid : Option String} (h : Unprobed r) :
    Unprobed (upserted now uid (some host) port vidPid (some r)) := by
  have hv : ∀ q : DeviceRecord, q.host = some host → q.isVirtual = false := fun q hq => by
    simp [isVirtual, hq]
  simp only [DeviceRecord.upserted]
  split
  · exact h
  · split
    · exact ⟨rfl, hv _ rfl⟩
    · exact ⟨h.1, hv _ rfl⟩

theorem Unprobed.layered {d : Peering.DeviceDict} (h : Unprobed r) (hd : isProbed d.state = false) :
    Unprobed (Peering.layered r now d) := by
  unfold Peering.layered
  split
  · rename_i hs; simp [hs, isProbed] at hd
  · rename_i hs; simp [hs, isProbed] at hd
  · rename_i hs; simp [hs, isProbed] at hd
  · exact h
  · exact h
  · exact h

theorem HasUnprobed.of_get (h : HasUnprobed s u) (hs : s'.get u = s.get u) : HasUnprobed s' u := by
  obtain ⟨r, hr, hu⟩ := h
  exact ⟨r, hs.trans hr, hu⟩

theorem Unprobed.reported {e : Peering.Event} (h : Unprobed r)
    (hn : ¬ (e.type = some .identity ∧ isProbed e.state = true)) :
    Unprobed (Peering.reported r now e) := by
  unfold Peering.reported
  split
  · exact h
  · rename_i ht hs
    exact absurd ⟨ht, by rw [hs]; rfl⟩ hn
  · rename_i ht hs
    exact absurd ⟨ht, by rw [hs]; rfl⟩ hn
  · rename_i ht hs
    exact absurd ⟨ht, by rw [hs]; rfl⟩ hn
  · exact h
  · exact h

/-- A peer input that reports no probe outcome of `u` leaves its row unprobed. -/
theorem HasUnprobed.applyInput {input : Peering.Input} (h : HasUnprobed s u)
    (hn : ¬ Reports u input) : HasUnprobed (Peering.applyInput host s input) u := by
  apply Peering.get_applyInput_inv (P := fun prev => ∃ r, prev = some r ∧ Unprobed r) input
  · rintro now e rfl hu prev ⟨r, rfl, hr⟩
    unfold Peering.eventRow
    split
    · exact ⟨_, rfl, hr.upserted⟩
    · refine ⟨_, rfl, ?_⟩
      dsimp only
      split
      · exact hr.reported fun hc => hn ⟨hc.1, hu, hc.2⟩
      · exact hr
  · rintro now reply rfl d hd hu prev ⟨r, rfl, hr⟩
    refine ⟨_, rfl, ?_⟩
    have hup : Unprobed (upserted now u (some host) d.port d.vidPid (some r)) := hr.upserted
    have hquiet : isProbed d.state = false := by
      rw [← Bool.not_eq_true]
      exact fun hp => hn ⟨d, hd, hu, hp⟩
    simp only [Peering.snapshotRow]
    split
    · exact hup.layered hquiet
    · exact hup
  · rintro now seen prev ⟨r, rfl, hr⟩
    refine ⟨_, rfl, ?_⟩
    unfold Peering.absentRow
    split
    · exact hr
    · exact hr
  · exact h

theorem HasUnprobed.sweepVirtual (h : HasUnprobed s u) : HasUnprobed s.sweepVirtual u := by
  obtain ⟨r, hr, hu⟩ := h
  exact ⟨r, get_sweepVirtual hr hu.2, hu⟩

end Peers

section Blocks

variable {w : Watch} {c : Cycle}

theorem exec_maybeProbe {d : Daemon} {uid : String} {records : List DeviceRecord}
    (hw : w.inFlight = none) (hd : w.daemon.maybeProbe c uid = .ok (d, records)) :
    ∃ as w', Runs.exec step w as = some w' ∧ w'.inFlight = none ∧ w'.daemon = d := by
  rcases maybeProbe_cases hd with (⟨-, rfl⟩ | ⟨helig, chip, hwrite⟩)
  · exact ⟨[], w, rfl, hw, rfl⟩
  · obtain ⟨w₁, hcheck, hflight, hdaemon⟩ : ∃ w₁, step w (.check uid) = some w₁ ∧
        w₁.inFlight = some uid ∧ w₁.daemon = w.daemon := by
      simp only [step, hw, if_true, helig]
      exact ⟨_, rfl, rfl, rfl⟩
    obtain ⟨w₂, hw₂, hflight₂, hdaemon₂⟩ : ∃ w₂,
        step w₁ (.write c.wall uid (c.probe uid).result chip) = some w₂ ∧
          w₂.inFlight = none ∧ w₂.daemon = d := by
      simp only [step, hflight, if_true, hdaemon, hwrite]
      exact ⟨_, rfl, rfl, rfl⟩
    refine ⟨[.check uid, .write c.wall uid (c.probe uid).result chip], w₂, ?_, hflight₂, hdaemon₂⟩
    exact Runs.exec_cons.mpr ⟨w₁, hcheck, Runs.exec_cons.mpr ⟨w₂, hw₂, rfl⟩⟩

/-- A whole cycle, returning or raising, is a run of its blocks. -/
theorem exec_runOnce (w : Watch) (c : Cycle) (hw : w.inFlight = none) :
    ∃ as w', Runs.exec step w (.diff c :: as) = some w' ∧ w'.inFlight = none ∧
      w'.daemon = (w.daemon.runOnce c).daemon := by
  obtain ⟨w₁, hw₁, hflight, hdaemon⟩ : ∃ w₁, step w (.diff c) = some w₁ ∧ w₁.inFlight = none ∧
      w₁.daemon = (w.daemon.lockedBlock c).1 := by
    simp only [step, hw, if_true]
    exact ⟨_, rfl, rfl, rfl⟩
  have hprobe : ∀ (w : Watch) uid (l : List String) d records, w.inFlight = none →
      w.daemon.maybeProbe c uid = .ok (d, records) → ∃ as w', Runs.exec step w as = some w' ∧
        Runs.Meets step (fun _ _ => True) w as ∧ w'.inFlight = none ∧ w'.daemon = d := by
    intro w uid l d records h hd
    obtain ⟨as, w', hrun, hnone, hres⟩ := exec_maybeProbe h hd
    exact ⟨as, w', hrun, Runs.meets_of_forall fun _ _ _ => trivial, hnone, hres⟩
  obtain ⟨as, w', -, hrun, -, hnone, hres⟩ :=
    exec_runOnce_of_probe (fun _ _ => True) Watch.daemon (fun w _ => w.inFlight = none)
      hprobe hw₁ trivial hdaemon hflight fun _ _ => rfl
  exact ⟨as, w', hrun, hnone, hres⟩

end Blocks

section Runs

variable {w w' : Watch} {a : Action}

/-- What holds between two blocks: every awaited board is due, and none of them is in flight. -/
structure Inv (w : Watch) : Prop where
  due : ∀ u, w.awaiting u = true → Due w.daemon u
  flight : ∀ u, w.inFlight = some u → w.awaiting u = false

theorem inv_start (d : Daemon) : Inv (start d) :=
  ⟨fun _ h => by simp [start] at h, fun _ h => by simp [start] at h⟩

theorem Inv.diff {c : Cycle} (h : Inv w) (hok : ok w (.diff c)) (hs : step w (.diff c) = some w') :
    Inv w' := by
  simp only [step] at hs
  split at hs
  · cases hs
    refine ⟨fun u hu => ?_, fun u hu => by cases hu⟩
    by_cases harr : arrives w c u = true
    · have ho : owned w.daemon c u = true := (Bool.and_eq_true_iff.mp harr).1
      have hnot : ¬ GivesUp w.daemon c u := fun hg => hg.1 (owned_iff.mp ho).1
      exact (due_diff_of_fresh ho (hok.1 u harr)).lockedBlock hnot
    · have haw : w.awaiting u = true := by simpa [harr] using hu
      exact (h.due u haw).diff.lockedBlock (hok.2 u haw)
  · cases hs

theorem Inv.check {uid : String} (h : Inv w) (hs : step w (.check uid) = some w') : Inv w' := by
  simp only [step] at hs
  split at hs
  · split at hs
    · cases hs
      refine ⟨fun u hu => h.due u ?_, fun u hu => ?_⟩
      · exact (Bool.and_eq_true_iff.mp hu).1
      · cases hu
        simp
    · cases hs
      exact h
  · cases hs

theorem Inv.write {wall : ℕ} {uid : String} {result : Option ProbeResult}
    {chip : Option (String × ℕ)} (h : Inv w) (hs : step w (.write wall uid result chip) = some w') :
    Inv w' := by
  simp only [step] at hs
  split at hs
  · rename_i hf
    cases hs
    refine ⟨fun u hu => ?_, fun u hu => by cases hu⟩
    refine probeWrite_rest ?_ (h.due u hu)
    rintro rfl
    simp [h.flight uid hf] at hu
  · cases hs

theorem Inv.peer {host : String} {input : Peering.Input} (h : Inv w)
    (hok : ok w (.peer host input)) (hs : step w (.peer host input) = some w') : Inv w' := by
  simp only [step] at hs
  cases hs
  refine ⟨fun u hu => ?_, h.flight⟩
  rcases h.due u hu with (hrow | hp)
  · refine Or.inl ?_
    rcases hok u hu with (⟨r, hr, hh, hd⟩ | hn)
    · exact HasUnprobed.of_get hrow ((Peering.applyInput_local input hr hh hd).trans hr.symm)
    · exact HasUnprobed.applyInput hrow hn
  · exact Or.inr hp

theorem Inv.restart (hok : ok w .restart) (hs : step w .restart = some w') : Inv w' := by
  simp only [step] at hs
  cases hs
  exact ⟨fun u hu => Or.inl (hok u hu).sweepVirtual, fun u hu => by cases hu⟩

theorem Inv.step (h : Inv w) (hok : ok w a) (hs : step w a = some w') : Inv w' := by
  cases a with
  | diff c => exact h.diff hok hs
  | check uid => exact h.check hs
  | write wall uid result chip => exact h.write hs
  | peer host input => exact h.peer hok hs
  | acquire now uid kind holder label =>
    cases hs
    exact ⟨fun u hu => (h.due u hu).of_row_pending rfl id, h.flight⟩
  | release now uid holder =>
    cases hs
    exact ⟨fun u hu => (h.due u hu).releaseLock, h.flight⟩
  | forceRelease now uid =>
    simp only [Arrival.step] at hs
    split at hs
    · cases hs
      exact h
    · cases hs
      exact ⟨fun u hu => (h.due u hu).releaseLock, h.flight⟩
  | restart => exact Inv.restart hok hs

theorem Eligible.attachPass {d : Daemon} {c : Cycle} {u : String} (h : Eligible d u) :
    Eligible (d.attachPass d.previouslyAttached c).1 u := by
  obtain ⟨-, hp, -⟩ := attachPass_rest d d.previouslyAttached c
  rcases h with (⟨r, hr, hl⟩ | hpend)
  · refine Or.inl ?_
    by_cases hs : u ∈ c.scan.keys
    · obtain ⟨info, hinfo⟩ := mem_scan_keys_iff.mp hs
      rw [attachPass_get_of_scanned d _ hinfo]
      split
      · exact ⟨r, hr, hl⟩
      · refine ⟨_, rfl, attachedRow_lastProbe.mpr ?_⟩
        rw [hr]
        rintro q hq
        exact Or.inr (Option.some.inj hq ▸ hl)
    · rw [attachPass_get_of_absent d _ hs]
      exact ⟨r, hr, hl⟩
  · refine Or.inr ?_
    rwa [hp]

/-- In a run of such steps every board that arrived is eligible until it is probed: in every
state, and after the attach pass of every next cycle. -/
theorem arrivals_stay_eligible (d : Daemon) (as : List Action) (w : Watch)
    (hm : Runs.Meets step ok (start d) as) (hr : Runs.exec step (start d) as = some w) :
    (∀ u, w.awaiting u = true → Eligible w.daemon u) ∧
    ∀ c u, ok w (.diff c) → (w.awaiting u = true ∨ arrives w c u = true) →
      Eligible (w.daemon.attachPass w.daemon.previouslyAttached c).1 u := by
  have hinv : Inv w := Runs.inv_of_meets (fun _ _ _ h hok hs => h.step hok hs) (inv_start d) hm hr
  refine ⟨fun u hu => (hinv.due u hu).eligible, fun c u hok hu => ?_⟩
  rcases hu with (haw | harr)
  · exact (hinv.due u haw).eligible.attachPass
  · have ho : owned w.daemon c u = true := (Bool.and_eq_true_iff.mp harr).1
    exact (eligible_attachPass_iff ho).mpr (hok.1 u harr)

end Runs

/-- A peer attaches the board, probes it, and then it is plugged in here. -/
def takenOver : List Action :=
  [.peer "loki" (.event 3 { Peering.Event.ofType .attach with
      uid := some "9900a", port := some "/dev/ttyACM4", vidPid := some "0d28:0204" }),
    .peer "loki" (.event 5 { Peering.Event.ofType .identity with
      uid := some "9900a", state := some .attachedNoAnnounce }),
    .diff .oneBoard]

/-- A board taken over from a peer that probed it is never probed here. -/
theorem arrival_not_eligible :
    ¬ ∀ (d : Daemon) (as : List Action) (w : Watch), Runs.exec step (start d) as = some w →
      ∀ u, w.awaiting u = true → Eligible w.daemon u := by
  intro h
  have helig := h blank takenOver _ rfl "9900a" (by decide)
  revert helig
  decide

/-- The same board, seen absent and then plugged in: it is eligible. -/
theorem arrivals_stay_eligible_noBoard_oneBoard :
    Eligible (((blank.lockedBlock .noBoard).1.lockedBlock .oneBoard).1) "9900a" := by
  have hok : ∀ w : Watch, (∀ u, w.daemon.store.get u = none) → (∀ u, w.awaiting u = false) →
      ∀ c, ok w (.diff c) := by
    intro w hs ha c
    refine ⟨fun u _ => Or.inl fun r hr => ?_, fun u hu => ?_⟩
    · rw [hs] at hr
      cases hr
    · rw [ha] at hu
      cases hu
  have hmeets : Runs.Meets step ok (start blank) [.diff .noBoard, .diff .oneBoard] := by
    refine ⟨hok _ (fun _ => rfl) (fun _ => rfl) .noBoard, fun w hw => ?_⟩
    cases hw
    exact ⟨hok _ (fun _ => rfl) (fun _ => rfl) .oneBoard, fun _ _ => trivial⟩
  exact (arrivals_stay_eligible blank [.diff .noBoard, .diff .oneBoard] _ hmeets rfl).1
    "9900a" (by decide)

end MbTools.Arrival
