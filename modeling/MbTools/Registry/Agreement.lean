import MbTools.Registry.Probe

/-! # The store after a cycle

When a cycle returns, the locally attached rows are those of the scanned boards
this instance owns, together with the boards it gave up on: these are marked
known-blank although they are not there.
-/

namespace MbTools.Daemon

open Store DeviceRecord

variable {d : Daemon} {c : Cycle} {k : String}

/-- The uid has a locally owned, attached, non-virtual row. -/
def Attached (s : Store) (k : String) : Prop := ∃ r, s.get k = some r ∧ r.IsLocal

instance (s : Store) (k : String) : Decidable (Attached s k) :=
  decidable_of_iff ((s.get k).any (decide ·.IsLocal) = true)
    (by simp [Attached, Option.any_eq_true])

/-- Scanned, and attached before or claimed in this cycle. -/
def Owned (d : Daemon) (c : Cycle) (k : String) : Prop :=
  k ∈ c.scan.keys ∧ (k ∈ d.previouslyAttached ∨ c.claim k ≠ none)

/-- Not scanned, past its flash deadline, and of a local board's row. -/
def GivenUp (d : Daemon) (c : Cycle) (k : String) : Prop :=
  k ∉ c.scan.keys ∧ (∃ deadline, pendingAfterDiff d c k = some deadline ∧ deadline ≤ c.now) ∧
    ∃ r, d.store.get k = some r ∧ r.host = none ∧ r.isVirtual = false

/-- A uid this cycle attaches. -/
def NewlyClaimed (d : Daemon) (c : Cycle) (u : String) : Prop :=
  u ∈ c.scan.keys ∧ u ∉ d.previouslyAttached ∧ c.claim u ≠ none

/-- A uid this cycle detaches. -/
def Detached (d : Daemon) (c : Cycle) (u : String) : Prop :=
  u ∈ d.previouslyAttached ∧ u ∉ c.scan.keys

instance (d : Daemon) (c : Cycle) (u : String) : Decidable (NewlyClaimed d c u) :=
  inferInstanceAs (Decidable (_ ∧ _ ∧ _))

instance (d : Daemon) (c : Cycle) (u : String) : Decidable (Detached d c u) :=
  inferInstanceAs (Decidable (_ ∧ _))

theorem get_diff_of_newlyClaimed {u : String} (h : NewlyClaimed d c u) : ∃ info,
    c.scan.lookup u = some info ∧
      (d.attachPass d.previouslyAttached c).1.store.get u =
        some (attachedRow c.wall u info (d.store.get u)) ∧
      (d.diff c).1.store.get u = some (attachedRow c.wall u info (d.store.get u)) := by
  obtain ⟨hs, hp, hc⟩ := h
  obtain ⟨info, hinfo⟩ := mem_scan_keys_iff.mp hs
  refine ⟨info, hinfo, ?_, ?_⟩
  · rw [attachPass_get_of_scanned d _ hinfo, if_neg fun h => h.elim hp hc]
  · rw [diff_get, rowAfterDiff, hinfo]
    simp only
    rw [if_neg fun h => h.elim hp hc]

theorem get_diff_of_not {u : String} (hn : ¬ NewlyClaimed d c u) (hd : ¬ Detached d c u) :
    (d.diff c).1.store.get u = d.store.get u := by
  rw [diff_get, rowAfterDiff]
  split
  · rename_i info hinfo
    have hs : u ∈ c.scan.keys := mem_scan_keys_iff.mpr ⟨info, hinfo⟩
    rw [if_pos]
    by_contra hc
    rw [not_or] at hc
    exact hn ⟨hs, hc.1, hc.2⟩
  · rename_i hs
    rw [if_neg fun hp => hd ⟨hp, not_mem_scan_keys_iff.mpr hs⟩]

theorem get_diff_of_detached {u : String} (hd : Detached d c u) :
    (d.diff c).1.store.get u = (d.store.get u).map (·.gone c.wall) := by
  rw [diff_get, rowAfterDiff, not_mem_scan_keys_iff.mp hd.2]
  simp only
  rw [if_pos hd.1]

theorem diff_attached_iff : Attached (d.diff c).1.store k ↔ Owned d c k := by
  unfold Attached Owned
  rw [diff_get, rowAfterDiff]
  cases hs : c.scan.lookup k with
  | some info =>
    have hk : k ∈ c.scan.keys := mem_scan_keys_iff.mpr ⟨info, hs⟩
    simp only [hk, true_and]
    split
    · rename_i h
      rw [← mem_previouslyAttached_iff]
      constructor
      · exact Or.inl
      · rintro (hp | hc)
        · exact hp
        · exact h.resolve_right hc
    · rename_i h
      rw [not_or] at h
      exact ⟨fun _ => Or.inr h.2, fun _ => ⟨_, rfl, attachedRow_spec.1⟩⟩
  | none =>
    have hk : k ∉ c.scan.keys := not_mem_scan_keys_iff.mpr hs
    simp only [hk, false_and, iff_false]
    split
    · rintro ⟨r, hr, -, hd, -⟩
      obtain ⟨q, -, rfl⟩ := Option.map_eq_some_iff.mp hr
      exact hd rfl
    · rename_i h
      rwa [← mem_previouslyAttached_iff]

theorem diff_local_iff (hk : k ∉ c.scan.keys) :
    (∃ r, (d.diff c).1.store.get k = some r ∧ r.host = none ∧ r.isVirtual = false) ↔
      ∃ r, d.store.get k = some r ∧ r.host = none ∧ r.isVirtual = false := by
  rw [diff_get, rowAfterDiff, not_mem_scan_keys_iff.mp hk]
  simp only
  split
  · cases d.store.get k with
    | none => simp
    | some r => simp
  · rfl

theorem giveUp_attached_iff {d₁ : Daemon} {timedOut : List DeviceRecord}
    (hg : d.lockedBlock c = (d₁, .ok timedOut)) :
    Attached d₁.store k ↔ Owned d c k ∨ GivenUp d c k := by
  have hloop := giveUpLoop_ok (d.diff c).1.flashPending.nodup hg rfl k
  have hd : Attached (d.diff c).1.store k ↔ Owned d c k := diff_attached_iff
  by_cases hexp : Expired c (d.diff c).1.flashPending.rows k
  · have hk := hexp.1
    have hno : ¬ Owned d c k := fun ho => hk ho.1
    obtain ⟨hget, -⟩ := hloop.1 hexp
    obtain ⟨-, hdl⟩ := expired_iff.mp hexp
    rw [or_iff_right hno, Attached, hget]
    constructor
    · rintro ⟨q, hq, hh, -, hv⟩
      obtain ⟨r, hr, rfl⟩ := Option.map_eq_some_iff.mp hq
      exact ⟨hk, hdl, (diff_local_iff hk).mp ⟨r, hr, hh, hv⟩⟩
    · rintro ⟨-, -, hrow⟩
      obtain ⟨r, hr, hh, hv⟩ := (diff_local_iff hk).mpr hrow
      exact ⟨r.knownBlank c.wall, by rw [hr]; rfl, hh, by simp [knownBlank], hv⟩
  · have hno : ¬ GivenUp d c k := fun hgu => hexp (expired_iff.mpr ⟨hgu.1, hgu.2.1⟩)
    rw [or_iff_left hno, Attached, hloop.2 hexp]
    exact hd

/-- A locked block that gives up on no local board leaves exactly the owned ones attached,
whether it returns or raises. -/
theorem lockedBlock_attached_iff (hg : ∀ u, ¬ GivenUp d c u) :
    Attached (d.lockedBlock c).1.store k ↔ Owned d c k := by
  have hd : Attached (d.diff c).1.store k ↔ Owned d c k := diff_attached_iff
  rcases giveUpLoop_cases (d.diff c).1.flashPending.rows (d.diff c).1 [] k with
    (hsame | ⟨hexp, r, q, hr, hq, hh, hv, -⟩)
  · unfold Attached lockedBlock
    rw [hsame]
    exact hd
  · have hk := hexp.1
    have hno : ¬ Owned d c k := fun ho => hk ho.1
    refine ⟨?_, fun ho => absurd ho hno⟩
    rintro ⟨q', hq', hl⟩
    unfold lockedBlock at hq'
    rw [hq, Option.some.injEq] at hq'
    subst hq'
    exact absurd ⟨hk, (expired_iff.mp hexp).2,
      (diff_local_iff hk).mp ⟨r, hr, hh ▸ hl.1, hv ▸ hl.2.2⟩⟩ (hg k)

theorem lockedBlock_locks (hk : k ∈ c.scan.keys) :
    (d.lockedBlock c).1.locks.status k = d.locks.status k := by
  unfold lockedBlock
  rw [giveUpLoop_locks, diff_locks, if_neg fun h => h.2 hk]

theorem probeWrite_attached_iff {wall : ℕ} {uid : String} {result : Option ProbeResult}
    {chip : Option (String × ℕ)} {d' : Daemon} (hu : Attached d.store uid)
    (h : d.probeWrite wall uid result chip = .ok d') :
    Attached d'.store k ↔ Attached d.store k := by
  obtain ⟨r, hr, hq, hother, -⟩ := probeWrite_spec h
  by_cases hk : uid = k
  · subst hk
    refine ⟨fun _ => hu, fun ⟨r', hr', hl⟩ => ?_⟩
    rw [hr, Option.some.injEq] at hr'
    subst hr'
    obtain ⟨-, hh, -, hv, hs, -⟩ :=
      outcomeRow_spec wall (d.flashPending.lookup uid).isSome result chip r
    exact ⟨_, hq, hh.trans hl.1, hs, hv.trans hl.2.2⟩
  · unfold Attached
    rw [hother k hk]

theorem purge_attached_iff {s : Store} {deviceUids peerHosts : List String} :
    Attached (s.purge deviceUids peerHosts) k ↔ Attached s k := by
  have hdev : ∀ (t : Store) (u : String), Attached (t.purgeDevice u) k ↔ Attached t k := by
    intro t u
    unfold Store.purgeDevice
    split
    · rfl
    · rename_i r hr
      split
      · rename_i hp
        unfold Attached
        rw [get_deleteRow]
        split
        · rename_i hk
          subst hk
          rw [hr]
          refine ⟨fun ⟨_, h, _⟩ => absurd h (by simp), fun ⟨q, hq, hl⟩ => ?_⟩
          cases hq
          simp [purgeable, peerUnreachable, hl.1, hl.2.1] at hp
        · rfl
      · rfl
  have hpeer : ∀ (t : Store) (h : String), (t.purgePeer h).device = t.device := by
    intro t h
    unfold Store.purgePeer
    split
    · rfl
    · split <;> rfl
  unfold Store.purge
  refine Pass.foldl_inv (P := fun t => Attached t k ↔ Attached s k) (fun t h _ ht => ?_)
    (Pass.foldl_inv (P := fun t => Attached t k ↔ Attached s k)
      (fun t u _ ht => (hdev t u).trans ht) Iff.rfl)
  rw [← ht]
  unfold Attached Store.get
  rw [hpeer]

theorem probeLoop_attached_iff {l : List String} {t : List DeviceRecord}
    (hl : ∀ uid ∈ l, Attached d.store uid) :
    (Attached (probeLoop c l d t).1.store k ↔ Attached d.store k) ∧
      ∀ r, d.store.get k = some r → k ∈ l →
        ∃ q, (probeLoop c l d t).1.store.get k = some q ∧ q.port = r.port := by
  obtain ⟨hout, hin⟩ := probeLoop_get (c := c) l d t hl k
  by_cases hk : k ∈ l
  · refine ⟨⟨fun _ => hl k hk, fun ⟨r, hr, _⟩ => ?_⟩, fun r hr _ => ?_⟩
    · obtain ⟨q, hq, hql, -⟩ := hin hk r hr
      exact ⟨q, hq, hql⟩
    · obtain ⟨q, hq, -, hqp⟩ := hin hk r hr
      exact ⟨q, hq, hqp⟩
  · exact ⟨by rw [Attached, hout hk]; rfl, fun _ _ hm => absurd hm hk⟩

theorem runOnce_of_error_none (h : (d.runOnce c).error = none) : ∃ d₁ timedOut,
    d.lockedBlock c = (d₁, .ok timedOut) ∧
      (d.runOnce c).daemon = (probeLoop c (d.diff c).2.2.1 d₁ []).1 := by
  unfold runOnce at h ⊢
  cases hg : d.lockedBlock c with
  | mk d₁ res =>
    cases res with
    | error e => simp [hg] at h
    | ok timedOut => exact ⟨d₁, timedOut, rfl, rfl⟩

/-- When `run_once` returns: the attached rows are the owned scanned boards and the boards given
up on, and a newly claimed board's row is on the port just scanned. -/
theorem attached_iff_owned_or_givenUp (d : Daemon) (c : Cycle) (k : String)
    (h : (d.runOnce c).error = none) :
    (Attached (d.runOnce c).daemon.store k ↔ Owned d c k ∨ GivenUp d c k) ∧
    (∀ info, c.scan.lookup k = some info → k ∉ d.previouslyAttached → c.claim k ≠ none →
      ∃ r, (d.runOnce c).daemon.store.get k = some r ∧ r.port = some info.port) := by
  obtain ⟨d₁, timedOut, hg, hrun⟩ := runOnce_of_error_none h
  have howned : ∀ uid ∈ (d.diff c).2.2.1, Attached d₁.store uid := fun uid hu =>
    (giveUp_attached_iff hg).mpr (Or.inl (mem_diff_owned_iff.mp hu))
  obtain ⟨hatt, hport⟩ := probeLoop_attached_iff (c := c) (k := k) (t := []) howned
  rw [hrun]
  refine ⟨hatt.trans (giveUp_attached_iff hg), ?_⟩
  intro info hs hp hc
  have hk : k ∈ c.scan.keys := mem_scan_keys_iff.mpr ⟨info, hs⟩
  have hrow : d₁.store.get k = some (attachedRow c.wall k info (d.store.get k)) := by
    have h1 := (giveUpLoop_of_not_expired (l := (d.diff c).1.flashPending.rows) (d := (d.diff c).1)
      (t := []) fun he => he.1 hk).1
    unfold lockedBlock at hg
    rw [hg, diff_get, rowAfterDiff, hs] at h1
    simpa only [hp, hc, or_self, if_false] using h1
  obtain ⟨q, hq, hqp⟩ := hport _ hrow (mem_diff_owned_iff.mpr ⟨hk, Or.inr hc⟩)
  exact ⟨q, hq, hqp.trans attachedRow_spec.2⟩

/-- A board that left during a flash, as the store has it after its detach. -/
def flashedAway : Daemon where
  store := ((Store.empty.upsertAttached 1 "9900a" "/dev/ttyACM0" "0d28:0204").markDisconnected 2
    "9900a").toOption.getD Store.empty
  locks := Table.empty
  claims := Table.empty
  flashPending := Dict.insert Table.empty "9900a" 10
  flashReprobeTimeout := 8
  casing := .ascii

/-- The give-up leaves an absent board attached: the rows and the scan do not agree. -/
theorem attached_ne_scanned :
    ¬ ∀ (d : Daemon) (c : Cycle), Reachable d.store → (d.runOnce c).error = none → ∀ k port,
      (∃ r, (d.runOnce c).daemon.store.get k = some r ∧ r.IsLocal ∧ r.port = some port) ↔
        Owned d c k ∧ ∃ info, c.scan.lookup k = some info ∧ info.port = port := by
  intro h
  have hreach : Reachable flashedAway.store :=
    ⟨[.attached 1 "9900a" "/dev/ttyACM0" 0x0d28 0x0204 (by decide), .disconnected 2 "9900a"],
      by decide⟩
  obtain ⟨hs, -⟩ := ((h flashedAway .noBoard hreach (by decide) "9900a" "/dev/ttyACM0").mp
    ⟨_, by rfl, by decide, by decide⟩).1
  revert hs
  decide

/-- The same cycle: nothing is owned, and the board is attached because it was given up on. -/
theorem attached_iff_owned_or_givenUp_flashedAway :
    Attached (flashedAway.runOnce .noBoard).daemon.store "9900a" ↔
      Owned flashedAway .noBoard "9900a" ∨ GivenUp flashedAway .noBoard "9900a" :=
  (attached_iff_owned_or_givenUp flashedAway .noBoard "9900a" (by decide)).1

end MbTools.Daemon
