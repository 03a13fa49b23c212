import MbTools.Api.Owed

/-! # The map, step by step

For every kind of step: the map agrees with the lock table after it if and only
if the step keeps its condition. A step is looked at one uid at a time, and only
the uids it names take an argument.
-/

namespace MbTools.Api

open Store Runs

namespace Ledger

section Steps

variable {w w' : Ledger} {i now : ℕ} {uid : String}

theorem agrees_connect {server : Server} {holder : HolderRef} (hb : w.Balanced) (hm : w.sys.MidOp)
    (ha : w.AgreesAt uid) (hs : w.step (.connect i server holder) = some w') :
    w'.AgreesAt uid := by
  have hb' := hb.step hs
  have hsys := (step_eq_some.mp hs).2.1
  simp only [System.step, Option.ite_none_right_eq_some, Option.some.injEq] at hsys
  obtain ⟨⟨hnew, -, -⟩, he⟩ := hsys
  have hconns : w'.sys.conns = w.sys.conns.insert i ⟨server, holder, [], false, .idle⟩ := by
    rw [← he]
    rfl
  have hdaemon : w'.sys.daemon = w.sys.daemon := by
    rw [← he]
    rfl
  have hmark := System.mark_insert hconns
  have hpres : ∀ j, w'.sys.daemon.locks.status uid ≠ none → w'.granted.lookup uid = some j →
      (w'.sys.Present uid j ↔ w.sys.Present uid j) := by
    intro j hheld hgr
    have hij : i ≠ j := by
      rintro rfl
      obtain ⟨c, hc, hu⟩ := hb'.listed hheld hgr
      rw [hconns, Dict.lookup_insert_self] at hc
      obtain rfl := Option.some.inj hc
      cases hu
    rw [System.Present, System.Present, hmark j, if_neg hij]
  have howed (j : ℕ) := owed_step hs (fun _ _ _ _ he => by cases he) (hpres j)
  exact agreesAt_of_untouched hb hm ha howed
    (leaving_iff_of_mark hmark (by simp [Leaving, System.mark, hnew, hconns, Mode.pending]))
    (by rw [← he]; rfl) (by rw [hdaemon])

theorem agrees_track (hb : w.Balanced) (hm : w.sys.MidOp) (ha : ∀ uid, w.AgreesAt uid)
    (hs : w.step (.track i) = some w') : w.KeepsMap (.track i) ↔ ∀ uid, w'.AgreesAt uid := by
  obtain ⟨-, hsys, hg⟩ := step_eq_some.mp hs
  obtain ⟨c, u, hc, hmode, hdaemon, hmap, hconns⟩ := System.track_step hsys
  have hserver := (hm i c u hc).1 hmode
  have hgr : w'.granted = w.granted := hg
  have hmark : ∀ j, w'.sys.mark j = if i = j then some (c.server, .idle) else w.sys.mark j :=
    System.mark_insert hconns
  have hmi : w.sys.mark i = some (.socket, .tracking u) := by
    rw [System.mark_of_conn hc, hmode, hserver]
    rfl
  -- at the uid that is written down, everything is owed to this connection
  have hown : w'.AgreesAt u ↔
      ∃ st, w.sys.daemon.locks.status u = some st ∧ w.granted.lookup u = some i := by
    have hi : w'.sys.uidConnections.lookup u = some i := by rw [hmap, Dict.lookup_insert_self]
    constructor
    · rintro ⟨-, h⟩
      rcases h i hi with (⟨⟨st, hst⟩, hgi, -⟩ | hl)
      · exact ⟨st, hdaemon ▸ hst, hgr ▸ hgi⟩
      · simp [Leaving, hmark] at hl
    · rintro ⟨st, hst, hgi⟩
      have howed : w'.Owed u i :=
        ⟨⟨st, hdaemon ▸ hst⟩, hgr ▸ hgi, .idle, by simp [hmark, hserver],
          fun he => by cases he⟩
      constructor
      · rintro j ⟨-, hgj, -⟩
        rw [hi, ← hgj, hgr, hgi]
      · intro j hj
        obtain rfl := Option.some.inj (hi.symm.trans hj)
        exact Or.inl howed
  have hother : ∀ v, v ≠ u → w'.AgreesAt v := by
    intro v hv
    have hpres : ∀ j, w'.sys.Present v j ↔ w.sys.Present v j :=
      present_iff_of_mark hmark (by simp [System.Present, hmark, hmi, hserver, Ne.symm hv])
    have hleave : ∀ j, w'.Leaving v j ↔ w.Leaving v j :=
      leaving_iff_of_mark hmark (by simp [Leaving, hmark, hmi])
    have howed (j : ℕ) :=
      owed_step hs (fun _ _ _ _ he => by cases he) fun _ _ => hpres j
    exact agreesAt_of_untouched hb hm (ha v) howed
      hleave (by rw [hmap, Dict.lookup_insert_of_ne (Ne.symm hv)]) (by rw [hdaemon])
  constructor
  · intro hok v
    by_cases hv : v = u
    · subst hv
      exact hown.mpr (hok c v hc hmode)
    · exact hother v hv
  · intro h x v hx hxm
    obtain rfl := Option.some.inj (hc.symm.trans hx)
    obtain rfl := Mode.tracking.inj (hmode.symm.trans hxm)
    exact hown.mp (h u)

theorem agrees_untrack (hb : w.Balanced) (hm : w.sys.MidOp) (ha : ∀ uid, w.AgreesAt uid)
    (hs : w.step (.untrack i) = some w') : w.KeepsMap (.untrack i) ↔ ∀ uid, w'.AgreesAt uid := by
  obtain ⟨c, u, hc, hmode, hdaemon, hmap, hconns⟩ :=
    System.untrack_step (step_eq_some.mp hs).2.1
  have hmark : ∀ j, w'.sys.mark j = if i = j then some (c.server, .idle) else w.sys.mark j :=
    System.mark_insert hconns
  have hmi : w.sys.mark i = some (c.server, .untracking u) := by
    rw [System.mark_of_conn hc, hmode]
    rfl
  have howed : ∀ v j, w'.Owed v j ↔ w.Owed v j ∧ w'.sys.daemon.locks.status v ≠ none := by
    intro v j
    exact owed_step hs (fun _ _ _ _ he => by cases he) fun _ _ =>
      present_iff_of_mark hmark (by simp [System.Present, hmark, hmi]) j
  have hown : w'.AgreesAt u ↔ ∀ j, ¬ w.Owed u j := by
    rw [agreesAt_iff_of_dropped (howed u) (by rw [hmap, Dict.lookup_erase_self])]
    constructor
    · rintro h j ⟨⟨st, hst⟩, hj⟩
      have hn := h j ⟨⟨st, hst⟩, hj⟩
      rw [hdaemon, hst] at hn
      cases hn
    · exact fun h j hj => absurd hj (h j)
  have hother : ∀ v, v ≠ u → w'.AgreesAt v := by
    intro v hv
    have hleave : ∀ j, w'.Leaving v j ↔ w.Leaving v j :=
      leaving_iff_of_mark hmark (by simp [Leaving, hmark, hmi, Ne.symm hv])
    exact agreesAt_of_untouched hb hm (ha v) (howed v) hleave
      (by rw [hmap, Dict.lookup_erase_of_ne (Ne.symm hv)]) (by rw [hdaemon])
  constructor
  · intro hok v
    by_cases hv : v = u
    · subst hv
      exact hown.mpr fun j => hok c v j hc hmode
    · exact hother v hv
  · intro h x v j hx hxm
    obtain rfl := Option.some.inj (hc.symm.trans hx)
    obtain rfl := Mode.untracking.inj (hmode.symm.trans hxm)
    exact hown.mp (h u) j

theorem agrees_lock {req : LockRequest} (hb : w.Balanced) (hm : w.sys.MidOp)
    (ha : ∀ uid, w.AgreesAt uid) (hs : w.step (.lock i now req) = some w') :
    w.KeepsMap (.lock i now req) ↔ ∀ uid, w'.AgreesAt uid := by
  obtain ⟨-, hsys, hg⟩ := step_eq_some.mp hs
  rcases System.lock_step hsys with
    (⟨hsame, hno⟩ | ⟨c, u, hc, hidle, ht, hfree, honly, ⟨st, hst⟩, hmap, hconns⟩)
  · have hok : w.KeepsMap (.lock i now req) := fun c uid _ _ ht => absurd ht (hno uid c.holder)
    exact iff_of_true hok fun v => agrees_refused hb hm (ha v) hs (hno v) hsame
  have hgu : w'.granted.lookup u = some i := by
    rw [hg]
    rcases grant_of_takes ht with (⟨_, _, _, he, hi⟩ | ⟨_, _, he, -⟩)
    · cases he
      exact hi
    · cases he
  have hmi : w.sys.mark i = some (c.server, .idle) := by
    rw [System.mark_of_conn hc, hidle]
    rfl
  have hmark : ∀ j, w'.sys.mark j = if i = j then
      some (c.server, if c.server = .socket ∧ u ∉ c.acquired then .tracking u else .idle)
      else w.sys.mark j := by
    intro j
    rw [System.mark_insert hconns, Mode.pending_ite]
    rfl
  have hleave : ∀ v j, w'.Leaving v j ↔ w.Leaving v j := by
    intro v
    apply leaving_iff_of_mark hmark
    by_cases hsock : c.server = .socket ∧ u ∉ c.acquired <;> simp [Leaving, hmark, hmi, hsock]
  have hother : ∀ v, v ≠ u → w'.AgreesAt v := by
    intro v hv
    have hpres : ∀ j, w'.sys.Present v j ↔ w.sys.Present v j := by
      apply present_iff_of_mark hmark
      by_cases hsock : c.server = .socket ∧ u ∉ c.acquired <;>
        simp [System.Present, hmark, hmi, hsock, Ne.symm hv]
    exact agreesAt_of_untouched hb hm (ha v) (fun j => owed_step hs
      (fun _ _ _ h he hv' => hv (honly v h (he ▸ hv'))) fun _ _ => hpres j) (hleave v)
      (by rw [hmap]) (by rw [hst v, if_neg (Ne.symm hv)])
  have hown : w'.AgreesAt u ↔ ¬ (c.server = .socket ∧ u ∈ c.acquired) := by
    refine (agreesAt_iff_of_taken (ha u) hfree (by simp [Leaving, hmi])
      (by rw [hst u, if_pos rfl]) hgu (hleave u) hmap).trans (not_congr ?_)
    by_cases hu : u ∈ c.acquired <;> simp [System.Present, hmark, hu]
  constructor
  · intro hok v
    by_cases hv : v = u
    · subst hv
      exact hown.mpr fun hsock => hok c v hc hsock.1 ht hsock.2
    · exact hother v hv
  · intro h x v hx hserver hv hu
    obtain rfl := Option.some.inj (hc.symm.trans hx)
    obtain rfl := honly v c.holder hv
    exact hown.mp (h v) ⟨hserver, hu⟩

theorem agrees_unlock {x : Option String} (hb : w.Balanced) (hm : w.sys.MidOp)
    (ha : ∀ uid, w.AgreesAt uid) (hs : w.step (.unlock i now x) = some w') :
    w.KeepsMap (.unlock i now x) ↔ ∀ uid, w'.AgreesAt uid := by
  rcases System.unlock_step (step_eq_some.mp hs).2.1 with
    (⟨hsame, hno⟩ | ⟨c, u, hc, hidle, honly, hdaemon, hmap, hconns⟩)
  · have hok : w.KeepsMap (.unlock i now x) := fun c uid j _ hd => absurd hd (hno uid)
    exact iff_of_true hok fun v => agrees_refused hb hm (ha v) hs (fun _ => id) hsame
  have hmi : w.sys.mark i = some (c.server, .idle) := by
    rw [System.mark_of_conn hc, hidle]
    rfl
  have hmark : ∀ j, w'.sys.mark j = if i = j then
      some (c.server, if c.server = .socket ∧ u ∈ c.acquired then .untracking u else .idle)
      else w.sys.mark j := by
    intro j
    rw [System.mark_insert hconns, Mode.pending_ite]
    rfl
  have howed : ∀ v j, w'.Owed v j ↔ w.Owed v j ∧ w'.sys.daemon.locks.status v ≠ none := by
    intro v j
    refine owed_step hs (fun _ _ _ _ he => by cases he) fun _ _ => present_iff_of_mark hmark ?_ j
    by_cases hsock : c.server = .socket ∧ u ∈ c.acquired <;>
      simp [System.Present, hmark, hmi, hsock]
  have hstatus : ∀ v, w'.sys.daemon.locks.status v = if u = v then
      (w.sys.daemon.locks.status v).filter (·.holder ≠ c.holder)
      else w.sys.daemon.locks.status v := by
    intro v
    rw [hdaemon, releaseLock_status]
  have hother : ∀ v, v ≠ u → w'.AgreesAt v := by
    intro v hv
    have hleave : ∀ j, w'.Leaving v j ↔ w.Leaving v j := by
      apply leaving_iff_of_mark hmark
      by_cases hsock : c.server = .socket ∧ u ∈ c.acquired <;>
        simp [Leaving, hmark, hmi, hsock, Ne.symm hv]
    exact agreesAt_of_untouched hb hm (ha v) (howed v) hleave (by rw [hmap])
      (by rw [hstatus v, if_neg (Ne.symm hv)])
  -- a lock this connection is owed goes, and the connection is leaving from then on
  have hleaves : w.Owed u i → w'.Leaving u i := by
    intro ho
    obtain ⟨st, hst⟩ := ho.1
    obtain ⟨⟨y, hy, -, hu⟩, -⟩ := owed_of_balanced hb ho hst
    obtain rfl := Option.some.inj (hc.symm.trans hy)
    obtain ⟨-, -, m, hmj, -⟩ := ho
    rw [hmi, Option.some.injEq, Prod.mk.injEq] at hmj
    rw [Leaving, hmark i, if_pos rfl, if_pos ⟨hmj.1, hu⟩, hmj.1]
  have hown : w'.AgreesAt u ↔
      ∀ j, w.Owed u j → j ≠ i → ¬ Holds w.sys.daemon.locks u c.holder := by
    rw [agreesAt_iff_of_released hb hm (ha u) (howed u)
      (fun j hji => by rw [Leaving, Leaving, hmark j, if_neg (Ne.symm hji)])
      (by simp [Leaving, hmi]) hleaves hmap, hstatus u, if_pos rfl]
    exact forall_congr' fun j => forall_congr' fun hj =>
      forall_congr' fun _ => not_congr (gone_iff_holds hj.1)
  constructor
  · intro hok v
    by_cases hv : v = u
    · subst hv
      exact hown.mpr fun j => hok c v j hc ((honly v).mpr rfl)
    · exact hother v hv
  · intro h x v j hx hd
    obtain rfl := Option.some.inj (hc.symm.trans hx)
    obtain rfl := (honly v).mp hd
    exact hown.mp (h v) j

/-- Erasing a list of keys. -/
theorem lookup_foldl_erase (m : Dict String ℕ) (uids : List String) (v : String) :
    Dict.lookup (uids.foldl Table.erase m) v = if v ∈ uids then none else m.lookup v := by
  induction uids generalizing m with
  | nil => rfl
  | cons u uids ih =>
    rw [List.foldl_cons, ih, Dict.lookup_erase]
    by_cases hv : v ∈ uids
    · simp [hv]
    · by_cases hu : u = v
      · simp [hu]
      · simp [hv, hu, Ne.symm hu]

theorem agrees_hangUp (hb : w.Balanced) (hm : w.sys.MidOp) (ha : ∀ uid, w.AgreesAt uid)
    (hs : w.step (.hangUp i now) = some w') :
    w.KeepsMap (.hangUp i now) ↔ ∀ uid, w'.AgreesAt uid := by
  have hb' := hb.step hs
  obtain ⟨c, hc, hend, hdaemon, hconns, hmap⟩ := System.hangUp_step (step_eq_some.mp hs).2.1
  have hmark : ∀ j, w'.sys.mark j = if i = j then none else w.sys.mark j := by
    intro j
    rw [System.mark, hconns, Dict.lookup_erase]
    split
    · rfl
    · rfl
  have howed : ∀ v j, w'.Owed v j ↔ w.Owed v j ∧ w'.sys.daemon.locks.status v ≠ none := by
    intro v j
    refine owed_step hs (fun _ _ _ _ he => by cases he) fun hheld hgr => ?_
    have hij : i ≠ j := by
      rintro rfl
      obtain ⟨x, hx, -⟩ := hb'.listed hheld hgr
      rw [hconns, Dict.lookup_erase_self] at hx
      cases hx
    rw [System.Present, System.Present, hmark j, if_neg hij]
  have hleave : ∀ v j, w'.Leaving v j ↔ w.Leaving v j := by
    intro v
    have hpend : c.mode.pending ≠ .untracking v := fun he => by
      rw [Mode.eq_of_pending he] at hend
      cases hend
    exact leaving_iff_of_mark hmark (by simp [Leaving, hmark, System.mark_of_conn hc, hpend])
  have hstatus : ∀ v, w'.sys.daemon.locks.status v = if v ∈ c.acquired then
      (w.sys.daemon.locks.status v).filter (·.holder ≠ c.holder)
      else w.sys.daemon.locks.status v := by
    intro v
    rw [hdaemon, releaseAll_status]
  have hentry : ∀ v, w'.sys.uidConnections.lookup v =
      if c.server = .socket ∧ v ∈ c.acquired then none else w.sys.uidConnections.lookup v := by
    intro v
    rw [hmap, ite_and]
    split
    · rw [lookup_foldl_erase]
    · rfl
  have hat : ∀ v, w'.AgreesAt v ↔ (c.server = .socket → v ∈ c.acquired → ∀ j, w.Owed v j →
      Holds w.sys.daemon.locks v c.holder) := fun v =>
    agreesAt_iff_of_givenBack hb hm (ha v) hc (howed v) (hleave v) (hentry v) (hstatus v)
  constructor
  · exact fun hok v => (hat v).mpr fun hserver hv j => hok c v j hc hserver hv
  · intro h x v j hx hserver hv
    obtain rfl := Option.some.inj (hc.symm.trans hx)
    exact (hat v).mp (h v) hserver hv j

theorem agrees_flashEnd (hb : w.Balanced) (hm : w.sys.MidOp) (ha : ∀ uid, w.AgreesAt uid)
    (hs : w.step (.flashEnd i now) = some w') :
    w.KeepsMap (.flashEnd i now) ↔ ∀ uid, w'.AgreesAt uid := by
  obtain ⟨c, u, hc, hmode, hdaemon, hmap⟩ := System.flashEnd_step (step_eq_some.mp hs).2.1
  have hstatus : ∀ v, w'.sys.daemon.locks.status v = if u = v then
      (w.sys.daemon.locks.status v).filter (·.holder ≠ c.holder)
      else w.sys.daemon.locks.status v := by
    intro v
    rw [hdaemon, releaseLock_status]
  have hentry : ∀ v, w'.sys.uidConnections.lookup v =
      if c.server = .socket ∧ u = v then none else w.sys.uidConnections.lookup v := by
    intro v
    rw [hmap, ite_and]
    split
    · rw [Dict.lookup_erase]
    · rfl
  have hat : ∀ v, w'.AgreesAt v ↔ (c.server = .socket → u = v → ∀ j, w.Owed v j →
      Holds w.sys.daemon.locks v c.holder) := fun v =>
    agreesAt_iff_of_givenBack hb hm (ha v) hc (owed_of_stay hs rfl) (leaving_of_stay hs rfl)
      (hentry v) (hstatus v)
  constructor
  · rintro hok v
    refine (hat v).mpr fun hserver huv j => ?_
    subst huv
    exact hok c u j hc hserver hmode
  · intro h x v j hx hserver hv
    obtain rfl := Option.some.inj (hc.symm.trans hx)
    obtain rfl := Mode.flashing.inj (hmode.symm.trans hv)
    exact (hat u).mp (h u) hserver rfl j

theorem agrees_streamEnd (hb : w.Balanced) (hm : w.sys.MidOp) (ha : ∀ uid, w.AgreesAt uid)
    (hs : w.step (.streamEnd i now) = some w') :
    w.KeepsMap (.streamEnd i now) ↔ ∀ uid, w'.AgreesAt uid := by
  obtain ⟨c, t, hc, hmode, hdaemon, hmap⟩ := System.streamEnd_step (step_eq_some.mp hs).2.1
  have hat : ∀ v, w'.AgreesAt v ↔ ∀ j, w.Owed v j → t.uid = v →
      ¬ Holds w.sys.daemon.locks v c.holder := by
    intro v
    rw [agreesAt_iff_of_stay hb hm (ha v) hs rfl (by rw [hmap]), hdaemon]
    refine forall_congr' fun j => forall_congr' fun hj => ?_
    rw [releaseLock_status]
    by_cases hv : t.uid = v
    · rw [if_pos hv, Ne, gone_iff_holds hj.1]
      simp [hv]
    · obtain ⟨st, hst⟩ := hj.1
      simp [hv, hst]
  constructor
  · exact fun hok v => (hat v).mpr fun j hj hv => hok c v j hc ⟨c, t, hc, hmode, hv⟩ hj
  · rintro h x v j hx ⟨y, t', hy, hym, hv⟩ hj
    obtain rfl := Option.some.inj (hc.symm.trans hx)
    obtain rfl := Option.some.inj (hc.symm.trans hy)
    obtain rfl := Mode.streaming.inj (hmode.symm.trans hym)
    exact (hat v).mp (h v) j hj hv

theorem agrees_cycle {c : Cycle} (hb : w.Balanced) (hm : w.sys.MidOp)
    (ha : ∀ uid, w.AgreesAt uid) (hs : w.step (.cycle c) = some w') :
    w.KeepsMap (.cycle c) ↔ ∀ uid, w'.AgreesAt uid := by
  have hsys := Option.some.inj (step_eq_some.mp hs).2.1
  have hat : ∀ v, w'.AgreesAt v ↔ ∀ j, w.Owed v j →
      ¬ (v ∈ w.sys.daemon.previouslyAttached ∧ v ∉ c.scan.keys) := by
    intro v
    rw [agreesAt_iff_of_stay hb hm (ha v) hs rfl (by rw [← hsys]; rfl), ← hsys]
    refine forall_congr' fun j => forall_congr' fun hj => ?_
    rw [System.setDaemon, lockedBlock_status]
    obtain ⟨st, hst⟩ := hj.1
    simp [hst]
  simp only [hat]
  rfl

/-- A swept local lock goes from both tables. -/
theorem agrees_sweep {server : Server} {pidAlive : ℕ → Bool} (hb : w.Balanced) (hm : w.sys.MidOp)
    (ha : w.AgreesAt uid) (hs : w.step (.sweep server now pidAlive) = some w') :
    w'.AgreesAt uid := by
  obtain ⟨hadm, hsys, -⟩ := step_eq_some.mp hs
  have he := Option.some.inj hsys
  have hstatus : w'.sys.daemon.locks.status uid =
      (w.sys.daemon.locks.status uid).filter (w.sys.isHolderAlive server pidAlive ·.holder) := by
    rw [← he, System.swept, sweepLocks_status]
  cases server with
  | pipe => cases hadm
  | tcp =>
    refine (agreesAt_iff_of_stay hb hm ha hs rfl (by rw [← he]; rfl)).mpr fun j hj => ?_
    obtain ⟨st, hst⟩ := hj.1
    have halive : w.sys.isHolderAlive .tcp pidAlive st.holder = true := by
      simp [System.isHolderAlive, (owed_of_balanced hb hj hst).2.1]
    rw [hstatus, hst, Option.filter_some, if_pos halive]
    exact Option.some_ne_none st
  | socket =>
    have hmap : w'.sys.uidConnections.lookup uid =
        if uid ∈ (w.sys.daemon.locks.stale (w.sys.isHolderAlive .socket pidAlive)).map Prod.fst
        then none else w.sys.uidConnections.lookup uid := by
      rw [← lookup_foldl_erase, ← he]
      rfl
    by_cases hstale : uid ∈
        (w.sys.daemon.locks.stale (w.sys.isHolderAlive .socket pidAlive)).map Prod.fst
    · refine (agreesAt_iff_of_drop hs rfl (by rw [hmap, if_pos hstale])).mpr fun j _ => ?_
      obtain ⟨⟨k, st⟩, hk, rfl⟩ := List.mem_map.mp hstale
      obtain ⟨hst, hdead⟩ := Daemon.mem_stale_iff.mp hk
      rw [hstatus, hst, Option.filter_some, if_neg (by simp [hdead])]
    · refine (agreesAt_iff_of_stay hb hm ha hs rfl (by rw [hmap, if_neg hstale])).mpr
        fun j hj => ?_
      obtain ⟨st, hst⟩ := hj.1
      cases halive : w.sys.isHolderAlive .socket pidAlive st.holder with
      | true =>
        rw [hstatus, hst, Option.filter_some, if_pos halive]
        exact Option.some_ne_none st
      | false => exact absurd (List.mem_map_of_mem (Daemon.mem_stale_iff.mpr ⟨hst, halive⟩)) hstale

/-- A uid that loses its lock and its entry together, whoever has it. -/
theorem agrees_cut {a : Action} {u : String} (hb : w.Balanced) (hm : w.sys.MidOp)
    (ha : w.AgreesAt uid) (hs : w.step a = some w') (ht : System.Turns a = false)
    (hd : ∀ v, w'.sys.daemon.locks.status v =
      if u = v then none else w.sys.daemon.locks.status v)
    (he : w'.sys.uidConnections = w.sys.uidConnections.erase u) : w'.AgreesAt uid := by
  by_cases hu : u = uid
  · subst hu
    refine (agreesAt_iff_of_drop hs ht (by rw [he, Dict.lookup_erase_self])).mpr fun j _ => ?_
    rw [hd, if_pos rfl]
  · refine (agreesAt_iff_of_stay hb hm ha hs ht
      (by rw [he, Dict.lookup_erase_of_ne hu])).mpr fun j hj => ?_
    obtain ⟨st, hst⟩ := hj.1
    simp [hd, hu, hst]

/-- The steps the agreement survives whatever they meet. -/
def Settled : Action → Bool
  | .forceUnlock _ _ _ => true
  | .flash _ _ _ => true
  | .stream _ _ _ => true
  | .session _ _ => true
  | .write _ => true
  | .detachVirtual _ _ => true
  | .poolAccept _ _ _ => true
  | .pool _ _ => true
  | .poolEnd _ _ => true
  | .poolCrash _ => true
  | _ => false

theorem agrees_settled {a : Action} (hb : w.Balanced) (hm : w.sys.MidOp)
    (ha : ∀ uid, w.AgreesAt uid) (hs : w.step a = some w') (hset : Settled a = true)
    (uid : String) : w'.AgreesAt uid := by
  have ht : System.Turns a = false := by
    cases a <;> first | rfl | cases hset
  obtain ⟨s', g'⟩ := w'
  obtain ⟨hadm, hsys, -⟩ := step_eq_some.mp hs
  have hsame : s'.daemon.locks = w.sys.daemon.locks →
      s'.uidConnections = w.sys.uidConnections → AgreesAt ⟨s', g'⟩ uid :=
    fun hd he => agrees_of_same hb hm ha hs ht hd he uid
  have hstep : w.sys.Step a s' := System.step_cases hsys
  cases hstep with
  | refused => exact hsame rfl rfl
  | forceUnlock hc hidle hserver hop =>
    obtain ⟨_, _, -, -, -, rfl⟩ := opForceUnlock_eq_ok hop
    refine agrees_cut hb hm (ha uid) hs rfl (fun v => ?_) (System.shutTracked_uidConnections _ _)
    rw [System.shutTracked_daemon]
    exact forceReleaseLock_status
  | flash => exact hsame rfl rfl
  | stream => exact hsame rfl rfl
  | session => exact hsame rfl rfl
  | write => exact hsame rfl rfl
  | detachVirtual hr hv hd =>
    refine agrees_cut hb hm (ha uid) hs rfl (fun v => ?_) (System.shutTracked_uidConnections _ _)
    exact System.detachVirtual_status hsys v
  | poolAccept hnew hr hl hfresh =>
    obtain ⟨-, rfl⟩ := LockManager.acquire_eq_ok_iff.mp hl
    refine (agreesAt_iff_of_stay hb hm (ha uid) hs rfl rfl).mpr fun j hj => ?_
    obtain ⟨st, hst⟩ := hj.1
    rw [System.setDaemon, LockManager.status_insert, hst]
    split <;> exact Option.some_ne_none _
  | pool => exact hsame rfl rfl
  | poolEnd hq hclosed =>
    refine (agreesAt_iff_of_stay hb hm (ha uid) hs rfl rfl).mpr fun j hj => ?_
    rw [System.setDaemon, releaseLock_status]
    split
    · rw [Ne, gone_iff_holds hj.1]
      rintro ⟨st, hst, hh⟩
      have hpool := hb.pool _ _ hq
      rw [← hh, (owed_of_balanced hb hj hst).2.2] at hpool
      cases hpool
    · obtain ⟨st, hst⟩ := hj.1
      simp [hst]
  | poolCrash => exact hsame rfl rfl
  | _ => cases hset

end Steps

end Ledger

end MbTools.Api
