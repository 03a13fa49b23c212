import MbTools.Api.Grants

/-! # The end of a connection

A connection that ends releases what it lists, and it lists a uid until it gives
it up itself. The lock it finds there can be a later one: where a connection of
the same process has taken it, the release takes it away from that connection.
So does an `unlock`, which asks for the process alone.
-/

namespace MbTools.Api

open Store Runs

/-- The uid whose lock a connection gives up: the one it unlocks, the one it has streamed, or one
of those it lists at its end. -/
def System.Drops (s : System) (a : Action) (uid : String) : Prop :=
  match a with
  | .unlock i now x => ∃ c released d, s.conns.lookup i = some c ∧
      opUnlock c.server s.daemon now x c.holder = .ok (uid, released, d)
  | .streamEnd i _ => ∃ c t, s.conns.lookup i = some c ∧ c.mode = .streaming t ∧ t.uid = uid
  | .hangUp i _ => ∃ c, s.conns.lookup i = some c ∧ uid ∈ c.acquired
  | _ => False

/-- The connection lists the uid, or streams it. -/
def System.Claims (s : System) (i : ℕ) (h : HolderRef) (uid : String) : Prop :=
  s.Listed i h uid ∨ ∃ t, s.Streams i h t ∧ t.uid = uid

namespace Ledger

/-- The connection that ends, or unlocks. -/
def closes : Action → Option ℕ
  | .unlock i _ _ => some i
  | .streamEnd i _ => some i
  | .hangUp i _ => some i
  | _ => none

/-- Every lock a local connection releases was granted to it. -/
def Isolated (w : Ledger) (a : Action) : Prop :=
  ∀ w' i c uid st, w.step a = some w' → closes a = some i → w.sys.conns.lookup i = some c →
    c.server = .socket → w.sys.daemon.locks.status uid = some st →
    w'.sys.daemon.locks.status uid = none → w.granted.lookup uid = some i

/-- What a local connection gives up is not locked on another connection of its process. -/
def SiblingFree (w : Ledger) (a : Action) : Prop :=
  ∀ i c uid j, closes a = some i → w.sys.conns.lookup i = some c → c.server = .socket →
    w.sys.Drops a uid → j ≠ i → w.granted.lookup uid = some j →
    ¬ Holds w.sys.daemon.locks uid c.holder

/-- No connection locks what another one of its process lists or streams, and none unlocks or
streams what it does not list. -/
def Unshared (w : Ledger) (a : Action) : Prop :=
  match a with
  | .lock i _ _ => ∀ uid h j, w.sys.Takes a uid h → j ≠ i → ¬ w.sys.Claims j h uid
  | .unlock i _ _ => ∀ uid, w.sys.Drops a uid → ∃ h, w.sys.Listed i h uid
  | .stream i _ _ => ∀ h t, w.sys.Accepts a i h t → w.sys.Listed i h t.uid
  | _ => True

variable {w w' : Ledger} {a : Action} {i : ℕ} {c : Conn} {uid : String} {st : LockStatus}
  {h : HolderRef}

theorem released_iff (hs : w.step a = some w') (ha : closes a = some i)
    (hc : w.sys.conns.lookup i = some c) (hst : w.sys.daemon.locks.status uid = some st) :
    w'.sys.daemon.locks.status uid = none ↔ w.sys.Drops a uid ∧ st.holder = c.holder := by
  have hown : ∀ {now : ℕ} {u : String},
      w'.sys.daemon = w.sys.daemon.releaseLock now u c.holder →
      (w'.sys.daemon.locks.status uid = none ↔ u = uid ∧ st.holder = c.holder) := by
    intro now u hd
    rw [hd, releaseLock_status, hst]
    by_cases hu : u = uid <;> simp [hu, Option.filter]
  obtain ⟨-, hs, -⟩ := step_eq_some.mp hs
  unfold closes at ha
  split at ha <;> cases ha
  · rename_i now x
    obtain ⟨c', hc', hidle, hs⟩ := System.request_eq_some hs
    obtain rfl := Option.some.inj (hc.symm.trans hc')
    simp only [System.Drops, hc, Option.some.injEq]
    split at hs
    · rename_i e hop
      rw [← Option.some.inj hs, hst]
      simp [hop]
    · rename_i u released d hop
      obtain ⟨token, r, -, -, -, rfl⟩ := opUnlock_eq_ok hop
      have hd := congrArg System.daemon (Option.some.inj hs)
      rw [hown hd.symm]
      simp [hop]
  · rename_i now
    obtain ⟨c', hc', hs⟩ := System.onConn_eq_some hs
    obtain rfl := Option.some.inj (hc.symm.trans hc')
    split at hs
    · rename_i t hm
      rw [Option.ite_none_right_eq_some] at hs
      have hd := congrArg System.daemon (Option.some.inj hs.2)
      rw [hown hd.symm]
      simp [System.Drops, hc, hm]
    · cases hs
  · rename_i now
    obtain ⟨c', hc', hs⟩ := System.onConn_eq_some hs
    obtain rfl := Option.some.inj (hc.symm.trans hc')
    rw [Option.ite_none_right_eq_some] at hs
    rw [← Option.some.inj hs.2, releaseAll_status, hst]
    by_cases hu : uid ∈ c.acquired <;> simp [System.Drops, hc, hu, Option.filter]

theorem isolated_iff_siblingFree (hb : w.Balanced) (hs : w.step a = some w') :
    w.Isolated a ↔ w.SiblingFree a := by
  constructor
  · rintro hi i c uid j ha hc hserver hd hj hg ⟨st, hst, hh⟩
    have hgone := (released_iff hs ha hc hst).mpr ⟨hd, hh⟩
    have hgi := hi w' i c uid st hs ha hc hserver hst hgone
    exact hj (Option.some.inj (hg.symm.trans hgi))
  · intro hf t i c uid st ht ha hc hserver hst hgone
    obtain rfl := Option.some.inj (hs.symm.trans ht)
    obtain ⟨hd, hh⟩ := (released_iff hs ha hc hst).mp hgone
    rcases hb.held uid st hst with (⟨hpool, -⟩ | ⟨j, hg, -⟩)
    · rw [hh, (hb.conns i c hc).1] at hpool
      cases hpool
    · rw [hg]
      congr 1
      by_contra hj
      exact hf i c uid j ha hc hserver hd hj hg ⟨st, hst, hh⟩

/-! ## Connections that keep to their own locks -/

/-- A lock under the holder of a connection that claims the uid was granted to that connection. -/
def Own (w : Ledger) : Prop :=
  ∀ i h uid, w.sys.Claims i h uid → Holds w.sys.daemon.locks uid h → w.granted.lookup uid = some i

theorem Balanced.isPoolRef_of_claims (hb : w.Balanced) (hcl : w.sys.Claims i h uid) :
    isPoolRef h = false := by
  rcases hcl with (⟨c, hc, rfl, -⟩ | ⟨t, ⟨c, hc, -, rfl⟩, -⟩)
  · exact (hb.conns i c hc).1
  · exact (hb.conns i c hc).1

/-- What is claimed after a step was claimed before, if the step leaves the lock there. -/
theorem claims_of_step (hok : w.Unshared a) (hs : w.sys.step a = some w'.sys)
    (hcl : w'.sys.Claims i h uid) :
    w.sys.Claims i h uid ∨ (∃ now req, a = .lock i now req) ∧ w.sys.Takes a uid h := by
  rcases hcl with (hl | ⟨t, ht, rfl⟩)
  · rcases hl.of_step hs with (hl | htake)
    · exact Or.inl (Or.inl hl)
    · exact Or.inr htake
  · rcases ht.step hs with (⟨x, hx, hb⟩ | ⟨hacc, -⟩)
    · exact Or.inl (Or.inr ⟨x, hx, hb.uid.symm⟩)
    · obtain ⟨x, dialed, -, -, -, -, rfl, -⟩ := id hacc
      exact Or.inl (Or.inl (hok h t hacc))

theorem Own.step (hb : w.Balanced) (ho : w.Own) (hok : w.Unshared a) (hs : w.step a = some w') :
    w'.Own := by
  obtain ⟨hadm, hs, hg⟩ := step_eq_some.mp hs
  rintro i h uid hcl ⟨st, hst, rfl⟩
  have hpre := claims_of_step hok hs hcl
  rw [hg]
  rcases System.status_of_step hs hst with (hold | ⟨-, ht⟩)
  · rw [grant_of_held hs hold]
    rcases hpre with (hcl | ⟨⟨now, req, rfl⟩, c, d, -, -, -, hop⟩)
    · exact ho i st.holder uid hcl ⟨st, hold, rfl⟩
    -- a lock that is held is not granted again
    · obtain ⟨_, _, _, _, -, -, -, -, hl, -⟩ := opLock_eq_ok hop
      obtain ⟨hn, -⟩ := LockManager.acquire_eq_ok_iff.mp hl
      cases hn.symm.trans hold
  · rcases grant_of_takes ht with (⟨j, now, req, rfl, hj⟩ | ⟨p, now, rfl, -⟩)
    · rw [hj]
      rcases hpre with (hcl | ⟨⟨now', req', he⟩, -⟩)
      · congr 1
        by_contra hne
        exact hok uid st.holder i ht (Ne.symm hne) hcl
      · cases he
        rfl
    · rcases hpre with (hcl | ⟨⟨_, _, he⟩, -⟩)
      · have hpool : isPoolRef st.holder = true := hadm
        rw [hb.isPoolRef_of_claims hcl] at hpool
        cases hpool
      · cases he

theorem siblingFree_of_own (ho : w.Own) (hok : w.Unshared a) : w.SiblingFree a := by
  intro i c uid j ha hc hserver hd hj hg hh
  have hcl : w.sys.Claims i c.holder uid := by
    unfold closes at ha
    split at ha <;> cases ha
    · obtain ⟨h, c', hc', rfl, hu⟩ := hok uid hd
      obtain rfl := Option.some.inj (hc.symm.trans hc')
      exact Or.inl ⟨c, hc, rfl, hu⟩
    · obtain ⟨c', t, hc', hm, rfl⟩ := hd
      obtain rfl := Option.some.inj (hc.symm.trans hc')
      exact Or.inr ⟨t, ⟨c, hc, hm, rfl⟩, rfl⟩
    · obtain ⟨c', hc', hu⟩ := hd
      obtain rfl := Option.some.inj (hc.symm.trans hc')
      exact Or.inl ⟨c, hc, rfl, hu⟩
  exact hj (Option.some.inj (hg.symm.trans (ho i c.holder uid hcl hh)))

/-- A connection's end and its `unlock` release its own locks in exactly those runs in which no
such step meets a lock of a sibling; they do where connections keep to their own uids. -/
theorem close_isolated_iff (C : Casing) (store : Store) (as : List Action) (w : Ledger)
    (hr : exec step (start C store) as = some w) :
    (Meets step Isolated (start C store) as ↔ Meets step SiblingFree (start C store) as) ∧
      (Meets step Unshared (start C store) as → Meets step Isolated (start C store) as) := by
  have hiff : Meets step Isolated (start C store) as ↔ Meets step SiblingFree (start C store) as :=
    meets_congr_of_exec (fun _ _ _ hb hs => isolated_iff_siblingFree hb hs)
      (fun _ _ _ hb _ hs => hb.step hs) (Balanced.start C store) hr
  refine ⟨hiff, fun hm => hiff.mpr ?_⟩
  have hstart : (start C store).Balanced ∧ (start C store).Own := by
    refine ⟨Balanced.start C store, ?_⟩
    rintro i h uid - ⟨st, hst, -⟩
    cases hst
  exact hm.imp (fun w : Ledger => w.Balanced ∧ w.Own)
    (fun _ _ _ hi hok hs => ⟨hi.1.step hs, Own.step hi.1 hi.2 hok hs⟩)
    (fun _ _ hi hok => siblingFree_of_own hi.2 hok) hstart

def terminal : HolderRef := ⟨.local, "41", some 41, none⟩

def ledge : Store := System.oneBoard.upsertAttached 5 "9900b" "/dev/ttyACM1" "0d28:0204"

/-- Two connections of one process lock a board each, and the first goes. -/
def neighbours : List Action :=
  [.connect 1 .socket terminal, .connect 2 .socket terminal,
    .lock 1 6 ⟨some "9900a", some "serial", none⟩, .track 1,
    .lock 2 7 ⟨some "9900b", some "serial", none⟩, .track 2, .hangUp 1 8]

theorem not_claims {s : System} {uid : String} (hrows : s.conns.rows.all (fun p =>
      p.2.mode = .idle && uid ∉ p.2.acquired) = true) (i : ℕ) (h : HolderRef) :
    ¬ s.Claims i h uid := by
  have hfree (c : Conn) (hc : s.conns.lookup i = some c) : c.mode = .idle ∧ uid ∉ c.acquired := by
    have hrow := List.all_eq_true.mp hrows _ (Dict.mem_rows_iff_lookup.mpr hc)
    simpa using hrow
  rintro (⟨c, hc, -, hlisted⟩ | ⟨t, ⟨c, hc, hstreams, -⟩, -⟩)
  · exact (hfree c hc).2 hlisted
  · rw [(hfree c hc).1] at hstreams
    cases hstreams

theorem close_isolated_neighbours :
    ∃ w, exec step (start .ascii ledge) neighbours = some w ∧
      Meets step Isolated (start .ascii ledge) neighbours ∧
      (w.sys.daemon.locks.status "9900b").isSome = true := by
  have hrun : (exec step (start .ascii ledge) neighbours).any (fun w =>
      (w.sys.daemon.locks.status "9900b").isSome) = true := by decide
  obtain ⟨w, hw, hkept⟩ := (Option.any_eq_true _ _).mp hrun
  refine ⟨w, hw, (close_isolated_iff .ascii ledge neighbours w hw).2 ?_, hkept⟩
  refine ⟨trivial, fun w hw => ?_⟩
  cases hw
  refine ⟨trivial, fun w hw => ?_⟩
  cases hw
  refine ⟨?_, fun w hw => ?_⟩
  · rintro uid h j ⟨c, d, hc, -, rfl, hop⟩ -
    cases hc
    cases hop
    exact not_claims (by decide) j _
  cases hw
  refine ⟨trivial, fun w hw => ?_⟩
  cases hw
  refine ⟨?_, fun w hw => ⟨trivial, fun w hw => ⟨trivial, fun _ _ => trivial⟩⟩⟩
  rintro uid h j ⟨c, d, hc, -, rfl, hop⟩ -
  cases hc
  cases hop
  exact not_claims (by decide) j _

/-- Two connections of one process: the second takes the lock from the first, and for itself. -/
def takenOver : List Action :=
  [.connect 1 .socket terminal, .lock 1 6 ⟨some "9900a", some "serial", none⟩, .track 1,
    .connect 2 .socket terminal, .forceUnlock 2 7 (some "9900a"),
    .lock 2 8 ⟨some "9900a", some "serial", none⟩, .track 2]

/-- The first connection, which the force-unlock has shut down, ends and takes the lock of the
second with it. -/
theorem close_not_isolated : ¬ ∀ (C : Casing) (store : Store) (as : List Action) (w : Ledger),
    exec step (start C store) as = some w → Meets step Isolated (start C store) as := by
  intro hall
  have hrun : (exec step (start .ascii System.oneBoard) takenOver).any (fun w =>
      (step w (.hangUp 1 9)).any fun w' =>
        (w.sys.conns.lookup 1).map Conn.server = some .socket &&
          (w.sys.daemon.locks.status "9900a").isSome &&
          (w'.sys.daemon.locks.status "9900a").isNone &&
          w.granted.lookup "9900a" = some 2) = true := by decide
  obtain ⟨w, hw, hend⟩ := (Option.any_eq_true _ _).mp hrun
  obtain ⟨w', hw', hend⟩ := (Option.any_eq_true _ _).mp hend
  simp only [Bool.and_eq_true, decide_eq_true_iff, Option.map_eq_some_iff,
    Option.isSome_iff_exists, Option.isNone_iff_eq_none] at hend
  obtain ⟨⟨⟨⟨c, hc, hserver⟩, st, hst⟩, hgone⟩, hg⟩ := hend
  have hwhole : exec step (start .ascii System.oneBoard) (takenOver ++ [.hangUp 1 9]) = some w' :=
    exec_concat.mpr ⟨w, hw, hw'⟩
  have hi := ((hall .ascii System.oneBoard _ w' hwhole).right hw).head
  cases hg.symm.trans (hi w' 1 c "9900a" st hw' rfl hc hserver hst hgone)

end Ledger

end MbTools.Api
