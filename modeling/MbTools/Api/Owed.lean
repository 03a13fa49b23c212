import MbTools.Api.Marks

/-! # What the map owes the lock table

The local socket keeps, beside the lock table, the connection each uid was
locked on. Its `lock` writes the entry in a second section, its `unlock` drops
it in one, and some of the ways a lock goes do not know of the map. Said here:
what the map owes the table, also in between the two sections of an operation,
and what a step must not do for the map to follow.
-/

namespace MbTools.Api

open Store Runs

namespace Ledger

/-- The lock on the uid was granted to the local connection, which is past writing it down. -/
def Owed (w : Ledger) (uid : String) (j : ℕ) : Prop :=
  (∃ st, w.sys.daemon.locks.status uid = some st) ∧ w.granted.lookup uid = some j ∧
    w.sys.Present uid j

/-- The connection has unlocked the uid and has not dropped its entry yet. -/
def Leaving (w : Ledger) (uid : String) (j : ℕ) : Prop :=
  w.sys.mark j = some (.socket, .untracking uid)

/-- The map has every entry it owes, and no other one but of a connection that is leaving. -/
def AgreesAt (w : Ledger) (uid : String) : Prop :=
  (∀ j, w.Owed uid j → w.sys.uidConnections.lookup uid = some j) ∧
    ∀ j, w.sys.uidConnections.lookup uid = some j → w.Owed uid j ∨ w.Leaving uid j

/-- The lock on the uid is held by the open local connection it was granted to. -/
def HeldHere (w : Ledger) (uid : String) (j : ℕ) : Prop :=
  ∃ st c, w.sys.daemon.locks.status uid = some st ∧ w.granted.lookup uid = some j ∧
    w.sys.conns.lookup j = some c ∧ c.server = .socket ∧ c.holder = st.holder

/-- A connection is cut off by a step that drops its entry only if it has the lock. -/
def ShutsHolder (w : Ledger) (a : Action) : Prop :=
  ∀ uid j, w.sys.Cuts a uid → w.sys.uidConnections.lookup uid = some j → w.HeldHere uid j

/-- After the step the map agrees with the table, and it has cut off none but the holder. -/
def MapFollows (w : Ledger) (a : Action) : Prop :=
  ∀ w', w.step a = some w' → (∀ uid, w'.AgreesAt uid) ∧ w.ShutsHolder a

/-- No connection is between the two sections of its `lock` or `unlock`. -/
def quiescent (w : Ledger) : Bool := w.sys.conns.rows.all fun p => p.2.mode.pending = .idle

/-- What a step must not do for the map to follow. -/
def KeepsMap (w : Ledger) (a : Action) : Prop :=
  match a with
  -- a uid that is still listed is not written down again
  | .lock i _ _ => ∀ c uid, w.sys.conns.lookup i = some c → c.server = .socket →
      w.sys.Takes a uid c.holder → uid ∉ c.acquired
  -- the lock may be gone by the second section
  | .track i => ∀ c uid, w.sys.conns.lookup i = some c → c.mode = .tracking uid →
      ∃ st, w.sys.daemon.locks.status uid = some st ∧ w.granted.lookup uid = some i
  | .unlock i _ _ => ∀ c uid j, w.sys.conns.lookup i = some c → w.sys.Drops a uid →
      w.Owed uid j → j ≠ i → ¬ Holds w.sys.daemon.locks uid c.holder
  -- by the second section the uid may be someone else's
  | .untrack i => ∀ c uid j, w.sys.conns.lookup i = some c → c.mode = .untracking uid →
      ¬ w.Owed uid j
  | .forceUnlock _ _ _ => ∀ uid j, w.sys.Cuts a uid → w.Leaving uid j →
      w.sys.uidConnections.lookup uid ≠ some j
  | .detachVirtual _ _ => ∀ uid j, w.sys.Cuts a uid → w.Leaving uid j →
      w.sys.uidConnections.lookup uid ≠ some j
  | .flashEnd i _ => ∀ c uid j, w.sys.conns.lookup i = some c → c.server = .socket →
      c.mode = .flashing uid → w.Owed uid j → Holds w.sys.daemon.locks uid c.holder
  | .streamEnd i _ => ∀ c uid j, w.sys.conns.lookup i = some c → w.sys.Drops a uid →
      w.Owed uid j → ¬ Holds w.sys.daemon.locks uid c.holder
  | .hangUp i _ => ∀ c uid j, w.sys.conns.lookup i = some c → c.server = .socket →
      uid ∈ c.acquired → w.Owed uid j → Holds w.sys.daemon.locks uid c.holder
  | .cycle c => ∀ uid j, w.Owed uid j →
      ¬ (uid ∈ w.sys.daemon.previouslyAttached ∧ uid ∉ c.scan.keys)
  | _ => True

section Agreement

variable {w w' : Ledger} {a : Action} {i j now : ℕ} {c : Conn} {uid u : String} {st : LockStatus}
  {h : HolderRef}

theorem owed_step (hs : w.step a = some w')
    (hlock : ∀ i now req h, a = .lock i now req → ¬ w.sys.Takes a uid h)
    (hp : w'.sys.daemon.locks.status uid ≠ none → w'.granted.lookup uid = some j →
      (w'.sys.Present uid j ↔ w.sys.Present uid j)) :
    w'.Owed uid j ↔ w.Owed uid j ∧ w'.sys.daemon.locks.status uid ≠ none := by
  obtain ⟨-, hs, hg⟩ := step_eq_some.mp hs
  constructor
  · rintro ⟨⟨st, hst⟩, hgr, hpres⟩
    have hheld : w'.sys.daemon.locks.status uid ≠ none := by simp [hst]
    have hpres := (hp hheld hgr).mp hpres
    rw [hg] at hgr
    rcases System.status_of_step hs hst with (hold | ⟨-, ht⟩)
    · rw [grant_of_held hs hold] at hgr
      exact ⟨⟨⟨st, hold⟩, hgr, hpres⟩, hheld⟩
    · rcases grant_of_takes ht with (⟨i, now, req, rfl, -⟩ | ⟨p, now, rfl, hn⟩)
      · exact absurd ht (hlock i now req st.holder rfl)
      · cases hn.symm.trans hgr
  · rintro ⟨⟨⟨st, hst⟩, hgr, hpres⟩, hheld⟩
    have hgr' : w'.granted.lookup uid = some j := by rw [hg, grant_of_held hs hst, hgr]
    exact ⟨Option.ne_none_iff_exists'.mp hheld, hgr', (hp hheld hgr').mpr hpres⟩

theorem owed_of_balanced (hb : w.Balanced) (ho : w.Owed uid j)
    (hst : w.sys.daemon.locks.status uid = some st) : w.sys.Listed j st.holder uid ∧
      st.holder.origin = .local ∧ isPoolRef st.holder = false := by
  obtain ⟨-, hg, m, hmark, -⟩ := ho
  rcases hb.held uid st hst with (⟨-, hn⟩ | ⟨i, hi, hl⟩)
  · cases hn.symm.trans hg
  · obtain rfl := Option.some.inj (hi.symm.trans hg)
    obtain ⟨c, hc, hh, hu⟩ := id hl
    obtain ⟨hpool, -, htcp⟩ := hb.conns i c hc
    rw [System.mark_of_conn hc, Option.some.injEq, Prod.mk.injEq] at hmark
    rw [hmark.1, hh] at htcp
    rw [hh] at hpool
    refine ⟨hl, ?_, hpool⟩
    cases ho : st.holder.origin with
    | «local» => rfl
    | remote => cases htcp.mpr ho

theorem heldHere_of_owed (hb : w.Balanced) (ho : w.Owed uid j) : w.HeldHere uid j := by
  obtain ⟨⟨st, hst⟩, hg, m, hmark, -⟩ := id ho
  obtain ⟨⟨c, hc, hh, -⟩, -, -⟩ := owed_of_balanced hb ho hst
  rw [System.mark_of_conn hc, Option.some.injEq, Prod.mk.injEq] at hmark
  exact ⟨st, c, hst, hg, hc, hmark.1, hh⟩

theorem not_leaving_of_heldHere (hb : w.Balanced) (hm : w.sys.MidOp) (hh : w.HeldHere uid j) :
    ¬ w.Leaving uid j := by
  intro hl
  obtain ⟨st, c, hst, hg, hc, -, -⟩ := hh
  have hmode : c.mode = .untracking uid := by
    rw [Leaving, System.mark_of_conn hc, Option.some.injEq, Prod.mk.injEq] at hl
    exact Mode.eq_of_pending hl.2
  rcases hb.held uid st hst with (⟨-, hn⟩ | ⟨i, hi, x, hx, -, hu⟩)
  · cases hn.symm.trans hg
  · obtain rfl := Option.some.inj (hi.symm.trans hg)
    obtain rfl := Option.some.inj (hc.symm.trans hx)
    exact (hm i c uid hc).2 hmode hu

theorem Balanced.listed (hb : w.Balanced) (hd : w.sys.daemon.locks.status uid ≠ none)
    (hg : w.granted.lookup uid = some j) :
    ∃ c, w.sys.conns.lookup j = some c ∧ uid ∈ c.acquired := by
  obtain ⟨st, hst⟩ := Option.ne_none_iff_exists'.mp hd
  rcases hb.held uid st hst with (⟨-, hn⟩ | ⟨i, hi, c, hc, -, hu⟩)
  · cases hn.symm.trans hg
  · obtain rfl := Option.some.inj (hi.symm.trans hg)
    exact ⟨c, hc, hu⟩

theorem Balanced.origin_of_conn (hb : w.Balanced) (hc : w.sys.conns.lookup i = some c)
    (hserver : c.server ≠ .socket) : c.holder.origin = .remote := by
  obtain ⟨-, hpipe, htcp⟩ := hb.conns i c hc
  apply htcp.mp
  cases hs : c.server with
  | socket => exact absurd hs hserver
  | pipe => exact absurd hs hpipe
  | tcp => rfl

theorem not_holds_of_owed (hb : w.Balanced) (ho : w.Owed uid j) (hh : h.origin = .remote) :
    ¬ Holds w.sys.daemon.locks uid h := by
  rintro ⟨st, hst, rfl⟩
  have hlocal := (owed_of_balanced hb ho hst).2.1
  cases hh.symm.trans hlocal

theorem gone_iff_holds {m : LockManager} (hst : ∃ st, m.status uid = some st) :
    (m.status uid).filter (·.holder ≠ h) = none ↔ Holds m uid h := by
  obtain ⟨st, hst⟩ := hst
  rw [Holds, hst]
  by_cases hh : st.holder = h <;> simp [Option.filter, hh]

/-! ## One step at one uid -/

theorem agreesAt_iff_of_kept (hb : w.Balanced) (hm : w.sys.MidOp) (ha : w.AgreesAt uid)
    (ho : ∀ j, w'.Owed uid j ↔ w.Owed uid j ∧ w'.sys.daemon.locks.status uid ≠ none)
    (hl : ∀ j, w'.Leaving uid j ↔ w.Leaving uid j)
    (he : w'.sys.uidConnections.lookup uid = w.sys.uidConnections.lookup uid) :
    w'.AgreesAt uid ↔ ∀ j, w.Owed uid j → w'.sys.daemon.locks.status uid ≠ none := by
  constructor
  · rintro ⟨-, h⟩ j hj hn
    rcases h j (he.trans (ha.1 j hj)) with (hj' | hj')
    · exact ((ho j).mp hj').2 hn
    · exact not_leaving_of_heldHere hb hm (heldHere_of_owed hb hj) ((hl j).mp hj')
  · intro h
    constructor
    · intro j hj
      rw [he]
      exact ha.1 j ((ho j).mp hj).1
    · intro j hj
      rw [he] at hj
      rcases ha.2 j hj with (hj | hj)
      · exact Or.inl ((ho j).mpr ⟨hj, h j hj⟩)
      · exact Or.inr ((hl j).mpr hj)

theorem agreesAt_iff_of_dropped
    (ho : ∀ j, w'.Owed uid j ↔ w.Owed uid j ∧ w'.sys.daemon.locks.status uid ≠ none)
    (he : w'.sys.uidConnections.lookup uid = none) :
    w'.AgreesAt uid ↔ ∀ j, w.Owed uid j → w'.sys.daemon.locks.status uid = none := by
  constructor
  · rintro ⟨h, -⟩ j hj
    by_contra hn
    have hsome := h j ((ho j).mpr ⟨hj, hn⟩)
    cases he.symm.trans hsome
  · intro h
    constructor
    · intro j hj
      exact absurd (h j ((ho j).mp hj).1) ((ho j).mp hj).2
    · intro j hj
      cases he.symm.trans hj

theorem owed_of_stay (hs : w.step a = some w') (ht : System.Turns a = false) (j : ℕ) :
    w'.Owed uid j ↔ w.Owed uid j ∧ w'.sys.daemon.locks.status uid ≠ none := by
  have hmark := System.mark_step (step_eq_some.mp hs).2.1 ht
  have hlock : ∀ i now req h, a = .lock i now req → ¬ w.sys.Takes a uid h := by
    rintro i now req h rfl
    cases ht
  exact owed_step hs hlock fun _ _ => by rw [System.Present, System.Present, hmark j]

theorem leaving_of_stay (hs : w.step a = some w') (ht : System.Turns a = false) (j : ℕ) :
    w'.Leaving uid j ↔ w.Leaving uid j := by
  rw [Leaving, Leaving, System.mark_step (step_eq_some.mp hs).2.1 ht j]

theorem agreesAt_iff_of_stay (hb : w.Balanced) (hm : w.sys.MidOp) (ha : w.AgreesAt uid)
    (hs : w.step a = some w') (ht : System.Turns a = false)
    (he : w'.sys.uidConnections.lookup uid = w.sys.uidConnections.lookup uid) :
    w'.AgreesAt uid ↔ ∀ j, w.Owed uid j → w'.sys.daemon.locks.status uid ≠ none :=
  agreesAt_iff_of_kept hb hm ha (owed_of_stay hs ht) (leaving_of_stay hs ht) he

theorem agreesAt_iff_of_drop (hs : w.step a = some w') (ht : System.Turns a = false)
    (he : w'.sys.uidConnections.lookup uid = none) :
    w'.AgreesAt uid ↔ ∀ j, w.Owed uid j → w'.sys.daemon.locks.status uid = none :=
  agreesAt_iff_of_dropped (owed_of_stay hs ht) he

theorem agreesAt_iff_of_givenBack {p : Prop} [Decidable p] (hb : w.Balanced) (hm : w.sys.MidOp)
    (ha : w.AgreesAt uid) (hc : w.sys.conns.lookup i = some c)
    (ho : ∀ j, w'.Owed uid j ↔ w.Owed uid j ∧ w'.sys.daemon.locks.status uid ≠ none)
    (hl : ∀ j, w'.Leaving uid j ↔ w.Leaving uid j)
    (he : w'.sys.uidConnections.lookup uid =
      if c.server = .socket ∧ p then none else w.sys.uidConnections.lookup uid)
    (hd : w'.sys.daemon.locks.status uid =
      if p then (w.sys.daemon.locks.status uid).filter (·.holder ≠ c.holder)
      else w.sys.daemon.locks.status uid) :
    w'.AgreesAt uid ↔ (c.server = .socket → p → ∀ j, w.Owed uid j →
      Holds w.sys.daemon.locks uid c.holder) := by
  by_cases hdrop : c.server = .socket ∧ p
  · rw [agreesAt_iff_of_dropped ho (by rw [he, if_pos hdrop]), hd, if_pos hdrop.2]
    constructor
    · exact fun h _ _ j hj => (gone_iff_holds hj.1).mp (h j hj)
    · exact fun h j hj => (gone_iff_holds hj.1).mpr (h hdrop.1 hdrop.2 j hj)
  · refine iff_of_true ?_ fun hserver hp => absurd ⟨hserver, hp⟩ hdrop
    refine (agreesAt_iff_of_kept hb hm ha ho hl (by rw [he, if_neg hdrop])).mpr fun j hj => ?_
    rw [hd]
    split
    -- a remote connection has no local lock to give back
    · rename_i hp
      rw [Ne, gone_iff_holds hj.1]
      exact not_holds_of_owed hb hj (hb.origin_of_conn hc fun hserver => hdrop ⟨hserver, hp⟩)
    · obtain ⟨st, hst⟩ := hj.1
      rw [hst]
      nofun

theorem present_iff_of_mark {x : Option (Server × Mode)}
    (hmark : ∀ k, w'.sys.mark k = if i = k then x else w.sys.mark k)
    (hi : w'.sys.Present uid i ↔ w.sys.Present uid i) (j : ℕ) :
    w'.sys.Present uid j ↔ w.sys.Present uid j := by
  by_cases hij : i = j
  · exact hij ▸ hi
  · rw [System.Present, System.Present, hmark j, if_neg hij]

theorem leaving_iff_of_mark {x : Option (Server × Mode)}
    (hmark : ∀ k, w'.sys.mark k = if i = k then x else w.sys.mark k)
    (hi : w'.Leaving uid i ↔ w.Leaving uid i) (j : ℕ) : w'.Leaving uid j ↔ w.Leaving uid j := by
  by_cases hij : i = j
  · exact hij ▸ hi
  · rw [Leaving, Leaving, hmark j, if_neg hij]

theorem agreesAt_of_untouched (hb : w.Balanced) (hm : w.sys.MidOp) (ha : w.AgreesAt uid)
    (ho : ∀ j, w'.Owed uid j ↔ w.Owed uid j ∧ w'.sys.daemon.locks.status uid ≠ none)
    (hl : ∀ j, w'.Leaving uid j ↔ w.Leaving uid j)
    (he : w'.sys.uidConnections.lookup uid = w.sys.uidConnections.lookup uid)
    (hd : w'.sys.daemon.locks.status uid = w.sys.daemon.locks.status uid) : w'.AgreesAt uid := by
  refine (agreesAt_iff_of_kept hb hm ha ho hl he).mpr ?_
  rintro j ⟨⟨st, hst⟩, -⟩
  rw [hd, hst]
  nofun

theorem agrees_refused (hb : w.Balanced) (hm : w.sys.MidOp) (ha : w.AgreesAt uid)
    (hs : w.step a = some w') (hlock : ∀ h, ¬ w.sys.Takes a uid h) (hsame : w'.sys = w.sys) :
    w'.AgreesAt uid :=
  agreesAt_of_untouched hb hm ha
    (fun j => owed_step hs (fun _ _ _ h _ => hlock h) fun _ _ => by rw [hsame])
    (fun j => by rw [Leaving, Leaving, hsame]) (by rw [hsame]) (by rw [hsame])

theorem agreesAt_iff_of_taken (ha : w.AgreesAt uid) (hfree : w.sys.daemon.locks.status uid = none)
    (hi : ¬ w.Leaving uid i) (hst : w'.sys.daemon.locks.status uid = some st)
    (hg : w'.granted.lookup uid = some i) (hl : ∀ j, w'.Leaving uid j ↔ w.Leaving uid j)
    (he : w'.sys.uidConnections = w.sys.uidConnections) :
    w'.AgreesAt uid ↔ ¬ w'.sys.Present uid i := by
  have hnone : ∀ j, ¬ w.Owed uid j := by
    rintro j ⟨⟨st, hst⟩, -⟩
    cases hfree.symm.trans hst
  have howed : ∀ j, w'.Owed uid j → w'.sys.Present uid i := by
    rintro j ⟨-, hgj, hp⟩
    obtain rfl := Option.some.inj (hgj.symm.trans hg)
    exact hp
  constructor
  · rintro ⟨h, -⟩ hp
    have hentry := h i ⟨⟨st, hst⟩, hg, hp⟩
    rw [he] at hentry
    rcases ha.2 i hentry with (ho | hl)
    · exact hnone i ho
    · exact hi hl
  · intro hp
    constructor
    · intro j hj
      exact absurd (howed j hj) hp
    · intro j hj
      rw [he] at hj
      rcases ha.2 j hj with (ho | hj)
      · exact absurd ho (hnone j)
      · exact Or.inr ((hl j).mpr hj)

/-- A uid that a connection unlocks before it drops the entry: if the lock went, the entry must be
that connection's own. -/
theorem agreesAt_iff_of_released (hb : w.Balanced) (hm : w.sys.MidOp) (ha : w.AgreesAt uid)
    (ho : ∀ j, w'.Owed uid j ↔ w.Owed uid j ∧ w'.sys.daemon.locks.status uid ≠ none)
    (hl : ∀ j, j ≠ i → (w'.Leaving uid j ↔ w.Leaving uid j)) (hi : ¬ w.Leaving uid i)
    (hleaves : w.Owed uid i → w'.Leaving uid i)
    (he : w'.sys.uidConnections = w.sys.uidConnections) :
    w'.AgreesAt uid ↔ ∀ j, w.Owed uid j → j ≠ i → w'.sys.daemon.locks.status uid ≠ none := by
  constructor
  · rintro ⟨-, h⟩ j hj hji hgone
    rcases h j (by rw [he, ha.1 j hj]) with (hj' | hj')
    · exact ((ho j).mp hj').2 hgone
    · exact not_leaving_of_heldHere hb hm (heldHere_of_owed hb hj) ((hl j hji).mp hj')
  · intro hok
    constructor
    · intro j hj
      rw [he]
      exact ha.1 j ((ho j).mp hj).1
    · intro j hj
      rw [he] at hj
      rcases ha.2 j hj with (hj | hj)
      · by_cases hgone : w'.sys.daemon.locks.status uid = none
        · obtain rfl : j = i := by
            by_contra hji
            exact hok j hj hji hgone
          exact Or.inr (hleaves hj)
        · exact Or.inl ((ho j).mpr ⟨hj, hgone⟩)
      · refine Or.inr ((hl j ?_).mpr hj)
        rintro rfl
        exact hi hj

theorem agrees_of_same (hb : w.Balanced) (hm : w.sys.MidOp) (ha : ∀ uid, w.AgreesAt uid)
    (hs : w.step a = some w') (ht : System.Turns a = false)
    (hd : w'.sys.daemon.locks = w.sys.daemon.locks)
    (he : w'.sys.uidConnections = w.sys.uidConnections) (uid : String) : w'.AgreesAt uid := by
  refine (agreesAt_iff_of_stay hb hm (ha uid) hs ht (by rw [he])).mpr ?_
  rintro j ⟨⟨st, hst⟩, -⟩
  simp [hd, hst]

end Agreement

end Ledger

end MbTools.Api
