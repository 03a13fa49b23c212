import MbTools.Api.MapSteps

/-! # The map beside the lock table

In the runs whose steps keep the map, and in no others, it follows the lock
table through every step and cuts off none but the holder of a lock; between
operations it is then exactly the local connections that hold a lock.
-/

namespace MbTools.Api

open Store Runs

namespace Ledger

section Steps

variable {w w' : Ledger} {uid : String}

theorem shutsHolder_iff {a : Action} (hb : w.Balanced) (hm : w.sys.MidOp)
    (ha : ∀ uid, w.AgreesAt uid) : w.ShutsHolder a ↔ ∀ uid j, w.sys.Cuts a uid →
      w.Leaving uid j → w.sys.uidConnections.lookup uid ≠ some j := by
  constructor
  · exact fun h uid j hcut hl he => not_leaving_of_heldHere hb hm (h uid j hcut he) hl
  · intro h uid j hcut he
    rcases (ha uid).2 j he with (ho | hl)
    · exact heldHere_of_owed hb ho
    · exact absurd he (h uid j hcut hl)

theorem mapFollows_iff {a : Action} (hb : w.Balanced) (hm : w.sys.MidOp)
    (ha : ∀ uid, w.AgreesAt uid) (hs : w.step a = some w') : w.KeepsMap a ↔ w.MapFollows a := by
  have hfollows : w.MapFollows a ↔ (∀ uid, w'.AgreesAt uid) ∧ w.ShutsHolder a := by
    constructor
    · exact fun h => h w' hs
    · intro h t ht
      obtain rfl := Option.some.inj (hs.symm.trans ht)
      exact h
  have hsettled : Settled a = true → (w.KeepsMap a ↔ w.ShutsHolder a) →
      (w.KeepsMap a ↔ w.MapFollows a) := by
    intro hset hshut
    rw [hfollows, hshut]
    exact ⟨fun h => ⟨agrees_settled hb hm ha hs hset, h⟩, And.right⟩
  -- a step that is no cut shuts no one
  have hagree : (∀ uid, ¬ w.sys.Cuts a uid) → (w.KeepsMap a ↔ ∀ uid, w'.AgreesAt uid) →
      (w.KeepsMap a ↔ w.MapFollows a) := by
    intro hcut hk
    rw [hfollows, hk]
    exact ⟨fun h => ⟨h, fun uid j hc => absurd hc (hcut uid)⟩, And.left⟩
  cases a with
  | connect =>
    exact hagree (fun _ => id) (iff_of_true trivial fun uid => agrees_connect hb hm (ha uid) hs)
  | lock => exact hagree (fun _ => id) (agrees_lock hb hm ha hs)
  | track => exact hagree (fun _ => id) (agrees_track hb hm ha hs)
  | unlock => exact hagree (fun _ => id) (agrees_unlock hb hm ha hs)
  | untrack => exact hagree (fun _ => id) (agrees_untrack hb hm ha hs)
  | forceUnlock => exact hsettled rfl (shutsHolder_iff hb hm ha).symm
  | flashEnd => exact hagree (fun _ => id) (agrees_flashEnd hb hm ha hs)
  | streamEnd => exact hagree (fun _ => id) (agrees_streamEnd hb hm ha hs)
  | hangUp => exact hagree (fun _ => id) (agrees_hangUp hb hm ha hs)
  | sweep =>
    exact hagree (fun _ => id) (iff_of_true trivial fun uid => agrees_sweep hb hm (ha uid) hs)
  | cycle => exact hagree (fun _ => id) (agrees_cycle hb hm ha hs)
  | detachVirtual => exact hsettled rfl (shutsHolder_iff hb hm ha).symm
  | _ => exact hsettled rfl (iff_of_true trivial fun _ _ hcut => hcut.elim)

theorem heldHere_iff_of_quiescent (hb : w.Balanced) (ha : w.AgreesAt uid)
    (hq : w.quiescent = true) (j : ℕ) :
    w.sys.uidConnections.lookup uid = some j ↔ w.HeldHere uid j := by
  have hidle : ∀ j c, w.sys.conns.lookup j = some c → c.mode.pending = .idle := by
    intro j c hc
    simpa using List.all_eq_true.mp hq (j, c) (Dict.mem_rows_iff_lookup.mpr hc)
  constructor
  · intro he
    rcases ha.2 j he with (ho | hl)
    · exact heldHere_of_owed hb ho
    · obtain ⟨c, hc, hmark⟩ := Option.map_eq_some_iff.mp hl
      rw [hidle j c hc] at hmark
      cases (Prod.mk.inj hmark).2
  · rintro ⟨st, c, hst, hg, hc, hserver, -⟩
    refine ha.1 j ⟨⟨st, hst⟩, hg, .idle, ?_, nofun⟩
    rw [System.mark_of_conn hc, hidle j c hc, hserver]

end Steps

/-- The invariant of the runs that keep the map. -/
structure Steady (w : Ledger) : Prop where
  balanced : w.Balanced
  midOp : w.sys.MidOp
  agrees : ∀ uid, w.AgreesAt uid

theorem Steady.start (C : Casing) (store : Store) : (start C store).Steady where
  balanced := .start C store
  midOp := by
    intro i c uid hc
    cases hc
  agrees := by
    intro uid
    constructor
    · rintro j ⟨⟨st, hst⟩, -⟩
      cases hst
    · intro j hj
      cases hj

theorem Steady.step {w w' : Ledger} {a : Action} (hw : w.Steady) (hok : w.KeepsMap a)
    (hs : w.step a = some w') : w'.Steady where
  balanced := hw.balanced.step hs
  midOp := hw.midOp.step (step_eq_some.mp hs).2.1
  agrees := ((mapFollows_iff hw.balanced hw.midOp hw.agrees hs).mp hok w' hs).1

/-- A connection takes a lock and writes it down. -/
def writtenDown : List Action :=
  [.connect 1 .socket terminal, .lock 1 6 ⟨some "9900a", some "serial", none⟩, .track 1]

/-- The poll cycle takes the lock of a board that is gone, and a remote client the lock of the
board that is back. -/
def replugged : List Action :=
  writtenDown ++ [.cycle .noBoard, .cycle .oneBoard, .connect 2 .tcp System.laptop,
    .lock 2 8 ⟨some "9900a", some "serial", none⟩,
    .connect 3 .socket ⟨.local, "42", some 42, none⟩]

end Ledger

end MbTools.Api
