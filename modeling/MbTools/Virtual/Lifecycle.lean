import MbTools.Virtual.Boards

/-! # The life of a registration

The rows of virtual boards are those of the live registrations, whatever happens
in the registry. That each live registration still has its handler holds as long
as the ack of a registration can be written: the write comes between the section
that makes the registration and the code that takes it away.
-/

namespace MbTools

namespace Api.System

open Store

variable {s s' : System} {a : Action} {i now : ℕ} {c : Conn} {uid : String} {h : HolderRef}

theorem releaseAll_store (d : Daemon) (now : ℕ) (h : HolderRef) (uids : List String) :
    (releaseAll d now h uids).store = d.store :=
  Pass.foldl_inv (P := fun t : Daemon => t.store = d.store)
    (fun _ _ _ ht => Daemon.releaseLock_store.trans ht) rfl

theorem store_keeps (hs : s.step a = some s') (ha : Virtual.spares a = true) :
    s.daemon.store.Keeps s'.daemon.store := by
  have hsame : s'.daemon.store = s.daemon.store → s.daemon.store.Keeps s'.daemon.store :=
    fun he => he ▸ Keeps.refl _
  cases step_cases hs with
  | lock hc hidle hop hmode =>
    obtain ⟨_, _, _, _, -, -, -, -, -, rfl⟩ := opLock_eq_ok hop
    exact hsame rfl
  | unlock hc hidle hop hmode =>
    obtain ⟨_, _, -, -, -, rfl⟩ := opUnlock_eq_ok hop
    exact hsame Daemon.releaseLock_store
  | forceUnlock hc hidle hserver hop =>
    obtain ⟨_, _, -, -, -, rfl⟩ := opForceUnlock_eq_ok hop
    apply hsame
    rw [shutTracked_daemon]
    exact forceReleaseLock_store
  | flashEnd hc hm => exact hsame Daemon.releaseLock_store
  | streamEnd hc hm hclosed => exact hsame Daemon.releaseLock_store
  | hangUp hc hm => exact hsame (releaseAll_store _ _ _ _)
  | sweep => exact hsame (Daemon.sweepLocks_store _ _ _)
  | cycle =>
    apply Daemon.lockedBlock_keeps
    intro uid hu
    simpa using List.all_eq_true.mp ha uid hu
  | write => exact write_keeps ha
  | detachVirtual => cases ha
  | poolEnd hq hclosed => exact hsame Daemon.releaseLock_store
  | _ => exact hsame rfl

theorem get_of_takes (ht : s.Takes a uid h) : ∃ r, s.daemon.store.get uid = some r := by
  unfold Takes at ht
  split at ht
  · obtain ⟨c, d, -, -, -, hop⟩ := ht
    obtain ⟨_, r, _, _, -, hr, -, rfl, -⟩ := opLock_eq_ok hop
    exact ⟨r, get_of_resolveVisible hr⟩
  · obtain ⟨-, r, hr, rfl⟩ := ht
    exact ⟨r, (mem_snapshotLocalDevices_iff.mp (List.mem_of_find?_eq_some hr)).1⟩
  · exact ht.elim

theorem takeAway_store (s : System) (now : ℕ) (uid : String) :
    (Virtual.takeAway s now uid).daemon.store = s.daemon.store.removeVirtual uid := by
  rw [Virtual.takeAway, shutTracked_daemon]
  simp only [setDaemon]
  split
  · rfl
  · rw [Daemon.releaseLock_store]

/-- Taking a board away is the step of the registry that detaches it. -/
theorem takeAway_step (hv : s.daemon.store.virtualAt uid = true) (now : ℕ) :
    s.step (.detachVirtual now uid) = some (Virtual.takeAway s now uid) := by
  obtain ⟨r, hr, hv⟩ := (Option.any_eq_true _ _).mp hv
  simp only [step, hr, if_pos hv]
  rfl

end Api.System

namespace Virtual

open Store Api

/-- The registration a handler has made and not taken away. -/
def Duty.reg : Duty → Option VirtualRegistration
  | .acking reg => some reg
  | .holding reg => some reg
  | .ended => none

namespace Boards

variable {b b' : Boards} {i j now : ℕ} {uid k : String} {reg : VirtualRegistration} {a : Action}

def Serves (b : Boards) (i : ℕ) (reg : VirtualRegistration) : Prop :=
  (b.duty.lookup i).bind Duty.reg = some reg

theorem serves_iff : b.Serves i reg ↔
    b.duty.lookup i = some (.acking reg) ∨ b.duty.lookup i = some (.holding reg) := by
  unfold Serves
  cases b.duty.lookup i with
  | none => simp
  | some x => cases x <;> simp [Duty.reg]

theorem Serves.of_insert {x : Duty} (hs : b'.Serves j reg)
    (he : b'.duty = b.duty.insert i x) :
    i = j ∧ x.reg = some reg ∨ i ≠ j ∧ b.Serves j reg := by
  unfold Serves at hs
  rw [he, Dict.lookup_insert] at hs
  split at hs
  · rename_i hij
    exact Or.inl ⟨hij, hs⟩
  · rename_i hij
    exact Or.inr ⟨hij, hs⟩

theorem duty_ne_none {x y : Duty} (hd : b.duty.lookup i = some x)
    (hj : Dict.lookup (b.duty.insert i y) j ≠ none) : b.duty.lookup j ≠ none := by
  rw [Dict.lookup_insert] at hj
  split at hj
  · rename_i hij
    rw [← hij, hd]
    nofun
  · exact hj

theorem lookup_add (live : VirtualBoards) (reg : VirtualRegistration) (k : String) :
    Dict.lookup (live.add reg) k = if reg.key = k then some reg else live.lookup k :=
  Dict.lookup_insert live reg.key reg k

/-! ## The steps -/

theorem act_step (hs : b.step (.act a) = some b') : b.free a = true ∧ spares a = true ∧
    ∃ sys, b.sys.step a = some sys ∧ b' = { b with sys, duty := b.dutyAfter a } := by
  simp only [step] at hs
  split at hs
  · rename_i h
    obtain ⟨hf, hp⟩ := Bool.and_eq_true_iff.mp h
    obtain ⟨sys, hsys, rfl⟩ := Option.map_eq_some_iff.mp hs
    exact ⟨hf, hp, sys, hsys, rfl⟩
  · cases hs

theorem register_step {request : Except String VirtualRegistration}
    (hs : b.step (.register i now request) = some b') : b' = b ∨
      ∃ c reg, b.sys.conns.lookup i = some c ∧ b.duty.lookup i = none ∧ reg.conn = some i ∧
        b.live.lookup reg.key = none ∧
        b' = ⟨b.sys.setDaemon { b.sys.daemon with
            store := b.sys.daemon.store.upsertVirtual now reg.uid reg.name reg.role reg.serial },
          b.live.add reg, b.duty.insert i (.acking reg), b.made ++ [reg]⟩ := by
  simp only [step] at hs
  split at hs
  · cases hs
  · rename_i c hc
    split at hs
    · rename_i hfree
      split at hs
      · exact Or.inl (Option.some.inj hs).symm
      · rename_i reg t hop
        obtain rfl := Option.some.inj hs
        unfold opRegisterBoard at hop
        split at hop
        · cases hop
        · rename_i q
          split at hop
          · cases hop
          · dsimp only at hop
            split at hop
            · cases hop
            · rename_i huse
              cases hop
              refine Or.inr ⟨c, _, hc, hfree.2.2, rfl, ?_, rfl⟩
              simpa [VirtualBoards.nameInUse, VirtualRegistration.key] using huse
    · cases hs

theorem ack_step {written : Bool} (hs : b.step (.ack i written) = some b') :
    ∃ reg, b.duty.lookup i = some (.acking reg) ∧
      b' = { b with duty := b.duty.insert i (if written then .holding reg else .ended) } := by
  simp only [step] at hs
  split at hs
  · rename_i reg hd
    exact ⟨reg, hd, (Option.some.inj hs).symm⟩
  · cases hs

theorem detach_step (hs : b.step (.detach i now) = some b') :
    ∃ reg, b.duty.lookup i = some (.holding reg) ∧
      b' = { b.detachVirtual now reg with duty := b.duty.insert i .ended } := by
  simp only [step] at hs
  split at hs
  · rename_i reg hd
    exact ⟨reg, hd, (Option.some.inj hs).symm⟩
  · cases hs

theorem serves_act (hf : b.free a = true) (sys : System) :
    Serves { b with sys, duty := b.dutyAfter a } j reg ↔ b.Serves j reg := by
  unfold Serves
  cases a with
  | hangUp i now =>
    have hnone : (b.duty.lookup i).bind Duty.reg = none := by
      rcases Bool.or_eq_true_iff.mp hf with (h | h)
      · rw [of_decide_eq_true h]
        rfl
      · rw [of_decide_eq_true h]
        rfl
    simp only [dutyAfter, Dict.lookup_erase]
    split
    · rename_i hij
      rw [← hij, hnone]
      exact Iff.rfl
    · exact Iff.rfl
  | _ => exact Iff.rfl

/-! ## What every step keeps -/

/-- The rows and the locks of virtual boards follow the live registrations, and a handler takes
away nothing but its own. -/
structure Kept (b : Boards) : Prop where
  rows : ∀ uid, b.sys.daemon.store.virtualAt uid = true ↔
    ∃ k reg, b.live.lookup k = some reg ∧ reg.uid = uid
  keyed : ∀ k reg, b.live.lookup k = some reg → k = reg.key
  serves : ∀ i reg, b.Serves i reg → reg.conn = some i ∧ b.live.lookup reg.key = some reg
  conn : ∀ i, b.duty.lookup i ≠ none → ∃ c, b.sys.conns.lookup i = some c
  locks : ∀ uid st, isVirtualUid uid = true → b.sys.daemon.locks.status uid = some st →
    ∃ r, b.sys.daemon.store.get uid = some r
  made : ∀ reg ∈ b.made, ∀ r, b.sys.daemon.store.get reg.uid = some r →
    b.sys.daemon.store.virtualAt reg.uid = true

theorem isVirtualUid_uid (reg : VirtualRegistration) : isVirtualUid reg.uid = true := by
  simp [isVirtualUid, startsWith, VirtualRegistration.uid]

theorem key_of_uid {q : VirtualRegistration} (h : q.uid = reg.uid) : q.key = reg.key := by
  have hname : q.name = reg.name := by
    simpa [VirtualRegistration.uid, String.ext_iff] using h
  rw [VirtualRegistration.key, hname, VirtualRegistration.key]

theorem Kept.act (hk : b.Kept) (hs : b.step (.act a) = some b') : b'.Kept := by
  obtain ⟨hf, hp, sys, hsys, rfl⟩ := act_step hs
  have hkeep := System.store_keeps hsys hp
  have hiff : ∀ {uid}, isVirtualUid uid = true →
      sys.daemon.store.virtualAt uid = b.sys.daemon.store.virtualAt uid := by
    intro uid hu
    rw [virtualAt_eq_map, hkeep.get_iff hu, ← virtualAt_eq_map]
  have hrow : ∀ {uid}, isVirtualUid uid = true →
      ((∃ r, sys.daemon.store.get uid = some r) ↔ ∃ r, b.sys.daemon.store.get uid = some r) := by
    intro uid hu
    have h := congrArg Option.isSome (hkeep.get_iff hu)
    rwa [Option.isSome_map, Option.isSome_map, Bool.eq_iff_iff, Option.isSome_iff_exists,
      Option.isSome_iff_exists] at h
  constructor
  case rows =>
    intro uid
    constructor
    · intro hv
      exact (hk.rows uid).mp (hkeep.virtualAt_le hv)
    · rintro ⟨k, reg, hreg, rfl⟩
      rw [hiff (isVirtualUid_uid reg)]
      exact (hk.rows reg.uid).mpr ⟨k, reg, hreg, rfl⟩
  case keyed => exact hk.keyed
  case serves =>
    intro i reg hi
    exact hk.serves i reg ((serves_act hf sys).mp hi)
  case conn =>
    intro i hi
    have hne : ∀ now, a ≠ .hangUp i now := by
      rintro now rfl
      exact hi Dict.lookup_erase_self
    have hold : b.duty.lookup i ≠ none := by
      intro hn
      apply hi
      cases a with
      | hangUp j now =>
        simp only [dutyAfter, Dict.lookup_erase]
        split
        · rfl
        · exact hn
      | _ => exact hn
    obtain ⟨c, hc⟩ := hk.conn i hold
    exact System.open_of_step hc hsys hne
  case locks =>
    intro uid st hu hst
    rw [hrow hu]
    rcases System.status_of_step hsys hst with (hold | ⟨-, ht⟩)
    · exact hk.locks uid st hu hold
    · exact System.get_of_takes ht
  case made =>
    intro reg hreg r hr
    obtain ⟨r, hr⟩ := (hrow (isVirtualUid_uid reg)).mp ⟨r, hr⟩
    rw [hiff (isVirtualUid_uid reg)]
    exact hk.made reg hreg r hr

theorem Kept.register {request : Except String VirtualRegistration} (hk : b.Kept)
    (hs : b.step (.register i now request) = some b') : b'.Kept := by
  rcases register_step hs with (rfl | ⟨c, reg, hc, hfree, hconn, hnew, rfl⟩)
  · exact hk
  have hold : ∀ {k q}, b.live.lookup k = some q → (b.live.add reg).lookup k = some q := by
    intro k q hq
    rw [lookup_add, if_neg, hq]
    rintro rfl
    cases hnew.symm.trans hq
  constructor
  case rows =>
    intro uid
    refine (virtualAt_upsertVirtual _ now reg.uid reg.name reg.role reg.serial uid).trans ?_
    rw [hk.rows uid]
    constructor
    · rintro (rfl | ⟨k, q, hq, rfl⟩)
      · exact ⟨reg.key, reg, Dict.lookup_insert_self, rfl⟩
      · exact ⟨k, q, hold hq, rfl⟩
    · rintro ⟨k, q, hq, rfl⟩
      rw [lookup_add] at hq
      split at hq
      · cases hq
        exact Or.inl rfl
      · exact Or.inr ⟨k, q, hq, rfl⟩
  case keyed =>
    intro k q hq
    rw [lookup_add] at hq
    split at hq
    · rename_i h
      cases hq
      exact h.symm
    · exact hk.keyed k q hq
  case serves =>
    intro j q hj
    rcases hj.of_insert rfl with (⟨rfl, hq⟩ | ⟨-, hj⟩)
    · cases hq
      exact ⟨hconn, Dict.lookup_insert_self⟩
    · obtain ⟨hq, hlive⟩ := hk.serves j q hj
      exact ⟨hq, hold hlive⟩
  case conn =>
    intro j hj
    simp only [Dict.lookup_insert] at hj
    split at hj
    · rename_i hij
      exact ⟨c, hij ▸ hc⟩
    · exact hk.conn j hj
  case locks =>
    intro uid st hu hst
    simp only [System.setDaemon, get_upsertVirtual]
    split
    · exact ⟨_, rfl⟩
    · exact hk.locks uid st hu hst
  case made =>
    intro q hq r hr
    refine (virtualAt_upsertVirtual _ now reg.uid reg.name reg.role reg.serial q.uid).mpr ?_
    by_cases hu : reg.uid = q.uid
    · exact Or.inl hu
    · have hr' : b.sys.daemon.store.get q.uid = some r := by
        simpa only [System.setDaemon, get_upsertVirtual, if_neg hu] using hr
      rcases List.mem_append.mp hq with (hq | hq)
      · exact Or.inr (hk.made q hq r hr')
      · exact absurd (congrArg VirtualRegistration.uid (List.mem_singleton.mp hq)).symm hu

theorem Kept.ack {written : Bool} (hk : b.Kept) (hs : b.step (.ack i written) = some b') :
    b'.Kept := by
  obtain ⟨reg, hd, rfl⟩ := ack_step hs
  refine ⟨hk.rows, hk.keyed, fun j q hj => ?_, fun j hj => ?_, hk.locks, hk.made⟩
  · rcases hj.of_insert rfl with (⟨rfl, hq⟩ | ⟨-, hj⟩)
    · have hq : q = reg := by
        split at hq
        · exact (Option.some.inj hq).symm
        · cases hq
      exact hq ▸ hk.serves i reg (serves_iff.mpr (Or.inl hd))
    · exact hk.serves j q hj
  · exact hk.conn j (duty_ne_none hd hj)

theorem detachVirtual_of_live (hl : b.live.lookup reg.key = some reg) (now : ℕ) :
    b.detachVirtual now reg =
      { b with live := b.live.erase reg.key, sys := takeAway b.sys now reg.uid } := by
  rw [detachVirtual, VirtualBoards.remove, if_pos hl]

/-- Taking a live registration away leaves those of other uids. -/
theorem Kept.lookup_erase (hk : b.Kept) (hlive : b.live.lookup reg.key = some reg)
    {q : VirtualRegistration} : Dict.lookup (b.live.erase reg.key) k = some q ↔
      b.live.lookup k = some q ∧ q.uid ≠ reg.uid := by
  rw [Dict.lookup_erase]
  constructor
  · intro hq
    split at hq
    · cases hq
    · rename_i hne
      exact ⟨hq, fun hu => hne (by rw [hk.keyed k q hq, key_of_uid hu])⟩
  · rintro ⟨hq, hu⟩
    rw [if_neg]
    · exact hq
    · rintro rfl
      exact hu (by rw [Option.some.inj (hq.symm.trans hlive)])

theorem Kept.detach (hk : b.Kept) (hs : b.step (.detach i now) = some b') : b'.Kept := by
  obtain ⟨reg, hd, rfl⟩ := detach_step hs
  obtain ⟨hconn, hlive⟩ := hk.serves i reg (serves_iff.mpr (Or.inr hd))
  have hv := (hk.rows reg.uid).mpr ⟨reg.key, reg, hlive, rfl⟩
  have hstep := System.takeAway_step hv now
  rw [detachVirtual_of_live hlive]
  have hleft : ∀ {k q}, Dict.lookup (b.live.erase reg.key) k = some q ↔
      b.live.lookup k = some q ∧ q.uid ≠ reg.uid := hk.lookup_erase hlive
  constructor
  case rows =>
    intro uid
    simp only [System.takeAway_store]
    rw [virtualAt_removeVirtual hv, hk.rows uid]
    constructor
    · rintro ⟨hne, k, q, hq, rfl⟩
      exact ⟨k, q, hleft.mpr ⟨hq, Ne.symm hne⟩, rfl⟩
    · rintro ⟨k, q, hq, rfl⟩
      obtain ⟨hq, hu⟩ := hleft.mp hq
      exact ⟨Ne.symm hu, k, q, hq, rfl⟩
  case keyed =>
    intro k q hq
    exact hk.keyed k q (hleft.mp hq).1
  case serves =>
    intro j q hj
    rcases hj.of_insert rfl with (⟨-, hq⟩ | ⟨hij, hj⟩)
    · cases hq
    · obtain ⟨hq, hl⟩ := hk.serves j q hj
      refine ⟨hq, hleft.mpr ⟨hl, fun hu => hij ?_⟩⟩
      rw [key_of_uid hu, hlive] at hl
      cases hl
      exact Option.some.inj (hconn.symm.trans hq)
  case conn =>
    intro j hj
    obtain ⟨c, hc⟩ := hk.conn j (duty_ne_none hd hj)
    exact System.open_of_step hc hstep fun _ => by simp
  case locks =>
    intro uid st hu hst
    rw [System.detachVirtual_status hstep] at hst
    split at hst
    · cases hst
    · rename_i hne
      simp only [System.takeAway_store]
      rw [get_removeVirtual hv, if_neg hne]
      exact hk.locks uid st hu hst
  case made =>
    intro q hq r hr
    simp only [System.takeAway_store] at hr ⊢
    rw [get_removeVirtual hv] at hr
    split at hr
    · cases hr
    · rename_i hne
      exact (virtualAt_removeVirtual hv q.uid).mpr ⟨hne, hk.made q hq r hr⟩

theorem Kept.step {x : BoardAction} (hk : b.Kept) (hs : b.step x = some b') : b'.Kept := by
  cases x with
  | act a => exact hk.act hs
  | register i now request => exact hk.register hs
  | ack i written => exact hk.ack hs
  | detach i now => exact hk.detach hs

theorem Kept.start (C : Casing) (store : Store) : (start C store).Kept := by
  constructor
  case rows =>
    intro uid
    constructor
    · intro hv
      cases hv.symm.trans (virtualAt_sweepVirtual store uid)
    · rintro ⟨k, reg, hreg, -⟩
      cases hreg
  case keyed =>
    intro k reg hreg
    cases hreg
  case serves =>
    intro i reg hi
    cases hi
  case conn =>
    intro i hi
    exact absurd rfl hi
  case locks =>
    intro uid st hu hst
    cases hst
  case made =>
    intro reg hreg
    cases hreg

/-- To the registry, a registration is a write and its end a detach. -/
theorem sys_of_step {x : BoardAction} (hk : b.Kept) (hs : b.step x = some b') :
    b'.sys = b.sys ∨ ∃ a, b.sys.step a = some b'.sys := by
  cases x with
  | act a =>
    obtain ⟨-, -, sys, hsys, rfl⟩ := act_step hs
    exact Or.inr ⟨a, hsys⟩
  | register i now request =>
    rcases register_step hs with (rfl | ⟨c, reg, -, -, -, -, rfl⟩)
    · exact Or.inl rfl
    · exact Or.inr ⟨.write (.virtual now reg.name reg.role reg.serial), rfl⟩
  | ack i written =>
    obtain ⟨reg, -, rfl⟩ := ack_step hs
    exact Or.inl rfl
  | detach i now =>
    obtain ⟨reg, hd, rfl⟩ := detach_step hs
    obtain ⟨-, hlive⟩ := hk.serves i reg (serves_iff.mpr (Or.inr hd))
    rw [detachVirtual_of_live hlive]
    exact Or.inr ⟨_, System.takeAway_step ((hk.rows reg.uid).mpr ⟨_, reg, hlive, rfl⟩) now⟩

theorem exec_sys {C : Casing} {store : Store} {xs : List BoardAction}
    (hr : Runs.exec step (start C store) xs = some b) :
    ∃ as, Runs.exec System.step (System.start C store.sweepVirtual) as = some b.sys := by
  have hstep : ∀ (t : Boards) (x : BoardAction) (t' : Boards),
      (t.Kept ∧ ∃ as, Runs.exec System.step (System.start C store.sweepVirtual) as = some t.sys) →
        t.step x = some t' →
          t'.Kept ∧
            ∃ as, Runs.exec System.step (System.start C store.sweepVirtual) as = some t'.sys := by
    rintro t x t' ⟨hk, as, has⟩ hs
    refine ⟨hk.step hs, ?_⟩
    rcases sys_of_step hk hs with (he | ⟨a, ha⟩)
    · exact ⟨as, he ▸ has⟩
    · exact ⟨as ++ [a], Runs.exec_concat.mpr ⟨t.sys, has, ha⟩⟩
  exact (Runs.inv_of_exec hstep ⟨Kept.start C store, [], rfl⟩ hr).2

/-! ## The handler of a registration -/

/-- Every live registration has a handler that is going to take it away. -/
def Handled (b : Boards) : Prop := ∀ k reg, b.live.lookup k = some reg → ∃ i, b.Serves i reg

/-- An ack that is due is written. -/
def AcksWritten (_ : Boards) : BoardAction → Prop
  | .ack _ written => written = true
  | _ => True

instance (b : Boards) : (x : BoardAction) → Decidable (b.AcksWritten x)
  | .act _ => isTrue trivial
  | .register _ _ _ => isTrue trivial
  | .ack _ written => inferInstanceAs (Decidable (written = true))
  | .detach _ _ => isTrue trivial

theorem Handled.register {request : Except String VirtualRegistration} (hh : b.Handled)
    (hs : b.step (.register i now request) = some b') : b'.Handled := by
  rcases register_step hs with (rfl | ⟨c, reg, -, hfree, -, -, rfl⟩)
  · exact hh
  intro k q hq
  rw [lookup_add] at hq
  split at hq
  · obtain rfl := Option.some.inj hq
    refine ⟨i, ?_⟩
    simp only [Serves, Dict.lookup_insert_self]
    rfl
  · obtain ⟨j, hj⟩ := hh k q hq
    refine ⟨j, ?_⟩
    have hij : i ≠ j := by
      rintro rfl
      rw [Serves, hfree] at hj
      cases hj
    simpa only [Serves, Dict.lookup_insert_of_ne hij] using hj

/-- A handler that ends at the ack leaves its registration without one. -/
theorem handled_ack_iff {written : Bool} (hk : b.Kept) (hh : b.Handled)
    (hs : b.step (.ack i written) = some b') : b'.Handled ↔ written = true := by
  obtain ⟨reg, hd, rfl⟩ := ack_step hs
  obtain ⟨hconn, hlive⟩ := hk.serves i reg (serves_iff.mpr (Or.inl hd))
  constructor
  · intro hall
    obtain ⟨j, hj⟩ := hall reg.key reg hlive
    rcases hj.of_insert rfl with (⟨-, hq⟩ | ⟨hij, hj⟩)
    · cases written with
      | true => rfl
      | false => cases hq
    · exact absurd (Option.some.inj (hconn.symm.trans (hk.serves j reg hj).1)) hij
  · rintro rfl k q hq
    obtain ⟨j, hj⟩ := hh k q hq
    refine ⟨j, ?_⟩
    simp only [Serves, Dict.lookup_insert]
    split
    · rename_i hij
      rw [← hij, Serves, hd] at hj
      exact hj
    · exact hj

theorem Handled.detach (hk : b.Kept) (hh : b.Handled) (hs : b.step (.detach i now) = some b') :
    b'.Handled := by
  obtain ⟨reg, hd, rfl⟩ := detach_step hs
  have hi : b.Serves i reg := serves_iff.mpr (Or.inr hd)
  rw [detachVirtual_of_live (hk.serves i reg hi).2]
  intro k q hq
  simp only [Dict.lookup_erase] at hq
  split at hq
  · cases hq
  · rename_i hne
    obtain ⟨j, hj⟩ := hh k q hq
    have hij : i ≠ j := by
      rintro rfl
      obtain rfl := Option.some.inj (hi.symm.trans hj)
      exact hne (hk.keyed k reg hq).symm
    refine ⟨j, ?_⟩
    simpa only [Serves, Dict.lookup_insert_of_ne hij] using hj

theorem handled_step {x : BoardAction} (hk : b.Kept) (hh : b.Handled) (hs : b.step x = some b') :
    b'.Handled ↔ b.AcksWritten x := by
  cases x with
  | act a =>
    obtain ⟨hf, -, sys, -, rfl⟩ := act_step hs
    refine iff_of_true (fun k q hq => ?_) trivial
    obtain ⟨j, hj⟩ := hh k q hq
    exact ⟨j, (serves_act hf sys).mpr hj⟩
  | register i now request => exact iff_of_true (hh.register hs) trivial
  | ack i written => exact handled_ack_iff hk hh hs
  | detach i now => exact iff_of_true (hh.detach hk hs) trivial

/-! ## The lifecycle -/

/-- What is to hold of the registrations, but for the handlers that are in the middle of one. -/
structure Lifecycle (b : Boards) : Prop where
  rows : ∀ uid, b.sys.daemon.store.virtualAt uid = true ↔
    ∃ k reg, b.live.lookup k = some reg ∧ reg.uid = uid
  handled : ∀ k reg, b.live.lookup k = some reg →
    ∃ i c, reg.conn = some i ∧ b.sys.conns.lookup i = some c ∧
      (b.duty.lookup i = some (.acking reg) ∨ b.duty.lookup i = some (.holding reg))
  /-- Between two steps of the handlers, none is at an ack. -/
  held : (∀ i reg, b.duty.lookup i ≠ some (.acking reg)) → ∀ k reg, b.live.lookup k = some reg →
    ∃ i c, reg.conn = some i ∧ b.sys.conns.lookup i = some c ∧
      b.duty.lookup i = some (.holding reg)
  names : ∀ k reg k' reg', b.live.lookup k = some reg → b.live.lookup k' = some reg' →
    lowerName reg.name = lowerName reg'.name → reg = reg'
  /-- The name of an ended registration is free, or is in use by a later one. -/
  name : ∀ reg ∈ b.made, (∀ i, ¬ b.Serves i reg) → b.live.nameInUse reg.name = true →
    ∃ i reg', reg' ≠ reg ∧ reg'.key = reg.key ∧ b.Serves i reg'
  gone : ∀ reg ∈ b.made, (∀ i, ¬ b.Serves i reg) →
    (∀ i reg', b.Serves i reg' → reg'.uid ≠ reg.uid) →
      b.sys.daemon.store.get reg.uid = none ∧ b.sys.daemon.locks.status reg.uid = none

theorem Kept.lifecycle_iff (hk : b.Kept) : b.Lifecycle ↔ b.Handled := by
  constructor
  · intro h k reg hreg
    obtain ⟨i, -, -, -, hd⟩ := h.handled k reg hreg
    exact ⟨i, serves_iff.mpr hd⟩
  · intro hh
    have hhandled : ∀ k reg, b.live.lookup k = some reg →
        ∃ i c, reg.conn = some i ∧ b.sys.conns.lookup i = some c ∧
          (b.duty.lookup i = some (.acking reg) ∨ b.duty.lookup i = some (.holding reg)) := by
      intro k reg hreg
      obtain ⟨i, hi⟩ := hh k reg hreg
      have hd := serves_iff.mp hi
      obtain ⟨c, hc⟩ := hk.conn i (by rintro hn; simp [hn] at hd)
      exact ⟨i, c, (hk.serves i reg hi).1, hc, hd⟩
    constructor
    case rows => exact hk.rows
    case handled => exact hhandled
    case held =>
      intro hquiet k reg hreg
      obtain ⟨i, c, hconn, hc, hd⟩ := hhandled k reg hreg
      exact ⟨i, c, hconn, hc, hd.resolve_left (hquiet i reg)⟩
    case names =>
      intro k reg k' reg' hreg hreg' hl
      have hkey : k = k' := by rw [hk.keyed k reg hreg, hk.keyed k' reg' hreg']; exact hl
      exact Option.some.inj (hreg.symm.trans (hkey ▸ hreg'))
    case name =>
      intro reg hmade hno huse
      obtain ⟨q, hq⟩ := Option.isSome_iff_exists.mp huse
      obtain ⟨i, hi⟩ := hh _ q hq
      refine ⟨i, q, ?_, (hk.keyed _ q hq).symm, hi⟩
      rintro rfl
      exact hno i hi
    case gone =>
      intro reg hmade hno hother
      have hnone : b.sys.daemon.store.get reg.uid = none := by
        cases hr : b.sys.daemon.store.get reg.uid with
        | none => rfl
        | some r =>
          obtain ⟨k, q, hq, hu⟩ := (hk.rows reg.uid).mp (hk.made reg hmade r hr)
          obtain ⟨i, hi⟩ := hh k q hq
          exact absurd hu (hother i q hi)
      refine ⟨hnone, ?_⟩
      cases hst : b.sys.daemon.locks.status reg.uid with
      | none => rfl
      | some st =>
        obtain ⟨r, hr⟩ := hk.locks reg.uid st (isVirtualUid_uid reg) hst
        cases hnone.symm.trans hr

/-- From whatever store the registry starts, the lifecycle holds throughout a run exactly when no
handler ends at the ack of a registration it has made. -/
theorem lifecycle_iff_acksWritten (C : Casing) (store : Store) (as : List BoardAction) (b : Boards)
    (hr : Runs.exec step (start C store) as = some b) :
    Runs.Meets step AcksWritten (start C store) as ↔
      ∀ bs t, bs <+: as → Runs.exec step (start C store) bs = some t → t.Lifecycle := by
  have hstart : (start C store).Kept ∧ (start C store).Handled :=
    ⟨Kept.start C store, fun k reg hreg => by cases hreg⟩
  have hstep : ∀ (t : Boards) (x : BoardAction) (t' : Boards), (t.Kept ∧ t.Handled) →
      t.step x = some t' → ((t'.Kept ∧ t'.Handled) ↔ t.AcksWritten x) := by
    rintro t x t' ⟨hk, hh⟩ hs
    exact (and_iff_right (hk.step hs)).trans (handled_step hk hh hs)
  refine (Runs.meets_iff_inv hstep hstart hr).trans ?_
  have hkept : ∀ bs t, Runs.exec step (start C store) bs = some t → t.Kept :=
    fun bs t ht => Runs.inv_of_exec (fun _ _ _ hk hs => hk.step hs) hstart.1 ht
  constructor
  · intro hall bs t hb ht
    exact (hkept bs t ht).lifecycle_iff.mpr (hall bs t hb ht).2
  · intro hall bs t hb ht
    exact ⟨hkept bs t ht, (hkept bs t ht).lifecycle_iff.mp (hall bs t hb ht)⟩

def bob : VirtualRegistration :=
  ⟨"bob", ("127.0.0.1".toList.map Char.toNat, 7000), "NEZHA2", "1", none⟩

def simulator : HolderRef := ⟨.local, "41", some 41, none⟩

/-- A simulator registers its board and ends, and another one takes the name. -/
def heldBoard : List BoardAction :=
  [.act (.connect 1 .socket simulator), .register 1 5 (.ok bob), .ack 1 true, .detach 1 6,
    .act (.hangUp 1 6), .act (.connect 2 .socket simulator), .register 2 7 (.ok bob), .ack 2 true]

theorem lifecycle_heldBoard :
    ∃ b, Runs.exec step (start .ascii System.oneBoard) heldBoard = some b ∧
    b.duty.lookup 2 = some (.holding { bob with conn := some 2 }) ∧ b.Lifecycle := by
  have hrun : (Runs.exec step (start .ascii System.oneBoard) heldBoard).any (fun b =>
      b.duty.lookup 2 = some (.holding { bob with conn := some 2 })) = true := by decide
  obtain ⟨b, hb, hend⟩ := (Option.any_eq_true _ _).mp hrun
  have hm : Runs.Meets step AcksWritten (start .ascii System.oneBoard) heldBoard :=
    Runs.meets_of_forall (by simp [heldBoard, AcksWritten])
  exact ⟨b, hb, of_decide_eq_true hend,
    (lifecycle_iff_acksWritten .ascii System.oneBoard heldBoard b hb).mp hm heldBoard b
      (List.prefix_refl _) hb⟩

/-- A simulator is gone before its ack is written. -/
def lostAck : List BoardAction :=
  [.act (.connect 1 .socket simulator), .register 1 5 (.ok bob), .ack 1 false, .act (.hangUp 1 6)]

/-- Its row and its name stay, with no handler anywhere. -/
theorem not_lifecycle : ¬ ∀ (C : Casing) (store : Store) (as : List BoardAction) (b : Boards),
    Runs.exec step (start C store) as = some b →
      (∀ i reg, b.duty.lookup i ≠ some (.acking reg)) → b.Lifecycle := by
  have hrun : (Runs.exec step (start .ascii System.oneBoard) lostAck).any (fun b =>
      b.duty = Table.empty && b.live.lookup "bob" = some { bob with conn := some 1 }) = true := by
    decide
  obtain ⟨b, hb, hend⟩ := (Option.any_eq_true _ _).mp hrun
  simp only [Bool.and_eq_true, decide_eq_true_iff] at hend
  obtain ⟨hduty, hlive⟩ := hend
  intro hall
  have hquiet : ∀ i reg, b.duty.lookup i ≠ some (.acking reg) := by
    rw [hduty]
    exact fun i reg hn => by cases hn
  obtain ⟨i, -, -, -, hd⟩ := (hall .ascii System.oneBoard lostAck b hb hquiet).held hquiet _ _ hlive
  rw [hduty] at hd
  cases hd

end Boards

end Virtual

end MbTools
