import MbTools.Lib.Runs
import MbTools.Registry.Agreement

/-! # Two instances on one host

Two registries, each with its own persisted store, share the boards of a host
and the lock files that say who claimed which. A claim is a file lock: one
process holds it, and it goes when the process closes the file or exits. The
cycles of an instance are taken apart into what they do to one uid at a time.
-/

namespace MbTools.Instances

open Store Daemon

inductive Instance where
  | first
  | second
  deriving DecidableEq, Repr

/-- One instance: its daemon, the uids its running cycles own and did not check yet, and the
uids whose port it has open. -/
structure Node where
  daemon : Daemon
  toCheck : List String
  probing : List String

structure Host where
  node : Instance → Node
  /-- Who holds the lock on the file of a uid. -/
  flock : String → Option Instance

inductive Action where
  | attach (x : Instance) (wall : ℕ) (uid : String) (info : PortInfo) (handle : ℕ)
  | own (x : Instance) (uid : String)
  | detach (x : Instance) (wall now : ℕ) (uid : String)
  | giveUp (x : Instance) (wall : ℕ) (uid : String)
  | check (x : Instance) (uid : String)
  | write (x : Instance) (wall : ℕ) (uid : String) (result : Option ProbeResult)
      (chip : Option (String × ℕ))
  | acquire (x : Instance) (now : ℕ) (uid : String) (kind : LockKind) (holder : HolderRef)
      (label : Option String)
  | release (x : Instance) (now : ℕ) (uid : String) (holder : HolderRef)
  | purge (x : Instance) (deviceUids peerHosts : List String)
  | restart (x : Instance)

def Host.setNode (s : Host) (x : Instance) (n : Node) : Host :=
  { s with node := fun y => if y = x then n else s.node y }

def Host.setDaemon (s : Host) (x : Instance) (d : Daemon) : Host :=
  s.setNode x { s.node x with daemon := d }

/-- What the steps of an instance do. A scanned uid that is not attached is claimed first; a
claim that is refused skips it. -/
def step (s : Host) : Action → Option Host
  | .attach x wall uid info handle =>
    if Attached (s.node x).daemon.store uid then none
    else
      match s.flock uid with
      | some _ => some s
      | none =>
        let n := s.node x
        some
          { s.setNode x
              { n with daemon := n.daemon.attachOne wall uid info handle
                       toCheck := uid :: n.toCheck } with
            flock := fun u => if u = uid then some x else s.flock u }
  | .own x uid =>
    if Attached (s.node x).daemon.store uid then
      some (s.setNode x { s.node x with toCheck := uid :: (s.node x).toCheck })
    else none
  | .detach x wall now uid =>
    if Attached (s.node x).daemon.store uid then
      some
        { s.setDaemon x ((s.node x).daemon.detachOne wall now uid) with
          flock := fun u =>
            if u = uid ∧ ((s.node x).daemon.claims.lookup uid).isSome then none else s.flock u }
    else none
  | .giveUp x wall uid =>
    if ((s.node x).daemon.flashPending.lookup uid).isSome then
      match (s.node x).daemon.giveUpOne wall uid with
      | .ok d => some (s.setDaemon x d)
      | .error _ => some s
    else none
  | .check x uid =>
    if uid ∈ (s.node x).toCheck then
      let n := { s.node x with toCheck := (s.node x).toCheck.erase uid }
      match n.daemon.probeEligible uid with
      | .ok true => some (s.setNode x { n with probing := uid :: n.probing })
      | _ => some (s.setNode x n)
    else none
  | .write x wall uid result chip =>
    if uid ∈ (s.node x).probing then
      let n := { s.node x with probing := (s.node x).probing.erase uid }
      some (s.setNode x
        { n with daemon := (n.daemon.probeWrite wall uid result chip).toOption.getD n.daemon })
    else none
  | .acquire x now uid kind holder label =>
    let d := (s.node x).daemon
    some (s.setDaemon x
      { d with locks := (d.locks.acquire now uid kind holder label).toOption.getD d.locks })
  | .release x now uid holder => some (s.setDaemon x ((s.node x).daemon.releaseLock now uid holder))
  | .purge x deviceUids peerHosts =>
    let d := (s.node x).daemon
    some (s.setDaemon x { d with store := d.store.purge deviceUids peerHosts })
  | .restart x =>
    some
      { s.setNode x ⟨(s.node x).daemon.restarted, [], []⟩ with
        flock := fun u => if s.flock u = some x then none else s.flock u }

/-- Both instances just started, on their persisted stores. -/
def start (C : Casing) (store : Instance → Store) (timeout : Instance → ℕ) : Host where
  node x := ⟨⟨store x, Table.empty, Table.empty, Table.empty, timeout x, C⟩, [], []⟩
  flock _ := none

/-- The steps that keep claims and attached boards together. -/
def ok (s : Host) : Action → Prop
  | .detach x _ _ uid => uid ∉ (s.node x).probing
  | .giveUp x _ uid => ∀ r, (s.node x).daemon.store.get uid = some r →
      r.host ≠ none ∨ r.isVirtual = true
  | .check x uid => (s.node x).daemon.probeEligible uid = .ok true →
      Attached (s.node x).daemon.store uid
  | .restart x => ∀ u, ¬ Attached (s.node x).daemon.store u
  | _ => True

/-- What is attached is claimed, the claims are the file locks held, and only an attached board
is being probed. -/
structure Inv (s : Host) : Prop where
  claimed : ∀ x u, Attached (s.node x).daemon.store u → s.flock u = some x
  handle : ∀ x u, ((s.node x).daemon.claims.lookup u).isSome ↔ s.flock u = some x
  probing : ∀ x, ∀ u ∈ (s.node x).probing, Attached (s.node x).daemon.store u

section Steps

variable {s s' : Host} {x : Instance} {u uid : String} {d : Daemon} {wall now handle : ℕ}
  {info : PortInfo}

theorem attachOne_attached_iff :
    Attached (d.attachOne wall uid info handle).store u ↔ u = uid ∨ Attached d.store u := by
  by_cases hu : u = uid
  · subst hu
    refine ⟨fun _ => Or.inl rfl, fun _ => ?_⟩
    unfold Attached
    rw [attachOne_get, if_pos rfl]
    exact ⟨_, rfl, attachedRow_spec.1⟩
  · unfold Attached
    rw [attachOne_get, if_neg (Ne.symm hu)]
    simp [hu]

theorem detachOne_attached_iff :
    Attached (d.detachOne wall now uid).store u ↔ u ≠ uid ∧ Attached d.store u := by
  by_cases hu : u = uid
  · subst hu
    refine ⟨fun ⟨r, hr, hl⟩ => ?_, fun h => absurd rfl h.1⟩
    rw [detachOne_get, if_pos rfl] at hr
    obtain ⟨q, -, rfl⟩ := Option.map_eq_some_iff.mp hr
    exact absurd rfl hl.2.1
  · unfold Attached
    rw [detachOne_get, if_neg (Ne.symm hu)]
    simp [hu]

theorem detachOne_claims : (d.detachOne wall now uid).claims = d.claims.erase uid := by
  unfold detachOne
  split
  · rfl
  · simp only [releaseLock_claims]

theorem giveUpOne_attached_iff {d' : Daemon} (h : d.giveUpOne wall uid = .ok d')
    (hr : ∀ r, d.store.get uid = some r → r.host ≠ none ∨ r.isVirtual = true) :
    (Attached d'.store u ↔ Attached d.store u) ∧ d'.claims = d.claims := by
  obtain ⟨r, hg, rfl⟩ := giveUpOne_eq_ok_iff.mp h
  refine ⟨?_, rfl⟩
  have hru := uid_of_get hg
  by_cases hu : uid = u
  · subst hu
    have hno : ∀ q : DeviceRecord, q.host = r.host → q.isVirtual = r.isVirtual → ¬ q.IsLocal := by
      rintro q hh hv ⟨hl, -, hvf⟩
      rcases hr r hg with (hne | hvt)
      · exact hne (hh ▸ hl)
      · rw [hv, hvt] at hvf
        cases hvf
    constructor
    · rintro ⟨q, hq, hl⟩
      simp only [get_writeRow_self (show (r.knownBlank wall).uid = uid from hru),
        Option.some.injEq] at hq
      subst hq
      exact absurd hl (hno _ rfl rfl)
    · rintro ⟨q, hq, hl⟩
      rw [hg, Option.some.injEq] at hq
      subst hq
      exact absurd hl (hno r rfl rfl)
  · unfold Attached
    simp only [get_writeRow_of_ne (show (r.knownBlank wall).uid ≠ u from fun he => hu (hru ▸ he))]

theorem sweepVirtual_attached {t : Store} (h : Attached t.sweepVirtual u) : Attached t u := by
  obtain ⟨r, hr, hl⟩ := h
  refine ⟨r, ?_, hl⟩
  revert hr
  unfold Store.sweepVirtual
  refine Pass.foldl_inv (P := fun t' : Store => t'.get u = some r → t.get u = some r)
    (fun t' q _ ht hr => ?_) id
  rw [get_deleteRow] at hr
  split at hr
  · cases hr
  · exact ht hr

/-- The invariant after a step of one instance, given what it now claims and probes. -/
theorem Inv.update {n : Node} {flock : String → Option Instance} (h : Inv s)
    (hother : ∀ y, y ≠ x → ∀ u, flock u = some y ↔ s.flock u = some y)
    (hclaimed : ∀ u, Attached n.daemon.store u → flock u = some x)
    (hhandle : ∀ u, (n.daemon.claims.lookup u).isSome ↔ flock u = some x)
    (hprobing : ∀ u ∈ n.probing, Attached n.daemon.store u) :
    Inv { s.setNode x n with flock := flock } := by
  refine ⟨fun y u hu => ?_, fun y u => ?_, fun y u hu => ?_⟩
  · by_cases hy : y = x
    · subst hy
      simp only [Host.setNode, if_true] at hu
      exact hclaimed u hu
    · simp only [Host.setNode, if_neg hy] at hu
      exact (hother y hy u).mpr (h.claimed y u hu)
  · by_cases hy : y = x
    · subst hy
      simp only [Host.setNode, if_true]
      exact hhandle u
    · simp only [Host.setNode, if_neg hy]
      exact (h.handle y u).trans (hother y hy u).symm
  · by_cases hy : y = x
    · subst hy
      simp only [Host.setNode, if_true] at hu ⊢
      exact hprobing u hu
    · simp only [Host.setNode, if_neg hy] at hu ⊢
      exact h.probing y u hu

theorem Inv.keep {n : Node} (h : Inv s)
    (hatt : ∀ u, Attached n.daemon.store u ↔ Attached (s.node x).daemon.store u)
    (hclaims : n.daemon.claims = (s.node x).daemon.claims)
    (hprobing : ∀ u ∈ n.probing, Attached (s.node x).daemon.store u) : Inv (s.setNode x n) := by
  refine h.update (x := x) (n := n) (fun y _ u => Iff.rfl) (fun u hu => ?_) (fun u => ?_)
    fun u hu => (hatt u).mpr (hprobing u hu)
  · exact h.claimed x u ((hatt u).mp hu)
  · rw [hclaims]
    exact h.handle x u

theorem Inv.attach (h : Inv s) (hf : s.flock uid = none) :
    Inv { s.setNode x
            { s.node x with
              daemon := (s.node x).daemon.attachOne wall uid info handle
              toCheck := uid :: (s.node x).toCheck } with
          flock := fun u => if u = uid then some x else s.flock u } := by
  have hcl : ((s.node x).daemon.attachOne wall uid info handle).claims =
      (s.node x).daemon.claims.insert uid handle := rfl
  refine h.update (fun y hy u => ?_) (fun u hu => ?_) (fun u => ?_) fun u hu => ?_
  · split
    · rename_i hu
      rw [hu, hf]
      simp [Ne.symm hy]
    · rfl
  · split
    · rfl
    · rename_i hne
      exact h.claimed x u ((attachOne_attached_iff.mp hu).resolve_left hne)
  · simp only [hcl]
    by_cases hu : u = uid
    · subst hu
      simp
    · rw [Dict.lookup_insert_of_ne (Ne.symm hu), if_neg hu]
      exact h.handle x u
  · exact attachOne_attached_iff.mpr (Or.inr (h.probing x u hu))

theorem Inv.detach (h : Inv s) (ha : Attached (s.node x).daemon.store uid)
    (hp : uid ∉ (s.node x).probing) :
    Inv { s.setDaemon x ((s.node x).daemon.detachOne wall now uid) with
          flock := fun u =>
            if u = uid ∧ ((s.node x).daemon.claims.lookup uid).isSome then none
            else s.flock u } := by
  have hown : s.flock uid = some x := h.claimed x uid ha
  have hsome : ((s.node x).daemon.claims.lookup uid).isSome := (h.handle x uid).mpr hown
  refine h.update (fun y hy u => ?_) (fun u hu => ?_) (fun u => ?_) fun u hu => ?_
  · by_cases hu : u = uid
    · subst hu
      simp [hsome, hown, Ne.symm hy]
    · simp [hu]
  · obtain ⟨hne, hu⟩ := detachOne_attached_iff.mp hu
    rw [if_neg fun hc => hne hc.1]
    exact h.claimed x u hu
  · simp only [detachOne_claims]
    by_cases hu : u = uid
    · subst hu
      simp [hsome]
    · rw [Dict.lookup_erase_of_ne (Ne.symm hu), if_neg fun hc => hu hc.1]
      exact h.handle x u
  · exact detachOne_attached_iff.mpr ⟨fun he => hp (he ▸ hu), h.probing x u hu⟩

theorem Inv.restart (h : Inv s) (hok : ∀ u, ¬ Attached (s.node x).daemon.store u) :
    Inv { s.setNode x ⟨(s.node x).daemon.restarted, [], []⟩ with
          flock := fun u => if s.flock u = some x then none else s.flock u } := by
  refine h.update (fun y hy u => ?_) (fun u hu => ?_) (fun u => ?_) fun u hu => ?_
  · split
    · rename_i hu
      simp [hu, Ne.symm hy]
    · rfl
  · exact absurd (sweepVirtual_attached hu) (hok u)
  · have hnone : ((s.node x).daemon.restarted.claims.lookup u).isSome = false := rfl
    simp only [hnone, Bool.false_eq_true, false_iff]
    split <;> simp_all
  · cases hu

/-- One step of the right kind keeps claims and attached boards together. -/
theorem Inv.step {a : Action} (h : Inv s) (hok : ok s a) (hs : step s a = some s') : Inv s' := by
  cases a with
  | attach x wall uid info handle =>
    simp only [Instances.step] at hs
    split at hs
    · cases hs
    · split at hs
      · cases hs
        exact h
      · rename_i hf
        cases hs
        exact h.attach hf
  | own x uid =>
    simp only [Instances.step] at hs
    split at hs
    · cases hs
      exact h.keep (fun u => Iff.rfl) rfl (h.probing x)
    · cases hs
  | detach x wall now uid =>
    simp only [Instances.step] at hs
    split at hs
    · rename_i ha
      cases hs
      exact h.detach ha hok
    · cases hs
  | giveUp x wall uid =>
    simp only [Instances.step] at hs
    split at hs
    · split at hs
      · rename_i d hd
        cases hs
        exact h.keep (fun u => (giveUpOne_attached_iff hd hok).1)
          (giveUpOne_attached_iff (u := uid) hd hok).2 (h.probing x)
      · cases hs
        exact h
    · cases hs
  | check x uid =>
    simp only [Instances.step] at hs
    split at hs
    · split at hs
      · rename_i helig
        cases hs
        refine h.keep (fun u => Iff.rfl) rfl fun u hu => ?_
        rcases List.mem_cons.mp hu with (rfl | hu)
        · exact hok helig
        · exact h.probing x u hu
      · cases hs
        exact h.keep (fun u => Iff.rfl) rfl (h.probing x)
    · cases hs
  | write x wall uid result chip =>
    simp only [Instances.step] at hs
    split at hs
    · rename_i hmem
      cases hs
      have hatt := h.probing x uid hmem
      cases hw : (s.node x).daemon.probeWrite wall uid result chip with
      | ok d =>
        refine h.keep (fun u => probeWrite_attached_iff hatt hw) ?_ fun u hu =>
          h.probing x u (List.mem_of_mem_erase hu)
        obtain ⟨-, -, -, -, -, -, hc, -⟩ := probeWrite_spec hw
        exact hc
      | error e =>
        exact h.keep (fun u => Iff.rfl) rfl fun u hu => h.probing x u (List.mem_of_mem_erase hu)
    · cases hs
  | acquire x now uid kind holder label =>
    cases hs
    exact h.keep (fun u => Iff.rfl) rfl (h.probing x)
  | release x now uid holder =>
    cases hs
    refine h.keep (fun u => ?_) releaseLock_claims (h.probing x)
    rw [releaseLock_store]
  | purge x deviceUids peerHosts =>
    cases hs
    exact h.keep (fun u => purge_attached_iff) rfl (h.probing x)
  | restart x =>
    cases hs
    exact h.restart hok

end Steps

/-- In a run of such steps every attached or probed board is claimed by its instance, so no board
is attached to, or probed by, both. -/
theorem owner_holds_claim (C : Casing) (store : Instance → Store) (timeout : Instance → ℕ)
    (as : List Action) (s : Host) (h₀ : ∀ x u, ¬ Attached (store x) u)
    (hm : Runs.Meets step ok (start C store timeout) as)
    (hr : Runs.exec step (start C store timeout) as = some s) :
    (∀ x u, (Attached (s.node x).daemon.store u ∨ u ∈ (s.node x).probing) →
      s.flock u = some x ∧ ((s.node x).daemon.claims.lookup u).isSome) ∧
    ∀ u, ¬ ((Attached (s.node .first).daemon.store u ∨ u ∈ (s.node .first).probing) ∧
      (Attached (s.node .second).daemon.store u ∨ u ∈ (s.node .second).probing)) := by
  have hstart : Inv (start C store timeout) :=
    ⟨fun x u hu => absurd hu (h₀ x u), fun x u => by simp [start], fun x u hu => by cases hu⟩
  have hinv : Inv s := Runs.inv_of_meets (fun _ _ _ h hok hs => h.step hok hs) hstart hm hr
  have hown : ∀ x u, (Attached (s.node x).daemon.store u ∨ u ∈ (s.node x).probing) →
      s.flock u = some x := by
    rintro x u (hu | hu)
    · exact hinv.claimed x u hu
    · exact hinv.claimed x u (hinv.probing x u hu)
  refine ⟨fun x u hu => ⟨hown x u hu, (hinv.handle x u).mpr (hown x u hu)⟩, ?_⟩
  rintro u ⟨h1, h2⟩
  have hf := (hown .first u h1).symm.trans (hown .second u h2)
  cases hf

/-- Two siblings: the second is refused the board of the first, and each probes a board of its
own. -/
def siblings : List Action :=
  [.attach .first 1 "9900a" ⟨"/dev/ttyACM0", 0x0d28, 0x0204⟩ 3,
    .attach .second 2 "9900a" ⟨"/dev/ttyACM0", 0x0d28, 0x0204⟩ 4,
    .attach .second 3 "9900b" ⟨"/dev/ttyACM1", 0x0d28, 0x0204⟩ 4,
    .check .first "9900a", .check .second "9900b", .write .first 5 "9900a" none none]

theorem siblings_meets :
    Runs.Meets step ok (start .ascii (fun _ => Store.empty) fun _ => 8) siblings := by
  refine ⟨trivial, fun s hs => ?_⟩
  cases hs
  refine ⟨trivial, fun s hs => ?_⟩
  cases hs
  refine ⟨trivial, fun s hs => ?_⟩
  cases hs
  refine ⟨fun _ => by decide, fun s hs => ?_⟩
  cases hs
  refine ⟨fun _ => by decide, fun s hs => ?_⟩
  cases hs
  exact ⟨trivial, fun _ _ => trivial⟩

theorem owner_holds_claim_siblings :
    ∃ s, Runs.exec step (start .ascii (fun _ => Store.empty) fun _ => 8) siblings = some s ∧
      s.flock "9900a" = some .first ∧ s.flock "9900b" = some .second ∧
      ¬ (Attached (s.node .first).daemon.store "9900b" ∨ "9900b" ∈ (s.node .first).probing) := by
  obtain ⟨hclaim, halone⟩ := owner_holds_claim .ascii (fun _ => Store.empty) (fun _ => 8) siblings _
    (fun x u ⟨r, hr, _⟩ => by cases hr) siblings_meets rfl
  exact ⟨_, rfl, (hclaim .first "9900a" (Or.inl (by decide))).1,
    (hclaim .second "9900b" (Or.inr (by decide))).1,
    fun hfirst => halone "9900b" ⟨hfirst, Or.inr (by decide)⟩⟩

/-- The first instance restarts with its board attached; the second then claims the board. -/
def restartedOwner : List Action :=
  [.attach .first 1 "9900a" ⟨"/dev/ttyACM0", 0x0d28, 0x0204⟩ 3, .restart .first,
    .attach .second 2 "9900a" ⟨"/dev/ttyACM0", 0x0d28, 0x0204⟩ 4]

/-- After a restart the persisted board is attached without a claim, and can be attached twice. -/
theorem owner_without_claim :
    ¬ ∀ (C : Casing) (store : Instance → Store) (timeout : Instance → ℕ) (as : List Action)
      (s : Host),
      (∀ x u, ¬ Attached (store x) u) → Runs.exec step (start C store timeout) as = some s →
      ∀ x u, Attached (s.node x).daemon.store u → s.flock u = some x := by
  intro h
  have hfirst := h .ascii (fun _ => Store.empty) (fun _ => 8) restartedOwner _
    (fun x u ⟨r, hr, _⟩ => by cases hr) rfl .first "9900a" (by decide)
  revert hfirst
  decide

end MbTools.Instances
