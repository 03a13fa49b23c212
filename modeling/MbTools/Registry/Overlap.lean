import MbTools.Lib.Runs
import MbTools.Registry.Agreement

/-! # Overlapping cycles

The daemon loop and the rescans of API threads run cycles side by side. A scan
is taken and a port is opened outside the shared lock, so a cycle is a scan, a
locked block, and a check and a write for each uid it owns, and the steps of
different cycles interleave, with client locks and purges between them.
-/

namespace MbTools.Overlap

open Store Daemon

/-- Where a cycle is. -/
inductive Phase where
  | scanned
  | looping (rest : List String)
  | probing (uid : String) (rest : List String)
  | raised
  deriving DecidableEq, Repr

/-- One call of `run_once`: what it reads, the uids it found attached, and where it is. -/
structure Call where
  cycle : Cycle
  prev : List String
  phase : Phase

structure Registry where
  daemon : Daemon
  /-- The calls, in the order their scans were taken. -/
  calls : List Call
  /-- The call that attached a uid; zero for a board attached from the start. -/
  attachedBy : String → ℕ

inductive Action where
  | scan (c : Cycle)
  | block (i : ℕ)
  | check (i : ℕ) (uid : String)
  | write (i : ℕ) (wall : ℕ) (result : Option ProbeResult) (chip : Option (String × ℕ))
  | acquire (now : ℕ) (uid : String) (kind : LockKind) (holder : HolderRef) (label : Option String)
  | release (now : ℕ) (uid : String) (holder : HolderRef)
  | purge (deviceUids peerHosts : List String)

def Call.withPhase (r : Call) (phase : Phase) : Call := { r with phase }

/-- The call once its locked block is over. -/
def Call.afterBlock (r : Call) (d : Daemon) : Call where
  cycle := r.cycle
  prev := d.previouslyAttached
  phase :=
    match (d.lockedBlock r.cycle).2 with
    | .ok _ => .looping (d.diff r.cycle).2.2.1
    | .error _ => .raised

/-- The uid is one the call's attach loop claims. -/
def claims (d : Daemon) (c : Cycle) (uid : String) : Bool :=
  uid ∈ c.scan.keys && uid ∉ d.previouslyAttached && c.claim uid ≠ none

def step (s : Registry) : Action → Option Registry
  | .scan c => some { s with calls := s.calls ++ [⟨c, [], .scanned⟩] }
  | .block i =>
    match s.calls[i]? with
    | some r =>
      if r.phase = .scanned then
        some
          { daemon := (s.daemon.lockedBlock r.cycle).1
            calls := s.calls.set i (r.afterBlock s.daemon)
            attachedBy := fun u => if claims s.daemon r.cycle u then i else s.attachedBy u }
      else none
    | none => none
  | .check i uid =>
    match s.calls[i]? with
    | some r =>
      match r.phase with
      | .looping rest =>
        if uid ∈ rest then
          let phase :=
            match s.daemon.probeEligible uid with
            | .ok true => Phase.probing uid (rest.erase uid)
            | .ok false => .looping (rest.erase uid)
            | .error _ => .raised
          some { s with calls := s.calls.set i (r.withPhase phase) }
        else none
      | _ => none
    | none => none
  | .write i wall result chip =>
    match s.calls[i]? with
    | some r =>
      match r.phase with
      | .probing uid rest =>
        match s.daemon.probeWrite wall uid result chip with
        | .ok d => some { s with daemon := d, calls := s.calls.set i (r.withPhase (.looping rest)) }
        | .error _ => some { s with calls := s.calls.set i (r.withPhase .raised) }
      | _ => none
    | none => none
  | .acquire now uid kind holder label =>
    some { s with
      daemon.locks := (s.daemon.locks.acquire now uid kind holder label).toOption.getD
        s.daemon.locks }
  | .release now uid holder => some { s with daemon := s.daemon.releaseLock now uid holder }
  | .purge deviceUids peerHosts =>
    some { s with daemon.store := s.daemon.store.purge deviceUids peerHosts }

def start (d : Daemon) : Registry := ⟨d, [], fun _ => 0⟩

/-- Call `i` has the port of `uid` open. -/
def Probing (s : Registry) (i : ℕ) (uid : String) : Prop :=
  ∃ r rest, s.calls[i]? = some r ∧ r.phase = .probing uid rest

/-- The call is over: it probed all it had to, or raised. -/
def Call.finished (r : Call) : Bool := r.phase = .looping [] || r.phase = .raised

/-- The uids the scan of the call gives: scanned, and attached before or claimed by it. -/
def Call.Gives (r : Call) (uid : String) : Prop :=
  uid ∈ r.cycle.scan.keys ∧ (uid ∈ r.prev ∨ r.cycle.claim uid ≠ none)

/-- The board was in every scan taken at or after the one that attached it. -/
def AlwaysPresent (s : Registry) (uid : String) : Prop :=
  ∀ i r, s.attachedBy uid ≤ i → s.calls[i]? = some r → uid ∈ r.cycle.scan.keys

/-- A newer scan was applied already. -/
def Stale (s : Registry) (i : ℕ) : Prop :=
  ∃ j r, i < j ∧ s.calls[j]? = some r ∧ r.phase ≠ .scanned

/-- The block of the call attaches and detaches nothing. -/
def Idle (d : Daemon) (c : Cycle) : Prop :=
  ∀ u, (u ∈ d.previouslyAttached → u ∈ c.scan.keys) ∧ claims d c u = false

/-- The steps that stay serialisable. -/
def ok (s : Registry) : Action → Prop
  | .block i => ∀ r, s.calls[i]? = some r →
      (Stale s i → Idle s.daemon r.cycle) ∧
      (∀ u, ¬ GivenUp s.daemon r.cycle u) ∧
      ∀ u, u ∈ s.daemon.previouslyAttached → u ∉ r.cycle.scan.keys → ∀ j, ¬ Probing s j u
  | .check _ uid => s.daemon.probeEligible uid = .ok true →
      Attached s.daemon.store uid ∧ ∀ j, ¬ Probing s j uid
  | _ => True

/-- The scan newest among the applied ones decides what is attached; a port is open for an
attached board only, and by one call. -/
structure Inv (s : Registry) : Prop where
  applied : ∀ i r, s.calls[i]? = some r → r.phase ≠ .scanned → ¬ Stale s i →
    ∀ u, Attached s.daemon.store u ↔ r.Gives u
  attachedBy : ∀ u, s.attachedBy u = 0 ∨
    ∃ r, s.calls[s.attachedBy u]? = some r ∧ r.phase ≠ .scanned
  probing : ∀ i u, Probing s i u → Attached s.daemon.store u
  exclusive : ∀ i j u, Probing s i u → Probing s j u → i = j

section Steps

variable {s s' : Registry} {i j : ℕ} {r r' : Call} {u : String}

theorem mem_previouslyAttached_iff_attached {d : Daemon} :
    u ∈ d.previouslyAttached ↔ Attached d.store u := mem_previouslyAttached_iff

theorem calls_set_self (hr : s.calls[i]? = some r) : (s.calls.set i r')[i]? = some r' := by
  obtain ⟨hi, -⟩ := List.getElem?_eq_some_iff.mp hr
  rw [List.getElem?_set_self hi]

theorem inv_start (d : Daemon) : Inv (start d) where
  applied i r hr := by simp [start] at hr
  attachedBy u := Or.inl rfl
  probing i u h := by
    obtain ⟨r, rest, hr, -⟩ := h
    simp [start] at hr
  exclusive i j u h := by
    obtain ⟨r, rest, hr, -⟩ := h
    simp [start] at hr

theorem Inv.move {d : Daemon} {p : Phase} (h : Inv s) (hr : s.calls[i]? = some r)
    (hph : r.phase ≠ .scanned) (hp : p ≠ .scanned)
    (hd : ∀ u, Attached d.store u ↔ Attached s.daemon.store u)
    (hprobe : ∀ u rest, p = .probing u rest →
      Attached s.daemon.store u ∧ ∀ j, ¬ Probing s j u) :
    Inv { s with daemon := d, calls := s.calls.set i (r.withPhase p) } := by
  have hself : (s.calls.set i (r.withPhase p))[i]? = some (r.withPhase p) := calls_set_self hr
  have hne : ∀ j, i ≠ j → (s.calls.set i (r.withPhase p))[j]? = s.calls[j]? := fun j hj =>
    List.getElem?_set_ne hj
  have hprob : ∀ j u, Probing { s with daemon := d, calls := s.calls.set i (r.withPhase p) } j u →
      (j = i ∧ ∃ rest, p = .probing u rest) ∨ Probing s j u := by
    rintro j u ⟨q, rest, hq, hqp⟩
    by_cases hj : i = j
    · subst hj
      simp only [hself, Option.some.injEq] at hq
      subst hq
      exact Or.inl ⟨rfl, rest, hqp⟩
    · simp only [hne j hj] at hq
      exact Or.inr ⟨q, rest, hq, hqp⟩
  have hstale : ∀ j, Stale s j →
      Stale { s with daemon := d, calls := s.calls.set i (r.withPhase p) } j := by
    rintro j ⟨k, q, hk, hq, hqp⟩
    by_cases hi : i = k
    · subst hi
      exact ⟨i, _, hk, hself, hp⟩
    · exact ⟨k, q, hk, by rw [← hq]; exact hne k hi, hqp⟩
  refine ⟨?_, ?_, ?_, ?_⟩
  · intro j q hq hqp hns u
    simp only at hq
    rw [hd u]
    by_cases hj : i = j
    · subst hj
      rw [hself, Option.some.injEq] at hq
      subst hq
      exact h.applied i r hr hph (fun hst => hns (hstale i hst)) u
    · rw [hne j hj] at hq
      exact h.applied j q hq hqp (fun hst => hns (hstale j hst)) u
  · intro u
    rcases h.attachedBy u with (h0 | ⟨q, hq, hqp⟩)
    · exact Or.inl h0
    · refine Or.inr ?_
      by_cases hj : i = s.attachedBy u
      · exact ⟨_, by simp only [← hj]; exact hself, hp⟩
      · exact ⟨q, by simp only [hne _ hj]; exact hq, hqp⟩
  · intro j u hpj
    rw [hd u]
    rcases hprob j u hpj with (⟨-, rest, he⟩ | hs)
    · exact (hprobe u rest he).1
    · exact h.probing j u hs
  · intro j k u hj hk
    rcases hprob j u hj with (⟨rfl, rest, he⟩ | hsj)
    · rcases hprob k u hk with (⟨rfl, -⟩ | hsk)
      · rfl
      · exact absurd hsk ((hprobe u rest he).2 k)
    · rcases hprob k u hk with (⟨rfl, rest, he⟩ | hsk)
      · exact absurd hsj ((hprobe u rest he).2 j)
      · exact h.exclusive j k u hsj hsk

theorem Inv.scan {c : Cycle} (h : Inv s) :
    Inv { s with calls := s.calls ++ [⟨c, [], .scanned⟩] } := by
  have hold : ∀ {j : ℕ} {q : Call}, (s.calls ++ [⟨c, [], .scanned⟩])[j]? = some q →
      q.phase ≠ .scanned → s.calls[j]? = some q := by
    intro j q hq hqp
    by_cases hj : j < s.calls.length
    · rwa [List.getElem?_append_left hj] at hq
    · rw [List.getElem?_append_right (Nat.le_of_not_lt hj)] at hq
      obtain ⟨hlt, hqe⟩ := List.getElem?_eq_some_iff.mp hq
      have hz : j - s.calls.length = 0 := by simpa using hlt
      simp only [hz, List.getElem_cons_zero] at hqe
      exact absurd (hqe ▸ rfl) hqp
  have hnew : ∀ {j : ℕ} {q : Call}, s.calls[j]? = some q →
      (s.calls ++ [⟨c, [], .scanned⟩])[j]? = some q := by
    intro j q hq
    obtain ⟨hlt, -⟩ := List.getElem?_eq_some_iff.mp hq
    rwa [List.getElem?_append_left hlt]
  have hprob : ∀ j u, Probing { s with calls := s.calls ++ [⟨c, [], .scanned⟩] } j u →
      Probing s j u := by
    rintro j u ⟨q, rest, hq, hqp⟩
    exact ⟨q, rest, hold hq (by rw [hqp]; simp), hqp⟩
  refine ⟨fun j q hq hqp hns u => ?_, fun u => ?_, fun j u hp => ?_, fun j k u hj hk => ?_⟩
  · refine h.applied j q (hold hq hqp) hqp (fun hst => hns ?_) u
    obtain ⟨k, q', hk, hq', hqp'⟩ := hst
    exact ⟨k, q', hk, hnew hq', hqp'⟩
  · rcases h.attachedBy u with (h0 | ⟨q, hq, hqp⟩)
    · exact Or.inl h0
    · exact Or.inr ⟨q, hnew hq, hqp⟩
  · exact h.probing j u (hprob j u hp)
  · exact h.exclusive j k u (hprob j u hj) (hprob k u hk)

theorem Inv.of_attached_iff {d : Daemon} (h : Inv s)
    (hd : ∀ u, Attached d.store u ↔ Attached s.daemon.store u) : Inv { s with daemon := d } :=
  ⟨fun i r hr hp hns u => (hd u).trans (h.applied i r hr hp hns u), h.attachedBy,
    fun i u hp => (hd u).mpr (h.probing i u hp), h.exclusive⟩

theorem owned_iff_of_idle {d : Daemon} {c : Cycle} (hi : Idle d c) :
    Owned d c u ↔ Attached d.store u := by
  obtain ⟨hscan, hcl⟩ := hi u
  rw [← mem_previouslyAttached_iff_attached]
  constructor
  · rintro ⟨hs, hp | hc⟩
    · exact hp
    · by_contra hnp
      simp [claims, hs, hnp, hc] at hcl
  · exact fun hp => ⟨hscan hp, Or.inl hp⟩

theorem Inv.block (h : Inv s) (hr : s.calls[i]? = some r)
    (hok : ok s (.block i)) :
    Inv { daemon := (s.daemon.lockedBlock r.cycle).1
          calls := s.calls.set i (r.afterBlock s.daemon)
          attachedBy := fun u => if claims s.daemon r.cycle u then i else s.attachedBy u } := by
  obtain ⟨hidle, hgive, hflight⟩ := hok r hr
  have hself : (s.calls.set i (r.afterBlock s.daemon))[i]? = some (r.afterBlock s.daemon) :=
    calls_set_self hr
  have hne : ∀ j, i ≠ j → (s.calls.set i (r.afterBlock s.daemon))[j]? = s.calls[j]? := fun j hj =>
    List.getElem?_set_ne hj
  have hafter : (r.afterBlock s.daemon).phase ≠ .scanned := by
    unfold Call.afterBlock
    simp only
    split <;> simp
  have hatt : ∀ u, Attached (s.daemon.lockedBlock r.cycle).1.store u ↔ Owned s.daemon r.cycle u :=
    fun u => lockedBlock_attached_iff hgive
  have hprob : ∀ {t : Registry}, t.calls = s.calls.set i (r.afterBlock s.daemon) → ∀ j u,
      Probing t j u → Probing s j u := by
    rintro t ht j u ⟨q, rest, hq, hqp⟩
    rw [ht] at hq
    by_cases hj : i = j
    · subst hj
      rw [hself, Option.some.injEq] at hq
      subst hq
      unfold Call.afterBlock at hqp
      simp only at hqp
      split at hqp <;> cases hqp
    · rw [hne j hj] at hq
      exact ⟨q, rest, hq, hqp⟩
  refine ⟨?_, ?_, ?_, ?_⟩
  · intro m q hq hqp hns u
    simp only at hq
    rw [hatt u]
    by_cases hm : i = m
    · subst hm
      rw [hself, Option.some.injEq] at hq
      subst hq
      rfl
    · rw [hne m hm] at hq
      have him : i < m := by
        by_contra hlt
        exact hns ⟨i, _, by omega, hself, hafter⟩
      have hst : Stale s i := ⟨m, q, him, hq, hqp⟩
      have hns' : ¬ Stale s m := by
        rintro ⟨k, q', hk, hq', hqp'⟩
        exact hns ⟨k, q', hk, by rw [← hq']; exact hne k (by omega), hqp'⟩
      rw [owned_iff_of_idle (hidle hst)]
      exact h.applied m q hq hqp hns' u
  · intro u
    simp only
    split
    · exact Or.inr ⟨_, hself, hafter⟩
    · rcases h.attachedBy u with (h0 | ⟨q, hq, hqp⟩)
      · exact Or.inl h0
      · refine Or.inr ?_
        by_cases hj : i = s.attachedBy u
        · exact ⟨_, by rw [← hj]; exact hself, hafter⟩
        · exact ⟨q, by rw [hne _ hj]; exact hq, hqp⟩
  · intro j u hp
    have hs := hprob rfl j u hp
    have hprev : u ∈ s.daemon.previouslyAttached :=
      mem_previouslyAttached_iff_attached.mpr (h.probing j u hs)
    rw [hatt u]
    refine ⟨?_, Or.inl hprev⟩
    by_contra hscan
    exact hflight u hprev hscan j hs
  · intro j k u hj hk
    exact h.exclusive j k u (hprob rfl j u hj) (hprob rfl k u hk)

theorem Inv.step {a : Action} (h : Inv s) (hok : ok s a) (hs : step s a = some s') : Inv s' := by
  cases a with
  | scan c =>
    cases hs
    exact h.scan
  | block i =>
    simp only [Overlap.step] at hs
    split at hs
    · rename_i r hr
      split at hs
      · cases hs
        exact h.block hr hok
      · cases hs
    · cases hs
  | check i uid =>
    simp only [Overlap.step] at hs
    split at hs
    · rename_i r hr
      split at hs
      · rename_i rest hph
        split at hs
        · cases hs
          refine h.move hr (by simp [hph]) (by split <;> simp) (fun u => Iff.rfl) ?_
          intro u rest' he
          split at he
          · rename_i helig
            cases he
            exact hok helig
          · cases he
          · cases he
        · cases hs
      · cases hs
    · cases hs
  | write i wall result chip =>
    simp only [Overlap.step] at hs
    split at hs
    · rename_i r hr
      split at hs
      · rename_i uid rest hph
        have hatt := h.probing i uid ⟨r, rest, hr, hph⟩
        split at hs
        · rename_i d hd
          cases hs
          exact h.move hr (by simp [hph]) (by simp) (fun u => probeWrite_attached_iff hatt hd)
            fun u rest' he => by cases he
        · cases hs
          exact h.move hr (by simp [hph]) (by simp) (fun u => Iff.rfl)
            fun u rest' he => by cases he
      · cases hs
    · cases hs
  | acquire now uid kind holder label =>
    cases hs
    exact h.of_attached_iff fun u => Iff.rfl
  | release now uid holder =>
    cases hs
    exact h.of_attached_iff fun u => by rw [releaseLock_store]
  | purge deviceUids peerHosts =>
    cases hs
    exact h.of_attached_iff fun u => purge_attached_iff

/-- A block of the right kind keeps a board that was in every scan since its attach, and its
lock. -/
theorem Inv.keeps_present (h : Inv s) (hok : ok s (.block i))
    (hs : Overlap.step s (.block i) = some s')
    (hu : Attached s.daemon.store u) (hp : AlwaysPresent s u) :
    Attached s'.daemon.store u ∧ s'.daemon.locks.status u = s.daemon.locks.status u := by
  have hprev := mem_previouslyAttached_iff_attached.mpr hu
  simp only [Overlap.step] at hs
  split at hs
  · rename_i r hr
    obtain ⟨hidle, hgive, -⟩ := hok r hr
    have hscan : u ∈ r.cycle.scan.keys := by
      by_cases hst : Stale s i
      · exact (hidle hst u).1 hprev
      · refine hp i r ?_ hr
        rcases h.attachedBy u with (h0 | ⟨q, hq, hqp⟩)
        · omega
        · by_contra hlt
          exact hst ⟨s.attachedBy u, q, by omega, hq, hqp⟩
    split at hs
    · cases hs
      exact ⟨(lockedBlock_attached_iff hgive).mpr ⟨hscan, Or.inl hprev⟩, lockedBlock_locks hscan⟩
    · cases hs
  · cases hs

end Steps

/-- In a run of such steps no two calls probe one board at once; when all calls are over the
attached boards are those the scan taken last gives; and no block takes a board, or its lock, that
was in every scan since its attach. -/
theorem overlap_serialisable (d : Daemon) (as : List Action) (s : Registry)
    (hm : Runs.Meets step ok (start d) as) (hr : Runs.exec step (start d) as = some s) :
    (∀ i j u, Probing s i u → Probing s j u → i = j) ∧
    ((∀ r ∈ s.calls, r.finished = true) → ∀ r, s.calls.getLast? = some r →
      ∀ u, Attached s.daemon.store u ↔ r.Gives u) ∧
    ∀ i s', ok s (.block i) → step s (.block i) = some s' → ∀ u, Attached s.daemon.store u →
      AlwaysPresent s u →
      Attached s'.daemon.store u ∧ s'.daemon.locks.status u = s.daemon.locks.status u := by
  have hinv : Inv s := Runs.inv_of_meets (fun _ _ _ h hok hs => h.step hok hs) (inv_start d) hm hr
  refine ⟨hinv.exclusive, fun hfin r hlast u => ?_, fun i s' hok hs u hu hp =>
    hinv.keeps_present hok hs hu hp⟩
  rw [List.getLast?_eq_getElem?] at hlast
  have hmem : r ∈ s.calls := List.mem_of_getElem? hlast
  have hph : r.phase ≠ .scanned := by
    intro he
    have hf := hfin r hmem
    simp [Call.finished, he] at hf
  refine hinv.applied _ r hlast hph ?_ u
  rintro ⟨j, q, hj, hq, -⟩
  obtain ⟨hlt, -⟩ := List.getElem?_eq_some_iff.mp hq
  omega

/-- A block is of the right kind where no newer scan was applied, and its own saw every board of the
store. -/
theorem ok_block_of_seen {s : Registry} {i : ℕ}
    (hnewer : (s.calls.drop (i + 1)).all (fun r => r.phase = .scanned) = true)
    (hseen : (s.calls[i]?).all (fun r => s.daemon.store.listDevices.all fun row =>
      row.uid ∈ r.cycle.scan.keys) = true) : ok s (.block i) := by
  intro r hr
  rw [hr, Option.all_some, List.all_eq_true] at hseen
  have hscan (u : String) (row : DeviceRecord) (hrow : s.daemon.store.get u = some row) :
      u ∈ r.cycle.scan.keys := by
    obtain ⟨hmem, rfl⟩ := Table.get?_eq_some_iff.mp hrow
    exact of_decide_eq_true (hseen row hmem)
  refine ⟨?_, ?_, ?_⟩
  · rintro ⟨j, q, hj, hq, hphase⟩
    have hmem : q ∈ s.calls.drop (i + 1) := by
      refine List.mem_of_getElem? (i := j - (i + 1)) ?_
      rw [List.getElem?_drop, Nat.add_sub_cancel' hj]
      exact hq
    exact absurd (of_decide_eq_true (List.all_eq_true.mp hnewer q hmem)) hphase
  · rintro u ⟨hno, -, row, hrow, -⟩
    exact hno (hscan u row hrow)
  · intro u hu hno
    obtain ⟨row, hrow, -⟩ := mem_previouslyAttached_iff.mp hu
    exact absurd (hscan u row hrow) hno

/-- Two calls: the second applies its scan while the first has the port open. -/
def twoCalls : List Action :=
  [.scan .oneBoard, .scan .oneBoard, .block 0, .check 0 "9900a", .block 1, .write 0 21 none none,
    .check 1 "9900a"]

theorem twoCalls_meets : Runs.Meets step ok (start blank) twoCalls := by
  refine ⟨trivial, fun s hs => ?_⟩
  cases hs
  refine ⟨trivial, fun s hs => ?_⟩
  cases hs
  refine ⟨ok_block_of_seen (by decide) (by decide), fun s hs => ?_⟩
  cases hs
  refine ⟨fun _ => ⟨by decide, fun j => ?_⟩, fun s hs => ?_⟩
  · -- neither call has a port open yet
    rintro ⟨r, rest, hr, hphase⟩
    match j with
    | 0 | 1 =>
      cases hr
      cases hphase
    | j + 2 => cases hr
  cases hs
  refine ⟨ok_block_of_seen (by decide) (by decide), fun s hs => ?_⟩
  cases hs
  refine ⟨trivial, fun s hs => ?_⟩
  cases hs
  refine ⟨fun heligible => absurd heligible (by decide), fun s hs => trivial⟩

theorem overlap_serialisable_twoCalls :
    Attached ((Runs.exec step (start blank) twoCalls).getD (start blank)).daemon.store "9900a" ↔
      Call.Gives ⟨.oneBoard, ["9900a"], .looping []⟩ "9900a" :=
  (overlap_serialisable blank twoCalls _ twoCalls_meets rfl).2.1 (by decide) _ rfl "9900a"

/-- A scan that misses the board, taken first and applied last. -/
def staleScan : List Action :=
  [.scan .noBoard, .scan .oneBoard, .block 1, .check 1 "9900a", .write 1 21 none none, .block 0]

/-- A stale scan detaches a board that the last scan saw. -/
theorem overlap_not_serialisable :
    ¬ ∀ (d : Daemon) (as : List Action) (s : Registry), Runs.exec step (start d) as = some s →
      (∀ r ∈ s.calls, r.finished = true) → ∀ r, s.calls.getLast? = some r →
        ∀ u, Attached s.daemon.store u ↔ r.Gives u := by
  intro h
  have hlost := (h blank staleScan _ rfl (by decide) _ rfl "9900a").mpr
    ⟨by decide, Or.inr (by decide)⟩
  revert hlost
  decide

end MbTools.Overlap
