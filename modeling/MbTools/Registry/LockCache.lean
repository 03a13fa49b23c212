import MbTools.Registry.Blocks

/-! # The cached lock of a peer's board

A row carries the owner's last lock report in two columns. Only a lock report
of the row's owner writes them, but an attach report that moves the row to
another owner leaves them as they are.
-/

namespace MbTools.LockCache

open Store DeviceRecord Daemon

/-- The owner of a row and the cached lock. -/
def caches (r : DeviceRecord) : Option String × Option String × Option String :=
  (r.host, r.remoteLockKind, r.remoteLockDisplay)

/-- A registry, and for each uid the kind in the last lock report its owner sent since the row was
last attributed to it. -/
structure Watch where
  service : Blocks.Service
  told : String → Option (Option String)

/-- The lock report in this block about the uid by the owner of its row. -/
def lockReport (s : Store) (u : String) : Blocks.Action → Option (Option String)
  | .op (.peer host (.event _ e)) =>
    if e.type = some .lockState ∧ e.uid = some u ∧
        (s.get u).any (fun r => r.host = some host) = true then some e.kind else none
  | _ => none

def ownerOf (s : Store) (u : String) : Option (Option String) := (s.get u).map DeviceRecord.host

/-- A change of the owner forgets what the owner before it reported. -/
def toldAfter (w : Watch) (a : Blocks.Action) (s : Store) (u : String) : Option (Option String) :=
  if ownerOf s u = ownerOf w.service.daemon.store u then
    match lockReport w.service.daemon.store u a with
    | some kind => some kind
    | none => w.told u
  else none

def step (w : Watch) (a : Blocks.Action) : Option Watch :=
  (Blocks.step w.service a).map fun v => ⟨v, toldAfter w a v.daemon.store⟩

/-- A registry that starts on an empty store. -/
def start (C : Casing) (timeout : ℕ) : Watch :=
  ⟨Blocks.start ⟨Store.empty, Table.empty, Table.empty, Table.empty, timeout, C⟩, fun _ => none⟩

/-- The block reports the uid attached to this owner: a scan to the local host, an attach event or
a snapshot entry to the peer. -/
def Attributes (w : Watch) (u : String) (owner : Option String) : Blocks.Action → Prop
  | .diff c => owner = none ∧ NewlyClaimed w.service.daemon c u
  | .op (.peer host (.event _ e)) => owner = some host ∧ e.type = some .attach ∧ e.uid = some u
  | .op (.peer host (.snapshot _ reply)) =>
    owner = some host ∧ ∃ d ∈ reply.devices, d.uid = some u
  | _ => False

/-- No row with a cached lock is reported attached to another owner. -/
def Untroubled (w : Watch) (a : Blocks.Action) : Prop :=
  ∀ u owner, Attributes w u owner a → ∀ r, w.service.daemon.store.get u = some r →
    r.host ≠ owner → r.remoteLockKind = none ∧ (owner = none → r.remoteLockDisplay = none)

section Rows

variable {r : DeviceRecord} {now wall : ℕ} {u : String} {host port vidPid : Option String}

@[simp] theorem probed_caches (p : Option ProbeResult) : caches (r.probed now p) = caches r := by
  cases p <;> rfl

@[simp] theorem withChipIdentity_caches (name : String) (serial : ℕ) :
    caches (r.withChipIdentity name serial) = caches r := by
  unfold withChipIdentity
  split <;> rfl

theorem outcomeRow_caches (pending : Bool) (result : Option ProbeResult)
    (chip : Option (String × ℕ)) : caches (outcomeRow wall pending result chip r) = caches r := by
  have hrec : caches (recordedRow wall pending result r) = caches r := by
    unfold recordedRow
    split
    · rfl
    · exact probed_caches result
  cases chip with
  | none => exact hrec
  | some x => exact (withChipIdentity_caches x.1 x.2).trans hrec

theorem layered_caches (d : Peering.DeviceDict) : caches (Peering.layered r now d) = caches r := by
  unfold Peering.layered
  split
  · exact probed_caches _
  · exact probed_caches none
  · rfl
  · rfl
  · rfl
  · rfl

/-- Of all the events about a row only a lock report touches the cached lock. -/
theorem reported_caches {e : Peering.Event} (h : e.type ≠ some .lockState) :
    caches (Peering.reported r now e) = caches r := by
  unfold Peering.reported
  split
  · rfl
  · exact probed_caches _
  · exact probed_caches none
  · rfl
  · rename_i ht
    exact absurd ht h
  · rfl

/-- An attach report leaves the cached lock alone, whether it is refused or moves the row. -/
theorem upserted_caches (r : DeviceRecord) (now : ℕ) (u : String)
    (host port vidPid : Option String) :
    caches (upserted now u host port vidPid (some r)) = caches r ∨
      caches (upserted now u host port vidPid (some r)) =
        (host, r.remoteLockKind, r.remoteLockDisplay) := by
  simp only [upserted]
  split
  · exact Or.inl rfl
  · split
    · exact Or.inr rfl
    · exact Or.inr rfl

end Rows

section Steps

variable {w w' : Watch} {v : Blocks.Service} {a : Blocks.Action} {u : String}
  {prev row : Option DeviceRecord} {owner : Option String}

/-- The row kept its owner and cached lock. -/
def Same (prev row : Option DeviceRecord) : Prop := row.map caches = prev.map caches

/-- The row went to another owner, and took the cached lock along. -/
def Moved (owner : Option String) (prev row : Option DeviceRecord) : Prop :=
  ∃ q, row = some q ∧ ((prev = none ∧ caches q = (owner, none, none)) ∨
    ∃ r, prev = some r ∧ r.host ≠ owner ∧
      caches q = (owner, r.remoteLockKind, r.remoteLockDisplay))

theorem same_or_moved_upserted (now : ℕ) (u : String) (owner port vidPid : Option String)
    (prev : Option DeviceRecord) :
    Same prev (some (upserted now u owner port vidPid prev)) ∨
      Moved owner prev (some (upserted now u owner port vidPid prev)) := by
  cases prev with
  | none => exact Or.inr ⟨_, rfl, Or.inl ⟨rfl, rfl⟩⟩
  | some r =>
    rcases upserted_caches r now u owner port vidPid with (h | h)
    · exact Or.inl (congrArg some h)
    · by_cases hr : r.host = owner
      · refine Or.inl (congrArg some ?_)
        rw [h, ← hr]
        rfl
      · exact Or.inr ⟨_, rfl, Or.inr ⟨r, rfl, hr, h⟩⟩

theorem Same.trans {mid : Option DeviceRecord} (h : Same prev mid) (h' : Same mid row) :
    Same prev row := Eq.trans h' h

theorem Moved.same {mid : Option DeviceRecord} (h : Moved owner prev mid) (h' : Same mid row) :
    Moved owner prev row := by
  obtain ⟨q, rfl, hq⟩ := h
  obtain ⟨x, rfl, hx⟩ := Option.map_eq_some_iff.mp h'
  exact ⟨x, rfl, by rwa [hx]⟩

theorem Moved.of_same {mid : Option DeviceRecord} (h : Same prev mid) (h' : Moved owner mid row) :
    Moved owner prev row := by
  obtain ⟨q, rfl, (⟨rfl, hq⟩ | ⟨r, rfl, hr, hq⟩)⟩ := h'
  · exact ⟨q, rfl, Or.inl ⟨Option.map_eq_none_iff.mp h.symm, hq⟩⟩
  · obtain ⟨x, rfl, hx⟩ := Option.map_eq_some_iff.mp h.symm
    simp only [caches, Prod.mk.injEq] at hx hq ⊢
    refine ⟨q, rfl, Or.inr ⟨x, rfl, by rwa [hx.1], ?_⟩⟩
    simp only [caches, Prod.mk.injEq, hx.2.1, hx.2.2]
    exact hq

/-- An attach report of the owner the row already went to moves it no further. -/
theorem Moved.upserted {mid : Option DeviceRecord} (h : Moved owner prev mid) (now : ℕ)
    (port vidPid : Option String) :
    Same mid (some (DeviceRecord.upserted now u owner port vidPid mid)) := by
  obtain ⟨q, rfl, hq⟩ := h
  have hh : q.host = owner := by
    rcases hq with (⟨-, hq⟩ | ⟨r, -, -, hq⟩)
    · exact congrArg Prod.fst hq
    · exact congrArg Prod.fst hq
  refine congrArg some ?_
  rcases upserted_caches q now u owner port vidPid with (he | he)
  · exact he
  · rw [he, ← hh]
    rfl

theorem caches_snapshotRow (now : ℕ) (host u : String) (d : Peering.DeviceDict)
    (prev : Option DeviceRecord) : caches (Peering.snapshotRow now host u d prev) =
      caches (upserted now u (some host) d.port d.vidPid prev) := by
  simp only [Peering.snapshotRow]
  split
  · exact layered_caches d
  · rfl

theorem same_absentRow (now : ℕ) (host : String) (seen : List (Option String))
    (prev : Option DeviceRecord) : Same prev (prev.map (Peering.absentRow now host seen)) := by
  cases prev with
  | none => rfl
  | some r =>
    refine congrArg some ?_
    unfold Peering.absentRow
    split <;> rfl

theorem row_snapshot (s : Store) (now : ℕ) (host : String) (reply : Peering.SnapshotReply)
    (u : String) :
    Same (s.get u) ((Peering.applyInput host s (.snapshot now reply)).get u) ∨
      (∃ d ∈ reply.devices, d.uid = some u) ∧
        Moved (some host) (s.get u) ((Peering.applyInput host s (.snapshot now reply)).get u) := by
  apply Peering.get_applyInput_inv (P := fun row => Same (s.get u) row ∨
    (∃ d ∈ reply.devices, d.uid = some u) ∧ Moved (some host) (s.get u) row) (.snapshot now reply)
  · intro now' e he
    cases he
  · intro now' reply' he d hd hu mid hmid
    cases he
    have hrow : ∀ x, Same (some (upserted now u (some host) d.port d.vidPid x))
        (some (Peering.snapshotRow now host u d x)) := fun x =>
      congrArg some (caches_snapshotRow now host u d x)
    rcases hmid with (hsame | ⟨hex, hmoved⟩)
    · rcases same_or_moved_upserted now u (some host) d.port d.vidPid mid with (h | h)
      · exact Or.inl ((hsame.trans h).trans (hrow mid))
      · exact Or.inr ⟨⟨d, hd, hu⟩, (Moved.of_same hsame h).same (hrow mid)⟩
    · exact Or.inr ⟨hex, (hmoved.same (hmoved.upserted now d.port d.vidPid)).same (hrow mid)⟩
  · intro now' seen mid hmid
    rcases hmid with (hsame | ⟨hex, hmoved⟩)
    · exact Or.inl (hsame.trans (same_absentRow now' host seen mid))
    · exact Or.inr ⟨hex, hmoved.same (same_absentRow now' host seen mid)⟩
  · exact Or.inl rfl

theorem row_event (s : Store) (now : ℕ) (host : String) (e : Peering.Event) (u : String)
    (hn : lockReport s u (.op (.peer host (.event now e))) = none) :
    Same (s.get u) ((Peering.applyInput host s (.event now e)).get u) ∨
      (e.type = some .attach ∧ e.uid = some u) ∧
        Moved (some host) (s.get u) ((Peering.applyInput host s (.event now e)).get u) := by
  rw [Peering.applyInput, Peering.get_recvEvent]
  split
  · rename_i hu
    unfold Peering.eventRow
    split
    · rename_i ht
      rcases same_or_moved_upserted now u (some host) e.port e.vidPid (s.get u) with (h | h)
      · exact Or.inl h
      · exact Or.inr ⟨⟨ht, hu⟩, h⟩
    · refine Or.inl ?_
      cases hr : s.get u with
      | none => rfl
      | some r =>
        refine congrArg some ?_
        dsimp only
        split
        · rename_i hh
          refine reported_caches fun ht => ?_
          simp [lockReport, ht, hu, hr, hh] at hn
        · rfl
  · exact Or.inl rfl

theorem same_of_eq (h : row = prev) : Same prev row := by rw [Same, h]

theorem row_lockedBlock (d : Daemon) (c : Cycle) (u : String) :
    Same (d.store.get u) ((d.lockedBlock c).1.store.get u) ∨
      NewlyClaimed d c u ∧ Moved none (d.store.get u) ((d.lockedBlock c).1.store.get u) := by
  have hgive : Same ((d.diff c).1.store.get u) ((d.lockedBlock c).1.store.get u) := by
    rcases giveUpLoop_row (d.diff c).1.flashPending.rows (d.diff c).1 [] u with
      (h | ⟨-, r, hr, hq⟩)
    · exact same_of_eq h
    · unfold lockedBlock
      rw [Same, hq, hr]
      rfl
  by_cases hn : NewlyClaimed d c u
  · obtain ⟨info, -, -, hrow⟩ := get_diff_of_newlyClaimed hn
    rw [hrow, attachedRow] at hgive
    rcases same_or_moved_upserted c.wall u none (some info.port)
      (some (formatVidPid info.vid info.pid)) (d.store.get u) with (h | h)
    · exact Or.inl (h.trans hgive)
    · exact Or.inr ⟨hn, h.same hgive⟩
  · refine Or.inl (Same.trans ?_ hgive)
    by_cases hd : Detached d c u
    · rw [get_diff_of_detached hd, Same, Option.map_map]
      rfl
    · exact same_of_eq (get_diff_of_not hn hd)

theorem same_probeWrite (d : Daemon) (wall : ℕ) (uid : String) (result : Option ProbeResult)
    (chip : Option (String × ℕ)) (u : String) : Same (d.store.get u)
      (((d.probeWrite wall uid result chip).toOption.getD d).store.get u) := by
  cases hw : d.probeWrite wall uid result chip with
  | error e => rfl
  | ok d' =>
    obtain ⟨r, hr, hq, hother, -⟩ := probeWrite_spec hw
    simp only [Except.toOption, Option.getD_some]
    by_cases hu : uid = u
    · subst hu
      rw [Same, hq, hr]
      exact congrArg some (outcomeRow_caches _ result chip)
    · exact same_of_eq (hother u hu)

theorem row_op (o : Op) (hn : lockReport w.service.daemon.store u (.op o) = none) :
    (w.service.daemon.apply o).store.get u = none ∨
      Same (w.service.daemon.store.get u) ((w.service.daemon.apply o).store.get u) ∨
      ∃ owner, Attributes w u owner (.op o) ∧
        Moved owner (w.service.daemon.store.get u) ((w.service.daemon.apply o).store.get u) := by
  rcases get_apply_cases o u with (he | he | ⟨-, -, he⟩ | ⟨host, input, rfl⟩)
  · exact Or.inr (Or.inl (same_of_eq he))
  · refine Or.inr (Or.inl ?_)
    rw [Same, he, Option.map_map]
    rfl
  · exact Or.inl he
  · refine Or.inr ?_
    cases input with
    | event now e =>
      rcases row_event w.service.daemon.store now host e u hn with (h | ⟨hatt, h⟩)
      · exact Or.inl h
      · exact Or.inr ⟨some host, ⟨rfl, hatt⟩, h⟩
    | snapshot now reply =>
      rcases row_snapshot w.service.daemon.store now host reply u with (h | ⟨hatt, h⟩)
      · exact Or.inl h
      · exact Or.inr ⟨some host, ⟨rfl, hatt⟩, h⟩

theorem step_row {v v' : Blocks.Service} (hs : Blocks.step v a = some v') (hv : w.service = v)
    (hn : lockReport v.daemon.store u a = none) :
    v'.daemon.store.get u = none ∨ Same (v.daemon.store.get u) (v'.daemon.store.get u) ∨
      ∃ owner, Attributes w u owner a ∧
        Moved owner (v.daemon.store.get u) (v'.daemon.store.get u) := by
  subst hv
  cases a with
  | diff c =>
    cases hs
    rcases row_lockedBlock w.service.daemon c u with (h | ⟨hnew, h⟩)
    · exact Or.inr (Or.inl h)
    · exact Or.inr (Or.inr ⟨none, ⟨rfl, hnew⟩, h⟩)
  | check uid =>
    simp only [Blocks.step] at hs
    split at hs <;> (cases hs; exact Or.inr (Or.inl rfl))
  | write wall uid result chip =>
    simp only [Blocks.step] at hs
    split at hs
    · cases hs
      exact Or.inr (Or.inl (same_probeWrite w.service.daemon wall uid result chip u))
    · cases hs
  | restart =>
    cases hs
    rcases get_sweepVirtual_cases w.service.daemon.store u with (h | h)
    · exact Or.inl h
    · exact Or.inr (Or.inl (same_of_eq h))
  | op o =>
    cases hs
    exact row_op o hn

theorem step_report {v v' : Blocks.Service} {kind : Option String}
    (hs : Blocks.step v a = some v') (hk : lockReport v.daemon.store u a = some kind) :
    ∃ r display, v.daemon.store.get u = some r ∧
      v'.daemon.store.get u = some (r.withRemoteLock kind display) ∧
        ∃ host, r.host = some host := by
  unfold lockReport at hk
  split at hk
  case h_2 => cases hk
  rename_i host now e
  split at hk
  case isFalse => cases hk
  rename_i hcond
  obtain ⟨ht, hu, hany⟩ := hcond
  cases hk
  obtain ⟨r, hr, hh⟩ := (Option.any_eq_true _ _).mp hany
  rw [decide_eq_true_eq] at hh
  cases hs
  refine ⟨r, e.display, hr, ?_, host, hh⟩
  simp [apply, Peering.applyInput, Peering.get_recvEvent, hu, Peering.eventRow, ht, hr, hh,
    Peering.reported]

/-- A local row caches no lock, and a peer's row has the kind of the owner's last report. -/
def ToldRow (told : Option (Option String)) (r : DeviceRecord) : Prop :=
  (r.host = none → r.remoteLockKind = none ∧ r.remoteLockDisplay = none) ∧
    ∀ host, r.host = some host → r.remoteLockKind = told.join

/-- Every row is told. -/
def Told (w : Watch) : Prop := ∀ u r, w.service.daemon.store.get u = some r → ToldRow (w.told u) r

theorem told_start (C : Casing) (timeout : ℕ) : Told (start C timeout) := fun _ _ hr => by cases hr

theorem ownerOf_of_get {s : Store} {r : DeviceRecord} (h : s.get u = some r) :
    ownerOf s u = some r.host := by
  rw [ownerOf, h]
  rfl

theorem toldRow_same {r r' : DeviceRecord} {s : Store} (hr : w.service.daemon.store.get u = some r)
    (hr' : s.get u = some r') (hc : caches r = caches r')
    (hrep : lockReport w.service.daemon.store u a = none) (h : ToldRow (w.told u) r) :
    ToldRow (toldAfter w a s u) r' := by
  simp only [caches, Prod.mk.injEq] at hc
  obtain ⟨hhost, hkind, hdisplay⟩ := hc
  have howner : ownerOf s u = ownerOf w.service.daemon.store u := by
    rw [ownerOf_of_get hr', ownerOf_of_get hr, hhost]
  have htold : toldAfter w a s u = w.told u := by
    simp only [toldAfter, howner, if_true, hrep]
  rw [htold]
  unfold ToldRow at h ⊢
  rwa [← hhost, ← hkind, ← hdisplay]

/-- A row that is new to its owner and has no cached lock is told, as the owner told nothing. -/
theorem toldRow_moved {q : DeviceRecord} {s : Store} (hq : s.get u = some q)
    (hm : Moved owner (w.service.daemon.store.get u) (some q))
    (hok : ∀ r, w.service.daemon.store.get u = some r → r.host ≠ owner →
      r.remoteLockKind = none ∧ (owner = none → r.remoteLockDisplay = none)) :
    ToldRow (toldAfter w a s u) q := by
  obtain ⟨x, hx, hcase⟩ := hm
  obtain rfl := Option.some.inj hx
  have hnew : q.host = owner ∧ q.remoteLockKind = none ∧
      (owner = none → q.remoteLockDisplay = none) ∧
        ownerOf s u ≠ ownerOf w.service.daemon.store u := by
    rw [ownerOf_of_get hq]
    rcases hcase with (⟨hprev, hc⟩ | ⟨r, hprev, hne, hc⟩)
    · simp only [caches, Prod.mk.injEq] at hc
      refine ⟨hc.1, hc.2.1, fun _ => hc.2.2, ?_⟩
      rw [ownerOf, hprev]
      nofun
    · simp only [caches, Prod.mk.injEq] at hc
      obtain ⟨hkind, hdisplay⟩ := hok r hprev hne
      refine ⟨hc.1, hc.2.1.trans hkind, fun ho => hc.2.2.trans (hdisplay ho), ?_⟩
      rw [ownerOf_of_get hprev, hc.1]
      exact fun he => hne (Option.some.inj he).symm
  obtain ⟨hhost, hkind, hdisplay, howner⟩ := hnew
  constructor
  · intro hn
    exact ⟨hkind, hdisplay (hhost.symm.trans hn)⟩
  · intro host _
    rw [hkind, toldAfter, if_neg howner]
    rfl

theorem toldRow_report {v : Blocks.Service} {r' : DeviceRecord} {kind : Option String}
    (hs : Blocks.step w.service a = some v)
    (hrep : lockReport w.service.daemon.store u a = some kind)
    (hr' : v.daemon.store.get u = some r') : ToldRow (toldAfter w a v.daemon.store u) r' := by
  obtain ⟨r, display, hr, hq, host, hh⟩ := step_report hs hrep
  obtain rfl : r.withRemoteLock kind display = r' := Option.some.inj (hq.symm.trans hr')
  have howner : ownerOf v.daemon.store u = ownerOf w.service.daemon.store u := by
    rw [ownerOf_of_get hq, ownerOf_of_get hr]
    rfl
  constructor
  · intro hn
    rw [withRemoteLock_host, hh] at hn
    cases hn
  · intro host' _
    simp only [toldAfter, howner, if_true, hrep]
    rfl

theorem Told.step (h : Told w) (hok : Untroubled w a) (hs : step w a = some w') : Told w' := by
  obtain ⟨v, hv, rfl⟩ := Option.map_eq_some_iff.mp hs
  intro u r' hr'
  cases hrep : lockReport w.service.daemon.store u a with
  | some kind => exact toldRow_report hv hrep hr'
  | none =>
    rcases step_row hv rfl hrep with (hgone | hsame | ⟨owner, hatt, hmoved⟩)
    · rw [hgone] at hr'
      cases hr'
    · rw [Same, hr'] at hsame
      obtain ⟨r, hr, hc⟩ := Option.map_eq_some_iff.mp hsame.symm
      exact toldRow_same hr hr' hc hrep (h u r hr)
    · rw [hr'] at hmoved
      exact toldRow_moved hr' hmoved (hok u owner hatt)

end Steps

section Runs

/-- In a run in which no row with a cached lock changes its owner: a local row caches no lock, and
a peer's row caches one only if the last lock report of its owner, since the row is the owner's,
was of a lock taken. -/
theorem cached_lock_told (C : Casing) (timeout : ℕ) (as : List Blocks.Action) (w : Watch)
    (hm : Runs.Meets step Untroubled (start C timeout) as)
    (hr : Runs.exec step (start C timeout) as = some w) (u : String) (r : DeviceRecord)
    (hrow : w.service.daemon.store.get u = some r) :
    (r.host = none → r.remoteLockKind = none ∧ r.remoteLockDisplay = none) ∧
      ∀ host, r.host = some host → r.remoteLockKind ≠ none →
        ∃ kind, w.told u = some (some kind) := by
  have htold : Told w :=
    Runs.inv_of_meets (fun _ _ _ h hok hs => Told.step h hok hs) (told_start C timeout) hm hr
  obtain ⟨hlocal, hpeer⟩ := htold u r hrow
  refine ⟨hlocal, fun host hh hk => ?_⟩
  rw [hpeer host hh] at hk
  obtain ⟨kind, hkind⟩ := Option.ne_none_iff_exists'.mp hk
  exact ⟨kind, Option.join_eq_some_iff.mp hkind⟩

/-- A peer attaches a board and reports its lock, and then the board is plugged in here. -/
def lockedThenMoved : List Blocks.Action :=
  [.op (.peer "loki" (.event 3 { Peering.Event.ofType .attach with
      uid := some "9900a", port := some "/dev/ttyACM4", vidPid := some "0d28:0204" })),
    .op (.peer "loki" (.event 4 { Peering.Event.ofType .lockState with
      uid := some "9900a", kind := some "serial", display := some "pid 77" })),
    .diff .oneBoard]

/-- The local row keeps the peer's lock. -/
theorem local_row_keeps_lock :
    ¬ ∀ (C : Casing) (timeout : ℕ) (as : List Blocks.Action) (w : Watch),
      Runs.exec step (start C timeout) as = some w → ∀ u r, w.service.daemon.store.get u = some r →
        (r.host = none → r.remoteLockKind = none ∧ r.remoteLockDisplay = none) ∧
          ∀ host, r.host = some host → r.remoteLockKind ≠ none →
            ∃ kind, w.told u = some (some kind) := by
  intro h
  have hrun : (Runs.exec step (start .ascii 10) lockedThenMoved).any (fun w =>
      (w.service.daemon.store.get "9900a").any fun r =>
        r.host = none ∧ r.remoteLockKind ≠ none) = true := by decide
  obtain ⟨w, hw, hrow⟩ := (Option.any_eq_true _ _).mp hrun
  obtain ⟨r, hr, hcond⟩ := (Option.any_eq_true _ _).mp hrow
  obtain ⟨hh, hk⟩ := of_decide_eq_true hcond
  exact hk ((h .ascii 10 lockedThenMoved w hw "9900a" r hr).1 hh).1

/-- Without the move the peer's row has the lock its owner reported. -/
theorem cached_lock_told_locked : ∃ w r,
    Runs.exec step (start .ascii 10) (lockedThenMoved.take 2) = some w ∧
      w.service.daemon.store.get "9900a" = some r ∧ r.remoteLockKind = some "serial" ∧
      ∃ kind, w.told "9900a" = some (some kind) := by
  have hrun : (Runs.exec step (start .ascii 10) (lockedThenMoved.take 2)).any (fun w =>
      (w.service.daemon.store.get "9900a").any fun r =>
        r.host = some "loki" ∧ r.remoteLockKind = some "serial") = true := by decide
  obtain ⟨w, hw, hrow⟩ := (Option.any_eq_true _ _).mp hrun
  obtain ⟨r, hr, hcond⟩ := (Option.any_eq_true _ _).mp hrow
  obtain ⟨hh, hk⟩ := of_decide_eq_true hcond
  refine ⟨w, r, hw, hr, hk,
    (cached_lock_told .ascii 10 (lockedThenMoved.take 2) w ?_ hw "9900a" r hr).2 "loki" hh
      (by rw [hk]; nofun)⟩
  refine ⟨fun u owner hatt q hq => (by cases hq), fun v hv => ⟨fun u owner hatt => ?_, ?_⟩⟩
  · exact absurd hatt.2.1 (by decide)
  · exact fun _ _ => trivial

end Runs

end MbTools.LockCache
