import MbTools.Store.Purge

/-! # The history of one row

From its creation by an attach to its deletion, a row's announcement is that of
the last successful probe, its chip identity the first one written, and its
flash count the number of increments, whatever else is written in between.
-/

namespace MbTools

/-- The operations of the store on one row that is no virtual board's. -/
inductive RowOp where
  | upsertAttached (now : ℕ) (port vidPid : String)
  | upsertRemoteAttached (now : ℕ) (host : String) (port vidPid : Option String)
  | applyProbeResult (now : ℕ) (result : Option ProbeResult)
  | applyRemoteProbe (now : ℕ) (result : Option ProbeResult)
  | applyKnownBlank (now : ℕ)
  | setChipIdentity (name : String) (serial : ℕ)
  | markDisconnected (now : ℕ)
  | markRemoteDetached (now : ℕ)
  | incrementFlashCount
  | applyRemoteLockState (kind display : Option String)
  deriving DecidableEq, Repr

namespace RowOp

/-- The announcement of a successful probe. -/
def success : RowOp → Option ProbeResult
  | applyProbeResult _ result => result
  | applyRemoteProbe _ result => result
  | _ => none

def chipIdentity : RowOp → Option (String × ℕ)
  | setChipIdentity name serial => some (name, serial)
  | _ => none

def isFlash : RowOp → Bool
  | incrementFlashCount => true
  | _ => false

variable {m : RowOp} {ms : List RowOp}

def lastSuccess (ms : List RowOp) : Option ProbeResult := (ms.filterMap success).getLast?

def firstChipIdentity (ms : List RowOp) : Option (String × ℕ) := (ms.filterMap chipIdentity).head?

def flashes (ms : List RowOp) : ℕ := ms.countP isFlash

theorem lastSuccess_append (ms : List RowOp) (m : RowOp) :
    lastSuccess (ms ++ [m]) = m.success.or (lastSuccess ms) := by
  unfold lastSuccess
  rw [List.filterMap_append]
  cases h : m.success with
  | none => simp [h]
  | some p => simp [h]

theorem firstChipIdentity_append (ms : List RowOp) (m : RowOp) :
    firstChipIdentity (ms ++ [m]) = (firstChipIdentity ms).or m.chipIdentity := by
  unfold firstChipIdentity
  rw [List.filterMap_append, List.head?_append]
  cases h : m.chipIdentity with
  | none => simp [h]
  | some p => simp [h]

theorem flashes_append (ms : List RowOp) (m : RowOp) :
    flashes (ms ++ [m]) = flashes ms + if m.isFlash then 1 else 0 := by
  unfold flashes
  rw [List.countP_append, List.countP_singleton]

end RowOp

/-- The columns of a row that say which board it is and what was done to it. -/
structure RowIdentity where
  role : Option String
  commonName : Option String
  deviceName : Option String
  serialPayload : Option String
  rawAnnouncement : Option String
  chipIdentityName : Option String
  chipIdentitySerial : Option ℕ
  flashCount : ℕ
  deriving DecidableEq, Repr

def DeviceRecord.identity (r : DeviceRecord) : RowIdentity where
  role := r.role
  commonName := r.commonName
  deviceName := r.deviceName
  serialPayload := r.serialPayload
  rawAnnouncement := r.rawAnnouncement
  chipIdentityName := r.chipIdentityName
  chipIdentitySerial := r.chipIdentitySerial
  flashCount := r.flashCount

/-- What the history of a row calls for, whatever its order. -/
def RowIdentity.ofHistory (history : List RowOp) : RowIdentity where
  role := (RowOp.lastSuccess history).map ProbeResult.role
  commonName := (RowOp.lastSuccess history).map ProbeResult.commonName
  deviceName := (RowOp.lastSuccess history).map ProbeResult.deviceName
  serialPayload := (RowOp.lastSuccess history).map ProbeResult.serial
  rawAnnouncement := (RowOp.lastSuccess history).map ProbeResult.raw
  chipIdentityName := (RowOp.firstChipIdentity history).map Prod.fst
  chipIdentitySerial := (RowOp.firstChipIdentity history).map Prod.snd
  flashCount := RowOp.flashes history

namespace RowOp

open DeviceRecord

variable {m : RowOp} {ms : List RowOp} {r : DeviceRecord} {uid : String}

/-- The row an operation leaves, given the row before it. Only an attach makes one. -/
def next (uid : String) : RowOp → Option DeviceRecord → Option DeviceRecord
  | upsertAttached now port vidPid, prev =>
    some (upserted now uid none (some port) (some vidPid) prev)
  | upsertRemoteAttached now host port vidPid, prev =>
    some (upserted now uid (some host) port vidPid prev)
  | applyProbeResult now result, prev => prev.map (·.probed now result)
  | applyRemoteProbe now result, prev => prev.map (·.probed now result)
  | applyKnownBlank now, prev => prev.map (·.knownBlank now)
  | setChipIdentity name serial, prev => prev.map (·.withChipIdentity name serial)
  | markDisconnected now, prev => prev.map (·.gone now)
  | markRemoteDetached now, prev => prev.map (·.gone now)
  | incrementFlashCount, prev => prev.map flashed
  | applyRemoteLockState kind display, prev => prev.map (·.withRemoteLock kind display)

theorem upserted_identity (r : DeviceRecord) (now : ℕ) (uid : String)
    (host port vidPid : Option String) :
    (upserted now uid host port vidPid (some r)).identity = r.identity := by
  simp only [upserted]
  split
  · rfl
  · split <;> rfl

theorem ofHistory_untouched (hs : m.success = none) (hc : m.chipIdentity = none)
    (hf : m.isFlash = false) : RowIdentity.ofHistory (ms ++ [m]) = .ofHistory ms := by
  simp [RowIdentity.ofHistory, lastSuccess_append, firstChipIdentity_append, flashes_append, hs, hc,
    hf]

theorem probed_identity (h : r.identity = .ofHistory ms) (now : ℕ) (result : Option ProbeResult)
    (hs : m.success = result) (hc : m.chipIdentity = none) (hf : m.isFlash = false) :
    (r.probed now result).identity = .ofHistory (ms ++ [m]) := by
  cases result with
  | none =>
    rw [ofHistory_untouched hs hc hf, ← h]
    rfl
  | some p =>
    injection h with _ _ _ _ _ hn hser hfl
    simp only [RowIdentity.ofHistory, lastSuccess_append, firstChipIdentity_append, flashes_append,
      hs, hc, hf, Option.or_none, ← hn, ← hser, ← hfl]
    rfl

/-- The chip identity that is already there stays, one that is not is written. -/
theorem withChipIdentity_identity (h : r.identity = .ofHistory ms) (name : String) (serial : ℕ) :
    (r.withChipIdentity name serial).identity =
      .ofHistory (ms ++ [setChipIdentity name serial]) := by
  injection h with hr hcn hdn hsp hra hn hser hfl
  unfold withChipIdentity
  cases hf : firstChipIdentity ms with
  | none =>
    rw [hf, Option.map_none] at hn
    rw [if_pos hn]
    simp [RowIdentity.ofHistory, DeviceRecord.identity, lastSuccess_append,
      firstChipIdentity_append, flashes_append, hf, hr, hcn, hdn, hsp, hra, hfl, success, isFlash,
      chipIdentity]
  | some c =>
    rw [hf, Option.map_some] at hn hser
    rw [if_neg (by rw [hn]; nofun)]
    simp [RowIdentity.ofHistory, DeviceRecord.identity, lastSuccess_append,
      firstChipIdentity_append, flashes_append, hf, hr, hcn, hdn, hsp, hra, hfl, hn, hser, success,
      isFlash]

theorem flashed_identity (h : r.identity = .ofHistory ms) :
    r.flashed.identity = .ofHistory (ms ++ [incrementFlashCount]) := by
  injection h with hr hcn hdn hsp hra hn hser hfl
  simp [RowIdentity.ofHistory, DeviceRecord.identity, flashed, lastSuccess_append,
    firstChipIdentity_append, flashes_append, hr, hcn, hdn, hsp, hra, hfl, hn, hser, success,
    isFlash, chipIdentity]

theorem next_identity (h : r.identity = .ofHistory ms) :
    (m.next uid (some r)).map DeviceRecord.identity = some (.ofHistory (ms ++ [m])) := by
  cases m with
  | upsertAttached now port vidPid =>
    rw [ofHistory_untouched rfl rfl rfl, ← h]
    exact congrArg some (upserted_identity r now uid none (some port) (some vidPid))
  | upsertRemoteAttached now host port vidPid =>
    rw [ofHistory_untouched rfl rfl rfl, ← h]
    exact congrArg some (upserted_identity r now uid (some host) port vidPid)
  | applyProbeResult now result => exact congrArg some (probed_identity h now result rfl rfl rfl)
  | applyRemoteProbe now result => exact congrArg some (probed_identity h now result rfl rfl rfl)
  | applyKnownBlank now =>
    rw [ofHistory_untouched rfl rfl rfl, ← h]
    rfl
  | setChipIdentity name serial => exact congrArg some (withChipIdentity_identity h name serial)
  | markDisconnected now =>
    rw [ofHistory_untouched rfl rfl rfl, ← h]
    rfl
  | markRemoteDetached now =>
    rw [ofHistory_untouched rfl rfl rfl, ← h]
    rfl
  | incrementFlashCount => exact congrArg some (flashed_identity h)
  | applyRemoteLockState kind display =>
    rw [ofHistory_untouched rfl rfl rfl, ← h]
    rfl

/-- The row an attach inserts has no history yet but the attach. -/
theorem next_none_identity (h : m.next uid none = some r) : r.identity = .ofHistory [m] := by
  cases m with
  | upsertAttached now port vidPid =>
    obtain rfl := Option.some.inj h
    rfl
  | upsertRemoteAttached now host port vidPid =>
    obtain rfl := Option.some.inj h
    rfl
  | _ => cases h

end RowOp

namespace Store

variable {s s' : Store} {m : RowOp} {uid k : String} {r : DeviceRecord}

/-- What an operation on the row of a uid leaves; one that raises leaves the store as it was. -/
def rowOp (s : Store) (uid : String) (m : RowOp) : Store :=
  let keep : Except Error Store → Store := fun x => x.toOption.getD s
  match m with
  | .upsertAttached now port vidPid => s.upsertAttached now uid port vidPid
  | .upsertRemoteAttached now host port vidPid => s.upsertRemoteAttached now uid host port vidPid
  | .applyProbeResult now result => keep (s.applyProbeResult now uid result)
  | .applyRemoteProbe now result => keep (s.applyRemoteProbe now uid result)
  | .applyKnownBlank now => keep (s.applyKnownBlank now uid)
  | .setChipIdentity name serial => keep (s.setChipIdentity uid name serial)
  | .markDisconnected now => keep (s.markDisconnected now uid)
  | .markRemoteDetached now => keep (s.markRemoteDetached now uid)
  | .incrementFlashCount => keep (s.incrementFlashCount uid)
  | .applyRemoteLockState kind display => keep (s.applyRemoteLockState uid kind display)

/-- An operation of the store: on one row, or on something else. -/
inductive Op where
  | row (uid : String) (m : RowOp)
  | upsertVirtual (now : ℕ) (uid name role serial : String)
  | removeVirtual (uid : String)
  | sweepVirtual
  | recordPeerSeen (now : ℕ) (host endpoint : String)
  | setPeerReachable (host : String) (reachable : Bool)
  | purge (deviceUids peerHosts : List String)
  | set (now : ℕ) (name : String) (channel group : ℤ)
  | clear (name : String)

def apply (s : Store) (o : Op) : Store :=
  let keep : Except Error Store → Store := fun x => x.toOption.getD s
  match o with
  | .row uid m => s.rowOp uid m
  | .upsertVirtual now uid name role serial => s.upsertVirtual now uid name role serial
  | .removeVirtual uid => s.removeVirtual uid
  | .sweepVirtual => s.sweepVirtual
  | .recordPeerSeen now host endpoint => s.recordPeerSeen now host endpoint
  | .setPeerReachable host reachable => keep (s.setPeerReachable host reachable)
  | .purge deviceUids peerHosts => s.purge deviceUids peerHosts
  | .set now name channel group => keep (s.set now name channel group)
  | .clear name => keep (s.clear name)

/-- The operation on the row of the uid that it is. -/
def Op.on? (uid : String) : Op → Option RowOp
  | .row k m => if k = uid then some m else none
  | _ => none

/-- Registering a virtual board deletes the row of its uid and inserts another. -/
def Op.replaces (uid : String) : Op → Bool
  | .upsertVirtual _ k _ _ _ => k = uid
  | _ => false

/-- What was done to the row of the uid, in order. -/
def rowHistory (uid : String) (ops : List Op) : List RowOp := ops.filterMap (Op.on? uid)

/-- The row of the uid is there after every operation, and never another row put in its place. -/
def Lives (uid : String) : Store → List Op → Prop
  | _, [] => True
  | s, o :: ops =>
    ((s.apply o).get uid).isSome = true ∧ o.replaces uid = false ∧ Lives uid (s.apply o) ops

instance decidableLives (uid : String) : ∀ s ops, Decidable (Lives uid s ops)
  | _, [] => isTrue trivial
  | s, o :: ops =>
    have := decidableLives uid (s.apply o) ops
    inferInstanceAs (Decidable (_ ∧ _ ∧ _))

/-- The writes of the daemon and the peers are operations. -/
def Write.op : Write → Op
  | .attached now uid port vid pid _ => .row uid (.upsertAttached now port (formatVidPid vid pid))
  | .remoteAttached now uid host port vidPid =>
    .row uid (.upsertRemoteAttached now host port vidPid)
  | .probe now uid result => .row uid (.applyProbeResult now result)
  | .knownBlank now uid => .row uid (.applyKnownBlank now)
  | .chipIdentity uid name serial => .row uid (.setChipIdentity name serial)
  | .disconnected now uid => .row uid (.markDisconnected now)
  | .flashCount uid => .row uid .incrementFlashCount
  | .remoteLockState uid kind display => .row uid (.applyRemoteLockState kind display)
  | .virtual now name role serial => .upsertVirtual now (virtualUidPrefix ++ name) name role serial
  | .removeVirtual uid => .removeVirtual uid
  | .sweepVirtual => .sweepVirtual
  | .peerSeen now host endpoint => .recordPeerSeen now host endpoint
  | .peerReachable host reachable => .setPeerReachable host reachable
  | .purge deviceUids peerHosts => .purge deviceUids peerHosts
  | .setName now name channel group => .set now name channel group
  | .clearName name => .clear name

theorem write_eq_apply (s : Store) (w : Write) : s.write w = s.apply w.op := by
  cases w <;> rfl

section Row

theorem get_keep_modifyRow {op : String} {f : DeviceRecord → DeviceRecord}
    (hf : ∀ r, (f r).uid = r.uid) (k : String) :
    (((s.modifyRow op uid f).toOption.getD s).get k) =
      if uid = k then (s.get k).map f else s.get k := by
  cases hs : s.modifyRow op uid f with
  | error e =>
    obtain ⟨hn, -⟩ := modifyRow_eq_error_iff.mp hs
    split
    · rename_i hk
      rw [← hk, hn]
      exact hn
    · rfl
  | ok s' => exact get_of_modifyRow hf hs k

theorem get_rowOp (s : Store) (uid : String) (m : RowOp) (k : String) :
    (s.rowOp uid m).get k = if uid = k then m.next uid (s.get uid) else s.get k := by
  have modified : ∀ {op : String} {f : DeviceRecord → DeviceRecord}, (∀ r, (f r).uid = r.uid) →
      m.next uid = Option.map f → ((s.modifyRow op uid f).toOption.getD s).get k =
        if uid = k then m.next uid (s.get uid) else s.get k := by
    intro op f hf hn
    rw [get_keep_modifyRow hf, hn]
    split
    · rename_i hk
      rw [hk]
    · rfl
  cases m with
  | upsertAttached now port vidPid => exact get_upsertDevice s now uid none _ _ k
  | upsertRemoteAttached now host port vidPid =>
    exact get_upsertDevice s now uid (some host) port vidPid k
  | applyProbeResult now result =>
    exact modified (fun r => DeviceRecord.probed_uid r now result) rfl
  | applyRemoteProbe now result =>
    exact modified (fun r => DeviceRecord.probed_uid r now result) rfl
  | applyKnownBlank now => exact modified (fun _ => rfl) rfl
  | setChipIdentity name serial =>
    exact modified (fun r => DeviceRecord.withChipIdentity_uid r name serial) rfl
  | markDisconnected now => exact modified (fun _ => rfl) rfl
  | markRemoteDetached now => exact modified (fun _ => rfl) rfl
  | incrementFlashCount => exact modified (fun _ => rfl) rfl
  | applyRemoteLockState kind display => exact modified (fun _ => rfl) rfl

theorem get_purge_cases (s : Store) (uids hosts : List String) (uid : String) :
    (s.purge uids hosts).get uid = none ∨ (s.purge uids hosts).get uid = s.get uid := by
  rw [← purgeReport_fst, get_purgeReport]
  split
  · exact Or.inl rfl
  · exact Or.inr rfl

theorem get_removeVirtual_cases (s : Store) (k uid : String) :
    (s.removeVirtual k).get uid = none ∨ (s.removeVirtual k).get uid = s.get uid := by
  unfold removeVirtual
  split
  · exact Or.inr rfl
  · split
    · rw [get_deleteRow]
      split
      · exact Or.inl rfl
      · exact Or.inr rfl
    · exact Or.inr rfl

theorem get_of_device_eq (h : s'.device = s.device) : s'.get uid = s.get uid := by
  rw [get, h]
  rfl

/-- What an operation does to the row of a uid: one of the row's own operations, or its deletion,
or nothing. -/
theorem get_apply (s : Store) {o : Op} (h : o.replaces uid = false) :
    (∃ m, o.on? uid = some m ∧ (s.apply o).get uid = m.next uid (s.get uid)) ∨
      o.on? uid = none ∧ ((s.apply o).get uid = none ∨ (s.apply o).get uid = s.get uid) := by
  cases o with
  | row k m =>
    simp only [Op.on?, apply]
    by_cases hk : k = uid
    · subst hk
      exact Or.inl ⟨m, if_pos rfl, by rw [get_rowOp, if_pos rfl]⟩
    · exact Or.inr ⟨if_neg hk, Or.inr (by rw [get_rowOp, if_neg hk])⟩
  | upsertVirtual now k name role serial =>
    have hk : k ≠ uid := by simpa [Op.replaces] using h
    refine Or.inr ⟨rfl, Or.inr ?_⟩
    simp only [apply, upsertVirtual]
    rw [get_writeRow_of_ne hk, get_deleteRow, if_neg hk]
  | removeVirtual k => exact Or.inr ⟨rfl, get_removeVirtual_cases s k uid⟩
  | sweepVirtual => exact Or.inr ⟨rfl, get_sweepVirtual_cases s uid⟩
  | recordPeerSeen now host endpoint => exact Or.inr ⟨rfl, Or.inr rfl⟩
  | setPeerReachable host reachable =>
    refine Or.inr ⟨rfl, Or.inr (get_of_device_eq ?_)⟩
    simp only [apply, setPeerReachable]
    split <;> rfl
  | purge uids hosts => exact Or.inr ⟨rfl, get_purge_cases s uids hosts uid⟩
  | set now name channel group =>
    refine Or.inr ⟨rfl, Or.inr (get_of_device_eq ?_)⟩
    simp only [apply]
    cases hs : s.set now name channel group with
    | error e => rfl
    | ok s' => exact set_device hs
  | clear name =>
    refine Or.inr ⟨rfl, Or.inr (get_of_device_eq ?_)⟩
    simp only [apply]
    cases hs : s.clear name with
    | error e => rfl
    | ok s' => exact clear_device hs

end Row

section Life

variable {ops : List Op} {past : List RowOp}

theorem Lives.identity_of_row (h : s.get uid = some r) (hr : r.identity = .ofHistory past)
    (hl : Lives uid s ops) : ((ops.foldl apply s).get uid).map DeviceRecord.identity =
      some (.ofHistory (past ++ rowHistory uid ops)) := by
  induction ops generalizing s r past with
  | nil =>
    rw [List.foldl_nil, h, rowHistory, List.filterMap_nil, List.append_nil, ← hr]
    rfl
  | cons o ops ih =>
    obtain ⟨hsome, hrep, hl⟩ := hl
    obtain ⟨r', hr'⟩ := Option.isSome_iff_exists.mp hsome
    rw [List.foldl_cons, rowHistory]
    rcases get_apply s hrep with ⟨m, hm, he⟩ | ⟨hm, he⟩
    · rw [List.filterMap_cons_some hm, ← List.singleton_append, ← List.append_assoc]
      have hid : (m.next uid (some r)).map DeviceRecord.identity =
          some (.ofHistory (past ++ [m])) := RowOp.next_identity hr
      rw [← h, ← he, hr', Option.map_some, Option.some.injEq] at hid
      exact ih hr' hid hl
    · rw [List.filterMap_cons_none hm]
      rcases he with (hn | he)
      · rw [hr'] at hn
        cases hn
      · exact ih (he.trans h) hr hl

/-- From a row's creation to its deletion, whatever is done in between. -/
theorem identity_follows_history (hn : s.get uid = none) (hl : Lives uid s ops)
    (h : (ops.foldl apply s).get uid = some r) :
    r.identity = .ofHistory (rowHistory uid ops) := by
  cases ops with
  | nil => cases hn.symm.trans h
  | cons o ops =>
    obtain ⟨hsome, hrep, hl⟩ := hl
    obtain ⟨q, hq⟩ := Option.isSome_iff_exists.mp hsome
    rcases get_apply s hrep with ⟨m, hm, he⟩ | ⟨-, he⟩
    · -- the operation that made the row is one of its own
      rw [hn, hq] at he
      have hid := hl.identity_of_row hq (RowOp.next_none_identity he.symm)
      rw [← List.foldl_cons, h, Option.map_some, Option.some.injEq] at hid
      rw [hid, rowHistory, rowHistory, List.filterMap_cons_some hm]
      rfl
    · rw [hn, or_self, hq] at he
      cases he

/-- Probed as a relay, chip read, flashed, carried to another host, silent there. -/
def handOver : List Op :=
  [.row "9900a" (.upsertAttached 1 "/dev/ttyACM0" "0d28:0204"),
    .row "9900a" (.applyProbeResult 2 (some ⟨"RELAY", "relay", "zuzuv", "17", "DEVICE:RELAY"⟩)),
    .row "9900a" (.setChipIdentity "tovez" 17),
    .row "9900b" (.upsertAttached 3 "/dev/ttyACM1" "0d28:0204"),
    .row "9900a" .incrementFlashCount,
    .row "9900a" (.markDisconnected 4),
    .purge ["9900b"] [],
    .row "9900a" (.upsertRemoteAttached 5 "loki" none none),
    .row "9900a" (.applyRemoteProbe 6 none),
    .row "9900a" (.setChipIdentity "gavat" 23)]

theorem identity_follows_history_handed_over :
    (handOver.foldl apply empty).get "9900a" ≠ none ∧
      ∀ r, (handOver.foldl apply empty).get "9900a" = some r →
        r.identity = .ofHistory (rowHistory "9900a" handOver) :=
  ⟨by decide +kernel, fun _ h => identity_follows_history rfl (by decide +kernel) h⟩

end Life

end Store

end MbTools
