import MbTools.Peering.Snapshot
import MbTools.Registry.Agreement

/-! # What a peer lists of an owner

The uids a peer lists as attached on another host, and how they move: an event
takes its uid to what the owner had just after the write it is about, a
snapshot takes every uid to what the owner had when it was taken. Both are
about uids nobody has attached locally on the peer.
-/

namespace MbTools.Peering

open Store Daemon DeviceRecord

variable {s s' : Store} {now wall : ℕ} {host uid k : String} {e : Event} {r : DeviceRecord}

/-- The peer lists the uid as attached on that host. -/
def Lists (s : Store) (host uid : String) : Prop :=
  ∃ r, s.get uid = some r ∧ r.host = some host ∧ r.state ≠ .disconnected

instance (s : Store) (host uid : String) : Decidable (Lists s host uid) :=
  decidable_of_iff ((s.get uid).any fun r => r.host = some host && r.state ≠ .disconnected)
    (by simp [Lists, Option.any_eq_true])

/-- No local attach claims the uid. -/
def Unclaimed (s : Store) (uid : String) : Prop :=
  ∀ r, s.get uid = some r → r.host = none → r.state = .disconnected

/-- `_rep_loop`: the answer to a snapshot request. -/
def snapshotReply (s : Store) : SnapshotReply := ⟨snapshotPayload s, snapshotNamePayload s⟩

/-- What a reply lists. -/
def Listed (r : SnapshotReply) (uid : String) : Prop := some uid ∈ r.devices.map DeviceDict.uid

/-! ## What the owner's events say -/

/-- One write changed the attached uids at `uid` only, and its event says how. -/
structure Tells (before after : String → Prop) (uid : String) (e : Event) : Prop where
  about : e.uid = some uid
  frame : ∀ k ≠ uid, (after k ↔ before k)
  said : (e.type = some .attach ∧ after uid) ∨ (e.type = some .detach ∧ ¬ after uid) ∨
    (e.type = some .identity ∧ before uid ∧ after uid)

theorem attached_modifyRow_of_ne {op : String} {f : DeviceRecord → DeviceRecord}
    (hf : ∀ r, (f r).uid = r.uid) (h : s.modifyRow op uid f = .ok s') (hk : k ≠ uid) :
    Attached s' k ↔ Attached s k := by
  unfold Attached
  rw [get_of_modifyRow_of_ne hf h hk.symm]

theorem tells_attach (s : Store) (wall : ℕ) (uid port : String) (vid pid : ℕ) :
    ∃ e, ((s.upsertAttached wall uid port (formatVidPid vid pid)).get uid).bind
        (publishDaemonEvent .attach) = some e ∧
      Tells (Attached s) (Attached (s.upsertAttached wall uid port (formatVidPid vid pid))) uid
        e := by
  have hget := get_upsertDevice s wall uid none (some port) (some (formatVidPid vid pid))
  have hrow : (s.upsertAttached wall uid port (formatVidPid vid pid)).get uid =
      some (attachedRow wall uid ⟨port, vid, pid⟩ (s.get uid)) := by
    rw [Store.upsertAttached, hget, if_pos rfl]
    rfl
  have hlocal : (attachedRow wall uid ⟨port, vid, pid⟩ (s.get uid)).IsLocal := attachedRow_spec.1
  have hu := uid_of_get hrow
  generalize attachedRow wall uid ⟨port, vid, pid⟩ (s.get uid) = q at hrow hlocal hu
  refine ⟨{ Event.ofType .attach with uid := q.uid, port := q.port, vidPid := q.vidPid }, ?_, ?_⟩
  · rw [hrow]
    simp [publishDaemonEvent, daemonEventPayload, hlocal.2.1, hlocal.2.2]
  · constructor
    · exact congrArg some hu
    · intro k hk
      unfold Attached
      rw [Store.upsertAttached, hget, if_neg hk.symm]
    · exact Or.inl ⟨rfl, q, hrow, hlocal⟩

theorem tells_detach (h : s.markDisconnected wall uid = .ok s') (ha : Attached s uid) :
    ∃ e, (s'.get uid).bind (publishDaemonEvent .detach) = some e ∧
      Tells (Attached s) (Attached s') uid e := by
  obtain ⟨r, hr, hl⟩ := ha
  have hrow := get_of_modifyRow (fun r => r.gone_uid wall) h uid
  rw [if_pos rfl, hr, Option.map_some] at hrow
  refine ⟨{ Event.ofType .detach with uid := r.uid }, ?_, ?_⟩
  · rw [hrow]
    simp [publishDaemonEvent, daemonEventPayload, hl.2.2]
  · constructor
    · exact congrArg some (uid_of_get hr)
    · exact fun k hk => attached_modifyRow_of_ne (fun r => r.gone_uid wall) h hk
    · refine Or.inr (Or.inl ⟨rfl, ?_⟩)
      rintro ⟨q, hq, hq'⟩
      rw [hrow, Option.some.injEq] at hq
      exact hq'.2.1 (hq ▸ rfl)

/-- A write that keeps the row local is announced by an identity event. -/
theorem tells_identity {op : String} {f : DeviceRecord → DeviceRecord}
    (hf : ∀ r, (f r).uid = r.uid) (hkeep : ∀ r, r.IsLocal → (f r).IsLocal)
    (h : s.modifyRow op uid f = .ok s') (ha : Attached s uid) :
    ∃ e, (s'.get uid).bind (publishDaemonEvent .identity) = some e ∧
      Tells (Attached s) (Attached s') uid e := by
  obtain ⟨r, hr, hl⟩ := ha
  have hl' := hkeep r hl
  have hrow := get_of_modifyRow hf h uid
  rw [if_pos rfl, hr, Option.map_some] at hrow
  refine ⟨{ Event.ofType .identity with
    uid := (f r).uid, state := (f r).state, announcement := announcementOf (f r) }, ?_, ?_⟩
  · rw [hrow]
    simp [publishDaemonEvent, daemonEventPayload, hl'.2.1, hl'.2.2]
  · constructor
    · exact congrArg some ((hf r).trans (uid_of_get hr))
    · exact fun k hk => attached_modifyRow_of_ne hf h hk
    · exact Or.inr (Or.inr ⟨rfl, ⟨r, hr, hl⟩, f r, hrow, hl'⟩)

theorem probed_isLocal (p : Option ProbeResult) (h : r.IsLocal) : (r.probed wall p).IsLocal :=
  ⟨by simpa using h.1, probed_state_ne r wall p, by simpa using h.2.2⟩

theorem knownBlank_isLocal (h : r.IsLocal) : (r.knownBlank wall).IsLocal :=
  ⟨h.1, by simp [knownBlank], by simpa using h.2.2⟩

/-! ## What the peer makes of them -/

theorem Lists.of_get_eq (h : s'.get k = s.get k) : Lists s' host k ↔ Lists s host k := by
  unfold Lists
  rw [h]

theorem Unclaimed.of_get_eq (hu : Unclaimed s k) (h : s'.get k = s.get k) : Unclaimed s' k := by
  unfold Unclaimed
  rwa [h]

theorem upserted_unclaimed (now : ℕ) (uid host : String) (port vidPid : Option String)
    {prev : Option DeviceRecord}
    (h : ∀ r, prev = some r → r.host = none → r.state = .disconnected) :
    (upserted now uid (some host) port vidPid prev).host = some host ∧
      (upserted now uid (some host) port vidPid prev).state ≠ .disconnected := by
  cases prev with
  | none => exact ⟨rfl, by simp [upserted, DeviceRecord.new]⟩
  | some r =>
    have hr := h r rfl
    unfold upserted
    dsimp only
    rw [if_neg fun hold => hold.2.2 (hr hold.2.1)]
    split
    · exact ⟨rfl, by simp [reattached]⟩
    · rename_i hd
      exact ⟨rfl, hd⟩

section Events

variable {before after : String → Prop}

theorem Tells.recv_of_ne (h : Tells before after uid e) (hk : k ≠ uid) :
    (recvEvent s now host e).get k = s.get k := by
  rw [get_recvEvent, if_neg]
  rw [h.about, Option.some.injEq]
  exact hk.symm

theorem Tells.recv_self (s : Store) (now : ℕ) (host : String) (h : Tells before after uid e) :
    (recvEvent s now host e).get uid = eventRow now host uid e (s.get uid) := by
  rw [get_recvEvent, if_pos h.about]

theorem Tells.recv_unclaimed (h : Tells before after uid e) (hu : Unclaimed s k) :
    Unclaimed (recvEvent s now host e) k := by
  by_cases hk : k = uid
  · subst hk
    intro q hq hh
    rw [h.recv_self s now host, eventRow] at hq
    split at hq
    · have hup := (upserted_unclaimed now k host e.port e.vidPid hu).1
      rw [Option.some.inj hq, hh] at hup
      cases hup
    · obtain ⟨r, hr, rfl⟩ := Option.map_eq_some_iff.mp hq
      split at hh
      · rename_i hrh
        rw [reported_host, hrh] at hh
        cases hh
      · rename_i hrh
        rw [if_neg hrh]
        exact hu r hr hh
  · exact hu.of_get_eq (h.recv_of_ne hk)

/-- An event takes the peer to what the owner had after it, or leaves it where it was when the
write changed nothing. -/
theorem Tells.recv_lists (now : ℕ) (host : String) (h : Tells before after uid e)
    (hu : Unclaimed s uid) :
    (Lists (recvEvent s now host e) host uid ↔ after uid) ∨
      ((after uid ↔ before uid) ∧
        (Lists (recvEvent s now host e) host uid ↔ Lists s host uid)) := by
  have hrow := h.recv_self s now host
  rcases h.said with (⟨ht, ha⟩ | ⟨ht, ha⟩ | ⟨ht, hb, ha⟩)
  · have hup := upserted_unclaimed now uid host e.port e.vidPid hu
    rw [eventRow, if_pos ht] at hrow
    exact Or.inl (iff_of_true ⟨_, hrow, hup⟩ ha)
  · refine Or.inl (iff_of_false ?_ ha)
    rintro ⟨q, hq, hh, hd⟩
    rw [hrow, eventRow, if_neg (by simp [ht])] at hq
    obtain ⟨r, -, rfl⟩ := Option.map_eq_some_iff.mp hq
    split at hd
    · exact hd (by simp [reported, ht, gone])
    · rename_i hrh
      rw [if_neg hrh] at hh
      exact hrh hh
  · rw [eventRow, if_neg (by simp [ht])] at hrow
    rcases hs : s.get uid with _ | r
    · rw [hs, Option.map_none, ← hs] at hrow
      exact Or.inr ⟨iff_of_true ha hb, Lists.of_get_eq hrow⟩
    · rw [hs, Option.map_some] at hrow
      split at hrow
      · rename_i hrh
        rcases reported_identity now ht with (hsame | hstate)
        · rw [hsame, ← hs] at hrow
          exact Or.inr ⟨iff_of_true ha hb, Lists.of_get_eq hrow⟩
        · exact Or.inl (iff_of_true ⟨_, hrow, (reported_host now e).trans hrh, hstate⟩ ha)
      · rw [← hs] at hrow
        exact Or.inr ⟨iff_of_true ha hb, Lists.of_get_eq hrow⟩

end Events

/-! ## What the peer makes of a snapshot -/

theorem layered_lists (now : ℕ) {d : DeviceDict} (hd : d.state ≠ some .disconnected)
    (hr : r.state ≠ .disconnected) :
    (layered r now d).host = r.host ∧ (layered r now d).state ≠ .disconnected := by
  unfold layered
  split
  · exact ⟨probed_host r now _, probed_state_ne r now _⟩
  · exact ⟨probed_host r now none, probed_state_ne r now none⟩
  · exact ⟨rfl, by simp [knownBlank]⟩
  · rename_i h
    exact absurd h hd
  · exact ⟨rfl, hr⟩
  · exact ⟨rfl, hr⟩

theorem applySnapshot_listed (now : ℕ) (host : String) {o : Store} (hu : Unclaimed s k)
    (hl : Listed (snapshotReply o) k) :
    ∃ r, (applySnapshot s now host (snapshotReply o)).get k = some r ∧ r.host = some host ∧
      r.state ≠ .disconnected := by
  obtain ⟨d, hd, hdu⟩ := List.mem_map.mp hl
  obtain ⟨q, hq, rfl⟩ := List.mem_map.mp hd
  have hstate : (deviceDictOf q).state ≠ some .disconnected := fun he =>
    (mem_snapshotLocalDevices_iff.mp hq).2.2.1 (Option.some.inj he)
  have hup := upserted_unclaimed now k host (deviceDictOf q).port (deviceDictOf q).vidPid hu
  have hrow := layered_lists now hstate hup.2
  refine ⟨_, get_applySnapshot_of_mem (snapshotPayload_nodup o) hd hdu, ?_⟩
  simp only [snapshotRow, hup.1, if_true]
  exact ⟨hrow.1.trans hup.1, hrow.2⟩

theorem applySnapshot_not_listed {o : Store} (hl : ¬ Listed (snapshotReply o) k)
    (hr : (applySnapshot s now host (snapshotReply o)).get k = some r) :
    ∃ q, s.get k = some q ∧ r.host = q.host ∧
      (r.state = .disconnected ∨ r.host ≠ some host ∧ r.state = q.state) := by
  rw [get_applySnapshot_of_not_mem hl] at hr
  obtain ⟨q, hq, rfl⟩ := Option.map_eq_some_iff.mp hr
  refine ⟨q, hq, ?_⟩
  unfold absentRow
  split
  · exact ⟨rfl, Or.inl rfl⟩
  · rename_i hc
    refine ⟨rfl, ?_⟩
    by_cases hd : q.state = .disconnected
    · exact Or.inl hd
    · rw [uid_of_get hq] at hc
      exact Or.inr ⟨fun hh => hc ⟨hh, hl, hd⟩, rfl⟩

theorem applySnapshot_lists {o : Store} (hu : Unclaimed s k) :
    Lists (applySnapshot s now host (snapshotReply o)) host k ↔ Listed (snapshotReply o) k := by
  constructor
  · rintro ⟨r, hr, hh, hd⟩
    by_contra hl
    obtain ⟨q, -, -, (hc | ⟨hc, -⟩)⟩ := applySnapshot_not_listed hl hr
    · exact hd hc
    · exact hc hh
  · exact applySnapshot_listed now host hu

theorem applySnapshot_unclaimed {o : Store} (hu : Unclaimed s k) :
    Unclaimed (applySnapshot s now host (snapshotReply o)) k := by
  intro r hr hh
  by_cases hl : Listed (snapshotReply o) k
  · obtain ⟨q, hq, hqh, -⟩ := applySnapshot_listed now host hu hl
    rw [hr, Option.some.injEq] at hq
    rw [← hq, hh] at hqh
    cases hqh
  · obtain ⟨q, hq, hqh, (hc | ⟨-, hc⟩)⟩ := applySnapshot_not_listed hl hr
    · exact hc
    · rw [hc]
      exact hu q hq (hqh.symm.trans hh)

end MbTools.Peering
