import MbTools.Peering.Snapshot

/-! # Local ownership

Nothing a peer sends reaches a row that is locally owned and attached. Each
write a peer can cause is either refused by the upsert, gated on the row being
attributed to that peer, or aimed at another uid.
-/

namespace MbTools.Peering

variable {s : Store} {now : ℕ} {host uid : String} {r : DeviceRecord}

theorem upserted_local (port vidPid : Option String) (hh : r.host = none)
    (hd : r.state ≠ .disconnected) :
    DeviceRecord.upserted now uid (some host) port vidPid (some r) = r := by
  unfold DeviceRecord.upserted
  exact if_pos ⟨by simp, hh, hd⟩

theorem eventRow_local (e : Event) (hh : r.host = none) (hd : r.state ≠ .disconnected) :
    eventRow now host uid e (some r) = some r := by
  unfold eventRow
  split
  · rw [upserted_local e.port e.vidPid hh hd]
  · rw [Option.map_some, if_neg (by simp [hh])]

/-- The state layer only runs for a row the upsert left attributed to the peer. -/
theorem snapshotRow_local (d : DeviceDict) (hh : r.host = none) (hd : r.state ≠ .disconnected) :
    snapshotRow now host uid d (some r) = r := by
  simp only [snapshotRow, upserted_local d.port d.vidPid hh hd]
  rw [if_neg (by simp [hh])]

theorem absentRow_local (seen : List (Option String)) (hh : r.host = none) :
    absentRow now host seen r = r := by
  unfold absentRow
  rw [if_neg]
  rintro ⟨hr, -, -⟩
  rw [hh] at hr
  cases hr

theorem applyInput_local (i : Input) (hr : s.get uid = some r) (hh : r.host = none)
    (hd : r.state ≠ .disconnected) : (applyInput host s i).get uid = some r := by
  apply get_applyInput_inv (P := fun prev => prev = some r) i
  · rintro now e - - prev rfl
    exact eventRow_local e hh hd
  · rintro now reply - d - - prev rfl
    rw [snapshotRow_local d hh hd]
  · rintro now seen prev rfl
    rw [Option.map_some, absentRow_local seen hh]
  · exact hr

/-- No sequence of peer inputs changes a row that is locally owned and attached. -/
theorem local_row_untouched (s : Store) (host : String) (inputs : List Input) (uid : String)
    (r : DeviceRecord) (hr : s.get uid = some r) (hh : r.host = none)
    (hd : r.state ≠ .disconnected) : (applyInputs host s inputs).get uid = some r :=
  Pass.foldl_inv (P := fun t : Store => t.get uid = some r)
    (fun _ i _ ht => applyInput_local i ht hh hd) hr

/-- A peer that detaches the board and then sends an empty snapshot. -/
theorem local_row_untouched_by_detach :
    (applyInputs "loki" (Store.empty.upsertAttached 5 "9900a" "/dev/ttyACM0" "0d28:0204")
      [.event 6 { Event.ofType .detach with uid := some "9900a" }, .snapshot 7 ⟨[], []⟩]).get
        "9900a" = some (.new 5 "9900a" none (some "/dev/ttyACM0") (some "0d28:0204")) :=
  local_row_untouched _ "loki" _ "9900a" _ (by decide) rfl (by decide)

end MbTools.Peering
