import MbTools.Lib.Json
import MbTools.Lib.Unwind
import MbTools.Peering.Apply

/-! # A snapshot reply of any shape

What a link does with the bytes a peer answers its snapshot request with: they are
decoded, applied entry by entry, and after that the link starts to receive events.
-/

namespace MbTools.Peering

open Json Unwind

/-- The exceptions of a value that is not what the code takes it for. -/
inductive ReplyRaise where
  | valueError
  | recursionError
  | typeError
  | attributeError
  deriving DecidableEq, Repr

/-- What the link meets outside of this code: the decoder, the log, and what the store is left with
by an entry whose fields it has no column types for, be it written or refused. -/
structure ReplyWorld where
  /-- `json.loads(reply.decode("utf-8"))` -/
  loads : List UInt8 → Except ReplyRaise Json
  /-- How deep the stack has room for the `%r` of a value that is logged: in the message of a
  refusal, and in that of an entry. -/
  room : ℕ
  entryRoom : ℕ
  oddDevice : Store → String → Json → Store
  oddName : Store → Json → Store

/-- `v.get(key, [])` -/
def entriesOf (v : Json) (key : String) : Json := if v.hasKey key then v.get key else .arr []

/-- `for item in v` -/
def items : Json → Except ReplyRaise (List Json)
  | .arr items => .ok items
  | .obj fields => .ok (fields.map fun p => .str p.1)
  | .str s => .ok (s.toList.map fun c => .str (String.singleton c))
  | .lone codes => .ok (codes.map fun c => .lone [c])
  | _ => .error .typeError

/-- Can the value be put in a set? -/
def hashable : Json → Bool
  | .arr _ => false
  | .obj _ => false
  | _ => true

/-! ## Entries -/

/-- A text, or nothing. -/
def textField (d : Json) (key : String) : Option (Option String) :=
  match d.get key with
  | .null => some none
  | .str s => some (some s)
  | _ => none

def stateOf : Json → Option State
  | .str "attached_unprobed" => some .attachedUnprobed
  | .str "connected" => some .connected
  | .str "attached_no_announce" => some .attachedNoAnnounce
  | .str "connected_no_firmware" => some .connectedNoFirmware
  | .str "disconnected" => some .disconnected
  | _ => none

/-- The uid of an entry, where it is one that a row can have. -/
def uidOf (d : Json) : Option String :=
  match d.get "uid" with
  | .str uid => some uid
  | _ => none

/-- A device entry with a uid and texts for its other fields. -/
def readDevice (d : Json) : Option DeviceDict := do
  let uid ← uidOf d
  let port ← textField d "port"
  let vidPid ← textField d "vid_pid"
  let role ← textField d "role"
  let commonName ← textField d "common_name"
  let deviceName ← textField d "device_name"
  let serialPayload ← textField d "serial_payload"
  let rawAnnouncement ← textField d "raw_announcement"
  pure ⟨some uid, port, vidPid, stateOf (d.get "state"),
    ⟨role, commonName, deviceName, serialPayload, rawAnnouncement⟩⟩

/-- A name entry with a text and two integers. -/
def readName (d : Json) : Option NameDict :=
  match d.get "name", d.get "channel", d.get "group" with
  | .str name, .int channel, .int group => some ⟨some name, some channel, some group⟩
  | _, _, _ => none

variable (w : ReplyWorld) (now : ℕ) (host : String)

/-- The store an entry of an object leaves behind, whether it raised or not. -/
def leaveDevice (s : Store) (d : Json) : Store :=
  match readDevice d with
  | some dict => applySnapshotDevice s now host dict
  | none => w.oddDevice s host d

def leaveName (s : Store) (d : Json) : Store :=
  match readName d with
  | some dict => caught s (applySnapshotName s now dict)
  | none => w.oddName s d

/-- A log message with the `%r` of a value. -/
def logRepr (room : ℕ) (v : Json) : Unwind Store ReplyRaise Unit :=
  raises (if room < v.depth then some .recursionError else none)

/-- One turn of a loop over entries. What an entry raises is logged with the `%r` of the value of a
key, so that one that is no object raises again; and so does one with a list or an object for its
key, which no row can have, if there is no room for it in the log. -/
def turn (key : String) (leave : Store → Json → Store) (d : Json) :
    Unwind Store ReplyRaise Unit :=
  if isObject d then do
    logRepr w.entryRoom (d.get key)
    change fun s => leave s d
  else raises (some .attributeError)

def turns (key : String) (leave : Store → Json → Store) :
    List Json → Unwind Store ReplyRaise Unit
  | [] => pure ()
  | d :: ds => do
    turn w key leave d
    turns key leave ds

/-- `{device.get("uid") for device in devices}` -/
def seenUids : List Json → Except ReplyRaise (List (Option String))
  | [] => .ok []
  | d :: ds =>
    if isObject d = false then .error .attributeError
    else if hashable (d.get "uid") = false then .error .typeError
    else (seenUids ds).map (uidOf d :: ·)

/-- The part of `_fetch_snapshot` under the lock. -/
def applyReply (v : Json) : Unwind Store ReplyRaise Unit := do
  let devices ← answer (items (entriesOf v "devices"))
  turns w "uid" (leaveDevice w now host) devices
  let seen ← answer (seenUids devices)
  change fun s => detachAbsent s now host seen
  let names ← answer (items (entriesOf v "names"))
  turns w "name" (leaveName w now) names

/-- Is the reply no snapshot, but a refusal or anything else? -/
def refused (v : Json) : Bool := !isObject v || v.hasKey "error"

/-- What becomes of a reply, once it is read; `dropped` tells whether the link has been seen
to drop. -/
def fetchLoaded (dropped : Bool) (loaded : Except ReplyRaise Json) :
    Unwind Store ReplyRaise Bool :=
  match loaded with
  | .error e => if e = .valueError then pure false else answer (.error e)
  | .ok v =>
    if refused v then do
      logRepr w.room v
      pure false
    else do
      applyReply w now host v
      pure (!dropped)

/-- `_fetch_snapshot` on the reply, `none` where none came in time: does it mark the peer
reachable? -/
def fetchSnapshot (dropped : Bool) (reply : Option (List UInt8)) :
    Unwind Store ReplyRaise Bool :=
  match reply with
  | none => pure false
  | some bytes => fetchLoaded w now host dropped (w.loads bytes)

/-- The link after `_run_snapshot_and_recv`: what the fetch came to, the store, and whether the
receive loop was started. -/
structure Fetched where
  result : Except ReplyRaise Bool
  store : Store
  receiving : Bool

/-- `_run_snapshot_and_recv` -/
def runSnapshotAndRecv (dropped stopped : Bool) (s : Store) (reply : Option (List UInt8)) :
    Fetched :=
  match fetchSnapshot w now host dropped reply s with
  | (.ok b, s) => ⟨.ok b, s, !stopped⟩
  | (.error e, s) => ⟨.error e, s, false⟩

/-! ## Surviving -/

/-- What was said of the entries of a snapshot is done, one after the other. -/
def appliedTo (devices names : List Json) (s : Store) : Store :=
  names.foldl (leaveName w now)
    (detachAbsent (devices.foldl (leaveDevice w now host) s) now host (devices.map uidOf))

/-- The fetch returns, every entry of a snapshot has been applied, and the link receives
unless it was stopped. -/
structure Survives (stopped : Bool) (s : Store) (reply : Option (List UInt8)) (r : Fetched) :
    Prop where
  returns : ∃ marked, r.result = .ok marked
  applied : ∀ bytes v devices names, reply = some bytes → w.loads bytes = .ok v →
    refused v = false → items (entriesOf v "devices") = .ok devices →
    items (entriesOf v "names") = .ok names → r.store = appliedTo w now host devices names s
  receives : r.receiving = !stopped

/-- The entry is an object, and the log has room for the value of the key. -/
def Loggable (key : String) (d : Json) : Prop :=
  isObject d = true ∧ (d.get key).depth ≤ w.entryRoom

/-- The entries of a snapshot are objects, the uid of a device is no list and no object, and the
log has room for every name. -/
def Legible (v : Json) : Prop :=
  (∃ devices, items (entriesOf v "devices") = .ok devices ∧
    ∀ d ∈ devices, isObject d = true ∧ hashable (d.get "uid") = true) ∧
  ∃ names, items (entriesOf v "names") = .ok names ∧ ∀ d ∈ names, Loggable w "name" d

/-- Reading the reply raises nothing but a `ValueError`, the log has room for a reply that is
refused, and a snapshot is legible. -/
def Reads (reply : Option (List UInt8)) : Prop :=
  ∀ bytes, reply = some bytes → (∀ e, w.loads bytes = .error e → e = .valueError) ∧
    ∀ v, w.loads bytes = .ok v → if refused v then v.depth ≤ w.room else Legible w v

variable {w now host}

theorem leaveDevice_of_read {s : Store} {d : Json} {dict : DeviceDict}
    (h : readDevice d = some dict) :
    leaveDevice w now host s d = applySnapshotDevice s now host dict := by
  rw [leaveDevice, h]

theorem leaveName_of_read {s : Store} {d : Json} {dict : NameDict} (h : readName d = some dict) :
    leaveName w now s d = caught s (applySnapshotName s now dict) := by
  rw [leaveName, h]

theorem turn_of_loggable {key : String} {leave : Store → Json → Store} {d : Json}
    (h : Loggable w key d) (s : Store) : turn w key leave d s = (.ok (), leave s d) := by
  rw [turn, if_pos h.1, logRepr, if_neg h.2.not_gt]
  rfl

theorem turn_of_not_loggable {key : String} {d : Json} (leave : Store → Json → Store)
    (h : ¬ Loggable w key d) (s : Store) : ∃ e, turn w key leave d s = (.error e, s) := by
  rw [turn]
  split
  · rename_i hobj
    have hroom : w.entryRoom < (d.get key).depth := Nat.lt_of_not_le fun hle => h ⟨hobj, hle⟩
    rw [logRepr, if_pos hroom]
    exact ⟨_, rfl⟩
  · exact ⟨_, rfl⟩

/-- A loop over entries comes to its end exactly when what it would log of them can be; else the
entries before the first of which it cannot be have been applied. -/
theorem turns_cases (key : String) (leave : Store → Json → Store) (ds : List Json) (s : Store) :
    ((∀ d ∈ ds, Loggable w key d) ∧ turns w key leave ds s = (.ok (), ds.foldl leave s)) ∨
      ((¬ ∀ d ∈ ds, Loggable w key d) ∧ ∃ e l, l <+: ds ∧ (∀ d ∈ l, Loggable w key d) ∧
        turns w key leave ds s = (.error e, l.foldl leave s)) := by
  induction ds generalizing s with
  | nil => exact Or.inl ⟨nofun, rfl⟩
  | cons d ds ih =>
    rw [List.forall_mem_cons, List.foldl_cons, turns]
    by_cases hd : Loggable w key d
    · rw [bind_of_ok (turn_of_loggable hd s)]
      rcases ih (leave s d) with ⟨hds, hrun⟩ | ⟨hds, e, l, hl, hall, hrun⟩
      · exact Or.inl ⟨⟨hd, hds⟩, hrun⟩
      · refine Or.inr ⟨fun h => hds h.2, e, d :: l, ?_, ?_, hrun⟩
        · exact (List.prefix_cons_inj d).mpr hl
        · exact List.forall_mem_cons.mpr ⟨hd, hall⟩
    · obtain ⟨e, hturn⟩ := turn_of_not_loggable leave hd s
      rw [bind_of_error hturn]
      exact Or.inr ⟨fun h => hd h.1, e, [], List.nil_prefix, nofun, rfl⟩

theorem seenUids_cases (ds : List Json) :
    ((∀ d ∈ ds, isObject d = true ∧ hashable (d.get "uid") = true) ∧
      seenUids ds = .ok (ds.map uidOf)) ∨
    ((¬ ∀ d ∈ ds, isObject d = true ∧ hashable (d.get "uid") = true) ∧
      ∃ e, seenUids ds = .error e) := by
  induction ds with
  | nil => exact Or.inl ⟨by simp, rfl⟩
  | cons d ds ih =>
    rw [List.forall_mem_cons, seenUids]
    by_cases hobj : isObject d = true
    · rw [if_neg (by simp [hobj])]
      by_cases hhash : hashable (d.get "uid") = true
      · rw [if_neg (by simp [hhash])]
        rcases ih with ⟨hds, hseen⟩ | ⟨hds, e, hseen⟩
        · exact Or.inl ⟨⟨⟨hobj, hhash⟩, hds⟩, by rw [hseen]; rfl⟩
        · exact Or.inr ⟨fun h => hds h.2, e, by rw [hseen]; rfl⟩
      · rw [if_pos (by simpa using hhash)]
        exact Or.inr ⟨fun h => hhash h.1.2, _, rfl⟩
    · rw [if_pos (by simpa using hobj)]
      exact Or.inr ⟨fun h => hobj h.1.1, _, rfl⟩

theorem depth_of_hashable {v : Json} (h : hashable v = true) : v.depth = 0 := by
  cases v with
  | arr items => cases h
  | obj fields => cases h
  | _ => rfl

/-- Device entries that can all be put in the set of uids can all be logged. -/
theorem loggable_of_hashable {d : Json} (h : isObject d = true ∧ hashable (d.get "uid") = true) :
    Loggable w "uid" d := ⟨h.1, by rw [depth_of_hashable h.2]; exact Nat.zero_le _⟩

/-- The entries come first in the list under a key, if there is one. -/
def Leads (v : Json) (key : String) (l : List Json) : Prop :=
  l = [] ∨ ∃ entries, items (entriesOf v key) = .ok entries ∧ l <+: entries

/-- How much of a snapshot has been applied when the fetch raises: entries of the device list, or
all of that list and entries of the name list. -/
inductive CutShort (w : ReplyWorld) (now : ℕ) (host : String) (v : Json) (s : Store) : Store → Prop
  | inDevices {l : List Json} (hl : Leads v "devices" l) (hlog : ∀ d ∈ l, Loggable w "uid" d) :
      CutShort w now host v s (l.foldl (leaveDevice w now host) s)
  | inNames {devices l : List Json} (hd : Leads v "devices" devices)
      (hdlog : ∀ d ∈ devices, Loggable w "uid" d) (hl : Leads v "names" l)
      (hlog : ∀ d ∈ l, Loggable w "name" d) :
      CutShort w now host v s (appliedTo w now host devices l s)

variable (w now host) in
/-- The entries are applied to the end exactly when they are legible. -/
theorem applyReply_cases (v : Json) (s : Store) :
    (Legible w v ∧ ∃ devices names, items (entriesOf v "devices") = .ok devices ∧
      items (entriesOf v "names") = .ok names ∧
      applyReply w now host v s = (.ok (), appliedTo w now host devices names s)) ∨
    (¬ Legible w v ∧ ∃ e s', CutShort w now host v s s' ∧
      applyReply w now host v s = (.error e, s')) := by
  unfold applyReply Legible
  cases hdevices : items (entriesOf v "devices") with
  | error e => exact Or.inr ⟨by simp, e, s, .inDevices (.inl rfl) nofun, rfl⟩
  | ok devices =>
    rw [answer_bind]
    rcases turns_cases (w := w) "uid" (leaveDevice w now host) devices s with
      ⟨hlog, hrun⟩ | ⟨hlog, e, l, hl, hall, hrun⟩
    · rw [bind_of_ok hrun]
      rcases seenUids_cases devices with ⟨hseen, hok⟩ | ⟨hseen, e, herr⟩
      · rw [hok, answer_bind, change_bind]
        cases hnames : items (entriesOf v "names") with
        | error e =>
          refine Or.inr ⟨by simp, e, _, ?_, rfl⟩
          exact .inNames (.inr ⟨devices, hdevices, List.prefix_refl _⟩) hlog (.inl rfl) nofun
        | ok names =>
          rw [answer_bind]
          rcases turns_cases (w := w) "name" (leaveName w now) names
            (detachAbsent (devices.foldl (leaveDevice w now host) s) now host
              (devices.map uidOf)) with ⟨hn, hrun'⟩ | ⟨hn, e, l, hl, hall, hrun'⟩
          · exact Or.inl ⟨⟨⟨devices, rfl, hseen⟩, names, rfl, hn⟩, devices, names, rfl, rfl, hrun'⟩
          · refine Or.inr ⟨?_, e, _, .inNames (.inr ⟨devices, hdevices, List.prefix_refl _⟩) hlog
              (.inr ⟨names, hnames, hl⟩) hall, hrun'⟩
            rintro ⟨-, _, ⟨⟩, h⟩
            exact hn h
      · rw [herr]
        refine Or.inr ⟨?_, e, _, .inDevices (.inr ⟨devices, hdevices, List.prefix_refl _⟩) hlog,
          rfl⟩
        rintro ⟨⟨_, ⟨⟩, h⟩, -⟩
        exact hseen h
    · rw [bind_of_error hrun]
      refine Or.inr ⟨?_, e, _, .inDevices (.inr ⟨devices, hdevices, hl⟩) hall, rfl⟩
      rintro ⟨⟨_, ⟨⟩, h⟩, -⟩
      exact hlog fun d hd => loggable_of_hashable (h d hd)

theorem fetchLoaded_cases (w : ReplyWorld) (now : ℕ) (host : String) (dropped : Bool)
    (s : Store) (v : Json) :
    (refused v = true ∧ v.depth ≤ w.room ∧
      fetchLoaded w now host dropped (.ok v) s = (.ok false, s)) ∨
    (refused v = true ∧ w.room < v.depth ∧
      fetchLoaded w now host dropped (.ok v) s = (.error .recursionError, s)) ∨
    (refused v = false ∧ Legible w v ∧
      ∃ devices names, items (entriesOf v "devices") = .ok devices ∧
        items (entriesOf v "names") = .ok names ∧
        fetchLoaded w now host dropped (.ok v) s =
          (.ok (!dropped), appliedTo w now host devices names s)) ∨
    (refused v = false ∧ ¬ Legible w v ∧
      ∃ e s', CutShort w now host v s s' ∧
        fetchLoaded w now host dropped (.ok v) s = (.error e, s')) := by
  rw [fetchLoaded]
  cases hrefused : refused v with
  | true =>
    rw [if_pos rfl, logRepr]
    rcases Nat.lt_or_ge w.room v.depth with hroom | hroom
    · rw [if_pos hroom]
      exact Or.inr (Or.inl ⟨rfl, hroom, rfl⟩)
    · rw [if_neg hroom.not_gt]
      exact Or.inl ⟨rfl, hroom, rfl⟩
  | false =>
    rw [if_neg (by simp)]
    rcases applyReply_cases w now host v s with
      ⟨hlegible, devices, names, hd, hn, hrun⟩ | ⟨hlegible, e, s', hcut, hrun⟩
    · exact Or.inr (Or.inr (Or.inl ⟨rfl, hlegible, devices, names, hd, hn, bind_of_ok hrun⟩))
    · exact Or.inr (Or.inr (Or.inr ⟨rfl, hlegible, e, s', hcut, bind_of_error hrun⟩))

theorem runSnapshotAndRecv_of_ok {dropped stopped marked : Bool} {s s' : Store}
    {reply : Option (List UInt8)}
    (h : fetchSnapshot w now host dropped reply s = (.ok marked, s')) :
    runSnapshotAndRecv w now host dropped stopped s reply = ⟨.ok marked, s', !stopped⟩ := by
  rw [runSnapshotAndRecv, h]

theorem runSnapshotAndRecv_of_error {dropped stopped : Bool} {e : ReplyRaise} {s s' : Store}
    {reply : Option (List UInt8)}
    (h : fetchSnapshot w now host dropped reply s = (.error e, s')) :
    runSnapshotAndRecv w now host dropped stopped s reply = ⟨.error e, s', false⟩ := by
  rw [runSnapshotAndRecv, h]

section Outcomes

variable {dropped stopped marked : Bool} {s s' : Store} {bytes : List UInt8} {v : Json}
  {e : ReplyRaise} {reply : Option (List UInt8)}

theorem reads_iff_of_error (hloads : w.loads bytes = .error e) :
    Reads w (some bytes) ↔ e = .valueError := by
  constructor
  · exact fun h => (h bytes rfl).1 e hloads
  · rintro rfl _ ⟨⟩
    refine ⟨fun e' he' => ?_, fun v hv => ?_⟩
    · rw [hloads] at he'
      exact (Except.error.inj he').symm
    · rw [hloads] at hv
      cases hv

theorem reads_iff_of_ok (hloads : w.loads bytes = .ok v) :
    Reads w (some bytes) ↔ if refused v then v.depth ≤ w.room else Legible w v := by
  constructor
  · exact fun h => (h bytes rfl).2 v hloads
  · rintro h _ ⟨⟩
    refine ⟨fun e he => ?_, fun v' hv' => ?_⟩
    · rw [hloads] at he
      cases he
    · rw [hloads] at hv'
      exact Except.ok.inj hv' ▸ h

theorem not_survives_of_error
    (h : fetchSnapshot w now host dropped reply s = (.error e, s')) :
    ¬ Survives w now host stopped s reply
      (runSnapshotAndRecv w now host dropped stopped s reply) := by
  rw [runSnapshotAndRecv_of_error h]
  rintro ⟨⟨_, ⟨⟩⟩, -, -⟩

/-- A fetch that returns and has applied the snapshot it was given, if it was given one. -/
theorem survives_of_ok (h : fetchSnapshot w now host dropped (some bytes) s = (.ok marked, s'))
    (happlied : ∀ v devices names, w.loads bytes = .ok v → refused v = false →
      items (entriesOf v "devices") = .ok devices → items (entriesOf v "names") = .ok names →
      s' = appliedTo w now host devices names s) :
    Survives w now host stopped s (some bytes)
      (runSnapshotAndRecv w now host dropped stopped s (some bytes)) := by
  rw [runSnapshotAndRecv_of_ok h]
  refine ⟨⟨_, rfl⟩, ?_, rfl⟩
  rintro _ v devices names ⟨⟩ hv hr hd hn
  exact happlied v devices names hv hr hd hn

end Outcomes

/-- The link survives its snapshot reply exactly when the reply reads. -/
theorem runSnapshotAndRecv_survives_iff (w : ReplyWorld) (now : ℕ) (host : String)
    (dropped stopped : Bool) (s : Store) (reply : Option (List UInt8)) :
    Survives w now host stopped s reply
        (runSnapshotAndRecv w now host dropped stopped s reply) ↔ Reads w reply := by
  cases reply with
  | none =>
    rw [runSnapshotAndRecv_of_ok rfl]
    exact ⟨fun _ => nofun, fun _ => ⟨⟨_, rfl⟩, nofun, rfl⟩⟩
  | some bytes =>
    cases hloads : w.loads bytes with
    | error e =>
      rw [reads_iff_of_error hloads]
      have hrun : fetchSnapshot w now host dropped (some bytes) s =
          (if e = .valueError then .ok false else .error e, s) := by
        rw [fetchSnapshot, hloads, fetchLoaded]
        split
        · rfl
        · rfl
      by_cases he : e = .valueError
      · rw [if_pos he] at hrun
        refine iff_of_true (survives_of_ok hrun fun v _ _ hv => ?_) he
        rw [hloads] at hv
        cases hv
      · rw [if_neg he] at hrun
        exact iff_of_false (not_survives_of_error hrun) he
    | ok v =>
      have hfetch : fetchSnapshot w now host dropped (some bytes) s =
          fetchLoaded w now host dropped (.ok v) s := by rw [fetchSnapshot, hloads]
      rw [reads_iff_of_ok hloads]
      rcases fetchLoaded_cases w now host dropped s v with ⟨hrefused, hroom, hrun⟩ |
        ⟨hrefused, hroom, hrun⟩ | ⟨hrefused, hlegible, devices, names, hd, hn, hrun⟩ |
        ⟨hrefused, hlegible, e, s', -, hrun⟩
      · rw [if_pos hrefused]
        refine iff_of_true (survives_of_ok (hfetch.trans hrun) fun v' _ _ hv hr => ?_) hroom
        obtain rfl := Except.ok.inj (hloads.symm.trans hv)
        rw [hrefused] at hr
        cases hr
      · rw [if_pos hrefused]
        exact iff_of_false (not_survives_of_error (hfetch.trans hrun)) hroom.not_ge
      · rw [if_neg (by simp [hrefused])]
        refine iff_of_true (survives_of_ok (hfetch.trans hrun) fun v' _ _ hv _ hd' hn' => ?_)
          hlegible
        obtain rfl := Except.ok.inj (hloads.symm.trans hv)
        obtain rfl := Except.ok.inj (hd.symm.trans hd')
        obtain rfl := Except.ok.inj (hn.symm.trans hn')
        rfl
      · rw [if_neg (by simp [hrefused])]
        exact iff_of_false (not_survives_of_error (hfetch.trans hrun)) hlegible

/-- The bytes are `{"devices": ["9900a"]}`. -/
def oneText : ReplyWorld where
  loads := fun _ => .ok (.obj [("devices", .arr [.str "9900a"])])
  room := 985
  entryRoom := 984
  oddDevice := fun s _ _ => s
  oddName := fun s _ => s

theorem runSnapshotAndRecv_deaf : ¬ ∀ w now host dropped stopped s reply,
    Survives w now host stopped s reply
      (runSnapshotAndRecv w now host dropped stopped s reply) := by
  intro h
  have hreceives := (h oneText 1 "torture" false false Store.empty (some [])).receives
  have hdeaf : (runSnapshotAndRecv oneText 1 "torture" false false Store.empty
      (some [])).receiving = false := by
    decide +kernel
  rw [hdeaf] at hreceives
  cases hreceives

/-! ## Replies of typed entries -/

section Typed

variable {s s' : Store} {v : Json} {devices names l : List Json}

/-- Entries that can be logged have a uid and texts, or a name and two integers. -/
structure Typed (w : ReplyWorld) (v : Json) : Prop where
  devices : ∀ l, Leads v "devices" l → ∀ d ∈ l, Loggable w "uid" d → (readDevice d).isSome
  names : ∀ l, Leads v "names" l → ∀ d ∈ l, Loggable w "name" d → (readName d).isSome

theorem uid_of_readDevice {d : Json} {dict : DeviceDict} (h : readDevice d = some dict) :
    dict.uid = uidOf d := by
  simp only [readDevice, Option.bind_eq_bind, Option.bind_eq_some_iff, Option.pure_def,
    Option.some.injEq] at h
  obtain ⟨uid, huid, -, -, -, -, -, -, -, -, -, -, -, -, -, -, rfl⟩ := h
  exact huid.symm

theorem foldl_leaveDevice (h : ∀ d ∈ l, (readDevice d).isSome) (s : Store) :
    l.foldl (leaveDevice w now host) s =
      (l.filterMap readDevice).foldl (fun t d => applySnapshotDevice t now host d) s := by
  induction l generalizing s with
  | nil => rfl
  | cons d l ih =>
    rw [List.forall_mem_cons] at h
    obtain ⟨dict, hread⟩ := Option.isSome_iff_exists.mp h.1
    rw [List.foldl_cons, List.filterMap_cons_some hread, List.foldl_cons, ih h.2,
      leaveDevice_of_read hread]

theorem foldl_leaveName (h : ∀ d ∈ l, (readName d).isSome) (s : Store) :
    l.foldl (leaveName w now) s =
      (l.filterMap readName).foldl (fun t d => caught t (applySnapshotName t now d)) s := by
  induction l generalizing s with
  | nil => rfl
  | cons d l ih =>
    rw [List.forall_mem_cons] at h
    obtain ⟨dict, hread⟩ := Option.isSome_iff_exists.mp h.1
    rw [List.foldl_cons, List.filterMap_cons_some hread, List.foldl_cons, ih h.2,
      leaveName_of_read hread]

theorem map_uid_filterMap (h : ∀ d ∈ l, (readDevice d).isSome) :
    (l.filterMap readDevice).map DeviceDict.uid = l.map uidOf := by
  induction l with
  | nil => rfl
  | cons d l ih =>
    rw [List.forall_mem_cons] at h
    obtain ⟨dict, hread⟩ := Option.isSome_iff_exists.mp h.1
    rw [List.filterMap_cons_some hread, List.map_cons, List.map_cons, ih h.2,
      uid_of_readDevice hread]

variable (w now host) in
theorem appliedTo_of_read (hd : ∀ d ∈ devices, (readDevice d).isSome)
    (hn : ∀ d ∈ names, (readName d).isSome) (s : Store) :
    appliedTo w now host devices names s =
      applySnapshot s now host ⟨devices.filterMap readDevice, names.filterMap readName⟩ := by
  rw [appliedTo, foldl_leaveDevice hd, foldl_leaveName hn, applySnapshot, map_uid_filterMap hd]

theorem CutShort.part (h : CutShort w now host v s s') (ht : Typed w v) :
    ∃ part, s' = applyPart s now host part := by
  cases h with
  | inDevices hl hlog =>
    exact ⟨.devices _, foldl_leaveDevice (fun d hd => ht.devices _ hl d hd (hlog d hd)) s⟩
  | inNames hd hdlog hl hlog =>
    exact ⟨.names _, appliedTo_of_read w now host (fun d hm => ht.devices _ hd d hm (hdlog d hm))
      (fun d hm => ht.names _ hl d hm (hlog d hm)) s⟩

/-- A reply of typed entries is refused, or applied as a whole, or raises with a part of it
applied. -/
theorem fetchLoaded_typed (now : ℕ) (host : String) (dropped : Bool) (s : Store)
    (ht : Typed w v) :
    fetchLoaded w now host dropped (.ok v) s = (.ok false, s) ∨
    (∃ reply, fetchLoaded w now host dropped (.ok v) s =
      (.ok (!dropped), applySnapshot s now host reply)) ∨
    ∃ e part, fetchLoaded w now host dropped (.ok v) s = (.error e, applyPart s now host part) := by
  rcases fetchLoaded_cases w now host dropped s v with ⟨-, -, hrun⟩ | ⟨-, -, hrun⟩ |
    ⟨-, hlegible, devices, names, hd, hn, hrun⟩ | ⟨-, -, e, s', hcut, hrun⟩
  · exact Or.inl hrun
  · exact Or.inr (Or.inr ⟨_, .devices [], hrun⟩)
  · obtain ⟨⟨_, hd', hdevices⟩, _, hn', hnames⟩ := hlegible
    obtain rfl := Except.ok.inj (hd.symm.trans hd')
    obtain rfl := Except.ok.inj (hn.symm.trans hn')
    have hread := appliedTo_of_read w now host
      (fun d hm => ht.devices devices (.inr ⟨_, hd, List.prefix_refl _⟩) d hm
        (loggable_of_hashable (hdevices d hm)))
      (fun d hm => ht.names names (.inr ⟨_, hn, List.prefix_refl _⟩) d hm (hnames d hm)) s
    exact Or.inr (Or.inl ⟨_, by rw [hrun, hread]⟩)
  · obtain ⟨part, rfl⟩ := hcut.part ht
    exact Or.inr (Or.inr ⟨e, part, hrun⟩)

end Typed

end MbTools.Peering
