import MbTools.Registry.Agreement
import MbTools.Registry.Blocks
import MbTools.Relay.Pick
import MbTools.Store.Virtual

/-! # The port that a local session opens

`mbserial` and `mbrelay` ask the registry for a device, lock its uid and then open the port that
the first answer gave. The blocks of the daemon, the requests of other clients and the
registrations of simulators come anywhere between the two requests.
-/

namespace MbTools.LocalSession

open Api Store

/-- What the session asks the registry for. -/
inductive Lookup where
  /-- `connect`: the device that a name or a uid resolves to. -/
  | serial (target : String)
  /-- `mbrelay connect`: a relay that the list shows as free. -/
  | relay (host : Option String)
  deriving DecidableEq, Repr

namespace Lookup

def kind : Lookup → String
  | .serial _ => "serial"
  | .relay _ => "relay"

/-- The device to open a port of here, if the answer has one. -/
def device (d : Daemon) : Lookup → Option DeviceRecord
  | .serial target =>
    match field (some target) with
    | none => none
    | some token =>
      match resolveVisible .socket d.casing d.store token with
      | .error _ => none
      | .ok r => if (field r.port).isSome then some r else none
  | .relay host =>
    match Relay.findFreeRelay d.casing (Relay.listed d.store d.locks) host with
    | none => none
    | some e => if e.record.host.isNone then some e.record else none

end Lookup

structure Client where
  lookup : Lookup
  /-- The connection to the registry. -/
  holder : HolderRef
  deriving DecidableEq, Repr

/-- How far the session has come. A session that opens its port carries the row that the registry
had for the locked uid when it granted the lock. -/
inductive Phase where
  | asked
  | found (uid : String) (port : Option String)
  | opened (port : String) (row : Option DeviceRecord)
  | ended
  deriving DecidableEq, Repr

/-- The port a session opens, and the row that the lock was granted on. -/
def Phase.session : Phase → Option (String × Option DeviceRecord)
  | .opened port row => some (port, row)
  | _ => none

theorem Phase.session_eq_some_iff {p : Phase} {port : String} {row : Option DeviceRecord} :
    p.session = some (port, row) ↔ p = .opened port row := by
  cases p <;> simp [session]

structure Run where
  owner : Blocks.Service
  phase : Phase

inductive Action where
  | registry (a : Blocks.Action)
  /-- The write of a registration, and the one that ends it. -/
  | register (now : ℕ) (name role serial : String)
  | unregister (uid : String)
  | find
  | lock (now : ℕ)
  | lost

namespace Run

def withStore (w : Run) (store : Store) : Run :=
  { w with owner := { w.owner with daemon := { w.owner.daemon with store } } }

variable (c : Client)

/-- The `lock` request for the uid. -/
def request (d : Daemon) (now : ℕ) (uid : String) : Except ApiError (String × Daemon) :=
  opLock .socket d now ⟨some uid, some c.lookup.kind, none⟩ c.holder

/-- One step of the session, or one of what goes on beside it. -/
def step (w : Run) : Action → Option Run
  | .registry a => (Blocks.step w.owner a).map fun owner => { w with owner }
  | .register now name role serial =>
    some (w.withStore
      (w.owner.daemon.store.upsertVirtual now (virtualUidPrefix ++ name) name role serial))
  | .unregister uid => some (w.withStore (w.owner.daemon.store.removeVirtual uid))
  | .find =>
    match w.phase with
    | .asked =>
      match c.lookup.device w.owner.daemon with
      | none => some { w with phase := .ended }
      | some r => some { w with phase := .found r.uid (field r.port) }
    | _ => none
  | .lock now =>
    match w.phase with
    | .found uid port =>
      match request c w.owner.daemon now uid with
      | .error _ => some { w with phase := .ended }
      | .ok (locked, d) =>
        match port with
        -- a relay without a port is locked all the same, and the open raises
        | none => some ⟨{ w.owner with daemon := d }, .ended⟩
        | some port => some ⟨{ w.owner with daemon := d }, .opened port (d.store.get locked)⟩
    | _ => none
  | .lost =>
    match w.phase with
    | .opened _ _ => none
    | _ => some { w with phase := .ended }

/-- A session that has asked nothing yet, beside a registry in any state. -/
def begin (owner : Blocks.Service) : Run := ⟨owner, .asked⟩

end Run

/-- The row is on the port, in a non-disconnected state. -/
def OnPort (port : String) (row : Option DeviceRecord) : Prop :=
  ∃ r, row = some r ∧ r.port = some port ∧ r.state ≠ .disconnected

/-- The row that a lock may find for the uid is on the port; a row of this registry that is gone is
refused, a peer's is not. -/
def Holds (s : Store) (uid port : String) : Prop :=
  ∀ r, s.get uid = some r → r.port = some port ∧ (r.host ≠ none → r.state ≠ .disconnected)

instance (port : String) (row : Option DeviceRecord) : Decidable (OnPort port row) :=
  decidable_of_iff (row.any fun r => r.port = some port && r.state ≠ .disconnected)
    (by simp [OnPort, Option.any_eq_true])

instance (s : Store) (uid port : String) : Decidable (Holds s uid port) :=
  decidable_of_iff
    ((s.get uid).all fun r => r.port = some port && (r.host = none || r.state ≠ .disconnected))
    (by simp [Holds, Option.all_eq_true, or_iff_not_imp_left])

section Rows

variable {s s' : Store} {d d' : Daemon} {uid port : String} {cycle : Cycle}

theorem holds_congr (h : s'.get uid = s.get uid) : Holds s' uid port ↔ Holds s uid port := by
  unfold Holds
  rw [h]

theorem Holds.of_none (h : s.get uid = none) : Holds s uid port := by
  intro r hr
  cases h.symm.trans hr

theorem Holds.of_sub (h : Holds s uid port) (hs : s'.get uid = none ∨ s'.get uid = s.get uid) :
    Holds s' uid port := by
  rcases hs with (hs | hs)
  · exact Holds.of_none hs
  · exact (holds_congr hs).mpr h

theorem Holds.of_row {r q : DeviceRecord} (h : Holds s uid port) (hr : s.get uid = some r)
    (hq : s'.get uid = some q) (hp : q.port = r.port) (hh : q.host = r.host)
    (hd : r.state ≠ .disconnected → q.state ≠ .disconnected) : Holds s' uid port := by
  intro q' hq'
  obtain rfl := Option.some.inj (hq.symm.trans hq')
  obtain ⟨hport, hstate⟩ := h r hr
  exact ⟨hp.trans hport, fun hne => hd (hstate (hh ▸ hne))⟩

theorem holds_of_some {r : DeviceRecord} (hr : s.get uid = some r) (hh : r.host = none) :
    Holds s uid port ↔ r.port = some port := by
  constructor
  · exact fun h => (h r hr).1
  · intro hp r' hr'
    obtain rfl := Option.some.inj (hr.symm.trans hr')
    exact ⟨hp, fun hne => absurd hh hne⟩

theorem Holds.giveUpLoop (h : Holds d.store uid port) (l : List (String × ℕ))
    (t : List DeviceRecord) : Holds (Daemon.giveUpLoop cycle l d t).1.store uid port := by
  rcases Daemon.giveUpLoop_row l d t uid with (he | ⟨-, r, hr, hq⟩)
  · exact (holds_congr he).mpr h
  · exact h.of_row hr hq rfl rfl fun _ => by simp [DeviceRecord.knownBlank]

theorem holds_lockedBlock_of_claimed {info : PortInfo} (hc : Daemon.NewlyClaimed d cycle uid)
    (hi : cycle.scan.lookup uid = some info) :
    Holds (d.lockedBlock cycle).1.store uid port ↔ info.port = port := by
  obtain ⟨info', hi', -, hrow⟩ := Daemon.get_diff_of_newlyClaimed hc
  obtain rfl := Option.some.inj (hi.symm.trans hi')
  have hget : (d.lockedBlock cycle).1.store.get uid =
      some (Daemon.attachedRow cycle.wall uid info (d.store.get uid)) := by
    rw [Daemon.lockedBlock, (Daemon.giveUpLoop_of_not_expired fun he => he.1 hc.1).1, hrow]
  obtain ⟨hlocal, hport⟩ := @Daemon.attachedRow_spec uid cycle.wall info (d.store.get uid)
  rw [holds_of_some hget hlocal.1, hport, Option.some.injEq]

/-- A cycle that does not claim the board leaves it on its port, whether it detaches it or not. -/
theorem Holds.lockedBlock (h : Holds d.store uid port) (hc : ¬ Daemon.NewlyClaimed d cycle uid) :
    Holds (d.lockedBlock cycle).1.store uid port := by
  refine Holds.giveUpLoop ?_ _ _
  by_cases hd : Daemon.Detached d cycle uid
  · obtain ⟨r, hr, hlocal⟩ := Daemon.mem_previouslyAttached_iff.mp hd.1
    have hget := Daemon.get_diff_of_detached hd
    rw [hr, Option.map_some] at hget
    exact (holds_of_some hget hlocal.1).mpr ((holds_of_some hr hlocal.1).mp h)
  · exact (holds_congr (Daemon.get_diff_of_not hc hd)).mpr h

theorem Holds.probeWrite {wall : ℕ} {u : String} {result : Option ProbeResult}
    {chip : Option (String × ℕ)} (h : Holds d.store uid port)
    (hw : d.probeWrite wall u result chip = .ok d') : Holds d'.store uid port := by
  obtain ⟨r, hr, hq, hother, -⟩ := Daemon.probeWrite_spec hw
  by_cases hu : u = uid
  · subst hu
    obtain ⟨-, hhost, hport, -, hstate, -⟩ :=
      Daemon.outcomeRow_spec wall (d.flashPending.lookup u).isSome result chip r
    exact h.of_row hr hq hport hhost fun _ => hstate
  · exact (holds_congr (hother uid hu)).mpr h

theorem Holds.apply {o : Op} (h : Holds d.store uid port)
    (hp : ∀ host input, o ≠ .peer host input) : Holds (d.apply o).store uid port := by
  rcases Daemon.get_apply_cases o uid with (he | he | ⟨-, -, he⟩ | ⟨host, input, rfl⟩)
  · exact (holds_congr he).mpr h
  · cases hr : d.store.get uid with
    | none =>
      rw [hr, Option.map_none] at he
      exact Holds.of_none he
    | some r =>
      rw [hr, Option.map_some] at he
      exact h.of_row hr he rfl rfl id
  · exact Holds.of_none he
  · exact absurd rfl (hp host input)

theorem holds_upsertVirtual {now : ℕ} {name role serial : String} (h : Holds s uid port) :
    Holds (s.upsertVirtual now (virtualUidPrefix ++ name) name role serial) uid port ↔
      (virtualUidPrefix ++ name = uid → virtualPortPrefix ++ name = port) := by
  have hget := get_upsertVirtual s now (virtualUidPrefix ++ name) name role serial uid
  by_cases hu : virtualUidPrefix ++ name = uid
  · rw [if_pos hu] at hget
    rw [holds_of_some hget rfl]
    simp [virtualRow, DeviceRecord.new, hu]
  · rw [if_neg hu] at hget
    exact iff_of_true ((holds_congr hget).mpr h) fun he => absurd he hu

theorem get_removeVirtual_cases (s : Store) (u uid : String) :
    (s.removeVirtual u).get uid = none ∨ (s.removeVirtual u).get uid = s.get uid := by
  unfold removeVirtual
  split
  · exact Or.inr rfl
  · split
    · rw [get_deleteRow]
      split
      · exact Or.inl rfl
      · exact Or.inr rfl
    · exact Or.inr rfl

/-- The row of a device found, as far as its own check and the one of a lock go. -/
theorem get_of_device {c : Lookup} {r : DeviceRecord} (h : c.device d = some r) :
    d.store.get r.uid = some r := by
  cases c with
  | serial target =>
    simp only [Lookup.device] at h
    split at h
    · cases h
    · split at h
      · cases h
      · rename_i q hq
        split at h
        · cases h
          exact get_of_resolveVisible hq
        · cases h
  | relay host =>
    simp only [Lookup.device] at h
    split at h
    · cases h
    · rename_i e he
      split at h
      · cases h
        obtain ⟨r, hr, rfl⟩ := List.mem_map.mp (Relay.findFreeRelay_some he).1
        rw [deviceDict_record]
        exact mem_listDevices_iff.mp hr
      · cases h

end Rows

namespace Run

/-- What the session relies on: until the lock, that its device stays on the port found. -/
def Steady (w : Run) : Prop :=
  match w.phase with
  | .found uid (some port) => Holds w.owner.daemon.store uid port
  | .opened port row => OnPort port row
  | _ => True

/-- What the steps between the two requests leave alone: no cycle claims the board on another port,
no registration and no report of a peer puts its uid there, the device found is no peer's that is
gone, and the lock is not granted on the row of another uid on another port. -/
def Settled (c : Client) (w : Run) (a : Action) : Prop :=
  match a, w.phase with
  | .registry (.diff cycle), .found uid (some port) =>
    match cycle.scan.lookup uid with
    | some info => Daemon.NewlyClaimed w.owner.daemon cycle uid → info.port = port
    | none => True
  | .registry (.op (.peer host input)), .found uid (some port) =>
    Holds (Peering.applyInput host w.owner.daemon.store input) uid port
  | .register _ name _ _, .found uid (some port) =>
    virtualUidPrefix ++ name = uid → virtualPortPrefix ++ name = port
  | .find, .asked =>
    match c.lookup.device w.owner.daemon with
    | some r => (field r.port).isSome → r.host ≠ none → r.state ≠ .disconnected
    | none => True
  | .lock now, .found uid (some port) =>
    match request c w.owner.daemon now uid with
    | .ok (locked, _) => locked ≠ uid → Holds w.owner.daemon.store locked port
    | .error _ => True
  | _, _ => True

instance (c : Client) (w : Run) (a : Action) : Decidable (Settled c w a) := by
  unfold Settled
  split
  · split <;> infer_instance
  · infer_instance
  · infer_instance
  · split <;> infer_instance
  · split <;> infer_instance
  · infer_instance

open MbTools.Runs

variable {c : Client} {b : Blocks.Service} {w w' : Run} {a : Action} {as : List Action}

theorem settled_of_idle (hp : ∀ uid port, w.phase ≠ .found uid (some port)) (ha : a ≠ .find) :
    Settled c w a := by
  unfold Settled
  split
  case h_4 => exact absurd rfl ha
  case h_6 => trivial
  all_goals
    rename_i hphase
    exact absurd hphase (hp _ _)

theorem holds_block {x : Blocks.Action} {b' : Blocks.Service} {uid port : String}
    (h : Holds b.daemon.store uid port) (hb : Blocks.step b x = some b') :
    Holds b'.daemon.store uid port ↔
      Settled c ⟨b, .found uid (some port)⟩ (.registry x) := by
  cases x with
  | diff cycle =>
    cases hb
    simp only [Settled]
    split
    · rename_i info hi
      by_cases hc : Daemon.NewlyClaimed b.daemon cycle uid
      · rw [holds_lockedBlock_of_claimed hc hi]
        exact ⟨fun hport _ => hport, fun hport => hport hc⟩
      · exact iff_of_true (h.lockedBlock hc) fun hc' => absurd hc' hc
    · rename_i hi
      refine iff_of_true (h.lockedBlock fun hc => ?_) trivial
      exact Daemon.not_mem_scan_keys_iff.mpr hi hc.1
  | check u =>
    simp only [Blocks.step] at hb
    split at hb <;> (cases hb; exact iff_of_true h trivial)
  | write wall u result chip =>
    simp only [Blocks.step] at hb
    split at hb
    · cases hb
      refine iff_of_true ?_ trivial
      cases hw : b.daemon.probeWrite wall u result chip with
      | error e => exact h
      | ok d => exact h.probeWrite hw
    · cases hb
  | op o =>
    cases hb
    have hstay := h.apply (o := o)
    cases o with
    | peer host input => exact Iff.rfl
    | lock _ _ _ _ => exact iff_of_true (hstay fun _ _ ho => by cases ho) trivial
    | release _ _ _ => exact iff_of_true (hstay fun _ _ ho => by cases ho) trivial
    | forceRelease _ _ => exact iff_of_true (hstay fun _ _ ho => by cases ho) trivial
    | sweep _ _ => exact iff_of_true (hstay fun _ _ ho => by cases ho) trivial
    | markFlashed _ => exact iff_of_true (hstay fun _ _ ho => by cases ho) trivial
    | peerSeen _ _ _ => exact iff_of_true (hstay fun _ _ ho => by cases ho) trivial
    | peerReachable _ _ => exact iff_of_true (hstay fun _ _ ho => by cases ho) trivial
    | rescan => exact iff_of_true (hstay fun _ _ ho => by cases ho) trivial
  | restart =>
    cases hb
    exact iff_of_true (h.of_sub (get_sweepVirtual_cases b.daemon.store uid)) trivial

/-- A lock that is granted on the device itself finds it attached, or a peer's that is not gone. -/
theorem onPort_of_request {d d' : Daemon} {now : ℕ} {uid port locked : String}
    (h : Holds d.store uid port) (hl : request c d now uid = .ok (locked, d')) :
    OnPort port (d'.store.get locked) ↔ (locked ≠ uid → Holds d.store locked port) := by
  obtain ⟨token, r, kind, locks, -, hres, hdet, rfl, -, rfl⟩ := opLock_eq_ok hl
  have hget := get_of_resolveVisible hres
  have hstate := detachedError_eq_none_iff.mp hdet
  have hrow : Holds d.store r.uid port ↔ OnPort port (d.store.get r.uid) := by
    constructor
    · intro hrow
      obtain ⟨hport, hpeer⟩ := hrow r hget
      refine ⟨r, hget, hport, ?_⟩
      by_cases hh : r.host = none
      · exact hstate hh
      · exact hpeer hh
    · rintro ⟨q, hq, hport, hd⟩ q' hq'
      obtain rfl := Option.some.inj (hq.symm.trans hq')
      exact ⟨hport, fun _ => hd⟩
  rw [hrow]
  constructor
  · exact fun hon _ => hon
  · intro hother
    by_cases hu : r.uid = uid
    · exact hrow.mp (hu ▸ h)
    · exact hother hu

/-- A step that leaves the session where it is, and keeps its device on the port exactly if the
condition allows it. -/
theorem steady_of_owner {b' : Blocks.Service} (h : w.Steady) (ha : a ≠ .find)
    (hholds : ∀ uid port, w.phase = .found uid (some port) → Holds w.owner.daemon.store uid port →
      (Holds b'.daemon.store uid port ↔ Settled c w a)) :
    Steady { w with owner := b' } ↔ Settled c w a := by
  obtain ⟨b, phase⟩ := w
  by_cases hp : ∃ uid port, phase = .found uid (some port)
  · obtain ⟨uid, port, rfl⟩ := hp
    exact hholds uid port rfl h
  · simp only [not_exists] at hp
    refine iff_of_true ?_ (settled_of_idle hp ha)
    cases phase with
    | asked => trivial
    | found uid port =>
      cases port with
      | none => trivial
      | some port => exact absurd rfl (hp uid port)
    | opened port row => exact h
    | ended => trivial

theorem steady_find (hs : step c w .find = some w') : w'.Steady ↔ Settled c w .find := by
  obtain ⟨b, phase⟩ := w
  simp only [step] at hs
  split at hs
  · simp only [Settled]
    split at hs
    · rename_i hdev
      cases hs
      rw [hdev]
      exact iff_of_true trivial trivial
    · rename_i r hdev
      cases hs
      have hget := get_of_device hdev
      simp only [hdev]
      cases hport : field r.port with
      | none => exact iff_of_true trivial fun hsome => nomatch hsome
      | some port =>
        have hr : r.port = some port := (Option.filter_eq_some_iff.mp hport).1
        constructor
        · exact fun hholds _ => (hholds r hget).2
        · intro hpeer q hq
          obtain rfl := Option.some.inj (hget.symm.trans hq)
          exact ⟨hr, hpeer rfl⟩
  · cases hs

theorem steady_lock {now : ℕ} (h : w.Steady) (hs : step c w (.lock now) = some w') :
    w'.Steady ↔ Settled c w (.lock now) := by
  obtain ⟨b, phase⟩ := w
  simp only [step] at hs
  split at hs
  · rename_i uid port
    split at hs
    · rename_i e hreq
      cases hs
      refine iff_of_true trivial ?_
      cases port with
      | none => trivial
      | some port => simp only [Settled, hreq]
    · rename_i locked d hreq
      cases port with
      | none =>
        cases hs
        exact iff_of_true trivial trivial
      | some port =>
        cases hs
        simp only [Settled, hreq]
        exact onPort_of_request h hreq
  · cases hs

/-- The steps that keep the device on the port found are those of the condition. -/
theorem steady_step (h : w.Steady) (hs : step c w a = some w') : w'.Steady ↔ Settled c w a := by
  cases a with
  | registry x =>
    obtain ⟨b', hb, rfl⟩ := Option.map_eq_some_iff.mp hs
    refine steady_of_owner h (by nofun) ?_
    obtain ⟨b, phase⟩ := w
    rintro uid port rfl hholds
    exact holds_block hholds hb
  | register now name role serial =>
    cases hs
    refine steady_of_owner h (by nofun) ?_
    obtain ⟨b, phase⟩ := w
    rintro uid port rfl hholds
    exact holds_upsertVirtual hholds
  | unregister u =>
    cases hs
    refine steady_of_owner h (by nofun) ?_
    obtain ⟨b, phase⟩ := w
    rintro uid port rfl hholds
    exact iff_of_true (hholds.of_sub (get_removeVirtual_cases b.daemon.store u uid)) trivial
  | find => exact steady_find hs
  | lock now => exact steady_lock h hs
  | lost =>
    obtain ⟨b, phase⟩ := w
    simp only [step] at hs
    split at hs
    · cases hs
    · cases hs
      exact iff_of_true trivial trivial

end Run

open MbTools.Runs

variable {client : Client} {b : Blocks.Service} {as : List Action} {w : Run}

/-- Where nothing moves the device between the two requests, the port that the session opens is the
one that its row had, attached, when the lock was granted; and the steps that move nothing are the
ones that keep this in every state. -/
theorem opens_own_port (hr : exec (Run.step client) (Run.begin b) as = some w) :
    (Meets (Run.step client) (Run.Settled client) (Run.begin b) as →
        ∀ port row, w.phase = .opened port row → OnPort port row) ∧
      (Meets (Run.step client) (Run.Settled client) (Run.begin b) as ↔
        ∀ bs t, bs <+: as → exec (Run.step client) (Run.begin b) bs = some t → t.Steady) := by
  have hstep : ∀ (w : Run) a w', w.Steady → Run.step client w a = some w' →
      (w'.Steady ↔ Run.Settled client w a) := fun _ _ _ h hs => Run.steady_step h hs
  have hbegin : (Run.begin b).Steady := trivial
  have hiff := meets_iff_inv hstep hbegin hr
  refine ⟨fun hm port row hphase => ?_, hiff⟩
  have hsteady := hiff.mp hm as w List.prefix_rfl hr
  rw [Run.Steady, hphase] at hsteady
  exact hsteady

/-- `mbserial` on a board of this host. -/
def terminal : Client := ⟨.serial "9900a", ⟨.local, "512", some 512, none⟩⟩

/-- A registry that has just started. -/
def service : Blocks.Service := Blocks.start Daemon.blank

/-- The board is unplugged and plugged in again between the two requests. -/
def replugged : List Action :=
  [.registry (.diff .oneBoard), .find, .registry (.diff .noBoard), .registry (.diff .oneBoard),
    .lock 30]

theorem opens_own_port_replugged : ∃ w port row,
    exec (Run.step terminal) (Run.begin service) replugged = some w ∧
      w.phase = .opened port row ∧ OnPort port row := by
  have hrun : (exec (Run.step terminal) (Run.begin service) replugged).any
      (fun w => w.phase.session.isSome) = true := by decide +kernel
  have hm : Meets (Run.step terminal) (Run.Settled terminal) (Run.begin service) replugged := by
    decide +kernel
  obtain ⟨w, hw, hopen⟩ := (Option.any_eq_true _ _).mp hrun
  obtain ⟨⟨port, row⟩, hsession⟩ := Option.isSome_iff_exists.mp hopen
  have hphase := Phase.session_eq_some_iff.mp hsession
  exact ⟨w, port, row, hw, hphase, (opens_own_port hw).1 hm port row hphase⟩

/-- The board comes back on another port, and its own port is taken by another board. -/
def swapped : Cycle :=
  { Cycle.oneBoard with
    scan := Dict.insert (Dict.insert Table.empty "9900a" ⟨"/dev/ttyACM1", 0x0d28, 0x0204⟩) "9900b"
      ⟨"/dev/ttyACM0", 0x0d28, 0x0204⟩ }

/-- The same run, but for the port that the board comes back on. -/
def moved : List Action :=
  [.registry (.diff .oneBoard), .find, .registry (.diff .noBoard), .registry (.diff swapped),
    .lock 30]

theorem opens_other_port : ¬ ∀ (as : List Action) (w : Run) (port : String)
    (row : Option DeviceRecord), exec (Run.step terminal) (Run.begin service) as = some w →
      w.phase = .opened port row → OnPort port row := by
  intro h
  have hrun : (exec (Run.step terminal) (Run.begin service) moved).any
      (fun w => w.phase.session.any fun p => !decide (OnPort p.1 p.2)) = true := by decide +kernel
  obtain ⟨w, hw, hopen⟩ := (Option.any_eq_true _ _).mp hrun
  obtain ⟨⟨port, row⟩, hsession, hport⟩ := (Option.any_eq_true _ _).mp hopen
  have hon := h moved w port row hw (Phase.session_eq_some_iff.mp hsession)
  simp [hon] at hport

end MbTools.LocalSession
