import MbTools.Api.Sessions

/-! # Locks and ports of local boards

Resolving a token gives a row, and the only rows turned away are those of local
boards that are gone. So a lock is on a locally owned, attached board when the
token names a local row, and a stream opens the port of one when, besides, the
row is not handed to someone else between the precheck and the open.
-/

namespace MbTools.Api

open Store Runs

/-- The uid has a locally owned row that is not disconnected. -/
def LocalRow (s : Store) (uid : String) : Prop :=
  ∃ r, s.get uid = some r ∧ r.host = none ∧ r.state ≠ .disconnected

/-- The port is that of such a row. -/
def LocalPort (s : Store) (uid port : String) : Prop :=
  ∃ r, s.get uid = some r ∧ r.host = none ∧ r.state ≠ .disconnected ∧ r.port = some port

/-- What decides who a row belongs to and where it is. -/
def address (r : DeviceRecord) : Option String × Option String × Bool :=
  (r.host, r.port, r.state = .disconnected)

theorem LocalPort.of_address {s s' : Store} {uid port : String} (h : LocalPort s uid port)
    (ha : (s'.get uid).map address = (s.get uid).map address) : LocalPort s' uid port := by
  obtain ⟨r, hr, hh, hd, hp⟩ := h
  rw [hr, Option.map_some] at ha
  obtain ⟨q, hq, ha⟩ := Option.map_eq_some_iff.mp ha
  simp only [address, Prod.mk.injEq, decide_eq_decide] at ha
  exact ⟨q, hq, ha.1.trans hh, fun he => hd (ha.2.2.mp he), ha.2.1.trans hp⟩

namespace System

variable {s s' : System} {a : Action} {uid port : String} {h : HolderRef}

/-- The uid a `lock` request is granted. -/
def grants (s : System) : Action → Option String
  | .lock i now req =>
    (s.conns.lookup i).bind fun c =>
      match opLock c.server s.daemon now req c.holder with
      | .ok (uid, _) => some uid
      | .error _ => none
  | _ => none

/-- The uid and the port a stream opens, or tries to. -/
def opens (s : System) : Action → Option (String × String)
  | .session i (.open _) =>
    (s.conns.lookup i).bind fun c =>
      match c.mode with
      | .streaming t => if t.isVirtual then none else some (t.uid, t.port)
      | _ => none
  | _ => none

/-- A stream on the uid is accepted and has not opened its port yet. -/
def Pending (s : System) (uid port : String) : Prop :=
  ∃ j h t, s.Streams j h t ∧ t.isVirtual = false ∧ t.phase = .accepted ∧ t.uid = uid ∧ t.port = port

/-- The token of a `lock` or `stream` request names a local row, where all rows are visible, and
no write moves the row of a stream that has not opened its port yet. -/
structure NamesLocal (s : System) (a : Action) : Prop where
  lock : ∀ i now req c token r, a = .lock i now req → s.conns.lookup i = some c →
    c.server ≠ .tcp → field req.uid = some token →
    s.daemon.store.find s.daemon.casing token = .ok (some r) → r.host = none
  stream : ∀ i x dialed c token r, a = .stream i x dialed → s.conns.lookup i = some c →
    c.server ≠ .tcp → field x = some token →
    s.daemon.store.find s.daemon.casing token = .ok (some r) → r.host = none
  moved : ∀ s', s.step a = some s' → ∀ uid port, s.Pending uid port →
    (s'.daemon.store.get uid).map address = (s.daemon.store.get uid).map address

theorem host_of_resolveVisible {server : Server} {d : Daemon} {token : String} {r : DeviceRecord}
    (hr : resolveVisible server d.casing d.store token = .ok r)
    (hl : server ≠ .tcp → d.store.find d.casing token = .ok (some r) → r.host = none) :
    r.host = none := by
  obtain ⟨hf, hv⟩ := resolveVisible_eq_ok_iff.mp hr
  by_cases hs : server = .tcp
  · subst hs
    simp only [deviceVisible, Bool.and_eq_true, decide_eq_true_eq] at hv
    exact hv.1
  · exact hl hs hf

theorem grants_local (hn : s.NamesLocal a) (hg : s.grants a = some uid) :
    LocalRow s.daemon.store uid := by
  unfold grants at hg
  split at hg
  · rename_i i now req
    obtain ⟨c, hc, hg⟩ := Option.bind_eq_some_iff.mp hg
    split at hg
    · rename_i u d hop
      obtain rfl := Option.some.inj hg
      obtain ⟨token, r, _, _, ht, hr, hd, rfl, -, -⟩ := opLock_eq_ok hop
      have hh := host_of_resolveVisible hr fun hs hf => hn.lock i now req c token r rfl hc hs ht hf
      exact ⟨r, get_of_resolveVisible hr, hh, detachedError_eq_none_iff.mp hd hh⟩
    · cases hg
  · cases hg

theorem Accepts.localPort {j : ℕ} {t : StreamSession} (hn : s.NamesLocal a)
    (ha : s.Accepts a j h t) : LocalPort s.daemon.store t.uid t.port := by
  obtain ⟨x, dialed, c, r, p, kind, rfl, hc, -, hop, rfl⟩ := ha
  obtain ⟨token, -, ht, hr, -, -, hp, hd⟩ := opStreamPrecheck_eq_ok hop
  have hh := host_of_resolveVisible hr fun hs hf => hn.stream j x dialed c token r rfl hc hs ht hf
  refine ⟨r, get_of_resolveVisible hr, hh, detachedError_eq_none_iff.mp hd hh, ?_⟩
  exact (Option.filter_eq_some_iff.mp hp).1

/-- Every stream that has not opened its port yet is still on a local one. -/
def PendingLocal (s : System) : Prop :=
  ∀ uid port, s.Pending uid port → LocalPort s.daemon.store uid port

theorem PendingLocal.step (hp : s.PendingLocal) (hn : s.NamesLocal a) (hs : s.step a = some s') :
    s'.PendingLocal := by
  rintro uid port ⟨j, h, t, ht, hv, hacc, rfl, rfl⟩
  rcases ht.step hs with (⟨x, hx, hb⟩ | ⟨ha, hd⟩)
  · have hpend : s.Pending t.uid t.port :=
      ⟨j, h, x, hx, hb.isVirtual.symm.trans hv, hb.accepted hacc, hb.uid.symm, hb.port.symm⟩
    exact (hp t.uid t.port hpend).of_address (hn.moved s' hs t.uid t.port hpend)
  · rw [hd]
    exact ha.localPort hn

theorem PendingLocal.start (C : Casing) (store : Store) : (start C store).PendingLocal := by
  rintro uid port ⟨j, h, t, ⟨c, hc, -⟩, -⟩
  cases hc

theorem pending_of_opens (ho : s.opens a = some (uid, port)) (hs : s.step a = some s') :
    s.Pending uid port := by
  unfold opens at ho
  split at ho
  · rename_i i ok
    obtain ⟨c, hc, ho⟩ := Option.bind_eq_some_iff.mp ho
    split at ho
    · rename_i t hm
      rw [Option.ite_none_left_eq_some] at ho
      obtain ⟨hv, he⟩ := ho
      obtain ⟨rfl, rfl⟩ := Prod.mk.inj (Option.some.inj he)
      obtain ⟨c', hc', hs⟩ := onConn_eq_some hs
      obtain rfl := Option.some.inj (hc'.symm.trans hc)
      simp only [hm, Option.ite_none_left_eq_some, Option.map_eq_some_iff, StreamSession.step,
        Option.ite_none_right_eq_some] at hs
      obtain ⟨-, _, ⟨hacc, -⟩, -⟩ := hs
      exact ⟨i, c'.holder, t, ⟨c', hc, hm, rfl⟩, by simpa using hv, hacc, rfl, rfl⟩
    · cases ho
  · cases ho

/-- In a run that names local rows, and moves none under a stream that is about to open its port,
every lock is granted on a locally owned, attached board, and every port a stream opens is that of
one. -/
theorem locks_and_ports_local (C : Casing) (store : Store) (as : List Action) (s s' : System)
    (a : Action) (hr : exec step (start C store) as = some s)
    (hm : Meets step NamesLocal (start C store) (as ++ [a])) (hs : s.step a = some s') :
    (∀ uid, s.grants a = some uid → LocalRow s.daemon.store uid) ∧
      ∀ uid port, s.opens a = some (uid, port) → LocalPort s.daemon.store uid port := by
  have hp : s.PendingLocal :=
    inv_of_meets (fun _ _ _ hp hn hs => hp.step hn hs) (PendingLocal.start C store) hm.left hr
  have hn : s.NamesLocal a := (hm.right hr).head
  exact ⟨fun uid hg => grants_local hn hg, fun uid port ho => hp uid port (pending_of_opens ho hs)⟩

def localClient : HolderRef := ⟨.local, "41", some 41, none⟩

/-- A local client locks a board and has a stream on it accepted. -/
def localStream (uid : String) : List Action :=
  [.connect 1 .socket localClient, .lock 1 6 ⟨some uid, some "serial", none⟩, .track 1,
    .stream 1 (some uid) false]

def ownBoard : Store := Store.empty.upsertAttached 5 "9900a" "/dev/ttyACM0" "0d28:0204"

theorem ownBoard_local {uid : String} {r : DeviceRecord} (hr : ownBoard.get uid = some r) :
    r.host = none := by
  rw [ownBoard, upsertAttached, get_upsertDevice] at hr
  split at hr
  · obtain rfl := Option.some.inj hr
    rfl
  · cases hr

theorem localStream_store {uid : String} (ha : a ∈ localStream uid ++ [.session 1 (.open true)])
    (hs : s.step a = some s') : s'.daemon.store = s.daemon.store := by
  simp only [localStream, List.cons_append, List.nil_append, List.mem_cons, List.not_mem_nil,
    or_false] at ha
  cases step_cases hs with
  | lock hc hidle hop hmode =>
    obtain ⟨_, _, _, _, -, -, -, -, -, rfl⟩ := opLock_eq_ok hop
    rfl
  | refused => rfl
  | connect => rfl
  | track => rfl
  | stream => rfl
  | session => rfl
  | _ => simp at ha

theorem locks_and_ports_local_own :
    ∃ s, exec step (start .ascii ownBoard) (localStream "9900a") = some s ∧
      LocalPort s.daemon.store "9900a" "/dev/ttyACM0" := by
  have hrun : (exec step (start .ascii ownBoard) (localStream "9900a")).any (fun s =>
      (s.step (.session 1 (.open true))).isSome &&
        s.opens (.session 1 (.open true)) = some ("9900a", "/dev/ttyACM0")) = true := by decide
  obtain ⟨s, hs, hopen⟩ := (Option.any_eq_true _ _).mp hrun
  rw [Bool.and_eq_true, Option.isSome_iff_exists, decide_eq_true_iff] at hopen
  obtain ⟨⟨s', hs'⟩, ho⟩ := hopen
  have hm : Meets step NamesLocal (start .ascii ownBoard)
      (localStream "9900a" ++ [.session 1 (.open true)]) := by
    apply meets_of_inv (P := fun s : System => s.daemon.store = ownBoard)
    · intro s a ha hstore
      refine ⟨?_, ?_, ?_⟩
      · rintro i now req c token r - - - - hf
        rw [hstore] at hf
        exact ownBoard_local (get_of_find hf)
      · rintro i x dialed c token r - - - - hf
        rw [hstore] at hf
        exact ownBoard_local (get_of_find hf)
      · intro s' hs uid port _
        rw [localStream_store ha hs]
    · intro s a s' ha hstore hs
      exact (localStream_store ha hs).trans hstore
    · rfl
  exact ⟨s, hs, (locks_and_ports_local .ascii ownBoard _ s s' _ hs hm hs').2 _ _ ho⟩

def peerBoard : Store :=
  Store.empty.upsertRemoteAttached 5 "9900b" "loki" (some "/dev/ttyACM9") (some "0d28:0204")

/-- The same for a board of another host: the lock is granted, and the stream opens the port of
that name here. -/
theorem locks_and_ports_not_local : ¬ ∀ (C : Casing) (store : Store) (as : List Action)
    (s s' : System) (a : Action), Reachable store → exec step (start C store) as = some s →
    s.step a = some s' →
    (∀ uid, s.grants a = some uid → LocalRow s.daemon.store uid) ∧
      ∀ uid port, s.opens a = some (uid, port) → LocalPort s.daemon.store uid port := by
  intro hall
  have hreach : Reachable peerBoard :=
    Reachable.empty.write
      (.remoteAttached 5 "9900b" "loki" (some "/dev/ttyACM9") (some "0d28:0204"))
  have hrun : (exec step (start .ascii peerBoard) (localStream "9900b")).any (fun s =>
      (s.step (.session 1 (.open true))).isSome &&
        s.opens (.session 1 (.open true)) = some ("9900b", "/dev/ttyACM9") &&
        (s.daemon.store.get "9900b").map DeviceRecord.host = some (some "loki")) = true := by decide
  obtain ⟨s, hs, hend⟩ := (Option.any_eq_true _ _).mp hrun
  rw [Bool.and_eq_true, Bool.and_eq_true, Option.isSome_iff_exists, decide_eq_true_iff,
    decide_eq_true_iff] at hend
  obtain ⟨⟨⟨s', hs'⟩, ho⟩, hhost⟩ := hend
  obtain ⟨r, hr, hh, -⟩ := (hall .ascii peerBoard _ s s' _ hreach hs hs').2 _ _ ho
  rw [hr, Option.map_some, hh] at hhost
  cases hhost

end System

end MbTools.Api
