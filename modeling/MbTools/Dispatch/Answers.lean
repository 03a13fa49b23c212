import MbTools.Dispatch.Lines
import MbTools.Registry.Survival

/-! # Which operations answer

For each operation: the exceptions that leave it, the lock labels its response
shows, and that a refusal changes nothing.
-/

namespace MbTools.Dispatch

open Api Virtual Outcome

variable (w : World) (c : Caller) (b : Boards) (req : Json)

/-- The operation returns a response that can be written. -/
def Outcome.Answers (o : Outcome) : Prop :=
  ∃ r handoff, o.result = .ok (r, handoff) ∧ ∀ label ∈ r.labels, w.encodes label = true

/-- Nothing is written before the response, and a refusal leaves everything to the other threads. -/
structure Outcome.Spares (o : Outcome) : Prop where
  logs : o.logs = []
  boards : ∀ r handoff, o.result = .ok (r, handoff) → r.ok = false →
    o.boards = b ∨ o.boards = w.meanwhile 0 b

def uidToken : Token := tokenOf w.text (req.get "uid")

def found (server : Server) (token : Token) : Option DeviceRecord :=
  token.text?.bind fun token =>
    (resolveVisible server b.sys.daemon.casing b.sys.daemon.store token).toOption

/-- The label of the lock on a row, as the row is listed. -/
def rowLabels (r : DeviceRecord) : List String :=
  if r.host = none then ((b.sys.daemon.locks.status r.uid).bind LockStatus.label).toList else []

def lockLabels (uid : String) : List String :=
  ((b.sys.daemon.locks.status uid).bind LockStatus.label).toList

/-- The board that `lock` is about, if it gets as far as the lock table. -/
def toLock : Option DeviceRecord :=
  (kindOf (req.get "kind")).bind fun _ =>
    (found b c.port.server (uidToken w req)).filter fun r => (detachedError r).isNone

/-- The lock labels that a response shows. -/
def shown : Verb → List String
  | .list => (listVisibleDevices c.port.server b.sys.daemon.store).flatMap (rowLabels b)
  | .find => (found b c.port.server (tokenOf w.text (findToken req))).toList.flatMap (rowLabels b)
  | .lock => (toLock w c b req).toList.flatMap fun r => lockLabels b r.uid
  | .forceUnlock => (found b .socket (uidToken w req)).toList.flatMap fun r => lockLabels b r.uid
  | .registerBoard =>
    match b.opRegisterBoard c.conn w.now (validateRegistration w.intError req) with
    | .error _ => []
    | .ok (reg, _) => lockLabels b reg.uid
  | _ => []

/-- A lock that is granted under a label that cannot be published. -/
def LockTrips : Prop :=
  uidToken w req = .lone ∧ (kindOf (req.get "kind")).isSome ∨
    ∃ r label, toLock w c b req = some r ∧ b.sys.daemon.locks.status r.uid = none ∧
      labelOf w.text (req.get "label") = some label ∧ w.tells label = false

/-- An infinite number, or one beyond 64 bits under a well-formed name. -/
def SetTrips : Prop :=
  ((req.get "name").truthy = true ∧ (req.get "channel").isNull = false ∧
    (req.get "group").isNull = false) ∧
  ((req.get "channel").toInt = .error .overflowError ∨
    ∃ n, (req.get "channel").toInt = .ok n ∧
      ((req.get "group").toInt = .error .overflowError ∨
        ∃ m, (req.get "group").toInt = .ok m ∧
          (Naming.validate ((req.get "name").strOf (nameText w))).isOk = true ∧
          ¬ (Names.Bindable n ∧ Names.Bindable m)))

/-- The row of a board is gone when the poll comes to it, or when its outcome is to be written. -/
def RowLost (n : ℕ) (uid : String) : Prop :=
  b.sys.daemon.store.get uid = none ∨
    b.sys.daemon.probeEligible uid = .ok true ∧ (w.meanwhile n b).sys.daemon.store.get uid = none

/-- A poll comes to a board whose row another thread takes away. -/
inductive ProbeTrips : ℕ → List String → Boards → Prop
  | here {n : ℕ} {uid : String} {rest : List String} {b : Boards} (lost : RowLost w b n uid) :
      ProbeTrips n (uid :: rest) b
  | later {n : ℕ} {uid : String} {rest : List String} {b : Boards}
      (rest_trips : ProbeTrips (n + 2) rest (w.meanwhile (n + 1) (maybeProbe w b n uid).2)) :
      ProbeTrips n (uid :: rest) b

/-- A poll gives up on a board that has no row, or loses one. -/
def PollTrips : Prop :=
  (∃ u, Arrival.GivesUp b.sys.daemon w.cycle u ∧ b.sys.daemon.store.get u = none) ∨
    ((∀ u, Arrival.GivesUp b.sys.daemon w.cycle u → (b.sys.daemon.store.get u).isSome) ∧
      ProbeTrips w 2 (b.sys.daemon.diff w.cycle).2.2.1
        (w.meanwhile 1 (withDaemon b (b.sys.daemon.lockedBlock w.cycle).1)))

/-- The registry with the rows gone that a real rescan removes. -/
def rescanned : Boards :=
  withDaemon b { b.sys.daemon with
    store := (Api.opRescan b.sys.daemon.store b.sys.daemon.locks true false).store }

/-- The endpoint of a live board cannot be dialed for an exception that is no `OSError`, or sends a
line that the decoder raises another exception on. -/
def EndpointTrips (goesOn : ℕ → Json → Bool) (uid : String) : Prop :=
  ∃ reg, byUid b.live uid = some reg ∧
    ((∃ e, w.dial reg.endpoint = .raises e) ∨
      ∃ ep, w.dial reg.endpoint = .connected ep ∧ ep.Trips w.loadsBytes goesOn 0 ep.lines)

def StreamTrips : Prop :=
  uidToken w req = .lone ∨
    ∃ token r, uidToken w req = .text token ∧
      (∃ port kind, opStreamPrecheck c.port.server b.sys.daemon (some token) c.holder =
        .ok (r, port, kind)) ∧
      r.isVirtual = true ∧ EndpointTrips w (w.meanwhile 0 b) Endpoint.streamGoesOn r.uid

/-- A payload that gets as far as `mkstemp`, which raises. -/
def SendHexTrips : Prop :=
  ∃ data bytes e, req.get "data" = .str data ∧ data ≠ "" ∧ data.length ≤ maxHexB64Chars ∧
    w.b64decode data = .ok bytes ∧ bytes ≤ maxHexPayloadBytes ∧ w.stage = .raises e

variable {w c b req} {o : Outcome} {r : Reply} {handoff : Handoff} {e : Uncaught}
  {logs : List String}

theorem answers_ok : (Outcome.mk logs (.ok (r, handoff)) b).Answers w ↔
    ∀ label ∈ r.labels, w.encodes label = true := by
  simp [Outcome.Answers]

theorem not_answers_error : ¬ (Outcome.mk logs (.error e) b).Answers w := by
  simp [Outcome.Answers]

@[simp] theorem answers_answer :
    (answer r b).Answers w ↔ ∀ label ∈ r.labels, w.encodes label = true := answers_ok

@[simp] theorem not_answers_raise : ¬ (raise e b).Answers w := not_answers_error

@[simp] theorem answers_refuse (message : String) : (refuse message b).Answers w := by
  simp [refuse, Reply.labels]

theorem labels_deviceDict (r : DeviceRecord) :
    Reply.deviceLabels (deviceDict b.sys.daemon.store b.sys.daemon.locks r) = rowLabels b r := by
  unfold deviceDict rowLabels Reply.deviceLabels
  cases r.host with
  | none =>
    cases b.sys.daemon.locks.status r.uid with
    | none => rfl
    | some st => rfl
  | some host => rfl

theorem answers_opList : (opList c b).Answers w ↔
    ∀ label ∈ shown w c b req .list, w.encodes label = true := by
  rw [opList, answers_answer, Reply.labels, shown, List.flatMap_map]
  simp only [labels_deviceDict]

/-- An error of the lookup shows no lock. -/
theorem labels_of_resolveVisible {server : Server} {C : Casing} {s : Store} {token : String}
    {e : ApiError} (h : resolveVisible server C s token = .error e) :
    (Reply.response (.error e)).labels = [] := by
  rcases resolveVisible_eq_error h with (⟨hosts, -, rfl⟩ | rfl)
  · rfl
  · rfl

theorem labels_of_detachedError {r : DeviceRecord} {e : ApiError}
    (h : detachedError r = some e) : (Reply.response (.error e)).labels = [] := by
  unfold detachedError at h
  split at h
  · cases h
    rfl
  · cases h

theorem answers_opFind : (opFind w c b req).Answers w ↔
    tokenOf w.text (findToken req) ≠ .lone ∧
      ∀ label ∈ shown w c b req .find, w.encodes label = true := by
  unfold opFind shown found
  cases tokenOf w.text (findToken req) with
  | missing => simp [Token.run, ofRaised, Reply.labels, Token.text?]
  | lone => simp [Token.run, ofRaised]
  | text token =>
    simp only [Token.run, ofRaised, answerFind, Token.text?, Option.bind_some]
    cases hr : resolveVisible c.port.server b.sys.daemon.casing b.sys.daemon.store token with
    | error e => simp [labels_of_resolveVisible hr, Except.toOption]
    | ok r => simp [Reply.labels, Except.toOption, labels_deviceDict]

/-- `_op_lock` past its checks of the fields. -/
theorem answerLock_of_kind {d : Daemon} {token : String} {v : Json} {kind : LockKind}
    {label : Option String} (ht : token ≠ "") (hk : kindOf v = some kind) :
    answerLock c.port.server d w.now ⟨some token, some (v.strOf w.text), label⟩ c.holder =
      match resolveVisible c.port.server d.casing d.store token with
      | .error e => (.error e, d)
      | .ok r =>
        match detachedError r, d.locks.status r.uid with
        | some e, _ => (.error e, d)
        | none, some current => (.error (.locked r.uid current), d)
        | none, none =>
          (.ok, { d with locks := d.locks.insert r.uid ⟨kind, c.holder, label, w.now⟩ }) := by
  obtain ⟨-, hne, hkind⟩ := kindOf_eq_some w.text hk
  simp only [answerLock, Api.opLock, field_of_ne ht, field_of_ne hne, hkind]
  cases resolveVisible c.port.server d.casing d.store token with
  | error e => rfl
  | ok r =>
    cases hd : detachedError r with
    | some e => simp [hd]
    | none => cases hst : d.locks.status r.uid <;> simp [hd, hst, LockManager.acquire]

theorem lockRequest_of_kind {token : Token} {kind : LockKind} (ht : uidToken w req = token)
    (hne : token ≠ .missing) (hk : kindOf (req.get "kind") = some kind) :
    lockRequest w.text c.port.server b.sys.daemon w.now c.holder req =
      token.run (.error (.invalidRequest "'lock' requires 'uid' and 'kind'"), b.sys.daemon)
        fun token => answerLock c.port.server b.sys.daemon w.now
          ⟨some token, some ((req.get "kind").strOf w.text), labelOf w.text (req.get "label")⟩
          c.holder := by
  obtain ⟨htruthy, -, -⟩ := kindOf_eq_some w.text hk
  rw [uidToken] at ht
  simp [lockRequest, ht, hne, htruthy, hk]

/-- A `lock` that fails on its fields. -/
theorem opLock_of_bad_fields (h : uidToken w req = .missing ∨ kindOf (req.get "kind") = none) :
    ∃ message, opLock w c b req = refuse message b := by
  by_cases hm : tokenOf w.text (req.get "uid") = .missing ∨ (!(req.get "kind").truthy) = true
  · exact ⟨_, by simp only [opLock, lockRequest, if_pos hm]; rfl⟩
  · rcases h with (h | h)
    · exact absurd (Or.inl h) hm
    · exact ⟨_, by simp only [opLock, lockRequest, if_neg hm, h]; rfl⟩

theorem answers_opLock : (opLock w c b req).Answers w ↔
    ¬ LockTrips w c b req ∧ ∀ label ∈ shown w c b req .lock, w.encodes label = true := by
  by_cases hbad : uidToken w req = .missing ∨ kindOf (req.get "kind") = none
  · obtain ⟨message, hm⟩ := opLock_of_bad_fields (c := c) (b := b) hbad
    have hlock : toLock w c b req = none := by
      rcases hbad with (ht | hk)
      · simp [toLock, ht, found, Token.text?]
      · simp [toLock, hk]
    have hlone : ¬ (uidToken w req = .lone ∧ (kindOf (req.get "kind")).isSome) := by
      rintro ⟨ht, hk⟩
      rcases hbad with (ht' | hk')
      · exact absurd (ht.symm.trans ht') (by simp)
      · simp [hk'] at hk
    simp [hm, shown, LockTrips, hlock, hlone]
  · obtain ⟨hmissing, hkind⟩ := not_or.mp hbad
    obtain ⟨kind, hk⟩ := Option.ne_none_iff_exists'.mp hkind
    unfold opLock
    rw [lockRequest_of_kind rfl hmissing hk]
    cases ht : uidToken w req with
    | missing => exact absurd ht hmissing
    | lone => simp [Token.run, LockTrips, ht, hk]
    | text token =>
      simp only [Token.run]
      rw [answerLock_of_kind (tokenOf_ne_empty ht) hk]
      cases hr : resolveVisible c.port.server b.sys.daemon.casing b.sys.daemon.store token with
      | error e =>
        have hlock : toLock w c b req = none := by
          simp [toLock, hk, found, ht, Token.text?, hr, Except.toOption]
        simp [labels_of_resolveVisible hr, LockTrips, shown, hlock, ht]
      | ok r =>
        cases hd : detachedError r with
        | some e =>
          have hlock : toLock w c b req = none := by
            simp [toLock, hk, found, ht, Token.text?, hr, Except.toOption, hd]
          simp [hd, labels_of_detachedError hd, LockTrips, shown, hlock, ht]
        | none =>
          have hlock : toLock w c b req = some r := by
            simp [toLock, hk, found, ht, Token.text?, hr, Except.toOption, hd]
          cases hst : b.sys.daemon.locks.status r.uid with
          | some current => simp [hd, hst, Reply.labels, LockTrips, shown, hlock, ht, lockLabels]
          | none =>
            cases hl : labelOf w.text (req.get "label") with
            | none => simp [hd, hst, LockTrips, shown, hlock, ht, lockLabels, hl, Reply.labels]
            | some label =>
              cases htell : w.tells label <;>
                simp [hd, hst, LockTrips, shown, hlock, ht, lockLabels, hl, htell, Reply.labels]

theorem labels_answerUnlock {d : Daemon} {token : String} (ht : token ≠ "") :
    (Reply.response (answerUnlock c.port.server d w.now token c.holder).1).labels = [] := by
  simp only [answerUnlock, Api.opUnlock, field_of_ne ht]
  cases hr : resolveVisible c.port.server d.casing d.store token with
  | error e => exact labels_of_resolveVisible hr
  | ok r => rfl

theorem labels_answerMarkFlashed {d : Daemon} {token : String} :
    (Reply.response (answerMarkFlashed c.port.server d token c.holder).1).labels = [] := by
  unfold answerMarkFlashed
  cases hr : resolveVisible c.port.server d.casing d.store token with
  | error e => exact labels_of_resolveVisible hr
  | ok r =>
    dsimp only
    split
    · rfl
    · split
      · split <;> rfl
      · rfl

theorem answers_opUnlock : (opUnlock w c b req).Answers w ↔ uidToken w req ≠ .lone := by
  unfold opUnlock uidToken
  cases ht : tokenOf w.text (req.get "uid") with
  | missing => simp [Token.run, ofRaised, Reply.labels]
  | lone => simp [Token.run, ofRaised]
  | text token => simp [Token.run, ofRaised, labels_answerUnlock (tokenOf_ne_empty ht)]

theorem answers_opMarkFlashed : (opMarkFlashed w c b req).Answers w ↔ uidToken w req ≠ .lone := by
  unfold opMarkFlashed uidToken
  cases tokenOf w.text (req.get "uid") with
  | missing => simp [Token.run, ofRaised, Reply.labels]
  | lone => simp [Token.run, ofRaised]
  | text token => simp [Token.run, ofRaised, labels_answerMarkFlashed]

theorem answers_opForceUnlock : (opForceUnlock w b req).Answers w ↔
    uidToken w req ≠ .lone ∧ ∀ label ∈ shown w c b req .forceUnlock, w.encodes label = true := by
  unfold opForceUnlock shown found uidToken
  cases ht : tokenOf w.text (req.get "uid") with
  | missing => simp [Token.text?]
  | lone => simp
  | text token =>
    simp only [Api.opForceUnlock, field_of_ne (tokenOf_ne_empty ht), Token.text?, Option.bind_some]
    cases hr : resolveVisible .socket b.sys.daemon.casing b.sys.daemon.store token with
    | error e => simp [labels_of_resolveVisible hr, Except.toOption]
    | ok r => simp [Reply.labels, Except.toOption, lockLabels]

theorem maybeProbe_isOk_iff {n : ℕ} {uid : String} :
    (∃ b', maybeProbe w b n uid = (.ok (), b')) ↔ ¬ RowLost w b n uid := by
  unfold maybeProbe RowLost
  cases hr : b.sys.daemon.store.get uid with
  | none => simp [Daemon.probeEligible, Store.needsProbe, hr, bind, Except.bind]
  | some r =>
    rw [Daemon.probeEligible_of_get hr]
    cases (decide (r.lastProbe = 0) || (b.sys.daemon.flashPending.lookup uid).isSome) &&
        (b.sys.daemon.locks.status uid).isNone with
    | false => simp
    | true =>
      dsimp only
      cases hr' : (w.meanwhile n b).sys.daemon.store.get uid with
      | none =>
        split
        · simp
        · rename_i d hd
          obtain ⟨r', hr'', -⟩ := Daemon.probeWrite_spec hd
          rw [hr'] at hr''
          cases hr''
      | some r' =>
        split
        · rename_i e he
          obtain ⟨d, hd⟩ := Daemon.probeWrite_isOk w.cycle.wall (w.cycle.probe uid).result _ hr'
          rw [hd] at he
          cases he
        · simp

/-- The probes of a poll return exactly when no row they need is taken away. -/
theorem probeEach_isOk_iff (n : ℕ) (l : List String) (b : Boards) :
    (∃ b', probeEach w n l b = (.ok (), b')) ↔ ¬ ProbeTrips w n l b := by
  induction l generalizing n b with
  | nil => exact iff_of_true ⟨b, rfl⟩ nofun
  | cons uid rest ih =>
    have hone := @maybeProbe_isOk_iff w b n uid
    unfold probeEach
    rcases hm : maybeProbe w b n uid with ⟨res, b₁⟩
    rw [hm] at hone
    cases res with
    | error e =>
      have hlost : RowLost w b n uid := by
        by_contra h
        obtain ⟨b', hb⟩ := hone.mpr h
        cases hb
      have hhere : ProbeTrips w n (uid :: rest) b := .here hlost
      simp [hhere]
    | ok u =>
      have hkept : ¬ RowLost w b n uid := hone.mp ⟨b₁, rfl⟩
      have htrips : ProbeTrips w n (uid :: rest) b ↔
          ProbeTrips w (n + 2) rest (w.meanwhile (n + 1) b₁) := by
        constructor
        · intro h
          cases h with
          | here lost => exact absurd lost hkept
          | later rest_trips => rwa [hm] at rest_trips
        · intro h
          exact .later (by rwa [hm])
      rw [htrips]
      exact ih (n + 2) (w.meanwhile (n + 1) b₁)

theorem poll_isOk_iff : (∃ b', poll w b = (.ok (), b')) ↔ ¬ PollTrips w b := by
  have hblock := @Arrival.lockedBlock_isOk_iff b.sys.daemon w.cycle
  unfold poll PollTrips
  rcases hl : b.sys.daemon.lockedBlock w.cycle with ⟨d, res⟩
  rw [hl] at hblock
  cases res with
  | error e =>
    have hgives : ∃ u, Arrival.GivesUp b.sys.daemon w.cycle u ∧
        b.sys.daemon.store.get u = none := by
      by_contra hno
      have hall := hblock.mpr fun u hu => Option.isSome_iff_ne_none.mpr fun hn => hno ⟨u, hu, hn⟩
      cases hall
    simp [hgives]
  | ok timedOut =>
    have hrows := hblock.mp rfl
    have hgives : ¬ ∃ u, Arrival.GivesUp b.sys.daemon w.cycle u ∧
        b.sys.daemon.store.get u = none := by
      rintro ⟨u, hu, hn⟩
      have hsome := hrows u hu
      rw [hn] at hsome
      cases hsome
    rw [or_iff_right hgives, and_iff_right hrows]
    exact probeEach_isOk_iff 2 _ _

theorem answers_opRescan : (opRescan w b req).Answers w ↔
    ¬ ((req.get "dry_run").truthy = false ∧ PollTrips w (w.meanwhile 0 (rescanned b))) := by
  unfold opRescan
  cases hdry : (req.get "dry_run").truthy with
  | true => simp [Api.opRescan, Reply.labels]
  | false =>
    have hpoll := @poll_isOk_iff w (w.meanwhile 0 (rescanned b))
    have htriggers : (Api.opRescan b.sys.daemon.store b.sys.daemon.locks true false).triggers =
      true := rfl
    simp only [htriggers, if_true, true_and, ← hpoll]
    unfold rescanned
    split
    · rename_i e b' he
      simp [he]
    · rename_i b' he
      simp [he, Reply.labels]

theorem answers_opNamesGet : (opNamesGet w b req).Answers w := by
  unfold opNamesGet
  split
  · split
    · exact answers_refuse _
    · simp [Reply.labels]
  · exact answers_refuse _

theorem setThenPublish_ne_raised {s : Store} {name : String} {p : ℤ × ℤ} :
    Names.setThenPublish s w.now name p ≠ .error .raised := by
  unfold Names.setThenPublish
  split <;> simp

theorem opNamesSet_raised_iff : Names.opNamesSet (nameText w) b.sys.daemon.store w.now req =
    .error .raised ↔ SetTrips w req := by
  unfold Names.opNamesSet Names.namesSetArgs SetTrips
  cases hname : (req.get "name").truthy with
  | false => simp
  | true =>
    cases hchannel : (req.get "channel").isNull with
    | true => simp
    | false =>
      cases hgroup : (req.get "group").isNull with
      | true => simp
      | false =>
        cases (req.get "channel").toInt with
        | error e => cases e <;> simp
        | ok n =>
          cases (req.get "group").toInt with
          | error e => cases e <;> simp
          | ok m =>
            simp [setThenPublish_ne_raised]

theorem answers_opNamesSet : (opNamesSet w b req).Answers w ↔ ¬ SetTrips w req := by
  rw [← @opNamesSet_raised_iff w b req]
  unfold opNamesSet
  split
  · rename_i h
    split <;> simp [h]
  · rename_i h
    simp [h]
  · rename_i h
    simp [h, Reply.labels]

theorem answers_opNamesClear : (opNamesClear w b req).Answers w := by
  unfold opNamesClear
  split
  · split
    · exact answers_refuse _
    · exact answers_refuse _
  · simp [Reply.labels]

theorem answers_virtualStreamOpen {r : DeviceRecord} : (virtualStreamOpen w b r).Answers w ↔
    ¬ EndpointTrips w (w.meanwhile 0 b) Endpoint.streamGoesOn r.uid := by
  unfold virtualStreamOpen EndpointTrips
  dsimp only
  cases byUid (w.meanwhile 0 b).live r.uid with
  | none => simp [Reply.labels]
  | some reg =>
    cases hdial : w.dial reg.endpoint with
    | raises e => simp [hdial]
    | failed e => simp [hdial, Reply.labels, unreachable]
    | connected ep =>
      have htrips := @Endpoint.openStream_uncaught_iff w.loadsBytes ep
      simp only [Option.some.injEq, exists_eq_left', hdial, reduceCtorEq, exists_false, false_or,
        Dial.connected.injEq, ← htrips]
      split <;> simp [*, Reply.labels, answers_ok]

theorem labels_opStreamPrecheck {d : Daemon} {token : String} {e : ApiError}
    (h : opStreamPrecheck c.port.server d (some token) c.holder = .error e) :
    (Reply.response (.error e)).labels = [] := by
  unfold opStreamPrecheck at h
  split at h
  · cases h
    rfl
  split at h
  · rename_i hr
    cases h
    exact labels_of_resolveVisible hr
  split at h
  · cases h
    rfl
  split at h
  · split at h
    · cases h
      rfl
    · split at h
      · rename_i hd
        cases h
        exact labels_of_detachedError hd
      · cases h
  · cases h
    rfl

theorem answers_opStream : (opStream w c b req).Answers w ↔ ¬ StreamTrips w c b req := by
  unfold opStream StreamTrips uidToken
  cases ht : tokenOf w.text (req.get "uid") with
  | missing => simp
  | lone => simp
  | text token =>
    cases hp : opStreamPrecheck c.port.server b.sys.daemon (some token) c.holder with
    | error e => simp [hp, labels_opStreamPrecheck hp]
    | ok x =>
      obtain ⟨r, port, kind⟩ := x
      cases hv : r.isVirtual with
      | false => simp [hp, hv, answers_ok, Reply.labels]
      | true => simp [hp, hv, answers_virtualStreamOpen]

/-- The row of a board that was just registered is a local one. -/
theorem opRegisterBoard_row {i now : ℕ} {x : Except String VirtualRegistration}
    {reg : VirtualRegistration} {b' : Boards} (h : b.opRegisterBoard i now x = .ok (reg, b')) :
    b'.sys.daemon.locks = b.sys.daemon.locks ∧
      ∃ r, b'.sys.daemon.store.get reg.uid = some r ∧ r.host = none ∧ r.uid = reg.uid := by
  unfold Boards.opRegisterBoard at h
  split at h
  · cases h
  split at h
  · cases h
  dsimp only at h
  split at h
  · cases h
  cases h
  rename_i reg _ _
  have hrow := Store.get_upsertVirtual b.sys.daemon.store now
    (virtualUidPrefix ++ reg.name) reg.name reg.role reg.serial (virtualUidPrefix ++ reg.name)
  exact ⟨rfl, _, hrow.trans (if_pos rfl), rfl, rfl⟩

theorem answers_opRegisterBoard : (opRegisterBoard w c b req).Answers w ↔
    ∀ label ∈ shown w c b req .registerBoard, w.encodes label = true := by
  unfold opRegisterBoard shown
  cases h : b.opRegisterBoard c.conn w.now (validateRegistration w.intError req) with
  | error e => simp [Reply.labels]
  | ok x =>
    obtain ⟨reg, b'⟩ := x
    obtain ⟨hlocks, r, hr, hhost, huid⟩ := opRegisterBoard_row h
    have hlabels : rowLabels b' r = lockLabels b reg.uid := by
      rw [rowLabels, if_pos hhost, huid, hlocks, lockLabels]
    simp [answers_ok, Reply.labels, hr, labels_deviceDict, hlabels]

theorem answers_opSendHex : (opSendHex w b req).Answers w ↔ ¬ SendHexTrips w req := by
  unfold opSendHex SendHexTrips
  cases req.get "data" with
  | str data =>
    by_cases h0 : data = ""
    · simp [h0]
    by_cases hlen : maxHexB64Chars < data.length
    · simp [h0, hlen]
    cases hdata : w.b64decode data with
    | error e => simp [h0, hlen, hdata]
    | ok bytes =>
      by_cases hbytes : maxHexPayloadBytes < bytes
      · simp [h0, hlen, hdata, hbytes]
      · cases w.stage with
        | path p => simp [h0, hlen, hdata, hbytes, Reply.labels]
        | fails e => simp [h0, hlen, hdata, hbytes]
        | raises e => simp [h0, hlen, hdata, hbytes, Nat.not_lt.mp hlen, Nat.not_lt.mp hbytes]
  | lone codes =>
    simp only [reduceCtorEq, false_and, exists_false, not_false_eq_true, iff_true]
    split <;> simp
  | _ => simp

theorem spares_of_eq (hlogs : o.logs = []) (h : o.boards = b) : o.Spares w b :=
  ⟨hlogs, fun _ _ _ _ => Or.inl h⟩

theorem spares_of_ok (hlogs : o.logs = [])
    (h : ∀ r handoff, o.result = .ok (r, handoff) → r.ok = true) : o.Spares w b := by
  refine ⟨hlogs, fun r handoff hres hno => ?_⟩
  rw [h r handoff hres] at hno
  cases hno

theorem spares_answer {b' : Boards} (h : r.ok = false → b' = b) : (answer r b').Spares w b := by
  refine ⟨rfl, fun r' handoff hres hno => ?_⟩
  cases hres
  exact Or.inl (h hno)

theorem spares_accept {b' : Boards} (h : r.ok = true) : (answer r b').Spares w b :=
  spares_answer fun hno => by rw [h] at hno; cases hno

theorem spares_raise {b' : Boards} : (raise e b').Spares w b := by
  refine ⟨rfl, fun r handoff hres => ?_⟩
  cases hres

theorem answerLock_refused {d d' : Daemon} {x : LockRequest} {e : ApiError}
    (h : answerLock c.port.server d w.now x c.holder = (.error e, d')) : d' = d := by
  unfold answerLock at h
  split at h
  · cases h
    rfl
  · cases h

theorem lockRequest_refused {d d' : Daemon} {r : Response}
    (h : lockRequest w.text c.port.server d w.now c.holder req = .ok (r, d'))
    (hr : (Reply.response r).ok = false) : d' = d := by
  have herror : ∃ e, r = .error e := by
    cases r with
    | error e => exact ⟨e, rfl⟩
    | _ => cases hr
  obtain ⟨e, rfl⟩ := herror
  unfold lockRequest at h
  dsimp only at h
  split at h
  · cases h
    rfl
  split at h
  · cases h
    rfl
  · unfold Token.run at h
    split at h
    · cases h
      rfl
    · cases h
    · exact answerLock_refused (Except.ok.inj h)

theorem opFind_spares : (opFind w c b req).Spares w b := by
  unfold opFind
  cases tokenOf w.text (findToken req) with
  | missing => exact spares_of_eq rfl rfl
  | lone => exact spares_raise
  | text token => exact spares_of_eq rfl rfl

theorem opLock_spares : (opLock w c b req).Spares w b := by
  unfold opLock
  split
  · exact spares_raise
  · split
    · exact spares_accept rfl
    · exact spares_raise
  · rename_i h
    exact spares_answer fun hr => by rw [lockRequest_refused h hr]; rfl

theorem opUnlock_spares : (opUnlock w c b req).Spares w b := by
  unfold opUnlock
  cases tokenOf w.text (req.get "uid") with
  | missing => exact spares_of_eq rfl rfl
  | lone => exact spares_raise
  | text token =>
    simp only [Token.run, ofRaised, answerUnlock]
    split
    · exact spares_of_eq rfl rfl
    · exact spares_accept rfl

theorem opMarkFlashed_spares : (opMarkFlashed w c b req).Spares w b := by
  unfold opMarkFlashed
  cases tokenOf w.text (req.get "uid") with
  | missing => exact spares_of_eq rfl rfl
  | lone => exact spares_raise
  | text token =>
    simp only [Token.run, ofRaised, answerMarkFlashed]
    split
    · exact spares_of_eq rfl rfl
    split
    · exact spares_of_eq rfl rfl
    split
    · split
      · exact spares_accept rfl
      · exact spares_of_eq rfl rfl
    · exact spares_of_eq rfl rfl

theorem opForceUnlock_spares : (opForceUnlock w b req).Spares w b := by
  unfold opForceUnlock
  split
  · exact spares_of_eq rfl rfl
  · exact spares_raise
  · split
    · exact spares_of_eq rfl rfl
    · exact spares_accept rfl

theorem opRescan_spares : (opRescan w b req).Spares w b := by
  unfold opRescan
  dsimp only
  split
  · split
    · exact spares_raise
    · exact spares_accept rfl
  · exact spares_accept rfl

theorem opNamesGet_spares : (opNamesGet w b req).Spares w b := by
  unfold opNamesGet
  split
  · split
    · exact spares_of_eq rfl rfl
    · exact spares_of_eq rfl rfl
  · exact spares_of_eq rfl rfl

theorem opNamesSet_spares : (opNamesSet w b req).Spares w b := by
  unfold opNamesSet
  split
  · split
    · exact spares_of_eq rfl rfl
    · exact spares_of_eq rfl rfl
  · exact spares_raise
  · exact spares_accept rfl

theorem opNamesClear_spares : (opNamesClear w b req).Spares w b := by
  unfold opNamesClear
  split
  · split
    · exact spares_of_eq rfl rfl
    · exact spares_of_eq rfl rfl
  · exact spares_accept rfl

/-- Only other threads change anything while the registry talks to an endpoint. -/
theorem virtualStreamOpen_spec {r : DeviceRecord} :
    (virtualStreamOpen w b r).logs = [] ∧ (virtualStreamOpen w b r).boards = w.meanwhile 0 b := by
  unfold virtualStreamOpen
  dsimp only
  split
  · exact ⟨rfl, rfl⟩
  split
  · exact ⟨rfl, rfl⟩
  · exact ⟨rfl, rfl⟩
  · split <;> exact ⟨rfl, rfl⟩

theorem opStream_spares : (opStream w c b req).Spares w b := by
  unfold opStream
  split
  · exact spares_of_eq rfl rfl
  · exact spares_raise
  split
  · exact spares_of_eq rfl rfl
  split
  · exact ⟨virtualStreamOpen_spec.1, fun _ _ _ _ => Or.inr virtualStreamOpen_spec.2⟩
  · exact spares_of_eq rfl rfl

theorem opRegisterBoard_spares : (opRegisterBoard w c b req).Spares w b := by
  unfold opRegisterBoard
  split
  · exact spares_of_eq rfl rfl
  · refine spares_of_ok rfl fun r handoff h => ?_
    cases h
    rfl

theorem opSendHex_spares : (opSendHex w b req).Spares w b := by
  unfold opSendHex
  split
  · split
    · exact spares_of_eq rfl rfl
    split
    · exact spares_of_eq rfl rfl
    split
    · exact spares_of_eq rfl rfl
    split
    · exact spares_of_eq rfl rfl
    · split <;> exact spares_of_eq rfl rfl
  · split <;> exact spares_of_eq rfl rfl
  · exact spares_of_eq rfl rfl

def verbOfQuery : Query → Verb
  | .list => .list
  | .find => .find
  | .lock => .lock
  | .unlock => .unlock
  | .markFlashed => .markFlashed
  | .stream => .stream

/-- What an operation answers with, if no exception leaves it. -/
def Outcome.reply? (o : Outcome) : Option Reply := o.result.toOption.map Prod.fst

theorem reply?_ofRaised {x : Except Raised (Response × Daemon)} :
    (ofRaised b x).reply? = x.toOption.map fun p => .response p.1 := by
  cases x <;> rfl

/-- On the remote port the shared operations answer as a query of one section does, as long as
labels can be published. -/
theorem perform_query (hport : c.port = .remote) (htells : ∀ label, w.tells label = true)
    (q : Query) : (perform w c b req (verbOfQuery q)).reply? =
      (Api.answer w.text b.sys.daemon w.now c.holder req q).toOption.map
        fun p => .response p.1 := by
  have hserver : c.port.server = .tcp := by rw [hport]; rfl
  cases q with
  | list => simp only [verbOfQuery, perform, opList, Api.answer, hserver]; rfl
  | find =>
    simp only [verbOfQuery, perform, opFind, hserver]
    exact reply?_ofRaised
  | lock =>
    simp only [verbOfQuery, perform, opLock, Api.answer, hserver]
    split
    · rename_i h
      rw [h]
      rfl
    · rename_i d h
      have hall : (labelOf w.text (req.get "label")).all w.tells = true := by
        cases labelOf w.text (req.get "label") <;> simp [htells]
      rw [if_pos hall, h]
      rfl
    · rename_i h
      rw [h]
      rfl
  | unlock =>
    simp only [verbOfQuery, perform, opUnlock, hserver]
    exact reply?_ofRaised
  | markFlashed =>
    simp only [verbOfQuery, perform, opMarkFlashed, hserver]
    exact reply?_ofRaised
  | stream =>
    simp only [verbOfQuery, perform, opStream, Api.answer, answerStream, hserver]
    cases tokenOf w.text (req.get "uid") with
    | missing => rfl
    | lone => rfl
    | text token =>
      cases h : opStreamPrecheck .tcp b.sys.daemon (some token) c.holder with
      | error e => simp [Token.run, h, Outcome.reply?, Outcome.answer, Except.toOption]
      | ok x =>
        obtain ⟨r, port, kind⟩ := x
        obtain ⟨_, _, _, hr, -⟩ := opStreamPrecheck_eq_ok h
        have hvisible := (resolveVisible_eq_ok_iff.mp hr).2
        have hvirtual : r.isVirtual = false := by
          simp only [deviceVisible, Bool.and_eq_true, Bool.not_eq_true'] at hvisible
          exact hvisible.2
        simp [Token.run, h, hvirtual, Outcome.reply?, Except.toOption]

end MbTools.Dispatch
