import MbTools.Dispatch.Answers

/-! # One response to each line

A line is answered with exactly one response unless an exception leaves the
dispatcher, and no refusal but that of a flash changes anything. The exceptions
come from the decoder, the database, a row or a registration that another thread
took away, and an endpoint.
-/

namespace MbTools.Dispatch

open Api Virtual Outcome

variable (w : World) (c : Caller) (b : Boards) (req : Json)

/-- A hex check of a board's flash raises, or its endpoint trips the talk. -/
def VirtualFlashTrips (r : DeviceRecord) : Prop :=
  w.hexRaises.isSome = true ∨
    vetHex w = none ∧ EndpointTrips w (w.meanwhile 0 b) Endpoint.flashGoesOn r.uid

/-- The lock is gone when the run starts, the hex file has no image for the chip or is no text, the
row is gone when the run is over, or another name has become the uid's before it. -/
def BoardFlashTrips (r : DeviceRecord) : Prop :=
  hasFlashLock (w.meanwhile 0 b) r.uid = false ∨ w.hexRaises.isSome = true ∨
    (∃ e, w.script.normalized = .error e) ∨
    w.script.precheckHex = none ∧
      ((∃ hosts, (w.meanwhile 1 (w.meanwhile 0 b)).sys.daemon.store.find
          (w.meanwhile 1 (w.meanwhile 0 b)).sys.daemon.casing r.uid = .error hosts) ∨
        w.script.precheckPerm = none ∧
          (w.meanwhile 2 (w.meanwhile 1 (w.meanwhile 0 b))).sys.daemon.store.get r.uid = none)

def LocalFlashTrips : Prop :=
  tokenOf w.text (req.get "hex_path") ≠ .missing ∧
    (uidToken w req = .lone ∨ ∃ token, uidToken w req = .text token ∧
      ((∃ hosts, b.sys.daemon.store.find b.sys.daemon.casing token = .error hosts) ∨
        ∃ r, opFlashPrecheck .socket b.sys.daemon (some token)
            (some (hexPathOf (tokenOf w.text (req.get "hex_path")))) c.holder = .ok r ∧
          if r.isVirtual then VirtualFlashTrips w b r else BoardFlashTrips w b r))

/-- The row is gone when a run that succeeded is over. -/
def StagedFlashTrips (r : DeviceRecord) (hexPath : String) : Prop :=
  (runStaged w r hexPath).2.success = true ∧ (w.meanwhile 0 b).sys.daemon.store.get r.uid = none

def RemoteFlashTrips : Prop :=
  ∃ hexPath ∈ c.staged, tokenOf w.text (req.get "hex_path") = .text hexPath ∧
    (uidToken w req = .lone ∨ ∃ token r, uidToken w req = .text token ∧
      opFlashPrecheck .tcp b.sys.daemon (some token) (some hexPath) c.holder = .ok r ∧
      StagedFlashTrips w b r hexPath)

/-- An exception leaves the operation. -/
def Trips : Verb → Prop
  | .find => tokenOf w.text (findToken req) = .lone
  | .lock => LockTrips w c b req
  | .unlock => uidToken w req = .lone
  | .forceUnlock => uidToken w req = .lone
  | .markFlashed => uidToken w req = .lone
  | .flash =>
    match c.port with
    | .local => LocalFlashTrips w c b req
    | .remote => RemoteFlashTrips w c b req
  | .rescan => (req.get "dry_run").truthy = false ∧ PollTrips w (w.meanwhile 0 (rescanned b))
  | .namesSet => SetTrips w req
  | .stream => StreamTrips w c b req
  | .sendHex => SendHexTrips w req
  | _ => False

variable {w c b req} {o : Outcome} {r : Reply} {e : Uncaught} {logs : List String}

theorem answers_flashVirtual {r : DeviceRecord} : (flashVirtual w c b r).Answers w ↔
    ¬ VirtualFlashTrips w b r := by
  unfold flashVirtual VirtualFlashTrips EndpointTrips
  dsimp only
  cases w.hexRaises with
  | some e => simp
  | none =>
    cases vetHex w with
    | some e => simp [Reply.labels]
    | none =>
      cases byUid (w.meanwhile 0 b).live r.uid with
      | none => simp [Reply.labels]
      | some reg =>
        cases hdial : w.dial reg.endpoint with
        | raises e => simp [hdial]
        | failed e => simp [hdial, Reply.labels]
        | connected ep =>
          have htrips := @Endpoint.flash_uncaught_iff w.loadsBytes w.text ep
          simp only [Option.isSome_none, Bool.false_eq_true, true_and, false_or,
            Option.some.injEq, exists_eq_left', hdial, reduceCtorEq, exists_false,
            Dial.connected.injEq, ← htrips]
          cases ep.flash w.loadsBytes w.text with
          | failed f => cases f <;> simp [FlashTalk.uncaught?, Failure.uncaught?, Reply.labels]
          | refused ack => simp [FlashTalk.uncaught?, Reply.labels]
          | relayed logs result =>
            cases result with
            | error f =>
              cases f <;> simp [FlashTalk.uncaught?, Failure.uncaught?, Reply.labels, answers_ok,
                not_answers_error]
            | ok msg => simp [FlashTalk.uncaught?, Reply.labels, answers_ok]

/-- The shared run of a flash raises nothing but a `HexValidationError`. -/
theorem flashLocked_isOk_iff {job : Flash.Job} :
    (∃ result l, Flash.flashLocked w.script job .all idle = (.ok result, l)) ↔
      w.script.precheckHex = none := by
  unfold Flash.flashLocked
  cases w.script.precheckHex with
  | some e => simp [Talk.raise]
  | none =>
    simp only [iff_true]
    cases w.script.precheckPerm with
    | some e => exact ⟨_, _, Talk.bind_of_ok rfl⟩
    | none =>
      dsimp only [Talk.attempt]
      split
      · exact ⟨_, _, rfl⟩
      · exact ⟨_, _, rfl⟩

theorem answers_flashBoard {r : DeviceRecord} : (flashBoard w c b r).Answers w ↔
    ¬ BoardFlashTrips w b r := by
  unfold flashBoard BoardFlashTrips
  dsimp only
  cases hasFlashLock (w.meanwhile 0 b) r.uid with
  | false => simp
  | true =>
    cases w.hexRaises with
    | some e => simp
    | none =>
      cases w.script.normalized with
      | error e => simp
      | ok path =>
        have hrun := fun job => @flashLocked_isOk_iff w job
        cases hhex : w.script.precheckHex with
        | some e =>
          simp only [Bool.not_true, Bool.false_eq_true, if_false]
          split
          · simp [answers_ok, Reply.labels]
          · rename_i result l hl
            exact absurd ((hrun _).mp ⟨result, l, hl⟩) (by simp [hhex])
        | none =>
          cases (w.meanwhile 1 (w.meanwhile 0 b)).sys.daemon.store.find
              (w.meanwhile 1 (w.meanwhile 0 b)).sys.daemon.casing r.uid with
          | error hosts => simp
          | ok found =>
            dsimp only
            obtain ⟨result, l, hl⟩ := (hrun _).mpr hhex
            rw [hl]
            cases w.script.precheckPerm with
            | some e => simp [answers_ok, Reply.labels]
            | none =>
              cases hrow : (w.meanwhile 2 (w.meanwhile 1
                  (w.meanwhile 0 b))).sys.daemon.store.get r.uid with
              | none =>
                simp [Store.incrementFlashCount_of_none hrow, not_answers_error]
              | some row =>
                simp [Store.incrementFlashCount_of_row hrow, answers_ok, Reply.labels]

theorem answers_flashStaged {r : DeviceRecord} {hexPath : String} :
    (flashStaged w c b r hexPath).Answers w ↔ ¬ StagedFlashTrips w b r hexPath := by
  unfold flashStaged StagedFlashTrips
  dsimp only
  cases (runStaged w r hexPath).2.success with
  | false => simp [answers_ok, Reply.labels]
  | true =>
    have hstore : (freed w c (w.meanwhile 0 b) r.uid).sys.daemon.store =
        (w.meanwhile 0 b).sys.daemon.store := Daemon.releaseLock_store
    rw [hstore]
    cases hrow : (w.meanwhile 0 b).sys.daemon.store.get r.uid with
    | none =>
      simp [Store.incrementFlashCount_of_none hrow, not_answers_error]
    | some row =>
      simp [Store.incrementFlashCount_of_row hrow, answers_ok, Reply.labels]

theorem hexPathOf_ne {v : Json} (h : tokenOf w.text v ≠ .missing) :
    hexPathOf (tokenOf w.text v) ≠ "" := by
  cases ht : tokenOf w.text v with
  | missing => exact absurd ht h
  | lone => decide
  | text token => exact tokenOf_ne_empty ht

/-- The first step of a local flash fails on an ambiguous name exactly when the lookup does. -/
theorem opFlashPrecheck_ambiguous_iff {token path : String} (ht : token ≠ "") (hp : path ≠ "") :
    (∃ t hosts, opFlashPrecheck .socket b.sys.daemon (some token) (some path) c.holder =
      .error (.ambiguousName t hosts)) ↔
      ∃ hosts, b.sys.daemon.store.find b.sys.daemon.casing token = .error hosts := by
  simp only [opFlashPrecheck, field_of_ne ht, field_of_ne hp]
  cases hf : b.sys.daemon.store.find b.sys.daemon.casing token with
  | error hosts => simp [resolveVisible, hf]
  | ok x =>
    simp only [reduceCtorEq, exists_false, iff_false, not_exists]
    intro t hosts
    split
    · rename_i e he
      rcases resolveVisible_eq_error he with (⟨hosts', hf', -⟩ | rfl)
      · rw [hf] at hf'
        cases hf'
      · simp
    split
    · simp
    split
    · split
      · rename_i e he
        unfold detachedError at he
        split at he
        · cases he
          simp
        · cases he
      · simp
    · simp

theorem answers_opFlashLocal : (opFlashLocal w c b req).Answers w ↔
    ¬ LocalFlashTrips w c b req := by
  unfold opFlashLocal LocalFlashTrips uidToken
  by_cases hmissing : tokenOf w.text (req.get "hex_path") = .missing
  · cases tokenOf w.text (req.get "uid") <;> simp [hmissing, Reply.labels]
  have hpath := hexPathOf_ne hmissing
  cases ht : tokenOf w.text (req.get "uid") with
  | missing => simp [Reply.labels]
  | lone => simp [hmissing]
  | text token =>
    have hambiguous := @opFlashPrecheck_ambiguous_iff c b token _ (tokenOf_ne_empty ht) hpath
    simp only [hmissing, ne_eq, not_false_eq_true, true_and, reduceCtorEq, false_or,
      Token.text.injEq, exists_eq_left', ← hambiguous]
    split
    · rename_i t hosts h
      simp [h]
    · rename_i e hne h
      simpa [h, Reply.labels] using hne
    · rename_i r h
      cases hv : r.isVirtual with
      | true => simp [h, hv, answers_flashVirtual]
      | false => simp [h, hv, answers_flashBoard]

theorem answers_opFlashRemote : (opFlashRemote w c b req).Answers w ↔
    ¬ RemoteFlashTrips w c b req := by
  unfold opFlashRemote RemoteFlashTrips uidToken
  cases hp : tokenOf w.text (req.get "hex_path") with
  | missing => cases tokenOf w.text (req.get "uid") <;> simp [Reply.labels]
  | lone => cases tokenOf w.text (req.get "uid") <;> simp [Reply.labels]
  | text path =>
    by_cases hstaged : path ∈ c.staged
    · cases ht : tokenOf w.text (req.get "uid") with
      | missing => simp [Reply.labels]
      | lone => simp [hstaged]
      | text token =>
        cases h : opFlashPrecheck .tcp b.sys.daemon (some token) (some path) c.holder with
        | error e => simp [hstaged, h, Reply.labels]
        | ok r => simp [hstaged, h, answers_flashStaged]
    · cases tokenOf w.text (req.get "uid") <;> simp [hstaged, Reply.labels]

theorem answers_perform (verb : Verb) : (perform w c b req verb).Answers w ↔
    ¬ Trips w c b req verb ∧ ∀ label ∈ shown w c b req verb, w.encodes label = true := by
  cases verb with
  | list =>
    rw [perform, @answers_opList w c b req]
    simp [Trips]
  | find => rw [perform, answers_opFind, Trips]
  | lock => rw [perform, answers_opLock, Trips]
  | unlock =>
    rw [perform, answers_opUnlock]
    simp [Trips, shown]
  | forceUnlock => rw [perform, @answers_opForceUnlock w c b req, Trips]
  | flash =>
    cases hp : c.port with
    | «local» =>
      simp only [perform, Trips, hp, answers_opFlashLocal]
      simp [shown]
    | remote =>
      simp only [perform, Trips, hp, answers_opFlashRemote]
      simp [shown]
  | markFlashed =>
    rw [perform, answers_opMarkFlashed]
    simp [Trips, shown]
  | rescan =>
    rw [perform, answers_opRescan]
    simp [Trips, shown]
  | namesGet =>
    rw [perform, iff_true_left answers_opNamesGet]
    simp [Trips, shown]
  | namesSet =>
    rw [perform, answers_opNamesSet]
    simp [Trips, shown]
  | namesClear =>
    rw [perform, iff_true_left answers_opNamesClear]
    simp [Trips, shown]
  | namesList =>
    rw [perform, opNamesList, answers_answer]
    simp [Reply.labels, Trips, shown]
  | stream =>
    rw [perform, answers_opStream]
    simp [Trips, shown]
  | watch =>
    rw [perform, opWatch, answers_ok]
    simp [Reply.labels, Trips, shown]
  | registerBoard =>
    rw [perform, answers_opRegisterBoard]
    simp [Trips]
  | sendHex =>
    rw [perform, answers_opSendHex]
    simp [Trips, shown]

/-- Every operation but a flash writes nothing before its response, and its refusals change
nothing. -/
theorem perform_spares {verb : Verb} (h : verb ≠ .flash) :
    (perform w c b req verb).Spares w b := by
  cases verb with
  | list => exact spares_of_eq rfl rfl
  | find => exact opFind_spares
  | lock => exact opLock_spares
  | unlock => exact opUnlock_spares
  | forceUnlock => exact opForceUnlock_spares
  | flash => exact absurd rfl h
  | markFlashed => exact opMarkFlashed_spares
  | rescan =>
    rw [perform]
    exact opRescan_spares
  | namesGet =>
    rw [perform]
    exact opNamesGet_spares
  | namesSet =>
    rw [perform]
    exact opNamesSet_spares
  | namesClear =>
    rw [perform]
    exact opNamesClear_spares
  | namesList => exact spares_of_eq rfl rfl
  | stream => exact opStream_spares
  | watch => exact spares_of_eq rfl rfl
  | registerBoard => exact opRegisterBoard_spares
  | sendHex => exact opSendHex_spares

variable (w c) in
/-- The branch of the dispatcher that a line takes. -/
def verbOn (line : String) : Option Verb :=
  match w.loads line with
  | .value (.obj fields) => verbOf c.port ((Json.obj fields).get "op")
  | _ => none

variable (w b) in
/-- One response, after log lines for a flash only; and a refusal of anything but a flash leaves
everything to what the other threads did. -/
structure Dispatched.Fulfils (flashes : Prop) (d : Dispatched) : Prop where
  answered : ∃ logs r handoff, d.result = .ok handoff ∧
    d.written = logs.map Message.log ++ [.terminal r] ∧ (¬ flashes → logs = [])
  atomic : ∀ r, .terminal r ∈ d.written → r.ok = false → ¬ flashes →
    d.boards = b ∨ d.boards = w.meanwhile 0 b

variable (w c b) in
def Contract (line : String) : Prop :=
  (dispatchLine w c b line).Fulfils w b (verbOn w c line = some .flash)

variable (w c b) in
/-- The decoder raises nothing but a `JSONDecodeError`, no exception leaves the operation, and every
label in the response can be encoded. -/
def Answerable (line : String) : Prop :=
  (∀ e, w.loads line ≠ .raises e) ∧
    ∀ fields verb, w.loads line = .value (.obj fields) →
      verbOf c.port ((Json.obj fields).get "op") = some verb →
      ¬ Trips w c b (.obj fields) verb ∧
        ∀ label ∈ shown w c b (.obj fields) verb, w.encodes label = true

theorem not_fulfils_of_error {flashes : Prop} {written : List Message} {b' : Boards} :
    ¬ Dispatched.Fulfils w b flashes ⟨written, .error e, b'⟩ := by
  rintro ⟨⟨_, _, _, hres, -, -⟩, -⟩
  cases hres

theorem terminal_mem_iff {r' : Reply} :
    Message.terminal r' ∈ logs.map Message.log ++ [.terminal r] ↔ r' = r := by
  simp

theorem fulfils_write_iff {flashes : Prop} (hspares : ¬ flashes → o.Spares w b) :
    Dispatched.Fulfils w b flashes (o.write w) ↔ o.Answers w := by
  unfold Outcome.write Outcome.Answers
  cases hres : o.result with
  | error e => simp [not_fulfils_of_error]
  | ok x =>
    obtain ⟨r, handoff⟩ := x
    dsimp only
    split
    · rename_i hlabels
      refine iff_of_true ⟨⟨o.logs, r, handoff, rfl, rfl, fun h => (hspares h).logs⟩, ?_⟩
        ⟨r, handoff, rfl, List.all_eq_true.mp hlabels⟩
      intro r' hmem hno hflash
      obtain rfl := terminal_mem_iff.mp hmem
      exact (hspares hflash).boards r' handoff hres hno
    · rename_i hlabels
      refine iff_of_false not_fulfils_of_error ?_
      rintro ⟨r', handoff', hr, hall⟩
      cases hr
      exact hlabels (List.all_eq_true.mpr hall)

theorem fulfils_refuse (flashes : Prop) (message : String) :
    Dispatched.Fulfils w b flashes ((refuse message b).write w) :=
  (fulfils_write_iff fun _ => spares_of_eq rfl rfl).mpr (answers_refuse message)

/-- A world in which nothing happens, and the decoder makes the same of every line. -/
def World.still (loaded : Loaded) : World where
  now := 7
  text := fun _ => "None"
  repr := fun _ => "None"
  reason := fun _ => "refused"
  message := fun _ => "raised"
  intError := fun _ => "invalid literal for int() with base 10"
  loads := fun _ => loaded
  loadsBytes := fun _ => .malformed
  tells := fun _ => true
  encodes := fun _ => true
  meanwhile := fun _ b => b
  cycle := Cycle.noBoard
  dial := fun _ => .failed "Connection refused"
  script := ⟨"python3", "Broken pipe", .ok "blink.hex", none, none, none, none,
    fun _ _ => .error "not found", none, .ascii⟩
  unreadable := none
  hexRaises := none
  b64decode := fun _ => .error "Incorrect padding"
  stage := .path "/tmp/mbregistry-remote-hex.hex"

/-- A client of the local socket. -/
def localCaller : Caller := ⟨.local, 0, ⟨.local, "1200", some 1200, none⟩, []⟩

/-- `1e999` is a number that is infinite. -/
def setInfinite : Json :=
  .obj [("op", .str "names_set"), ("name", .str "vevov"), ("channel", .float (.inf false)),
    ("group", .int 1)]

def setInfiniteLine : String :=
  "\x7b\"op\": \"names_set\", \"name\": \"vevov\", \"channel\": 1e999, \"group\": 1\x7d"

end MbTools.Dispatch
