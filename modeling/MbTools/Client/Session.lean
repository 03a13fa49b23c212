import MbTools.Dispatch.StagedFiles
import MbTools.Lib.Calls

/-! # A client and its connection

`RegistryClient` and `RemoteRegistryClient` on one connection, with the handler thread that
serves it. A remote client with a token sends it before anything else. What the registry
holds when a line arrives, and what the handler knows of the connection, is given with
the line.
-/

namespace MbTools.Client

open Api Dispatch Runs Calls Virtual

/-! ## Requests -/

/-- The requests of the typed operations, and the token of the handshake. -/
inductive Request where
  | token (t : String)
  | list
  | find (uid : String)
  | lock (uid kind : String)
  | unlock (uid : String)
  | forceUnlock (uid : String)
  | rescan (dryRun : Bool)
  | namesGet (name : String)
  | namesSet (name : String) (channel group : ℤ)
  | namesClear (name : String)
  | namesList
  | markFlashed (uid : String)
  | sendHex (data : String)
  | flash (uid hexPath : String)
  | stream (uid : String)
  deriving DecidableEq, Repr

namespace Request

def payload : Request → Json
  | token t => .obj [("token", .str t)]
  | list => .obj [("op", .str "list")]
  | find uid => .obj [("op", .str "find"), ("uid", .str uid)]
  | lock uid kind => .obj [("op", .str "lock"), ("uid", .str uid), ("kind", .str kind)]
  | unlock uid => .obj [("op", .str "unlock"), ("uid", .str uid)]
  | forceUnlock uid => .obj [("op", .str "force_unlock"), ("uid", .str uid)]
  | rescan dryRun => .obj [("op", .str "rescan"), ("dry_run", .bool dryRun)]
  | namesGet name => .obj [("op", .str "names_get"), ("name", .str name)]
  | namesSet name channel group =>
    .obj [("op", .str "names_set"), ("name", .str name), ("channel", .int channel),
      ("group", .int group)]
  | namesClear name => .obj [("op", .str "names_clear"), ("name", .str name)]
  | namesList => .obj [("op", .str "names_list")]
  | markFlashed uid => .obj [("op", .str "mark_flashed"), ("uid", .str uid)]
  | sendHex data => .obj [("op", .str "send_hex"), ("data", .str data)]
  | flash uid hexPath => .obj [("op", .str "flash"), ("uid", .str uid), ("hex_path", .str hexPath)]
  | stream uid => .obj [("op", .str "stream"), ("uid", .str uid)]

/-- Is it sent by `_stream_request`? -/
def streamed : Request → Bool
  | flash _ _ => true
  | _ => false

/-- The operations of `RegistryClient`, and those of `RemoteRegistryClient`. -/
def offered : Port → Request → Bool
  | _, find _ | _, lock _ _ | _, unlock _ => true
  | .local, list | .local, forceUnlock _ | .local, rescan _ | .local, namesGet _
  | .local, namesSet _ _ _ | .local, namesClear _ | .local, namesList
  | .local, markFlashed _ => true
  | .remote, sendHex _ | .remote, flash _ _ | .remote, stream _ => true
  | _, _ => false

def token? : Request → Option String
  | token t => some t
  | _ => none

end Request

/-! ## Lines -/

/-- What the handler writes. -/
inductive Line where
  | acknowledged
  | unauthorized
  | message (m : Dispatch.Message)

namespace Line

/-- `"type"` is `"log"`. -/
def isLog : Line → Bool
  | message (.log _) => true
  | _ => false

def ok : Line → Bool
  | acknowledged => true
  | unauthorized => false
  | message (.log _) => false
  | message (.terminal r) => r.ok

end Line

/-! ## The two sides -/

/-- The port, and the tokens that the client and the server were given. -/
structure Setup where
  port : Port
  clientToken : Option String
  authToken : Option String

/-- Where the client is with its connection. `spent` is closed, or handed to a stream. -/
inductive Phase where
  | fresh
  | handshaking
  | connected
  | spent
  deriving DecidableEq, Repr

structure Session where
  conn : Conn Request Line
  phase : Phase
  authenticated : Bool
  /-- The requests that an operation of the server has been given. -/
  performed : List Request

inductive Action where
  | connect
  | call (q : Request)
  /-- The handler takes the next line. -/
  | serve (c : Caller) (w : World) (b : Boards)
  | write
  | read (raises : Bool)
  /-- Ctrl-C leaves an operation that waits for a line; the connection stays open. -/
  | interrupt
  | fail
  | hangUp
  | close

/-- What the handler makes of a line: what it writes, whether it then takes another one, and
whether the connection is authenticated. -/
structure Served where
  answer : List Line
  last : Bool
  authenticated : Bool

def goesOn : Except Uncaught Handoff → Bool
  | .ok .next => true
  | _ => false

section Step

variable (cfg : Setup) (dumps : Json → String)

def start : Session := ⟨Conn.start, .fresh, cfg.authToken = none, []⟩

/-- The loop of `_handle_connection`, for one line. -/
def handle (authenticated : Bool) (c : Caller) (w : World) (b : Boards) (line : String) : Served :=
  if authenticated then
    let d := dispatchLine w c b line
    ⟨d.written.map .message, !goesOn d.result, true⟩
  else
    match w.loads line with
    | .raises _ => ⟨[], true, false⟩
    | _ =>
      if HexConn.checkAuth cfg.authToken w line then ⟨[.acknowledged], false, true⟩
      else ⟨[.unauthorized], true, false⟩

/-- What the client does with the end of a call: a handshake that is not acknowledged closes the
connection, and a stream takes it over. -/
def Phase.after (phase : Phase) (past : List (Call Request Line)) : Phase :=
  match past.getLast? with
  | none => phase
  | some d =>
    let accepted := d.status = .returned && d.read.getLast?.any fun x => x.2.ok
    match phase, d.request with
    | .handshaking, _ => if accepted then .connected else .spent
    | .connected, .stream _ => if accepted then .spent else .connected
    | phase, _ => phase

def step (s : Session) : Action → Option Session
  | .connect =>
    if s.phase = .fresh then
      match cfg.clientToken with
      | none => some { s with phase := .connected }
      | some t =>
        (s.conn.step Line.isLog Request.streamed (.ask (.token t))).map fun conn =>
          { s with conn, phase := .handshaking }
    else none
  | .call q =>
    if s.phase = .connected ∧ q.offered cfg.port then
      (s.conn.step Line.isLog Request.streamed (.ask q)).map fun conn => { s with conn }
    else none
  | .serve c w b =>
    (s.conn.requests[s.conn.served.length]?).bind fun q =>
      if c.port = cfg.port then
        let served := handle cfg s.authenticated c w b (dumps q.payload)
        (s.conn.step Line.isLog Request.streamed (.serve served.answer served.last)).map fun conn =>
          { s with
            conn
            authenticated := served.authenticated
            performed :=
              if s.authenticated && (verbOf c.port (q.payload.get "op")).isSome then
                s.performed ++ [q]
              else s.performed }
      else none
  | .write => (s.conn.step Line.isLog Request.streamed .write).map fun conn => { s with conn }
  | .read raises =>
    (s.conn.step Line.isLog Request.streamed (.read raises)).map fun conn =>
      { s with conn, phase := if conn.now.isNone then s.phase.after conn.past else s.phase }
  | .interrupt =>
    if s.phase = .connected then
      (s.conn.step Line.isLog Request.streamed .interrupt).map fun conn => { s with conn }
    else none
  | .fail =>
    (s.conn.step Line.isLog Request.streamed .fail).map fun conn =>
      { s with conn, phase := s.phase.after conn.past }
  | .hangUp => (s.conn.step Line.isLog Request.streamed .hangUp).map fun conn => { s with conn }
  | .close => if s.conn.now.isNone then some { s with phase := .spent } else none

end Step

/-! ## Answers fit their requests -/

section Fits

variable {cfg : Setup} {port : Port} {q : Request} {w : World} {c : Caller} {b : Boards}
  {line : String} {authenticated : Bool}

theorem verbOf_eq_flash {v : Json} (h : verbOf port v = some .flash) : v = .str "flash" := by
  cases v with
  | str name =>
    obtain ⟨before, after, hverbs, -⟩ := List.lookup_eq_some_iff.mp h
    have hmem : (name, Verb.flash) ∈ verbs port := by simp [hverbs]
    cases port <;> simpa [verbs] using hmem
  | _ => cases h

theorem streamed_of_verb (h : verbOf port (q.payload.get "op") = some .flash) :
    q.streamed = true := by
  have hop := verbOf_eq_flash h
  cases q with
  | flash uid hexPath => rfl
  | _ => simp [Request.payload, Json.get] at hop

theorem isLog_map_log (logs : List String) :
    ∀ l ∈ logs.map fun text => Line.message (.log text), l.isLog = true := by
  simp [Line.isLog]

/-- An outcome whose log lines the request expects is written as one answer to it. -/
theorem fits_write (o : Outcome) (hlogs : q.streamed = false → o.logs = []) :
    Fits Line.isLog Request.streamed q ((o.write w).written.map .message)
      (!goesOn (o.write w).result) := by
  have hcut : Fits Line.isLog Request.streamed q
      ((o.logs.map Dispatch.Message.log).map .message) true := by
    rw [List.map_map]
    refine ⟨Or.inr ⟨rfl, isLog_map_log o.logs⟩, fun hq => ?_⟩
    simp [hlogs hq]
  unfold Outcome.write
  cases o.result with
  | error e => exact hcut
  | ok result =>
    dsimp only
    split
    · rw [List.map_append, List.map_map]
      refine ⟨Or.inl ⟨_, _, rfl, isLog_map_log o.logs, rfl⟩, fun hq => ?_⟩
      simp [hlogs hq, Line.isLog]
    · exact hcut

theorem fits_handle (hline : w.loads line = .value q.payload) :
    Fits Line.isLog Request.streamed q (handle cfg authenticated c w b line).answer
      (handle cfg authenticated c w b line).last := by
  unfold handle
  split
  · obtain ⟨fields, hfields⟩ : ∃ fields, q.payload = .obj fields := by cases q <;> exact ⟨_, rfl⟩
    unfold dispatchLine
    rw [hline, hfields]
    dsimp only
    split
    · exact fits_write _ fun _ => rfl
    next verb hverb =>
      refine fits_write _ fun hq => (perform_spares ?_).logs
      rintro rfl
      rw [← hfields] at hverb
      rw [streamed_of_verb hverb] at hq
      cases hq
  · rw [hline]
    dsimp only
    split
    · exact ⟨Or.inl ⟨[], _, rfl, by simp, rfl⟩, fun _ => by simp [Line.isLog]⟩
    · exact ⟨Or.inl ⟨[], _, rfl, by simp, rfl⟩, fun _ => by simp [Line.isLog]⟩

end Fits

/-! ## What a session keeps -/

/-- What the client sends is what the handler reads: `json.loads` undoes `json.dumps`. -/
def Loads (dumps : Json → String) (s : Session) : Action → Prop
  | .serve _ w _ => ∀ q, s.conn.requests[s.conn.served.length]? = some q →
      w.loads (dumps q.payload) = .value q.payload
  | _ => True

/-- The handler's answer to the request, on some state of the registry. -/
def Answered (cfg : Setup) (dumps : Json → String) (q : Request) (answer : List Line) : Prop :=
  ∃ authenticated c w b, c.port = cfg.port ∧ w.loads (dumps q.payload) = .value q.payload ∧
    answer = (handle cfg authenticated c w b (dumps q.payload)).answer

/-- The calls are in order, and each request has been answered by the handler. -/
structure Session.Kept (cfg : Setup) (dumps : Json → String) (s : Session) : Prop where
  conn : s.conn.Kept Line.isLog Request.streamed
  answered : ∀ (k : ℕ) answer, s.conn.served[k]? = some answer →
    ∃ q, s.conn.requests[k]? = some q ∧ Answered cfg dumps q answer

/-- What a step does. -/
inductive Turn (cfg : Setup) (dumps : Json → String) (s : Session) : Action → Session → Prop where
  | opens : cfg.clientToken = none → Turn cfg dumps s .connect { s with phase := .connected }
  | greets {t : String} {conn : Conn Request Line} : cfg.clientToken = some t →
      s.conn.step Line.isLog Request.streamed (.ask (.token t)) = some conn →
      Turn cfg dumps s .connect { s with conn, phase := .handshaking }
  | asks {q : Request} {conn : Conn Request Line} : s.phase = .connected →
      q.offered cfg.port = true → s.conn.step Line.isLog Request.streamed (.ask q) = some conn →
      Turn cfg dumps s (.call q) { s with conn }
  | serves {c : Caller} {w : World} {b : Boards} {q : Request} {conn : Conn Request Line} :
      c.port = cfg.port → s.conn.requests[s.conn.served.length]? = some q →
      s.conn.step Line.isLog Request.streamed
        (.serve (handle cfg s.authenticated c w b (dumps q.payload)).answer
          (handle cfg s.authenticated c w b (dumps q.payload)).last) = some conn →
      Turn cfg dumps s (.serve c w b)
        { s with
          conn
          authenticated := (handle cfg s.authenticated c w b (dumps q.payload)).authenticated
          performed :=
            if s.authenticated && (verbOf c.port (q.payload.get "op")).isSome then
              s.performed ++ [q]
            else s.performed }
  /-- A line is written or read, a call interrupted, or the server hangs up. -/
  | goesOn {a : Action} {ca : Calls.Action Request Line} {conn : Conn Request Line} :
      s.conn.step Line.isLog Request.streamed ca = some conn → ca.serves = false →
      (∀ q, ca ≠ .ask q) → Turn cfg dumps s a { s with conn }
  /-- A call is over. -/
  | ends {a : Action} {ca : Calls.Action Request Line} {conn : Conn Request Line} :
      s.conn.step Line.isLog Request.streamed ca = some conn → ca.serves = false →
      (∀ q, ca ≠ .ask q) →
      Turn cfg dumps s a { s with conn, phase := s.phase.after conn.past }
  | closes : Turn cfg dumps s .close { s with phase := .spent }

section Kept

variable {cfg : Setup} {dumps : Json → String} {s s' : Session} {a : Action}
  {ca : Calls.Action Request Line} {conn : Conn Request Line}

theorem turn_of_step (hs : Client.step cfg dumps s a = some s') : Turn cfg dumps s a s' := by
  cases a with
  | connect =>
    simp only [Client.step] at hs
    split at hs
    · split at hs
      next hnone =>
        cases hs
        exact .opens hnone
      next t htoken =>
        obtain ⟨conn, hconn, rfl⟩ := Option.map_eq_some_iff.mp hs
        exact .greets htoken hconn
    · cases hs
  | call q =>
    simp only [Client.step] at hs
    split at hs
    next hcall =>
      obtain ⟨conn, hconn, rfl⟩ := Option.map_eq_some_iff.mp hs
      exact .asks hcall.1 hcall.2 hconn
    · cases hs
  | serve c w b =>
    obtain ⟨q, hq, hs⟩ := Option.bind_eq_some_iff.mp hs
    split at hs
    next hport =>
      obtain ⟨conn, hconn, rfl⟩ := Option.map_eq_some_iff.mp hs
      exact .serves hport hq hconn
    · cases hs
  | write =>
    obtain ⟨conn, hconn, rfl⟩ := Option.map_eq_some_iff.mp hs
    exact .goesOn hconn rfl nofun
  | read raises =>
    obtain ⟨conn, hconn, rfl⟩ := Option.map_eq_some_iff.mp hs
    split
    · exact .ends hconn rfl nofun
    · exact .goesOn hconn rfl nofun
  | interrupt =>
    simp only [Client.step] at hs
    split at hs
    · obtain ⟨conn, hconn, rfl⟩ := Option.map_eq_some_iff.mp hs
      exact .goesOn hconn rfl nofun
    · cases hs
  | fail =>
    obtain ⟨conn, hconn, rfl⟩ := Option.map_eq_some_iff.mp hs
    exact .ends hconn rfl nofun
  | hangUp =>
    simp only [Client.step] at hs
    obtain ⟨conn, hconn, rfl⟩ := Option.map_eq_some_iff.mp hs
    exact .goesOn hconn rfl nofun
  | close =>
    simp only [Client.step] at hs
    split at hs
    · cases hs
      exact .closes
    · cases hs

/-- A step of the calls in which the server answers nothing keeps what was answered. -/
theorem Session.Kept.calls (h : s.Kept cfg dumps) (hca : ca.serves = false)
    (hs : s.conn.step Line.isLog Request.streamed ca = some conn) (phase : Phase) :
    ({ s with conn, phase } : Session).Kept cfg dumps where
  conn := h.conn.step (Conn.serves_of_not_serves hca) hs
  answered k answer hanswer := by
    rw [Conn.served_of_not_serves hca hs] at hanswer
    obtain ⟨q, hq, hanswered⟩ := h.answered k answer hanswer
    exact ⟨q, Conn.request_step hs hq, hanswered⟩

theorem Session.Kept.step (h : s.Kept cfg dumps) (ha : Loads dumps s a)
    (hs : Client.step cfg dumps s a = some s') : s'.Kept cfg dumps := by
  cases turn_of_step hs with
  | opens _ => exact ⟨h.conn, h.answered⟩
  | greets _ hconn => exact h.calls rfl hconn _
  | asks _ _ hconn => exact h.calls rfl hconn _
  | @serves c w b q conn hport hq hconn =>
    have hline := ha q hq
    have hserved := Conn.served_step hconn
    constructor
    case conn =>
      refine h.conn.step ?_ hconn
      intro q' hq'
      obtain rfl : q = q' := Option.some.inj (hq.symm.trans hq')
      exact fits_handle hline
    case answered =>
      intro k answer hanswer
      rw [hserved] at hanswer
      rcases Conn.served_concat hanswer with hanswer | ⟨rfl, rfl⟩
      · obtain ⟨q', hq', hanswered⟩ := h.answered k answer hanswer
        exact ⟨q', Conn.request_step hconn hq', hanswered⟩
      · exact ⟨q, Conn.request_step hconn hq, s.authenticated, c, w, b, hport, hline, rfl⟩
  | goesOn hconn hserves _ => exact h.calls hserves hconn _
  | ends hconn hserves _ => exact h.calls hserves hconn _
  | closes => exact ⟨h.conn, h.answered⟩

theorem kept_start : (start cfg).Kept cfg dumps where
  conn := Conn.kept_start
  answered k answer h := by simp [start, Conn.start] at h

theorem kept_of_exec {as : List Action} (hloads : Meets (Client.step cfg dumps) (Loads dumps)
    (start cfg) as) (h : exec (Client.step cfg dumps) (start cfg) as = some s) :
    s.Kept cfg dumps :=
  inv_of_meets (fun _ _ _ hi ha hs => Session.Kept.step hi ha hs) kept_start hloads h

/-- A call that has returned got the answer to its own request, all of it and nothing else, exactly
when no call before it on the connection was left by its callback or an interrupt. -/
theorem answer_is_own_iff {as : List Action} (hloads : Meets (Client.step cfg dumps) (Loads dumps)
    (start cfg) as) (h : exec (Client.step cfg dumps) (start cfg) as = some s) {k : ℕ}
    {d : Call Request Line} (hd : s.conn.past[k]? = some d) (hreturned : d.status = .returned) :
    (Conn.Own k d ↔ ∀ j < k, ∀ e, s.conn.past[j]? = some e → e.status ≠ .abandoned) ∧
      (Conn.Own k d → Answered cfg dumps d.request (d.read.map Prod.snd)) := by
  have hk := kept_of_exec hloads h
  obtain ⟨hlt, hd⟩ := List.getElem?_eq_some_iff.mp hd
  have hpast : s.conn.past = s.conn.past.take k ++ d :: s.conn.past.drop (k + 1) := by
    rw [← hd, List.getElem_cons_drop, List.take_append_drop]
  have hlen : (s.conn.past.take k).length = k := by
    rw [List.length_take]
    omega
  have hown := hk.conn.own_iff hpast hreturned
  rw [hlen] at hown
  constructor
  · rw [hown]
    constructor
    · intro hleft j hj e he
      refine hleft e (List.mem_of_getElem? (i := j) ?_)
      rw [List.getElem?_take_of_lt hj, he]
    · intro hleft e he
      obtain ⟨j, he⟩ := List.mem_iff_getElem?.mp he
      rw [List.getElem?_take] at he
      split at he
      next hj => exact hleft j hj e he
      · cases he
  · intro hdown
    have hserved := hk.conn.served_of_own hpast hreturned (hlen.symm ▸ hdown)
    obtain ⟨q, hq, hanswered⟩ := hk.answered _ _ hserved
    rw [Conn.request_of_past hpast] at hq
    cases hq
    exact hanswered

end Kept

/-! ## Tokens -/

section Tokens

variable {cfg : Setup} {dumps : Json → String} {s s' : Session} {a : Action} {q : Request}
  {w : World} {c : Caller} {b : Boards} {line t : String}

theorem token?_of_offered {port : Port} (h : q.offered port = true) : q.token? = none := by
  cases q with
  | token t => cases port <;> cases h
  | _ => rfl

theorem checkAuth_iff {authToken : Option String} (hline : w.loads line = .value q.payload) :
    HexConn.checkAuth authToken w line = true ↔ q.token? ≠ none ∧ authToken = q.token? := by
  unfold HexConn.checkAuth
  rw [hline]
  cases q <;> simp [Request.payload, Json.get, Request.token?]

/-- What a handler tells a client that has not shown its token. -/
theorem handle_unauthenticated (hline : w.loads line = .value q.payload) :
    handle cfg false c w b line =
      if HexConn.checkAuth cfg.authToken w line then ⟨[.acknowledged], false, true⟩
      else ⟨[.unauthorized], true, false⟩ := by
  unfold handle
  rw [hline]
  rfl

/-- The refusal of an unknown op is all that `write` makes of it. -/
theorem written_refuse (message : String) :
    ((Outcome.refuse message b).write w).written =
      [.terminal (.response (.error (.invalidRequest message)))] := rfl

theorem handle_token (hline : w.loads line = .value (Request.token t).payload) :
    ∀ l ∈ (handle cfg true c w b line).answer, l.ok = false := by
  have hdispatch : ∃ message, dispatchLine w c b line = (Outcome.refuse message b).write w := by
    unfold dispatchLine
    rw [hline]
    exact ⟨_, rfl⟩
  obtain ⟨message, hdispatch⟩ := hdispatch
  simp only [handle, if_true, hdispatch, written_refuse, List.map_singleton]
  exact List.forall_mem_singleton.mpr rfl

theorem Session.Kept.served_of_read (h : s.Kept cfg dumps) {d : Call Request Line}
    (hd : d ∈ s.conn.past) {x : ℕ × Line} (hx : x ∈ d.read) :
    ∃ answer ∈ s.conn.served, x.2 ∈ answer := by
  have hheard : x ∈ s.conn.heard := List.mem_append_left _ (List.mem_flatMap.mpr ⟨d, hd, hx⟩)
  obtain ⟨answer, hanswer, hm⟩ :=
    Conn.served_of_mem_lines (h.conn.heard_prefix.subset hheard)
  exact ⟨answer, List.mem_of_getElem? hanswer, hm⟩

/-- Where the tokens differ, nothing is acknowledged and nothing performed. -/
structure Barred (cfg : Setup) (s : Session) : Prop where
  refused : ∀ answer ∈ s.conn.served, ∀ l ∈ answer, l.ok = false
  performed : s.performed = []
  auth : s.authenticated = true → cfg.authToken = none
  phase : cfg.clientToken ≠ none → s.phase ≠ .connected
  asked : ∀ q ∈ s.conn.requests, q.token? = cfg.clientToken

/-- Where they agree, a token is asked first and acknowledged. -/
structure Welcome (cfg : Setup) (s : Session) : Prop where
  told : ∀ answer ∈ s.conn.served, ∀ l ∈ answer, l ≠ .unauthorized
  auth : s.authenticated = false → s.conn.served = [] ∧ cfg.authToken ≠ none
  first : ∀ t, cfg.clientToken = some t → s.conn.requests.head? = some (.token t) ∨
    s.conn.requests = [] ∧ (s.phase = .fresh ∨ s.phase = .spent)

/-- Nothing but a line that says so makes a connection of a handshake. -/
theorem Phase.after_handshaking {past : List (Call Request Line)}
    (h : Phase.after .handshaking past = .connected) :
    ∃ d ∈ past, ∃ x ∈ d.read, x.2.ok = true := by
  unfold Phase.after at h
  split at h
  · cases h
  next d hd =>
    simp only [Bool.and_eq_true] at h
    split at h
    next haccepted =>
      obtain ⟨x, hx, hok⟩ := (Option.any_eq_true _ _).mp haccepted.2
      exact ⟨d, List.mem_of_getLast? hd, x, List.mem_of_getLast? hx, hok⟩
    · cases h

theorem Phase.eq_of_after {past : List (Call Request Line)} {phase : Phase}
    (h : phase.after past = .connected) : phase = .handshaking ∨ phase = .connected := by
  cases phase with
  | handshaking => exact Or.inl rfl
  | connected => exact Or.inr rfl
  | fresh =>
    unfold Phase.after at h
    split at h <;> cases h
  | spent =>
    unfold Phase.after at h
    split at h <;> cases h

section Barred

variable {ca : Calls.Action Request Line} {conn : Conn Request Line} {phase : Phase}

theorem Barred.calls (h : Barred cfg s) (hca : ca.serves = false)
    (hs : s.conn.step Line.isLog Request.streamed ca = some conn)
    (hask : ∀ q, ca = .ask q → q.token? = cfg.clientToken)
    (hphase : cfg.clientToken ≠ none → phase ≠ .connected) :
    Barred cfg { s with conn, phase } where
  refused := (Conn.served_of_not_serves hca hs).symm ▸ h.refused
  performed := h.performed
  auth := h.auth
  phase := hphase
  asked q hq := by
    have hrequests : conn.requests = _ := Conn.requests_step hs
    rw [show ({ s with conn, phase } : Session).conn = conn from rfl, hrequests] at hq
    cases ca with
    | ask q' =>
      rcases List.mem_append.mp hq with hq | hq
      · exact h.asked q hq
      · obtain rfl := List.mem_singleton.mp hq
        exact hask q rfl
    | _ => exact h.asked q hq

theorem Barred.after (h : Barred cfg s) (hca : ca.serves = false)
    (hs : s.conn.step Line.isLog Request.streamed ca = some conn)
    (hk : ({ s with conn, phase } : Session).Kept cfg dumps) (htoken : cfg.clientToken ≠ none) :
    s.phase.after conn.past ≠ .connected := by
  intro hafter
  rcases Phase.eq_of_after hafter with hphase | hphase
  · rw [hphase] at hafter
    obtain ⟨d, hd, x, hx, hok⟩ := Phase.after_handshaking hafter
    obtain ⟨answer, hanswer, hm⟩ := hk.served_of_read hd hx
    have hserved : conn.served = s.conn.served := Conn.served_of_not_serves hca hs
    have hno := h.refused answer (hserved ▸ hanswer) x.2 hm
    rw [hno] at hok
    cases hok
  · exact h.phase htoken hphase

theorem Barred.handle (h : Barred cfg s) (hdiffer : cfg.clientToken ≠ cfg.authToken)
    (hasked : q.token? = cfg.clientToken) (hline : w.loads line = .value q.payload) (c : Caller)
    (b : Boards) :
    (∀ l ∈ (handle cfg s.authenticated c w b line).answer, l.ok = false) ∧
      (handle cfg s.authenticated c w b line).authenticated = s.authenticated ∧
      (if s.authenticated && (verbOf c.port (q.payload.get "op")).isSome then
        s.performed ++ [q] else s.performed) = s.performed := by
  cases hauth : s.authenticated with
  | true =>
    have hnone : cfg.authToken = none := h.auth hauth
    obtain ⟨t, rfl⟩ : ∃ t, q = .token t := by
      cases q with
      | token t => exact ⟨t, rfl⟩
      | _ => exact absurd (hasked.symm.trans hnone.symm) hdiffer
    exact ⟨handle_token hline, rfl, rfl⟩
  | false =>
    have hno : HexConn.checkAuth cfg.authToken w line = false := by
      rw [Bool.eq_false_iff, Ne, checkAuth_iff hline, hasked]
      exact fun heq => hdiffer heq.2.symm
    rw [handle_unauthenticated hline, hno]
    exact ⟨List.forall_mem_singleton.mpr rfl, rfl, rfl⟩

theorem Barred.step (hdiffer : cfg.clientToken ≠ cfg.authToken) (h : Barred cfg s)
    (hk : s.Kept cfg dumps) (ha : Loads dumps s a) (hs : Client.step cfg dumps s a = some s') :
    Barred cfg s' := by
  have hk' : s'.Kept cfg dumps := hk.step ha hs
  cases turn_of_step hs with
  | opens hnone =>
    exact ⟨h.refused, h.performed, h.auth, fun htoken => absurd hnone htoken, h.asked⟩
  | greets htoken hconn =>
    refine h.calls rfl hconn (fun q hq => ?_) nofun
    cases hq
    exact htoken.symm
  | asks hconnected hoffered hconn =>
    have hnone : cfg.clientToken = none := by
      by_contra htoken
      exact h.phase htoken hconnected
    refine h.calls rfl hconn (fun q hq => ?_) h.phase
    cases hq
    rw [token?_of_offered hoffered, hnone]
  | @serves c w b q conn _ hq hconn =>
    have hserved := Conn.served_step hconn
    have hrequests : conn.requests = s.conn.requests := Conn.requests_step hconn
    have hasked : q.token? = cfg.clientToken := h.asked q (List.mem_of_getElem? hq)
    -- what is performed and what is known of the client stay as they are
    obtain ⟨hanswer, hauth, hperformed⟩ := h.handle hdiffer hasked (ha q hq) c b
    exact
      { refused := by
          rw [show ({ s with conn := conn } : Session).conn.served = _ from hserved]
          exact List.forall_mem_append.mpr ⟨h.refused, List.forall_mem_singleton.mpr hanswer⟩
        performed := hperformed.trans h.performed
        auth := fun hnow => h.auth (hauth ▸ hnow)
        phase := h.phase
        asked := hrequests ▸ h.asked }
  | goesOn hconn hserves hasks =>
    exact h.calls hserves hconn (fun q hq => absurd hq (hasks q)) h.phase
  | ends hconn hserves hasks =>
    exact h.calls hserves hconn (fun q hq => absurd hq (hasks q)) (h.after hserves hconn hk')
  | closes => exact ⟨h.refused, h.performed, h.auth, fun _ => nofun, h.asked⟩

end Barred

section Welcome

variable {ca : Calls.Action Request Line} {conn : Conn Request Line} {phase : Phase}

/-- Where the connection of a client with a token is before its first request, if it has none. -/
def Untried (phase : Phase) : Prop := phase = .fresh ∨ phase = .spent

theorem Untried.after (h : Untried phase) (past : List (Call Request Line)) :
    phase.after past = phase := by
  unfold Phase.after
  rcases h with rfl | rfl
  · split <;> rfl
  · split <;> rfl

theorem head?_step (hs : s.conn.step Line.isLog Request.streamed ca = some conn)
    (h : s.conn.requests.head? = some q) : conn.requests.head? = some q := by
  obtain ⟨asked, hasked⟩ := Conn.requests_prefix hs
  rw [← hasked, List.head?_append, h, Option.some_or]

theorem Welcome.calls (h : Welcome cfg s) (hca : ca.serves = false)
    (hs : s.conn.step Line.isLog Request.streamed ca = some conn)
    (hasked : ∀ t, cfg.clientToken = some t → s.conn.requests = [] → Untried s.phase →
      conn.requests.head? = some (.token t) ∨ conn.requests = [] ∧ Untried phase) :
    Welcome cfg { s with conn, phase } where
  told := (Conn.served_of_not_serves hca hs).symm ▸ h.told
  auth hauth := by
    rw [show ({ s with conn, phase } : Session).conn.served = _ from
      Conn.served_of_not_serves hca hs]
    exact h.auth hauth
  first t ht := by
    rcases h.first t ht with hfirst | ⟨hnil, huntried⟩
    · exact Or.inl (head?_step hs hfirst)
    · exact hasked t ht hnil huntried

theorem Welcome.handle (h : Welcome cfg s) (hagree : cfg.clientToken = cfg.authToken)
    (hq : s.conn.requests[s.conn.served.length]? = some q)
    (hline : w.loads line = .value q.payload) (c : Caller) (b : Boards) :
    (∀ l ∈ (handle cfg s.authenticated c w b line).answer, l ≠ .unauthorized) ∧
      (handle cfg s.authenticated c w b line).authenticated = true := by
  cases hauth : s.authenticated with
  | true =>
    refine ⟨fun l hl => ?_, rfl⟩
    obtain ⟨m, -, rfl⟩ := List.mem_map.mp hl
    exact nofun
  | false =>
    obtain ⟨hnil, htoken⟩ := h.auth hauth
    obtain ⟨t, ht⟩ := Option.ne_none_iff_exists'.mp htoken
    rw [hnil, List.length_nil, ← List.head?_eq_getElem?] at hq
    obtain rfl : q = .token t := by
      rcases h.first t (hagree.trans ht) with hfirst | ⟨hempty, -⟩
      · exact Option.some.inj (hq.symm.trans hfirst)
      · rw [hempty] at hq
        cases hq
    have hyes : HexConn.checkAuth cfg.authToken w line = true :=
      (checkAuth_iff hline).mpr ⟨nofun, ht⟩
    rw [handle_unauthenticated hline, hyes]
    exact ⟨List.forall_mem_singleton.mpr nofun, rfl⟩

theorem Welcome.step (hagree : cfg.clientToken = cfg.authToken) (h : Welcome cfg s)
    (ha : Loads dumps s a) (hs : Client.step cfg dumps s a = some s') : Welcome cfg s' := by
  cases turn_of_step hs with
  | opens hnone =>
    refine ⟨h.told, h.auth, fun t ht => ?_⟩
    rw [hnone] at ht
    cases ht
  | greets htoken hconn =>
    refine h.calls rfl hconn fun t ht hnil _ => Or.inl ?_
    rw [Conn.requests_step hconn, hnil]
    exact congrArg (fun t => some (Request.token t)) (Option.some.inj (htoken.symm.trans ht))
  | asks hconnected _ hconn =>
    refine h.calls rfl hconn fun t ht hnil huntried => ?_
    rw [Untried, hconnected] at huntried
    exact absurd huntried (by decide)
  | @serves c w b q conn _ hq hconn =>
    have hserved := Conn.served_step hconn
    have hrequests : conn.requests = s.conn.requests := Conn.requests_step hconn
    obtain ⟨hanswer, hauth⟩ := h.handle hagree hq (ha q hq) c b
    exact
      { told := by
          rw [show ({ s with conn := conn } : Session).conn.served = _ from hserved]
          exact List.forall_mem_append.mpr ⟨h.told, List.forall_mem_singleton.mpr hanswer⟩
        auth := fun hnow => absurd (hauth.symm.trans hnow) nofun
        first := hrequests ▸ h.first }
  | goesOn hconn hserves hasks =>
    have hrequests := Conn.requests_of_not_asks hasks hconn
    exact h.calls hserves hconn fun t _ hnil huntried => Or.inr ⟨hrequests.trans hnil, huntried⟩
  | ends hconn hserves hasks =>
    have hrequests := Conn.requests_of_not_asks hasks hconn
    refine h.calls hserves hconn fun t _ hnil huntried => Or.inr ⟨hrequests.trans hnil, ?_⟩
    rwa [huntried.after]
  | closes =>
    exact ⟨h.told, h.auth, fun t ht => (h.first t ht).imp_right fun hnil => ⟨hnil.1, Or.inr rfl⟩⟩

end Welcome

/-- Where the tokens of client and server differ, no operation is performed and every answer is a
refusal; where they agree, or there is none, no client is told that it is unauthorized. -/
theorem tokens_must_agree {as : List Action}
    (hloads : Meets (Client.step cfg dumps) (Loads dumps) (start cfg) as)
    (h : exec (Client.step cfg dumps) (start cfg) as = some s) :
    (cfg.clientToken ≠ cfg.authToken →
      s.performed = [] ∧ ∀ d ∈ s.conn.past, ∀ x ∈ d.read, x.2.ok = false) ∧
    (cfg.clientToken = cfg.authToken →
      ∀ d ∈ s.conn.past, ∀ x ∈ d.read, x.2 ≠ .unauthorized) := by
  have hk := kept_of_exec hloads h
  constructor
  · intro hdiffer
    have hstart : Barred cfg (start cfg) :=
      ⟨by simp [start, Conn.start], rfl, of_decide_eq_true, fun _ => nofun,
        by simp [start, Conn.start, Conn.requests]⟩
    have hstep : ∀ s a s', s.Kept cfg dumps ∧ Barred cfg s → Loads dumps s a →
        Client.step cfg dumps s a = some s' → s'.Kept cfg dumps ∧ Barred cfg s' :=
      fun s a s' hi ha hs => ⟨hi.1.step ha hs, hi.2.step hdiffer hi.1 ha hs⟩
    have hbarred := inv_of_meets hstep ⟨kept_start, hstart⟩ hloads h
    refine ⟨hbarred.2.performed, fun d hd x hx => ?_⟩
    obtain ⟨answer, hanswer, hm⟩ := hk.served_of_read hd hx
    exact hbarred.2.refused answer hanswer x.2 hm
  · intro hagree d hd x hx
    have hstart : Welcome cfg (start cfg) :=
      ⟨by simp [start, Conn.start], fun hauth => ⟨rfl, of_decide_eq_false hauth⟩,
        fun t ht => Or.inr ⟨rfl, Or.inl rfl⟩⟩
    have hwelcome : Welcome cfg s :=
      inv_of_meets (fun s a s' hi ha hs => hi.step hagree ha hs) hstart hloads h
    obtain ⟨answer, hanswer, hm⟩ := hk.served_of_read hd hx
    exact hwelcome.told answer hanswer x.2 hm

end Tokens

/-! ## A client that looks for a board -/

def lookup : Request := .find "9900a"

/-- The handler answers a lookup. -/
def found : Action :=
  .serve ⟨.remote, 0, System.laptop, []⟩ (World.still (.value lookup.payload))
    (Boards.start .ascii System.oneBoard)

/-- One call, of a client without a token. -/
def oneCall : List Action := [.connect, .call lookup, found, .write, .read false]

/-- The user leaves a second call with Ctrl-C, and makes a third. -/
def leftCall : List Action :=
  oneCall ++ [.call lookup, .interrupt, .call lookup, found, .write, .read false]

def openPort : Setup := ⟨.remote, none, none⟩

theorem lookups_load {as : List Action} (has : ∀ a ∈ as, ∀ c w b, a = .serve c w b → a = found)
    (hasks : ∀ a ∈ as, ∀ q, a = .call q → q = lookup) (dumps : Json → String) :
    Meets (step openPort dumps) (Loads dumps) (start openPort) as := by
  refine meets_of_inv (P := fun s => ∀ q ∈ s.conn.requests, q = lookup) ?_ ?_ (by simp [start,
    Conn.start, Conn.requests])
  · intro s a ha hs
    cases a with
    | serve c w b =>
      obtain ⟨rfl, rfl, rfl⟩ : _ ∧ _ ∧ _ := Action.serve.inj (has _ ha c w b rfl)
      intro q hq
      obtain rfl := hs q (List.mem_of_getElem? hq)
      rfl
    | _ => trivial
  · intro s a s' ha hs hstep q hq
    cases turn_of_step hstep with
    | opens _ => exact hs q hq
    | greets htoken _ => cases htoken
    | @asks q' conn _ _ hconn =>
      rw [Conn.requests_step hconn] at hq
      rcases List.mem_append.mp hq with hq | hq
      · exact hs q hq
      · exact (List.mem_singleton.mp hq).trans (hasks _ ha q' rfl)
    | @serves _ _ _ _ conn _ _ hconn =>
      have hrequests : conn.requests = s.conn.requests := Conn.requests_step hconn
      exact hs q (hrequests ▸ hq)
    | goesOn hconn _ hno => exact hs q (Conn.requests_of_not_asks hno hconn ▸ hq)
    | ends hconn _ hno => exact hs q (Conn.requests_of_not_asks hno hconn ▸ hq)
    | closes => exact hs q hq

theorem leftCall_loads (dumps : Json → String) :
    Meets (step openPort dumps) (Loads dumps) (start openPort) leftCall := by
  apply lookups_load
  · simp [leftCall, oneCall, found]
  · simp [leftCall, oneCall, found]

def findText (_ : Json) : String := "\x7b\"op\": \"find\", \"uid\": \"9900a\"\x7d"

/-- The first call has its answer; the third gets the second's. -/
theorem leftCall_is_answered :
    ∃ s d e, exec (step openPort findText) (start openPort) leftCall = some s ∧
      s.conn.past[0]? = some d ∧ s.conn.past[2]? = some e ∧
      Conn.Own 0 d ∧ Answered openPort findText d.request (d.read.map Prod.snd) ∧
      e.status = .returned ∧ ¬ Conn.Own 2 e := by
  have hrun : (exec (step openPort findText) (start openPort) leftCall).any (fun s =>
      decide (s.conn.past.map Call.status = [.returned, .abandoned, .returned])) = true := by
    decide +kernel
  obtain ⟨s, hs, hpast⟩ := (Option.any_eq_true _ _).mp hrun
  have hstatus := of_decide_eq_true hpast
  rw [List.map_eq_cons_iff] at hstatus
  obtain ⟨d, l, hl, hd, hstatus⟩ := hstatus
  rw [List.map_eq_cons_iff] at hstatus
  obtain ⟨left, l, rfl, hleft, hstatus⟩ := hstatus
  obtain ⟨e, rfl, he⟩ := List.map_eq_singleton_iff.mp hstatus
  have hanswer {k : ℕ} {d : Call Request Line} (hd : s.conn.past[k]? = some d) :=
    answer_is_own_iff (leftCall_loads findText) hs hd
  have hfirst : s.conn.past[0]? = some d := by rw [hl]; rfl
  have hthird : s.conn.past[2]? = some e := by rw [hl]; rfl
  have hown : Conn.Own 0 d := (hanswer hfirst hd).1.mpr (by simp)
  refine ⟨s, d, e, hs, hfirst, hthird, hown, (hanswer hfirst hd).2 hown, he, fun hthis => ?_⟩
  exact (hanswer hthird he).1.mp hthis 1 (by decide) left (by rw [hl]; rfl) hleft

theorem oneCall_is_authorized :
    ∃ s, exec (step openPort findText) (start openPort) oneCall = some s ∧
      s.conn.past.length = 1 ∧ ∀ d ∈ s.conn.past, ∀ x ∈ d.read, x.2 ≠ .unauthorized := by
  have hrun : (exec (step openPort findText) (start openPort) oneCall).any (fun s =>
      s.conn.past.length = 1) = true := by decide +kernel
  obtain ⟨s, hs, hlen⟩ := (Option.any_eq_true _ _).mp hrun
  refine ⟨s, hs, of_decide_eq_true hlen, (tokens_must_agree ?_ hs).2 rfl⟩
  exact lookups_load (by simp [oneCall, found]) (by simp [oneCall, found]) findText

end MbTools.Client
