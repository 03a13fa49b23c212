import MbTools.Lib.Lines
import MbTools.Lib.Runs
import MbTools.Stream.Frame

/-! # From JSON lines to frames

A stream session starts on a connection that has carried JSON lines. Both ends read
the line before the switch through a text reader, which takes whatever has arrived,
and the frames after it from the socket itself. What the text reader took beyond
its line is gone.
-/

namespace MbTools.Stream

open Chunks Framing Lines Runs

def frameData : ℕ := 1
def frameBreak : ℕ := 2
def frameSetDtr : ℕ := 3
def frameSetRts : ℕ := 4
def frameClose : ℕ := 5

/-! ## The client's stream -/

/-- The calls of `RemoteStream` that send a frame. -/
inductive Call
  | write (data : List UInt8)
  | sendBreak
  | setDtr (value : Bool)
  | setRts (value : Bool)
  | close
  deriving Repr, DecidableEq

def Call.frame : Call → Frame
  | write data => ⟨frameData, data⟩
  | sendBreak => ⟨frameBreak, []⟩
  | setDtr value => ⟨frameSetDtr, [if value then 1 else 0]⟩
  | setRts value => ⟨frameSetRts, [if value then 1 else 0]⟩
  | close => ⟨frameClose, []⟩

def remoteReadFrame (sock : Socket) : Except ReadError (Option Frame) × Socket :=
  match readFrame clientReadExact sock with
  | (.error _, sock) => (.error .registryUnavailable, sock)
  | (.ok frame, sock) => (.ok frame, sock)

/-- `RemoteStream.read`: a payload, or `none` where the stream ended. -/
def remoteRead (sock : Socket) : Except ReadError (Option (List UInt8)) × Socket :=
  match remoteReadFrame sock with
  | (.error e, sock) => (.error e, sock)
  | (.ok none, sock) => (.ok none, sock)
  | (.ok (some f), sock) => (.ok (if f.frameType = frameClose then none else some f.payload), sock)

/-! ## The server's loop -/

/-- The board behind a session: whether its port opens, and whether the port takes
the frame that comes at a place. -/
structure Board where
  opens : Bool
  takes : ℕ → Bool

/-- The frames the server's loop decodes. It goes on behind a frame of one of the
four kinds its port takes; each turn that goes on has taken a byte. -/
def streamLoop (board : Board) : ℕ → ℕ → Socket → List Frame
  | 0, _, _ => []
  | turns + 1, i, sock =>
    match readFrame serverReadExact sock with
    | (.ok (some f), sock) =>
      if f.frameType ∈ [frameData, frameBreak, frameSetDtr, frameSetRts] ∧ board.takes i then
        f :: streamLoop board turns (i + 1) sock
      else [f]
    | _ => []

def handleStream (board : Board) (sock : Socket) : List Frame :=
  if board.opens then streamLoop board (sock.items.length + 1) 0 sock else []

/-! ## The two ends -/

/-- What a text reader asks the socket for at a time. -/
def textChunk : ℕ := 8192

def okLine : List UInt8 :=
  "\x7b\"ok\": true\x7d".toList.map fun c => UInt8.ofNat c.toNat

/-- A line on the wire. -/
structure Line where
  text : List UInt8
  noNewline : newline ∉ text

def Line.bytes (l : Line) : List UInt8 := l.text ++ [newline]

/-- Where the client is: before `open_stream`, in its request with the text its
reader holds, in the stream, or out of `open_stream` with an exception. -/
inductive ClientAt
  | asking
  | waiting (text : List UInt8)
  | streaming
  | failed
  deriving Repr, DecidableEq

/-- Where the server's connection thread is: reading lines, with a request and what
its reader holds behind it, or in the stream. -/
inductive ServerAt
  | lines (text : List UInt8)
  | asked (behind : List UInt8)
  | streaming
  deriving Repr, DecidableEq

/-- A connection. `toServer` and `toClient` are the bytes sent and not taken by a
`recv` yet, `serverGot` and `clientGot` those the ends took after the switch, and
`clientLost` what the client's reader held behind its line when it was closed. -/
structure Session where
  client : ClientAt
  server : ServerAt
  toServer : List UInt8
  toClient : List UInt8
  serverGot : List UInt8
  clientGot : List UInt8
  clientLost : List UInt8
  clientSent : List Frame
  serverSent : List (List UInt8)
  closed : Bool
  deriving Repr, DecidableEq

/-- A connection whose requests so far have all been answered and read. -/
def Session.start : Session := ⟨.asking, .lines [], [], [], [], [], [], [], [], false⟩

inductive Action
  | ask
  | serverLine (k : ℕ)
  | accept
  | refuse (error : Line)
  | clientLine (k : ℕ)
  | pump (data : List UInt8)
  | call (c : Call)
  | serverRecv (k : ℕ)
  | clientRecv (k : ℕ)

/-- Some bytes are there, and a `recv` that asked for at most `limit` takes `k`. -/
def Takeable (k limit : ℕ) (wire : List UInt8) : Prop := 1 ≤ k ∧ k ≤ limit ∧ k ≤ wire.length

instance (k limit : ℕ) (wire : List UInt8) : Decidable (Takeable k limit wire) :=
  inferInstanceAs (Decidable (_ ∧ _ ∧ _))

/-- The client's reader holds this text: it waits for more, or `open_stream` returns
or raises. Then the reader is closed, with what it holds behind the line. -/
def clientReads (text : List UInt8) : ClientAt × List UInt8 :=
  if utf8Decodes text then
    match splitLine text with
    | none => (.waiting text, [])
    | some (line, behind) => (if line = okLine then .streaming else .failed, behind)
  else (.failed, [])

def serverReads (text : List UInt8) : ServerAt :=
  match splitLine text with
  | none => .lines text
  | some (_, behind) => .asked behind

/-- A payload too long for its length field raises before anything is sent. -/
def step (request : Line) (board : Board) (s : Session) : Action → Option Session
  | .ask =>
    if s.client = .asking then
      some { s with client := .waiting [], toServer := s.toServer ++ request.bytes }
    else none
  | .serverLine k =>
    match s.server with
    | .lines text =>
      if Takeable k textChunk s.toServer then
        some { s with
          server := serverReads (text ++ s.toServer.take k), toServer := s.toServer.drop k }
      else none
    | _ => none
  | .accept =>
    match s.server with
    | .asked _ =>
      some { s with server := .streaming, toClient := s.toClient ++ (okLine ++ [newline]) }
    | _ => none
  | .refuse error =>
    match s.server with
    | .asked behind =>
      if error.text = okLine then none
      else
        some { s with server := serverReads behind, toClient := s.toClient ++ error.bytes }
    | _ => none
  | .clientLine k =>
    match s.client with
    | .waiting text =>
      if Takeable k textChunk s.toClient then
        let (client, lost) := clientReads (text ++ s.toClient.take k)
        some { s with client := client, clientLost := lost, toClient := s.toClient.drop k }
      else none
    | _ => none
  | .pump data =>
    if s.server = .streaming ∧ board.opens ∧ data ≠ [] then
      match encodeFrame frameData data with
      | .ok bytes =>
        some { s with toClient := s.toClient ++ bytes, serverSent := s.serverSent ++ [data] }
      | .error _ => none
    else none
  | .call c =>
    if s.client = .streaming ∧ s.closed = false then
      match encodeFrame c.frame.frameType c.frame.payload with
      | .ok bytes =>
        some { s with
          toServer := s.toServer ++ bytes, clientSent := s.clientSent ++ [c.frame],
          closed := c = .close }
      | .error _ => none
    else none
  | .serverRecv k =>
    if s.server = .streaming ∧ Takeable k s.toServer.length s.toServer then
      some { s with
        serverGot := s.serverGot ++ s.toServer.take k, toServer := s.toServer.drop k }
    else none
  | .clientRecv k =>
    if s.client = .streaming ∧ Takeable k s.toClient.length s.toClient then
      some { s with
        clientGot := s.clientGot ++ s.toClient.take k, toClient := s.toClient.drop k }
    else none

/-! ## What the two ends read back -/

def dataBytes (data : List UInt8) : List UInt8 := (Frame.mk frameData data).bytes

/-- However the bytes sent so far are handed over, the client reads the payloads the
server sent and the server decodes the frames the client sent. -/
structure Exact (board : Board) (s : Session) : Prop where
  client : ∀ sock : Socket, sock.resets = false → sock.items = s.clientGot ++ s.toClient →
    answers remoteRead (s.serverSent.length + 1) sock =
      s.serverSent.map (.ok ∘ some) ++ [.ok none]
  server : ∀ sock : Socket, sock.resets = false → sock.items = s.serverGot ++ s.toServer →
    handleStream board sock = s.clientSent

/-- What the client's reader would hold behind its line after taking `k` bytes. -/
def behindLine (s : Session) (k : ℕ) : List UInt8 :=
  match s.client with
  | .waiting text => (clientReads (text ++ s.toClient.take k)).2
  | _ => []

/-- The read that brings the client the end of its line brings nothing behind it, no
payload is above the limit, and when the client sends a frame the port is open and
has taken those before it. -/
def Held (board : Board) (s : Session) : Action → Prop
  | .clientLine k => behindLine s k = []
  | .pump data => data.length ≤ maxFramePayload
  | .call c =>
    c.frame.payload.length ≤ maxFramePayload ∧ board.opens ∧
      ∀ i < s.clientSent.length, board.takes i
  | _ => True

instance (board : Board) (s : Session) : ∀ a, Decidable (Held board s a)
  | .clientLine k => inferInstanceAs (Decidable (behindLine s k = []))
  | .pump data => inferInstanceAs (Decidable (data.length ≤ maxFramePayload))
  | .call c =>
    inferInstanceAs (Decidable (c.frame.payload.length ≤ maxFramePayload ∧ board.opens ∧
      ∀ i < s.clientSent.length, board.takes i))
  | .ask | .serverLine _ | .accept | .refuse _ | .serverRecv _ | .clientRecv _ =>
    inferInstanceAs (Decidable True)

/-! ## The client's reads -/

def readResult : Except ReadError (Option Frame) → Except ReadError (Option (List UInt8))
  | .error _ => .error .registryUnavailable
  | .ok none => .ok none
  | .ok (some f) => .ok (if f.frameType = frameClose then none else some f.payload)

theorem remoteRead_eq (sock : Socket) :
    remoteRead sock =
      (readResult (readFrame clientReadExact sock).1, (readFrame clientReadExact sock).2) := by
  unfold remoteRead remoteReadFrame
  rcases readFrame clientReadExact sock with ⟨e | f, sock⟩
  · rfl
  · cases f <;> rfl

variable {sock : Socket} {datas : List (List UInt8)}

theorem fits_data {data : List UInt8} (h : data.length ≤ maxFramePayload) :
    (Frame.mk frameData data).Fits := ⟨Nat.lt_of_sub_eq_succ rfl, h⟩

theorem answers_remoteRead (hopen : sock.resets = false)
    (hfit : ∀ d ∈ datas, d.length ≤ maxFramePayload) (hv : sock.items = datas.flatMap dataBytes) :
    answers remoteRead (datas.length + 1) sock = datas.map (.ok ∘ some) ++ [.ok none] := by
  have hok : ∀ f ∈ datas.map (Frame.mk frameData), f.Fits := by
    intro f hf
    obtain ⟨d, hd, rfl⟩ := List.mem_map.mp hf
    exact fits_data (hfit d hd)
  have hbytes : datas.flatMap dataBytes = (datas.map (Frame.mk frameData)).flatMap Frame.bytes := by
    rw [List.flatMap_map]
    rfl
  have hans := reads_client.answers_encode hopen hok (hv.trans hbytes)
  rw [List.length_map] at hans
  rw [answers_map readResult remoteRead_eq, hans]
  simp [Function.comp_def, readResult, frameData, frameClose]

theorem exists_frames_of_map_readResult {l : List (Except ReadError (Option Frame))}
    (h : l.map readResult = datas.map (.ok ∘ some)) :
    ∃ fs : List Frame, l = fs.map (.ok ∘ some) ∧ fs.map Frame.payload = datas := by
  induction l generalizing datas with
  | nil =>
    refine ⟨[], rfl, ?_⟩
    exact (List.map_eq_nil_iff.mp h.symm).symm
  | cons r l ih =>
    cases datas with
    | nil => cases h
    | cons d datas =>
      obtain ⟨hr, hl⟩ := List.cons.inj h
      obtain ⟨fs, rfl, rfl⟩ := ih hl
      rcases r with e | _ | f
      · cases hr
      · cases hr
      · have hd : f.payload = d := by
          simp only [readResult, Function.comp_apply, Except.ok.injEq] at hr
          split at hr
          · cases hr
          · exact Option.some.inj hr
        exact ⟨f :: fs, rfl, by rw [List.map_cons, hd]⟩

/-- Payloads that were read were small enough and took their whole length off the
stream. -/
theorem of_answers_remoteRead (hopen : sock.resets = false)
    (h : answers remoteRead datas.length sock = datas.map (.ok ∘ some)) :
    (∀ d ∈ datas, d.length ≤ maxFramePayload) ∧
      (datas.flatMap dataBytes).length ≤ sock.items.length := by
  rw [answers_map readResult remoteRead_eq] at h
  obtain ⟨fs, hfs, rfl⟩ := exists_frames_of_map_readResult h
  rw [List.length_map] at hfs
  obtain ⟨hfit, rest, hv⟩ := reads_client.view_of_answers hopen hfs
  refine ⟨?_, ?_⟩
  · intro d hd
    obtain ⟨f, hf, rfl⟩ := List.mem_map.mp hd
    exact (hfit f hf).payload
  · rw [hv, List.length_append, List.flatMap_map, List.length_flatMap, List.length_flatMap]
    simp only [dataBytes, Frame.length_bytes]
    exact Nat.le_add_right _ _

/-! ## The server's loop -/

variable {board : Board} {fs : List Frame}

/-- The loop goes on behind every frame but the last. -/
def GoesOn (board : Board) (i : ℕ) (fs : List Frame) : Prop :=
  ∀ j f, fs[j]? = some f → j + 1 < fs.length →
    f.frameType ∈ [frameData, frameBreak, frameSetDtr, frameSetRts] ∧ board.takes (i + j)

theorem goesOn_cons_cons {i : ℕ} {f g : Frame} :
    GoesOn board i (f :: g :: fs) ↔
      (f.frameType ∈ [frameData, frameBreak, frameSetDtr, frameSetRts] ∧ board.takes i) ∧
        GoesOn board (i + 1) (g :: fs) := by
  constructor
  · intro h
    refine ⟨h 0 f rfl (by simp), fun j e hj hlt => ?_⟩
    have := h (j + 1) e hj (by simpa using hlt)
    rwa [Nat.add_right_comm]
  · rintro ⟨hf, h⟩ j e hj hlt
    cases j with
    | zero =>
      cases hj
      exact hf
    | succ j =>
      have := h j e hj (by simpa using hlt)
      rwa [Nat.add_right_comm] at this

theorem streamLoop_of_nothing {turns i : ℕ} (hopen : sock.resets = false) (hv : sock.items = []) :
    streamLoop board turns i sock = [] := by
  cases turns with
  | zero => rfl
  | succ turns =>
    have hread : readFrame serverReadExact sock = (.ok none, (readFrame serverReadExact sock).2) :=
      Prod.ext (reads_server.nothing hopen hv) rfl
    rw [streamLoop, hread]

theorem streamLoop_of_goesOn {turns i : ℕ} (hopen : sock.resets = false) (hfit : ∀ f ∈ fs, f.Fits)
    (hgo : GoesOn board i fs) (hv : sock.items = fs.flatMap Frame.bytes) (ht : fs.length ≤ turns) :
    streamLoop board turns i sock = fs := by
  induction fs generalizing turns i sock with
  | nil => exact streamLoop_of_nothing hopen hv
  | cons f fs ih =>
    obtain ⟨turns, rfl⟩ : ∃ t, turns = t + 1 :=
      Nat.exists_eq_add_one.mpr (Nat.lt_of_lt_of_le (by simp) ht)
    rw [List.forall_mem_cons] at hfit
    rw [List.flatMap_cons] at hv
    have hread : readFrame serverReadExact sock =
        (.ok (some f), (readFrame serverReadExact sock).2) :=
      Prod.ext (reads_server.item hopen hfit.1 hv) rfl
    obtain ⟨hrest, hopen'⟩ := reads_server.view_of_append hopen hfit.1 hv
    rw [streamLoop, hread]
    cases fs with
    | nil =>
      dsimp only
      rw [streamLoop_of_nothing hopen' hrest, ite_self]
    | cons g fs =>
      rw [goesOn_cons_cons] at hgo
      dsimp only
      rw [if_pos hgo.1, ih hopen' hfit.2 hgo.2 hrest (by simpa using ht)]

theorem goesOn_of_streamLoop {turns i : ℕ} (hopen : sock.resets = false)
    (h : streamLoop board turns i sock = fs) : (∀ f ∈ fs, f.Fits) ∧ GoesOn board i fs := by
  induction turns generalizing fs i sock with
  | zero =>
    subst h
    exact ⟨by simp [streamLoop], fun j f hj => by simp [streamLoop] at hj⟩
  | succ turns ih =>
    rw [streamLoop] at h
    split at h
    next f sock' hread =>
      obtain ⟨hfit, -, hopen'⟩ := reads_server.sound hopen (congrArg Prod.fst hread)
      rw [hread] at hopen'
      split at h
      next hgo =>
        obtain ⟨hfits, hrest⟩ := ih hopen' rfl
        subst h
        refine ⟨List.forall_mem_cons.mpr ⟨hfit, hfits⟩, ?_⟩
        cases hloop : streamLoop board turns (i + 1) sock' with
        | nil => exact fun j e _ hlt => by simp at hlt
        | cons g gs => exact goesOn_cons_cons.mpr ⟨hgo, hloop ▸ hrest⟩
      next =>
        subst h
        exact ⟨List.forall_mem_singleton.mpr hfit, fun j e _ hlt => by simp at hlt⟩
    next =>
      subst h
      exact ⟨by simp, fun j e hj => by simp at hj⟩

theorem length_le_flatMap_bytes (fs : List Frame) :
    fs.length ≤ (fs.flatMap Frame.bytes).length := by
  induction fs with
  | nil => exact Nat.le_refl 0
  | cons f fs ih =>
    rw [List.flatMap_cons, List.length_append, Frame.length_bytes, List.length_cons]
    simp only [headerSize]
    omega

theorem handleStream_eq_iff (hopen : sock.resets = false)
    (hv : sock.items = fs.flatMap Frame.bytes) :
    handleStream board sock = fs ↔
      (fs = [] ∨ board.opens) ∧ (∀ f ∈ fs, f.Fits) ∧ GoesOn board 0 fs := by
  unfold handleStream
  constructor
  · intro h
    split at h
    next hopens => exact ⟨.inr hopens, goesOn_of_streamLoop hopen h⟩
    next =>
      subst h
      exact ⟨.inl rfl, by simp, fun j e hj => by simp at hj⟩
  · rintro ⟨hfirst, hfit, hgo⟩
    split
    next =>
      refine streamLoop_of_goesOn hopen hfit hgo hv ?_
      rw [hv]
      exact Nat.le_succ_of_le (length_le_flatMap_bytes fs)
    next hopens =>
      rcases hfirst with rfl | h
      · rfl
      · exact absurd h hopens

/-! ## What is on the wire -/

variable {request : Line} {s s' : Session} {a : Action} {as : List Action}

/-- How the bytes on the connection stand to where the two ends are. -/
def Along (request : Line) (s : Session) : ClientAt → ServerAt → Prop
  | .asking, .lines t => t = [] ∧ s.toServer = [] ∧ s.toClient = [] ∧ s.serverSent = []
  | .waiting text, .lines t =>
    (t ++ s.toServer = request.bytes ∧ newline ∉ t ∧ text = [] ∧ s.toClient = [] ∧
      s.serverSent = []) ∨
    (t = [] ∧ s.toServer = [] ∧ s.serverSent = [] ∧ newline ∉ text ∧
      ∃ error : Line, error.text ≠ okLine ∧ text ++ s.toClient = error.bytes)
  | .waiting text, .asked behind =>
    behind = [] ∧ s.toServer = [] ∧ text = [] ∧ s.toClient = [] ∧ s.serverSent = []
  | .waiting text, .streaming =>
    s.toServer = [] ∧ newline ∉ text ∧
      text ++ s.toClient = okLine ++ newline :: s.serverSent.flatMap dataBytes
  | .streaming, .streaming =>
    s.serverGot ++ s.toServer = s.clientSent.flatMap Frame.bytes ∧
      s.clientLost ++ (s.clientGot ++ s.toClient) = s.serverSent.flatMap dataBytes
  | .failed, _ => True
  | _, _ => False

structure Synced (request : Line) (s : Session) : Prop where
  along : Along request s s.client s.server
  quiet : s.client ≠ .streaming → s.client ≠ .failed →
    s.clientSent = [] ∧ s.clientGot = [] ∧ s.serverGot = [] ∧ s.clientLost = []
  kinds : s.closed = false →
    ∀ f ∈ s.clientSent, f.frameType ∈ [frameData, frameBreak, frameSetDtr, frameSetRts]

theorem synced_start : Synced request .start where
  along := ⟨rfl, rfl, rfl, rfl⟩
  quiet _ _ := ⟨rfl, rfl, rfl, rfl⟩
  kinds _ := by simp [Session.start]

theorem newline_notMem_okLine : newline ∉ okLine := by decide

theorem splitLine_of_append {text more line rest : List UInt8}
    (h : text ++ more = line ++ newline :: rest) (hl : newline ∉ line) :
    (newline ∉ text ∧ splitLine text = none) ∨
      ∃ behind, splitLine text = some (line, behind) ∧ behind ++ more = rest := by
  cases hs : splitLine text with
  | none => exact .inl ⟨splitLine_eq_none_iff.mp hs, rfl⟩
  | some r =>
    obtain ⟨line', behind⟩ := r
    obtain ⟨rfl, hl'⟩ := splitLine_eq_some_iff.mp hs
    rw [List.append_assoc, List.cons_append] at h
    obtain ⟨rfl, hrest⟩ := eq_of_line_append h hl' hl
    exact .inr ⟨behind, rfl, hrest⟩

theorem synced_ask (h : Synced request s) (hs : step request board s .ask = some s') :
    Synced request s' := by
  simp only [step, Option.ite_none_right_eq_some, Option.some.injEq] at hs
  obtain ⟨hc, rfl⟩ := hs
  have hal := h.along
  rw [hc] at hal
  cases hv : s.server with
  | lines t =>
    rw [hv] at hal
    obtain ⟨rfl, hts, htc, hss⟩ := hal
    exact ⟨Or.inl ⟨by simp [hts], by simp, rfl, htc, hss⟩,
      fun _ _ => h.quiet (by simp [hc]) (by simp [hc]), h.kinds⟩
  | asked => rw [hv] at hal; exact hal.elim
  | streaming => rw [hv] at hal; exact hal.elim

theorem not_takeable_nil {k limit : ℕ} : ¬ Takeable k limit [] := by
  rintro ⟨hk, -, hle⟩
  exact absurd (Nat.le_trans hk hle) (by simp)

theorem synced_serverLine {k : ℕ} (h : Synced request s)
    (hs : step request board s (.serverLine k) = some s') : Synced request s' := by
  simp only [step] at hs
  split at hs
  next t hv =>
    simp only [Option.ite_none_right_eq_some, Option.some.injEq] at hs
    obtain ⟨hk, rfl⟩ := hs
    refine ⟨?_, h.quiet, h.kinds⟩
    have hal := h.along
    rw [hv] at hal
    cases hc : s.client with
    | asking =>
      rw [hc] at hal
      exact absurd (hal.2.1 ▸ hk) not_takeable_nil
    | waiting text =>
      rw [hc] at hal
      rcases hal with ⟨hreq, hn, htext, htc, hss⟩ | ⟨-, hts, -⟩
      · have happ : (t ++ s.toServer.take k) ++ s.toServer.drop k =
            request.text ++ newline :: [] := by
          rw [List.append_assoc, List.take_append_drop, hreq, Line.bytes]
        simp only [serverReads]
        rcases splitLine_of_append happ request.noNewline with ⟨hn', hsplit⟩ | ⟨behind, hsplit, hb⟩
        · rw [hsplit]
          exact .inl ⟨happ, hn', htext, htc, hss⟩
        · rw [hsplit]
          obtain ⟨rfl, hdrop⟩ := List.append_eq_nil_iff.mp hb
          exact ⟨rfl, hdrop, htext, htc, hss⟩
      · exact absurd (hts ▸ hk) not_takeable_nil
    | streaming => rw [hc] at hal; exact hal.elim
    | failed => trivial
  all_goals cases hs

theorem synced_accept (h : Synced request s) (hs : step request board s .accept = some s') :
    Synced request s' := by
  simp only [step] at hs
  split at hs
  next behind hv =>
    obtain rfl := Option.some.inj hs
    refine ⟨?_, h.quiet, h.kinds⟩
    have hal := h.along
    rw [hv] at hal
    cases hc : s.client with
    | waiting text =>
      rw [hc] at hal
      obtain ⟨-, hts, rfl, htc, hss⟩ := hal
      exact ⟨hts, by simp, by simp [htc, hss]⟩
    | failed => trivial
    | asking => rw [hc] at hal; exact hal.elim
    | streaming => rw [hc] at hal; exact hal.elim
  all_goals cases hs

theorem synced_refuse {error : Line} (h : Synced request s)
    (hs : step request board s (.refuse error) = some s') : Synced request s' := by
  simp only [step] at hs
  split at hs
  next behind hv =>
    simp only [Option.ite_none_left_eq_some, Option.some.injEq] at hs
    obtain ⟨hne, rfl⟩ := hs
    refine ⟨?_, h.quiet, h.kinds⟩
    have hal := h.along
    rw [hv] at hal
    cases hc : s.client with
    | waiting text =>
      rw [hc] at hal
      obtain ⟨rfl, hts, rfl, htc, hss⟩ := hal
      exact .inr ⟨rfl, hts, hss, by simp, error, hne, by simp [htc]⟩
    | failed => trivial
    | asking => rw [hc] at hal; exact hal.elim
    | streaming => rw [hc] at hal; exact hal.elim
  all_goals cases hs

theorem clientReads_waiting {text : List UInt8} (h₁ : (clientReads text).1 ≠ .streaming)
    (h₂ : (clientReads text).1 ≠ .failed) : (clientReads text).2 = [] := by
  unfold clientReads at *
  split at h₁
  next hd =>
    simp only [hd, if_true] at h₂ ⊢
    split at h₁
    next => rfl
    next line behind hn =>
      rw [hn] at h₂
      dsimp only at h₁ h₂
      split at h₁
      · exact absurd rfl h₁
      next hne => exact absurd (if_neg hne) h₂
  next hd =>
    simp only [hd] at h₂
    exact absurd rfl h₂

theorem synced_clientLine {k : ℕ} (h : Synced request s)
    (hs : step request board s (.clientLine k) = some s') : Synced request s' := by
  simp only [step] at hs
  split at hs
  next text hc =>
    simp only [Option.ite_none_right_eq_some, Option.some.injEq] at hs
    obtain ⟨hk, rfl⟩ := hs
    have hal := h.along
    rw [hc] at hal
    obtain ⟨hcs, hcg, hsg, -⟩ := h.quiet (by simp [hc]) (by simp [hc])
    refine ⟨?_, fun h₁ h₂ => ⟨hcs, hcg, hsg, clientReads_waiting h₁ h₂⟩, h.kinds⟩
    unfold clientReads
    split
    · cases hv : s.server with
      | lines t =>
        rw [hv] at hal
        rcases hal with ⟨-, -, -, htc, -⟩ | ⟨rfl, hts, hss, hn, error, hne, herr⟩
        · exact absurd (htc ▸ hk) not_takeable_nil
        · have happ : (text ++ s.toClient.take k) ++ s.toClient.drop k =
              error.text ++ newline :: [] := by
            rw [List.append_assoc, List.take_append_drop, herr, Line.bytes]
          rcases splitLine_of_append happ error.noNewline with ⟨hn', hsplit⟩ | ⟨behind, hsplit, -⟩
          · rw [hsplit]
            exact .inr ⟨rfl, hts, hss, hn', error, hne, happ⟩
          · rw [hsplit]
            simp only [if_neg hne]
            trivial
      | asked behind =>
        rw [hv] at hal
        exact absurd (hal.2.2.2.1 ▸ hk) not_takeable_nil
      | streaming =>
        rw [hv] at hal
        obtain ⟨hts, hn, hwire⟩ := hal
        have happ : (text ++ s.toClient.take k) ++ s.toClient.drop k =
            okLine ++ newline :: s.serverSent.flatMap dataBytes := by
          rw [List.append_assoc, List.take_append_drop, hwire]
        rcases splitLine_of_append happ newline_notMem_okLine with
          ⟨hn', hsplit⟩ | ⟨behind, hsplit, hb⟩
        · rw [hsplit]
          exact ⟨hts, hn', happ⟩
        · rw [hsplit]
          simp only [if_true]
          exact ⟨by simp [hsg, hts, hcs], by simp [hcg, hb]⟩
    · trivial
  all_goals cases hs

theorem eq_bytes_of_encodeFrame {f : Frame} {bytes : List UInt8}
    (h : encodeFrame f.frameType f.payload = .ok bytes) : bytes = f.bytes := by
  unfold encodeFrame at h
  split at h
  · cases h
  · split at h <;> cases h
    rfl

theorem synced_pump {data : List UInt8} (h : Synced request s)
    (hs : step request board s (.pump data) = some s') : Synced request s' := by
  simp only [step, Option.ite_none_right_eq_some] at hs
  obtain ⟨⟨hv, -, -⟩, hs⟩ := hs
  split at hs
  next bytes henc =>
    obtain rfl := Option.some.inj hs
    obtain rfl : bytes = dataBytes data := eq_bytes_of_encodeFrame (f := ⟨frameData, data⟩) henc
    refine ⟨?_, h.quiet, h.kinds⟩
    have hal := h.along
    rw [hv] at hal
    cases hc : s.client with
    | asking => rw [hc] at hal; exact hal.elim
    | waiting text =>
      rw [hc] at hal
      obtain ⟨hts, hn, hwire⟩ := hal
      simp only [hv]
      refine ⟨hts, hn, ?_⟩
      rw [← List.append_assoc, hwire]
      simp
    | streaming =>
      rw [hc] at hal
      obtain ⟨hserver, hclient⟩ := hal
      simp only [hv]
      refine ⟨hserver, ?_⟩
      simp only [List.flatMap_append, ← hclient, List.append_assoc, List.flatMap_singleton]
    | failed => trivial
  · cases hs

theorem Call.kind (c : Call) :
    c.frame.frameType ∈ [frameData, frameBreak, frameSetDtr, frameSetRts] ∨ c = .close := by
  cases c <;> simp [Call.frame]

theorem synced_call {c : Call} (h : Synced request s)
    (hs : step request board s (.call c) = some s') : Synced request s' := by
  simp only [step, Option.ite_none_right_eq_some] at hs
  obtain ⟨⟨hc, hopen⟩, hs⟩ := hs
  split at hs
  next bytes henc =>
    obtain rfl := Option.some.inj hs
    obtain rfl := eq_bytes_of_encodeFrame henc
    have hal := h.along
    rw [hc] at hal
    refine ⟨?_, fun hne => absurd hc hne, ?_⟩
    · cases hv : s.server with
      | lines t => rw [hv] at hal; exact hal.elim
      | asked behind => rw [hv] at hal; exact hal.elim
      | streaming =>
        rw [hv] at hal
        simp only [hc]
        refine ⟨?_, hal.2⟩
        simp [← List.append_assoc, hal.1]
    · intro hclosed f hf
      rcases List.mem_append.mp hf with hf | hf
      · exact h.kinds hopen f hf
      · rw [List.mem_singleton.mp hf]
        rcases c.kind with hk | rfl
        · exact hk
        · simp at hclosed
  · cases hs

theorem synced_serverRecv {k : ℕ} (h : Synced request s)
    (hs : step request board s (.serverRecv k) = some s') : Synced request s' := by
  simp only [step, Option.ite_none_right_eq_some, Option.some.injEq] at hs
  obtain ⟨⟨hv, hk⟩, rfl⟩ := hs
  have hal := h.along
  rw [hv] at hal
  cases hc : s.client with
  | asking => rw [hc] at hal; exact hal.elim
  | waiting text =>
    rw [hc] at hal
    exact absurd (hal.1 ▸ hk) not_takeable_nil
  | streaming =>
    rw [hc] at hal
    refine ⟨?_, fun hne => absurd rfl hne, h.kinds⟩
    simp only [hv]
    exact ⟨by simp [hal.1], hal.2⟩
  | failed =>
    refine ⟨?_, fun _ hne => absurd rfl hne, h.kinds⟩
    trivial

theorem synced_clientRecv {k : ℕ} (h : Synced request s)
    (hs : step request board s (.clientRecv k) = some s') : Synced request s' := by
  simp only [step, Option.ite_none_right_eq_some, Option.some.injEq] at hs
  obtain ⟨⟨hc, -⟩, rfl⟩ := hs
  have hal := h.along
  rw [hc] at hal
  refine ⟨?_, fun hne => absurd hc hne, h.kinds⟩
  cases hv : s.server with
  | lines t => rw [hv] at hal; exact hal.elim
  | asked behind => rw [hv] at hal; exact hal.elim
  | streaming =>
    rw [hv] at hal
    simp only [hc]
    exact ⟨hal.1, by simp [hal.2]⟩

theorem synced_step (h : Synced request s) (hs : step request board s a = some s') :
    Synced request s' := by
  cases a with
  | ask => exact synced_ask h hs
  | serverLine => exact synced_serverLine h hs
  | accept => exact synced_accept h hs
  | refuse => exact synced_refuse h hs
  | clientLine => exact synced_clientLine h hs
  | pump => exact synced_pump h hs
  | call => exact synced_call h hs
  | serverRecv => exact synced_serverRecv h hs
  | clientRecv => exact synced_clientRecv h hs

/-! ## The sessions that lose nothing -/

structure Lossless (board : Board) (s : Session) : Prop where
  lost : s.clientLost = []
  datas : ∀ d ∈ s.serverSent, d.length ≤ maxFramePayload
  frames : ∀ f ∈ s.clientSent, f.Fits
  opens : s.clientSent = [] ∨ board.opens
  goesOn : GoesOn board 0 s.clientSent

theorem lossless_start : Lossless board .start where
  lost := rfl
  datas := by simp [Session.start]
  frames := by simp [Session.start]
  opens := .inl rfl
  goesOn j f hj := by simp [Session.start] at hj

theorem items_closing_pushBack (bytes : List UInt8) :
    (Source.closing (pushBack bytes [])).items = bytes := by simp

theorem exact_iff (h : Synced request s) (hc : s.client = .streaming) :
    Exact board s ↔ Lossless board s := by
  have hal := h.along
  rw [hc] at hal
  cases hv : s.server with
  | lines t => rw [hv] at hal; exact hal.elim
  | asked behind => rw [hv] at hal; exact hal.elim
  | streaming =>
    rw [hv] at hal
    obtain ⟨hserver, hclient⟩ := hal
    constructor
    · rintro ⟨hreads, hdecodes⟩
      have hbytes := items_closing_pushBack (s.clientGot ++ s.toClient)
      have hans := congrArg (List.take s.serverSent.length)
        (hreads (.closing (pushBack _ [])) rfl hbytes)
      rw [take_answers, List.take_left' (List.length_map ..)] at hans
      obtain ⟨hdatas, hlen⟩ := of_answers_remoteRead (Source.resets_closing _) hans
      rw [hbytes, ← hclient, List.length_append] at hlen
      have hdec := hdecodes (.closing (pushBack _ [])) rfl (items_closing_pushBack _)
      obtain ⟨hopens, hframes, hgo⟩ := (handleStream_eq_iff rfl
        ((items_closing_pushBack _).trans hserver)).mp hdec
      exact ⟨List.length_eq_zero_iff.mp (by omega), hdatas, hframes, hopens, hgo⟩
    · rintro ⟨hlost, hdatas, hframes, hopens, hgo⟩
      rw [hlost, List.nil_append] at hclient
      exact ⟨fun sock hre hitems => answers_remoteRead hre hdatas (hitems.trans hclient),
        fun sock hre hitems => (handleStream_eq_iff hre (hitems.trans hserver)).mpr
          ⟨hopens, hframes, hgo⟩⟩

theorem lossless_congr (hlost : s'.clientLost = s.clientLost)
    (hserver : s'.serverSent = s.serverSent) (hclient : s'.clientSent = s.clientSent) :
    Lossless board s' ↔ Lossless board s := by
  constructor
  · rintro ⟨h₁, h₂, h₃, h₄, h₅⟩
    exact ⟨hlost ▸ h₁, hserver ▸ h₂, hclient ▸ h₃, hclient ▸ h₄, hclient ▸ h₅⟩
  · rintro ⟨h₁, h₂, h₃, h₄, h₅⟩
    exact ⟨hlost ▸ h₁, hserver ▸ h₂, hclient ▸ h₃, hclient ▸ h₄, hclient ▸ h₅⟩

theorem goesOn_concat_iff {f : Frame} (hk : ∀ g ∈ fs,
    g.frameType ∈ [frameData, frameBreak, frameSetDtr, frameSetRts]) :
    GoesOn board 0 (fs ++ [f]) ↔ ∀ i < fs.length, board.takes i := by
  constructor
  · intro h i hi
    have hget : (fs ++ [f])[i]? = some fs[i] := by
      rw [List.getElem?_append_left hi, List.getElem?_eq_getElem hi]
    simpa using (h i fs[i] hget (by simpa using hi)).2
  · intro h j g hj hlt
    have hlt' : j < fs.length := by simpa using hlt
    rw [List.getElem?_append_left hlt'] at hj
    exact ⟨hk g (List.mem_of_getElem? hj), by simpa using h j hlt'⟩

theorem goesOn_of_takes (hk : ∀ g ∈ fs,
    g.frameType ∈ [frameData, frameBreak, frameSetDtr, frameSetRts])
    (h : ∀ i < fs.length, board.takes i) : GoesOn board 0 fs := by
  intro j g hj hlt
  exact ⟨hk g (List.mem_of_getElem? hj), by simpa using h j (by omega)⟩

theorem fits_call_iff (c : Call) : c.frame.Fits ↔ c.frame.payload.length ≤ maxFramePayload := by
  refine ⟨fun h => h.payload, fun h => ⟨?_, h⟩⟩
  cases c <;> exact Nat.lt_of_sub_eq_succ rfl

theorem lossless_call {c : Call} (h : Synced request s)
    (hs : step request board s (.call c) = some s') :
    Lossless board s' ↔ Lossless board s ∧ Held board s (.call c) := by
  simp only [step, Option.ite_none_right_eq_some] at hs
  obtain ⟨⟨-, hopen⟩, hs⟩ := hs
  have hk := h.kinds hopen
  split at hs
  · obtain rfl := Option.some.inj hs
    constructor
    · rintro ⟨hlost, hdatas, hframes, hopens, hgo⟩
      have hb : board.opens := hopens.resolve_left (by simp)
      have htakes := (goesOn_concat_iff hk).mp hgo
      have hc := hframes c.frame (by simp)
      refine ⟨⟨hlost, hdatas, fun f hf => hframes f (by simp [hf]), .inr hb, ?_⟩,
        hc.payload, hb, htakes⟩
      exact goesOn_of_takes hk htakes
    · rintro ⟨⟨hlost, hdatas, hframes, -, -⟩, hc, hb, htakes⟩
      refine ⟨hlost, hdatas, ?_, .inr hb, (goesOn_concat_iff hk).mpr htakes⟩
      intro f hf
      rcases List.mem_append.mp hf with hf | hf
      · exact hframes f hf
      · rw [List.mem_singleton.mp hf]
        exact (fits_call_iff c).mpr hc
  · cases hs

theorem lossless_pump {data : List UInt8} (hs : step request board s (.pump data) = some s') :
    Lossless board s' ↔ Lossless board s ∧ Held board s (.pump data) := by
  simp only [step, Option.ite_none_right_eq_some] at hs
  obtain ⟨-, hs⟩ := hs
  split at hs
  · obtain rfl := Option.some.inj hs
    constructor
    · rintro ⟨hlost, hdatas, hframes, hopens, hgo⟩
      exact ⟨⟨hlost, fun d hd => hdatas d (by simp [hd]), hframes, hopens, hgo⟩,
        hdatas data (by simp)⟩
    · rintro ⟨⟨hlost, hdatas, hframes, hopens, hgo⟩, hd⟩
      refine ⟨hlost, ?_, hframes, hopens, hgo⟩
      intro d hm
      rcases List.mem_append.mp hm with hm | hm
      · exact hdatas d hm
      · rw [List.mem_singleton.mp hm]
        exact hd
  · cases hs

theorem lossless_clientLine {k : ℕ} (h : Synced request s)
    (hs : step request board s (.clientLine k) = some s') :
    Lossless board s' ↔ Lossless board s ∧ Held board s (.clientLine k) := by
  simp only [step] at hs
  split at hs
  next text hc =>
    simp only [Option.ite_none_right_eq_some, Option.some.injEq] at hs
    obtain ⟨-, rfl⟩ := hs
    obtain ⟨-, -, -, hlost⟩ := h.quiet (by simp [hc]) (by simp [hc])
    simp only [Held, behindLine, hc]
    constructor
    · rintro ⟨hlost', hdatas, hframes, hopens, hgo⟩
      exact ⟨⟨hlost, hdatas, hframes, hopens, hgo⟩, hlost'⟩
    · rintro ⟨⟨-, hdatas, hframes, hopens, hgo⟩, hlost'⟩
      exact ⟨hlost', hdatas, hframes, hopens, hgo⟩
  all_goals cases hs

/-- The other steps leave what was sent and what was lost alone. -/
theorem lossless_of_untouched (ha : Held board s a) (hlost : s'.clientLost = s.clientLost)
    (hserver : s'.serverSent = s.serverSent) (hclient : s'.clientSent = s.clientSent) :
    Lossless board s' ↔ Lossless board s ∧ Held board s a :=
  (lossless_congr hlost hserver hclient).trans (and_iff_left ha).symm

theorem lossless_step (h : Synced request s) (hs : step request board s a = some s') :
    Lossless board s' ↔ Lossless board s ∧ Held board s a := by
  cases a with
  | clientLine k => exact lossless_clientLine h hs
  | pump data => exact lossless_pump hs
  | call c => exact lossless_call h hs
  | ask =>
    simp only [step, Option.ite_none_right_eq_some, Option.some.injEq] at hs
    obtain ⟨-, rfl⟩ := hs
    exact lossless_of_untouched trivial rfl rfl rfl
  | serverLine k =>
    simp only [step] at hs
    split at hs
    · simp only [Option.ite_none_right_eq_some, Option.some.injEq] at hs
      obtain ⟨-, rfl⟩ := hs
      exact lossless_of_untouched trivial rfl rfl rfl
    all_goals cases hs
  | accept =>
    simp only [step] at hs
    split at hs
    · obtain rfl := Option.some.inj hs
      exact lossless_of_untouched trivial rfl rfl rfl
    all_goals cases hs
  | refuse error =>
    simp only [step] at hs
    split at hs
    · simp only [Option.ite_none_left_eq_some, Option.some.injEq] at hs
      obtain ⟨-, rfl⟩ := hs
      exact lossless_of_untouched trivial rfl rfl rfl
    all_goals cases hs
  | serverRecv k =>
    simp only [step, Option.ite_none_right_eq_some, Option.some.injEq] at hs
    obtain ⟨-, rfl⟩ := hs
    exact lossless_of_untouched trivial rfl rfl rfl
  | clientRecv k =>
    simp only [step, Option.ite_none_right_eq_some, Option.some.injEq] at hs
    obtain ⟨-, rfl⟩ := hs
    exact lossless_of_untouched trivial rfl rfl rfl

/-- A session loses nothing exactly when its run held to this: nothing has come with
the end of the client's line, the payloads are within the limit, and the port takes
what the client sends. -/
theorem switch_exact_iff (hr : exec (step request board) .start as = some s)
    (hc : s.client = .streaming) :
    Exact board s ↔ Meets (step request board) (Held board) .start as := by
  have hsync : Synced request s :=
    inv_of_exec (fun _ _ _ h hs => synced_step h hs) synced_start hr
  rw [exact_iff hsync hc, meets_iff_of_exec (fun _ _ _ h hs => synced_step h hs)
    (fun _ _ _ h hs => lossless_step h hs) synced_start hr]
  exact and_iff_right lossless_start

def streamRequest : Line where
  text := "\x7b\"op\": \"stream\"\x7d".toList.map fun c => UInt8.ofNat c.toNat
  noNewline := by decide

def boardUp : Board := ⟨true, fun _ => true⟩

/-- The board's first output right behind the answer, and both in one read of the
client's. -/
def coalesced : List Action :=
  [.ask, .serverLine 17, .accept, .pump [104, 105], .clientLine 20, .call .sendBreak]

def separate : List Action :=
  [.ask, .serverLine 17, .accept, .pump [104, 105], .clientLine 13, .call .sendBreak]

theorem switch_exact_iff_separate :
    ∃ s, exec (step streamRequest boardUp) .start separate = some s ∧ s.client = .streaming ∧
      Exact boardUp s := by
  have hrun : exec (step streamRequest boardUp) .start separate = some _ := rfl
  refine ⟨_, hrun, rfl, (switch_exact_iff hrun rfl).mpr ?_⟩
  decide

theorem switch_loses_first_frame :
    ¬ ∀ request board as s, exec (step request board) .start as = some s → s.client = .streaming →
      Exact board s := by
  intro h
  have hex := h streamRequest boardUp coalesced _ rfl rfl
  have := hex.client (.closing []) rfl rfl
  cases this

end MbTools.Stream
