import MbTools.Stream.Switch

/-! # From the board's port to the reader

A thread on the owner's side reads the port and sends each chunk as a frame. A thread
on the other side reads frames into a buffer, which `read` and `readline` take from
with a bounded wait. Any number of callers may wait at once.
-/

namespace MbTools.Stream

open Chunks Framing Lines Runs

/-! ## The session's buffer -/

structure RemoteSession where
  buf : List UInt8
  eof : Bool
  deriving Repr, DecidableEq

namespace RemoteSession

/-- A turn of `_pump` with what `stream.read()` gave, `none` where it raised. -/
def pump (s : RemoteSession) : Option (List UInt8) → RemoteSession
  | none => { s with eof := true }
  | some payload => if payload = [] then s else { s with buf := s.buf ++ payload }

/-- `readline`, from where it no longer waits. -/
def readline (s : RemoteSession) : List UInt8 × RemoteSession :=
  match splitLine s.buf with
  | none => (s.buf, { s with buf := [] })
  | some (line, rest) => (line ++ [newline], { s with buf := rest })

/-- `read`, from where it no longer waits. -/
def read (s : RemoteSession) (size : ℤ) : List UInt8 × RemoteSession :=
  if size ≤ 0 then ([], s)
  else
    let n := min size.toNat s.buf.length
    (s.buf.take n, { s with buf := s.buf.drop n })

end RemoteSession

inductive Reading
  | line
  | bytes (size : ℤ)
  deriving Repr, DecidableEq

/-- Nothing to wait for. -/
def RemoteSession.ready (s : RemoteSession) : Reading → Bool
  | .line => newline ∈ s.buf || s.eof
  | .bytes size => size ≤ 0 || size ≤ s.buf.length || s.eof

def RemoteSession.take (s : RemoteSession) : Reading → List UInt8 × RemoteSession
  | .line => s.readline
  | .bytes size => s.read size

/-! ## The two ends -/

/-- The state of both ends. `chunks` is what the owner's thread read from the port,
`frames` the payloads of the frames it gave to `sendall`, `wire` the bytes sent and
not read yet, `payloads` what the reads of the other end gave, `waiting` the calls
that have not returned with their deadlines and `returned` the values returned. -/
structure Delivery where
  chunks : List (List UInt8)
  frames : List (List UInt8)
  pumping : Bool
  wire : List UInt8
  closed : Bool
  payloads : List (List UInt8)
  session : RemoteSession
  now : ℕ
  waiting : List (Reading × ℕ)
  returned : List (List UInt8)
  deriving Repr, DecidableEq

inductive Hop
  | chunk (data : List UInt8)
  | sendFails (data : List UInt8) (k : ℕ)
  | pumpEnds
  | emptyFrame
  | closeFrame
  | connEnds
  | turn (pieces : List (Piece UInt8))
  | readFails
  | tick
  | ask (r : Reading)
  | answer (i : ℕ)
  deriving Repr, DecidableEq

/-- What the owner's thread read from the port. -/
def Hop.read : Hop → List (List UInt8)
  | chunk data | sendFails data _ => [data]
  | _ => []

namespace Delivery

def start : Delivery := ⟨[], [], true, [], false, [], ⟨[], false⟩, 0, [], []⟩

/-- The frame that the socket holds is not all there: on an open connection the read
waits. -/
def waits (sock : Socket) : Bool :=
  match (readFrame clientReadExact sock).1 with
  | .ok none => true
  | .error (.frameError (.truncatedHeader _)) => true
  | .error (.frameError (.truncatedPayload _ _)) => true
  | _ => false

/-- What `_pump` makes of a read. -/
def pumped : Except ReadError (Option (List UInt8)) → Option (List UInt8)
  | .ok payload => payload
  | .error _ => none

def step (readTimeout : ℕ) (s : Delivery) : Hop → Option Delivery
  | .chunk data =>
    if s.pumping ∧ s.closed = false then
      if data = [] then some { s with chunks := s.chunks ++ [data] }
      else
        match encodeFrame frameData data with
        | .ok bytes =>
          some { s with
            chunks := s.chunks ++ [data], frames := s.frames ++ [data], wire := s.wire ++ bytes }
        | .error _ => some { s with chunks := s.chunks ++ [data], pumping := false }
    else none
  | .sendFails data k =>
    if s.pumping ∧ data ≠ [] then
      match encodeFrame frameData data with
      | .ok bytes =>
        -- `sendall` raises with a part of the frame on its way
        if k < bytes.length then
          some { s with
            chunks := s.chunks ++ [data], frames := s.frames ++ [data],
            wire := s.wire ++ bytes.take k, pumping := false }
        else none
      | .error _ => none
    else none
  | .pumpEnds => some { s with pumping := false }
  | .emptyFrame =>
    if s.pumping ∧ s.closed = false then
      some { s with frames := s.frames ++ [[]], wire := s.wire ++ (Frame.mk frameData []).bytes }
    else none
  | .closeFrame =>
    if s.pumping ∧ s.closed = false then
      some { s with wire := s.wire ++ (Frame.mk frameClose []).bytes, pumping := false }
    else none
  | .connEnds => some { s with closed := true }
  | .turn pieces =>
    let sock : Socket := .closing pieces
    if s.session.eof = false ∧ sock.items = s.wire ∧ (s.closed ∨ waits sock = false) then
      let payload := pumped (remoteRead sock).1
      some { s with
        session := s.session.pump payload, wire := (remoteRead sock).2.items,
        payloads := s.payloads ++ payload.toList }
    else none
  | .readFails =>
    if s.session.eof = false then some { s with session := s.session.pump none } else none
  | .tick => some { s with now := s.now + 1 }
  | .ask r => some { s with waiting := s.waiting ++ [(r, s.now + readTimeout)] }
  | .answer i =>
    match s.waiting[i]? with
    | some (r, deadline) =>
      if s.session.ready r ∨ deadline ≤ s.now then
        let (value, session) := s.session.take r
        some { s with
          session := session, waiting := s.waiting.eraseIdx i,
          returned := s.returned ++ [value] }
      else none
    | none => none

end Delivery

/-! ## What one call keeps -/

namespace RemoteSession

variable {s : RemoteSession}

theorem readline_append (s : RemoteSession) : s.readline.1 ++ s.readline.2.buf = s.buf := by
  unfold readline
  cases h : splitLine s.buf with
  | none => exact List.append_nil s.buf
  | some p =>
    obtain ⟨line, rest⟩ := p
    obtain ⟨hbuf, -⟩ := splitLine_eq_some_iff.mp h
    dsimp only
    rw [hbuf, List.append_assoc, List.singleton_append]

theorem read_append (s : RemoteSession) (size : ℤ) :
    (s.read size).1 ++ (s.read size).2.buf = s.buf := by
  unfold read
  split
  · rfl
  · exact List.take_append_drop _ _

/-- A value returned and what stays in the buffer are the buffer before. -/
theorem take_append (s : RemoteSession) (r : Reading) :
    (s.take r).1 ++ (s.take r).2.buf = s.buf := by
  cases r with
  | line => exact s.readline_append
  | bytes size => exact s.read_append size

@[simp] theorem eof_take (s : RemoteSession) (r : Reading) : (s.take r).2.eof = s.eof := by
  cases r with
  | line =>
    simp only [take, readline]
    split <;> rfl
  | bytes size =>
    simp only [take, read]
    split <;> rfl

@[simp] theorem buf_pump (s : RemoteSession) (p : Option (List UInt8)) :
    (s.pump p).buf = s.buf ++ p.toList.flatten := by
  cases p with
  | none => simp [pump]
  | some payload =>
    rw [pump]
    split
    next h => simp [h]
    next => simp

@[simp] theorem eof_pump (s : RemoteSession) (p : Option (List UInt8)) :
    (s.pump p).eof = (s.eof || p.isNone) := by
  cases p with
  | none => simp [pump]
  | some payload =>
    rw [pump]
    split <;> simp

end RemoteSession

/-! ## What is on its way -/

/-- A frame that the owner's side sends: data, or the one that ends the stream. -/
def Sendable (f : Frame) : Prop :=
  f.Fits ∧ (f.frameType = frameData ∨ f = ⟨frameClose, []⟩)

def dataPayloads (fs : List Frame) : List (List UInt8) :=
  (fs.filter (·.frameType = frameData)).map Frame.payload

@[simp] theorem dataPayloads_append (fs gs : List Frame) :
    dataPayloads (fs ++ gs) = dataPayloads fs ++ dataPayloads gs := by
  simp [dataPayloads]

@[simp] theorem dataPayloads_data (d : List UInt8) : dataPayloads [⟨frameData, d⟩] = [d] := by
  simp [dataPayloads]

@[simp] theorem dataPayloads_close : dataPayloads [⟨frameClose, []⟩] = [] := by
  simp [dataPayloads, frameClose, frameData]

theorem sendable_data {d : List UInt8} (h : d.length ≤ maxFramePayload) :
    Sendable ⟨frameData, d⟩ := ⟨fits_data h, .inl rfl⟩

theorem sendable_close : Sendable ⟨frameClose, []⟩ := ⟨by decide, .inr rfl⟩

theorem Frame.bytes_ne_nil (f : Frame) : f.bytes ≠ [] := List.cons_ne_nil _ _

/-- A whole frame at the front of what was sent is the first that was sent. -/
theorem eq_of_front {f : Frame} {fs : List Frame} {left : List UInt8}
    (hf : f.Fits) (hfs : ∀ g ∈ fs, Sendable g) (h : f.bytes ++ left <+: fs.flatMap Frame.bytes) :
    ∃ gs, fs = f :: gs ∧ left <+: gs.flatMap Frame.bytes := by
  cases fs with
  | nil =>
    have hnil : f.bytes ++ left = [] := List.prefix_nil.mp h
    exact absurd (List.append_eq_nil_iff.mp hnil).1 f.bytes_ne_nil
  | cons g gs =>
    rw [List.forall_mem_cons] at hfs
    obtain ⟨more, hmore⟩ := h
    rw [List.flatMap_cons, List.append_assoc] at hmore
    let sock : Socket := .closing (pushBack (g.bytes ++ gs.flatMap Frame.bytes) [])
    have hsock : sock.items = g.bytes ++ gs.flatMap Frame.bytes := by simp [sock]
    obtain ⟨rfl, hrest⟩ :=
      reads_client.front_unique (s := sock) rfl hf hfs.1.1 (hsock.trans hmore.symm) hsock
    exact ⟨gs, rfl, more, hrest⟩

/-- The frames sent and not read yet, in order, with the bytes on the wire the front of
theirs: all of theirs while the owner's thread goes on. -/
def Delivery.Owes (s : Delivery) (todo : List Frame) : Prop :=
  (∀ f ∈ todo, Sendable f) ∧ s.frames = s.payloads ++ dataPayloads todo ∧
    (s.session.eof = false → s.wire <+: todo.flatMap Frame.bytes) ∧
    (s.session.eof = false → s.pumping = true → s.wire = todo.flatMap Frame.bytes)

structure Delivery.Kept (s : Delivery) : Prop where
  framed : s.frames.flatten = s.chunks.flatten
  buffered : s.returned.flatten ++ s.session.buf = s.payloads.flatten
  owed : ∃ todo, s.Owes todo

namespace Delivery

variable {readTimeout : ℕ} {s s' : Delivery} {hop : Hop}

theorem kept_start : start.Kept :=
  ⟨rfl, rfl, [], by simp, rfl, fun _ => List.prefix_rfl, fun _ _ => rfl⟩

/-- A frame that goes out whole. -/
theorem Owes.send {todo : List Frame} {f : Frame} (h : s.Owes todo) (hf : Sendable f)
    (hp : s.pumping = true) (hw : s'.wire = s.wire ++ f.bytes)
    (hframes : s'.frames = s.frames ++ dataPayloads [f]) (hpay : s'.payloads = s.payloads)
    (hs : s'.session = s.session) : s'.Owes (todo ++ [f]) := by
  obtain ⟨hok, hfr, -, hall⟩ := h
  have hwire : s'.session.eof = false → s'.wire = (todo ++ [f]).flatMap Frame.bytes := by
    intro heof
    rw [hw, hall (hs ▸ heof) hp]
    simp
  refine ⟨?_, ?_, fun heof => hwire heof ▸ List.prefix_rfl, fun heof _ => hwire heof⟩
  · exact List.forall_mem_append.mpr ⟨hok, List.forall_mem_singleton.mpr hf⟩
  · rw [hframes, hfr, hpay, dataPayloads_append, List.append_assoc]

/-- A frame that is cut short on its way. -/
theorem Owes.cut {todo : List Frame} {f : Frame} {k : ℕ} (h : s.Owes todo) (hf : Sendable f)
    (hp : s.pumping = true) (hw : s'.wire = s.wire ++ f.bytes.take k)
    (hframes : s'.frames = s.frames ++ dataPayloads [f]) (hpay : s'.payloads = s.payloads)
    (hs : s'.session = s.session) (hend : s'.pumping = false) : s'.Owes (todo ++ [f]) := by
  obtain ⟨hok, hfr, -, hall⟩ := h
  refine ⟨?_, ?_, ?_, ?_⟩
  · exact List.forall_mem_append.mpr ⟨hok, List.forall_mem_singleton.mpr hf⟩
  · rw [hframes, hfr, hpay, dataPayloads_append, List.append_assoc]
  · intro heof
    rw [hw, hall (hs ▸ heof) hp, List.flatMap_append]
    simp [List.take_prefix]
  · intro _ hpump
    rw [hend] at hpump
    cases hpump

/-- A read that gives a payload takes the next frame, and that frame holds it. A read
that gives none ends the stream. -/
theorem Owes.turn {todo : List Frame} {pieces : List (Piece UInt8)} (h : s.Owes todo)
    (heof : s.session.eof = false) (hv : (Source.closing pieces).items = s.wire) :
    ∃ todo', { s with
      session := s.session.pump (pumped (remoteRead (.closing pieces)).1),
      wire := (remoteRead (.closing pieces)).2.items,
      payloads := s.payloads ++ (pumped (remoteRead (.closing pieces)).1).toList }.Owes todo' := by
  obtain ⟨hok, hfr, hfront, hall⟩ := h
  cases hp : pumped (remoteRead (.closing pieces)).1 with
  | none =>
    refine ⟨todo, hok, ?_, ?_, ?_⟩
    · simpa using hfr
    · simp
    · simp
  | some payload =>
    obtain ⟨f, hread, hdata, rfl⟩ : ∃ f, (readFrame clientReadExact (.closing pieces)).1 =
        .ok (some f) ∧ f.frameType ≠ frameClose ∧ f.payload = payload := by
      rw [remoteRead_eq] at hp
      rcases hr : (readFrame clientReadExact (.closing pieces)).1 with e | _ | f
      · simp [hr, readResult, pumped] at hp
      · simp [hr, readResult, pumped] at hp
      · simp only [hr, readResult, pumped] at hp
        split at hp
        · cases hp
        next hne => exact ⟨f, rfl, hne, Option.some.inj hp⟩
    obtain ⟨hfits, hitems, -⟩ := reads_client.sound (s := .closing pieces) rfl hread
    have hleft : (remoteRead (.closing pieces)).2 =
        (readFrame clientReadExact (.closing pieces)).2 := by rw [remoteRead_eq]
    obtain ⟨gs, rfl, hgs⟩ := eq_of_front hfits hok (hitems ▸ hv ▸ hfront heof)
    rw [List.forall_mem_cons] at hok
    have htype : f.frameType = frameData := by
      rcases hok.1.2 with htype | rfl
      · exact htype
      · exact absurd rfl hdata
    refine ⟨gs, hok.2, ?_, fun _ => hleft ▸ hgs, fun _ hpump => ?_⟩
    · rw [hfr]
      simp [dataPayloads, htype]
    · have hwire := hall heof hpump
      rw [← hv, hitems, List.flatMap_cons] at hwire
      rw [hleft]
      exact List.append_cancel_left hwire

/-! ## What one step keeps -/

theorem kept_chunk {data : List UInt8} (h : s.Kept) (hshort : data.length ≤ maxFramePayload)
    (hs : step readTimeout s (.chunk data) = some s') : s'.Kept := by
  obtain ⟨hframed, hbuf, todo, howes⟩ := h
  simp only [step, Option.ite_none_right_eq_some] at hs
  obtain ⟨⟨hp, -⟩, hs⟩ := hs
  split at hs
  next hnil =>
    cases hs
    exact ⟨by simp [hframed, hnil], hbuf, todo, howes⟩
  next =>
    rw [encodeFrame_of_fits (f := ⟨frameData, data⟩) (fits_data hshort)] at hs
    cases hs
    refine ⟨by simp [hframed], hbuf, todo ++ [⟨frameData, data⟩], ?_⟩
    exact howes.send (sendable_data hshort) hp rfl (by simp) rfl rfl

theorem kept_sendFails {data : List UInt8} {k : ℕ} (h : s.Kept)
    (hshort : data.length ≤ maxFramePayload)
    (hs : step readTimeout s (.sendFails data k) = some s') : s'.Kept := by
  obtain ⟨hframed, hbuf, todo, howes⟩ := h
  have henc : encodeFrame frameData data = _ :=
    encodeFrame_of_fits (f := ⟨frameData, data⟩) (fits_data hshort)
  simp only [step, Option.ite_none_right_eq_some, henc, Option.some.injEq] at hs
  obtain ⟨⟨hp, -⟩, -, rfl⟩ := hs
  refine ⟨by simp [hframed], hbuf, todo ++ [⟨frameData, data⟩], ?_⟩
  exact howes.cut (sendable_data hshort) hp rfl (by simp) rfl rfl rfl

theorem kept_frame {f : Frame} (h : s.Kept) (hf : Sendable f) (hp : s.pumping = true)
    (hempty : f.payload = []) (hw : s'.wire = s.wire ++ f.bytes)
    (hframes : s'.frames = s.frames ++ dataPayloads [f]) (hpay : s'.payloads = s.payloads)
    (hs : s'.session = s.session) (hc : s'.chunks = s.chunks) (hr : s'.returned = s.returned) :
    s'.Kept := by
  obtain ⟨hframed, hbuf, todo, howes⟩ := h
  refine ⟨?_, ?_, todo ++ [f], howes.send hf hp hw hframes hpay hs⟩
  · have hnone : (dataPayloads [f]).flatten = [] := by
      unfold dataPayloads
      by_cases htype : f.frameType = frameData <;> simp [htype, hempty]
    rw [hframes, hc, List.flatten_append, hnone, List.append_nil, hframed]
  · rw [hr, hs, hpay, hbuf]

theorem kept_turn {pieces : List (Piece UInt8)} (h : s.Kept)
    (hs : step readTimeout s (.turn pieces) = some s') : s'.Kept := by
  obtain ⟨hframed, hbuf, todo, howes⟩ := h
  simp only [step, Option.ite_none_right_eq_some, Option.some.injEq] at hs
  obtain ⟨⟨heof, hv, -⟩, rfl⟩ := hs
  refine ⟨hframed, ?_, howes.turn heof hv⟩
  dsimp only
  rw [RemoteSession.buf_pump, ← List.append_assoc, hbuf, List.flatten_append]

theorem kept_answer {i : ℕ} (h : s.Kept) (hs : step readTimeout s (.answer i) = some s') :
    s'.Kept := by
  obtain ⟨hframed, hbuf, todo, hok, hfr, howes⟩ := h
  simp only [step] at hs
  split at hs
  next r deadline _ =>
    rw [Option.ite_none_right_eq_some] at hs
    obtain ⟨-, hs⟩ := hs
    cases hs
    refine ⟨hframed, ?_, todo, hok, hfr, ?_⟩
    · dsimp only
      rw [List.flatten_append, List.flatten_singleton, List.append_assoc,
        RemoteSession.take_append, hbuf]
    · simpa using howes
  next => cases hs

theorem chunks_step (hs : step readTimeout s hop = some s') :
    s'.chunks = s.chunks ++ hop.read := by
  cases hop with
  | chunk data =>
    simp only [step, Option.ite_none_right_eq_some] at hs
    obtain ⟨-, hs⟩ := hs
    split at hs
    · cases hs
      rfl
    · split at hs <;> cases hs <;> rfl
  | sendFails data k =>
    simp only [step, Option.ite_none_right_eq_some] at hs
    obtain ⟨-, hs⟩ := hs
    split at hs
    · simp only [Option.ite_none_right_eq_some, Option.some.injEq] at hs
      obtain ⟨-, rfl⟩ := hs
      rfl
    · cases hs
  | pumpEnds | connEnds | tick | ask r =>
    cases hs
    exact (List.append_nil _).symm
  | emptyFrame | closeFrame | turn pieces | readFails =>
    simp only [step, Option.ite_none_right_eq_some, Option.some.injEq] at hs
    obtain ⟨-, rfl⟩ := hs
    exact (List.append_nil _).symm
  | answer i =>
    simp only [step] at hs
    split at hs
    · simp only [Option.ite_none_right_eq_some, Option.some.injEq] at hs
      obtain ⟨-, rfl⟩ := hs
      exact (List.append_nil _).symm
    · cases hs

/-- Only a read of the client's thread changes what has been read and whether the
stream has ended, and it returns nothing. -/
theorem session_step (hs : step readTimeout s hop = some s') :
    (∃ p : Option (List UInt8), s'.payloads = s.payloads ++ p.toList ∧
      s'.session = s.session.pump p ∧ s'.returned = s.returned) ∨
    (s'.payloads = s.payloads ∧ s'.session.eof = s.session.eof) := by
  cases hop with
  | turn pieces =>
    simp only [step, Option.ite_none_right_eq_some, Option.some.injEq] at hs
    obtain ⟨-, rfl⟩ := hs
    exact .inl ⟨_, rfl, rfl, rfl⟩
  | readFails =>
    simp only [step, Option.ite_none_right_eq_some, Option.some.injEq] at hs
    obtain ⟨-, rfl⟩ := hs
    exact .inl ⟨none, (List.append_nil _).symm, rfl, rfl⟩
  | chunk data =>
    simp only [step, Option.ite_none_right_eq_some] at hs
    obtain ⟨-, hs⟩ := hs
    split at hs
    · cases hs
      exact .inr ⟨rfl, rfl⟩
    · split at hs <;> cases hs <;> exact .inr ⟨rfl, rfl⟩
  | sendFails data k =>
    simp only [step, Option.ite_none_right_eq_some] at hs
    obtain ⟨-, hs⟩ := hs
    split at hs
    · simp only [Option.ite_none_right_eq_some, Option.some.injEq] at hs
      obtain ⟨-, rfl⟩ := hs
      exact .inr ⟨rfl, rfl⟩
    · cases hs
  | pumpEnds | connEnds | tick | ask r =>
    cases hs
    exact .inr ⟨rfl, rfl⟩
  | emptyFrame | closeFrame =>
    simp only [step, Option.ite_none_right_eq_some, Option.some.injEq] at hs
    obtain ⟨-, rfl⟩ := hs
    exact .inr ⟨rfl, rfl⟩
  | answer i =>
    simp only [step] at hs
    split at hs
    · simp only [Option.ite_none_right_eq_some, Option.some.injEq] at hs
      obtain ⟨-, rfl⟩ := hs
      exact .inr ⟨rfl, RemoteSession.eof_take _ _⟩
    · cases hs

theorem kept_step (h : s.Kept) (hs : step readTimeout s hop = some s')
    (hshort : ∀ c ∈ s'.chunks, c.length ≤ maxFramePayload) : s'.Kept := by
  have hread : ∀ c ∈ hop.read, c.length ≤ maxFramePayload := fun c hc => hshort c <| by
    rw [chunks_step hs]
    exact List.mem_append_right _ hc
  cases hop with
  | chunk data => exact kept_chunk h (hread data List.mem_cons_self) hs
  | sendFails data k => exact kept_sendFails h (hread data List.mem_cons_self) hs
  | pumpEnds =>
    cases hs
    obtain ⟨hframed, hbuf, todo, hok, hfr, hfront, -⟩ := h
    exact ⟨hframed, hbuf, todo, hok, hfr, hfront, fun _ hp => nomatch hp⟩
  | emptyFrame =>
    simp only [step, Option.ite_none_right_eq_some, Option.some.injEq] at hs
    obtain ⟨⟨hp, -⟩, rfl⟩ := hs
    refine kept_frame h (f := ⟨frameData, []⟩) ?_ hp rfl rfl ?_ rfl rfl rfl rfl
    · exact sendable_data (Nat.zero_le _)
    · rw [dataPayloads_data]
  | closeFrame =>
    simp only [step, Option.ite_none_right_eq_some, Option.some.injEq] at hs
    obtain ⟨⟨hp, -⟩, rfl⟩ := hs
    refine kept_frame h (f := ⟨frameClose, []⟩) sendable_close hp rfl rfl ?_ rfl rfl rfl rfl
    rw [dataPayloads_close, List.append_nil]
  | connEnds =>
    cases hs
    exact ⟨h.framed, h.buffered, h.owed⟩
  | turn pieces => exact kept_turn h hs
  | readFails =>
    simp only [step, Option.ite_none_right_eq_some, Option.some.injEq] at hs
    obtain ⟨-, rfl⟩ := hs
    obtain ⟨hframed, hbuf, todo, hok, hfr, -⟩ := h
    exact ⟨hframed, hbuf, todo, hok, hfr, nofun, nofun⟩
  | tick =>
    cases hs
    exact ⟨h.framed, h.buffered, h.owed⟩
  | ask r =>
    cases hs
    exact ⟨h.framed, h.buffered, h.owed⟩
  | answer i => exact kept_answer h hs

theorem kept_of_exec {as : List Hop} (h : exec (step readTimeout) start as = some s)
    (hshort : ∀ c ∈ s.chunks, c.length ≤ maxFramePayload) : s.Kept := by
  let inv (s : Delivery) : Prop := (∀ c ∈ s.chunks, c.length ≤ maxFramePayload) → s.Kept
  have hstep (s : Delivery) (hop : Hop) (s' : Delivery) (hi : inv s)
      (hs : step readTimeout s hop = some s') : inv s' := by
    intro hshort
    have hbefore : ∀ c ∈ s.chunks, c.length ≤ maxFramePayload := fun c hc => hshort c <| by
      rw [chunks_step hs]
      exact List.mem_append_left _ hc
    exact kept_step (hi hbefore) hs hshort
  have hstart : inv start := fun _ => kept_start
  exact inv_of_exec hstep hstart h hshort

theorem Kept.in_order (h : s.Kept) :
    s.returned.flatten ++ s.session.buf <+: s.chunks.flatten := by
  obtain ⟨todo, -, hfr, -⟩ := h.owed
  rw [h.buffered, ← h.framed, hfr, List.flatten_append]
  exact List.prefix_append _ _

theorem Kept.eq_of_payloads (h : s.Kept) (hall : s.payloads.length = s.frames.length) :
    s.returned.flatten ++ s.session.buf = s.chunks.flatten := by
  obtain ⟨todo, -, hfr, -⟩ := h.owed
  have hnil : dataPayloads todo = [] := by
    have hlen := congrArg List.length hfr
    rw [List.length_append] at hlen
    exact List.length_eq_zero_iff.mp (by omega)
  rw [h.buffered, ← h.framed, hfr, hnil, List.append_nil]

/-- While both threads go on, a wire that holds nothing means that every frame has been
read. -/
theorem Kept.payloads_of_wire (h : s.Kept) (hp : s.pumping = true) (heof : s.session.eof = false)
    (hw : s.wire = []) : s.payloads.length = s.frames.length := by
  obtain ⟨todo, -, hfr, -, hall⟩ := h.owed
  have hnil : todo.flatMap Frame.bytes = [] := (hall heof hp).symm.trans hw
  obtain rfl : todo = [] := by
    cases todo with
    | nil => rfl
    | cons f fs =>
      rw [List.flatMap_cons] at hnil
      exact absurd (List.append_eq_nil_iff.mp hnil).1 f.bytes_ne_nil
  rw [hfr]
  simp [dataPayloads]

theorem session_of_empty (hs : step readTimeout s hop = some s')
    (h : s'.payloads = s.payloads ++ [[]]) :
    s'.session = s.session ∧ s'.returned = s.returned := by
  rcases session_step hs with ⟨p, hp, hsession, hret⟩ | ⟨hp, -⟩
  · rw [h, List.append_cancel_left_eq] at hp
    obtain rfl : p = some [] := by
      cases p with
      | none => cases hp
      | some payload =>
        cases hp
        rfl
    exact ⟨hsession, hret⟩
  · rw [h] at hp
    simp at hp

theorem buf_of_eof (hs : step readTimeout s hop = some s') (hbefore : s.session.eof = false)
    (hafter : s'.session.eof = true) :
    s'.session.buf = s.session.buf ∧ s'.returned = s.returned := by
  rcases session_step hs with ⟨p, -, hsession, hret⟩ | ⟨-, heof⟩
  · rw [hsession, RemoteSession.eof_pump, hbefore, Bool.false_or] at hafter
    obtain rfl := Option.isNone_iff_eq_none.mp hafter
    exact ⟨by simp [hsession], hret⟩
  · rw [heof, hbefore] at hafter
    cases hafter

end Delivery

/-- However chunks, frames and calls interleave, what the calls returned and what the
session holds are the front of what the port gave: all of it once every frame has been
read. Empty frames and the end of the stream leave the buffer as it is. -/
theorem board_bytes_conserved (readTimeout : ℕ) {hops : List Hop} {s : Delivery}
    (h : exec (Delivery.step readTimeout) .start hops = some s)
    (hshort : ∀ c ∈ s.chunks, c.length ≤ maxFramePayload) :
    s.returned.flatten ++ s.session.buf <+: s.chunks.flatten ∧
      (s.payloads.length = s.frames.length →
        s.returned.flatten ++ s.session.buf = s.chunks.flatten) ∧
      (s.pumping = true → s.session.eof = false → s.wire = [] →
        s.payloads.length = s.frames.length) ∧
      ∀ hop s', Delivery.step readTimeout s hop = some s' →
        (s'.payloads = s.payloads ++ [[]] →
          s'.session = s.session ∧ s'.returned = s.returned) ∧
        (s.session.eof = false → s'.session.eof = true →
          s'.session.buf = s.session.buf ∧ s'.returned = s.returned) := by
  have hkept := Delivery.kept_of_exec h hshort
  refine ⟨hkept.in_order, hkept.eq_of_payloads, hkept.payloads_of_wire, fun hop s' hs => ?_⟩
  exact ⟨Delivery.session_of_empty hs, Delivery.buf_of_eof hs⟩

/-- Two chunks, the first one read in two pieces; a line is asked for before it is there,
and the rest comes after the end. -/
def twoChunks : List Hop :=
  [.ask .line, .chunk [0x68, 0x69], .chunk [10, 0x3E], .emptyFrame,
    .turn [(1, [0, 0, 0, 2, 0x68]), (0x69, [1, 0, 0, 0, 2, 10, 0x3E, 1, 0, 0, 0, 0])],
    .turn [(1, [0, 0, 0, 2, 10, 0x3E, 1, 0, 0, 0, 0])], .turn [(1, [0, 0, 0, 0])], .answer 0,
    .ask (.bytes 5), .connEnds, .turn [], .answer 0]

theorem twoChunks_runs : (exec (Delivery.step 100) .start twoChunks).isSome := by decide +kernel

theorem board_bytes_conserved_twoChunks :
    ∃ s, exec (Delivery.step 100) .start twoChunks = some s ∧
      s.returned = [[0x68, 0x69, 10], [0x3E]] ∧
      s.returned.flatten ++ s.session.buf = s.chunks.flatten := by
  refine ⟨_, (Option.some_get twoChunks_runs).symm, by decide +kernel, ?_⟩
  exact (board_bytes_conserved 100 (Option.some_get twoChunks_runs).symm (by decide +kernel)).2.1
    (by decide +kernel)

end MbTools.Stream
