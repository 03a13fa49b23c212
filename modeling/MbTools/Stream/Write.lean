import MbTools.Stream.Switch

/-! # Data on its way to the port

A write at the client's end becomes one frame, whatever its size. The server's loop
decodes it and writes the payload to the board's port, or gives the session up.
-/

namespace MbTools.Stream

open Bytes Chunks Framing

/-- `RemoteStream.write`: what is sent, or the exception of the encoding. -/
def remoteWrite (data : List UInt8) : Except EncodeError (List UInt8) :=
  encodeFrame frameData data

/-- `RemoteSession.write`: what is sent and the number of bytes returned. -/
def sessionWrite (data : List UInt8) : Except EncodeError (List UInt8 × ℕ) := do
  let sent ← remoteWrite data
  return (sent, data.length)

/-- What a frame that the loop goes on behind writes to the port. -/
def Frame.written (f : Frame) : List UInt8 := if f.frameType = frameData then f.payload else []

/-- Some turns of the server's loop, all of which go on: what they write to the port. -/
def turns (board : Board) : ℕ → ℕ → Socket → Option (List UInt8 × Socket)
  | 0, _, sock => some ([], sock)
  | n + 1, i, sock =>
    match readFrame serverReadExact sock with
    | (.ok (some f), sock) =>
      if f.frameType ∈ [frameData, frameBreak, frameSetDtr, frameSetRts] ∧ board.takes i then
        match turns board n (i + 1) sock with
        | some (written, sock) => some (f.written ++ written, sock)
        | none => none
      else none
    | _ => none

/-- However the bytes are handed over, turns of the loop that take just them write the
data to the port, and the loop goes on with what is sent behind them. -/
def ReachesPort (board : Board) (i : ℕ) (sent data : List UInt8) : Prop :=
  ∀ (sock : Socket) (more : List UInt8), sock.resets = false → sock.items = sent ++ more →
    ∃ n sock', turns board n i sock = some (data, sock') ∧
      sock'.items = more ∧ sock'.resets = false

/-- A write that raises nothing and whose data reaches the port whole. -/
def WrittenWhole (board : Board) (i : ℕ) (write : Except EncodeError (List UInt8))
    (data : List UInt8) : Prop :=
  ∃ sent, write = .ok sent ∧ ReachesPort board i sent data

variable {board : Board} {sock sock' : Socket} {data written : List UInt8} {i n : ℕ}

theorem streamLoop_of_turns (h : turns board n i sock = some (written, sock')) (m : ℕ) :
    ∃ fs, streamLoop board (n + m) i sock = fs ++ streamLoop board m (i + n) sock' ∧
      fs.flatMap Frame.written = written := by
  induction n generalizing i sock written with
  | zero =>
    cases h
    exact ⟨[], by simp, rfl⟩
  | succ n ih =>
    rw [turns] at h
    split at h
    next f next hread =>
      split at h
      next hgo =>
        split at h
        next rest last hrest =>
          cases h
          obtain ⟨fs, hfs, rfl⟩ := ih hrest
          refine ⟨f :: fs, ?_, rfl⟩
          rw [Nat.add_right_comm, streamLoop, hread]
          dsimp only
          rw [if_pos hgo, hfs, List.cons_append, Nat.add_right_comm, Nat.add_assoc]
        next => cases h
      next => cases h
    next => cases h

theorem reachesPort_of_fits (htakes : ∀ i, board.takes i) (h : data.length ≤ maxFramePayload) :
    ReachesPort board i (dataBytes data) data := by
  intro sock more hopen hv
  have hread : readFrame serverReadExact sock =
      (.ok (some ⟨frameData, data⟩), (readFrame serverReadExact sock).2) :=
    Prod.ext (reads_server.item hopen (fits_data h) hv) rfl
  obtain ⟨hrest, hopen'⟩ := reads_server.view_of_append hopen (fits_data h) hv
  refine ⟨1, (readFrame serverReadExact sock).2, ?_, hrest, hopen'⟩
  have hgo : frameData ∈ [frameData, frameBreak, frameSetDtr, frameSetRts] ∧ board.takes i :=
    ⟨List.mem_cons_self, htakes i⟩
  rw [turns, hread]
  dsimp only
  rw [if_pos hgo, turns]
  simp [Frame.written]

theorem not_reachesPort_of_long {sent : List UInt8} (hsent : encodeFrame frameData data = .ok sent)
    (h : maxFramePayload < data.length) : ¬ ReachesPort board i sent data := by
  have hlt : data.length < 256 ^ 4 := by
    rw [encodeFrame, if_neg (by decide)] at hsent
    split at hsent
    · cases hsent
    next hlt => exact Nat.lt_of_not_le hlt
  have hdeclared : fromBytesBig (toBytesBig 4 data.length) = data.length := by
    rw [fromBytesBig_toBytesBig]
    exact Nat.mod_eq_of_lt hlt
  rw [encodeFrame, if_neg (by decide), if_neg (Nat.not_le.mpr hlt)] at hsent
  cases hsent
  intro hport
  let sock : Socket := .closing [(UInt8.ofNat frameData, toBytesBig 4 data.length ++ data)]
  have hv : sock.items = UInt8.ofNat frameData :: toBytesBig 4 data.length ++ data := by
    simp [sock, Piece.items]
  obtain ⟨n, sock', hturns, hrest, -⟩ := hport sock [] rfl (by rw [hv, List.append_nil])
  cases n with
  | zero =>
    obtain ⟨-, rfl⟩ := Prod.mk.inj (Option.some.inj hturns)
    rw [hv] at hrest
    cases hrest
  | succ n =>
    have hlong := @readFrame_of_tooLong .osError _ _ _ _ (length_toBytesBig 4 _) hv
      (hdeclared.symm ▸ h)
    rw [turns, serverReadExact, hlong] at hturns
    cases hturns

theorem writtenWhole_remoteWrite_iff (htakes : ∀ i, board.takes i) :
    WrittenWhole board i (remoteWrite data) data ↔ data.length ≤ maxFramePayload := by
  constructor
  · rintro ⟨sent, hsent, hport⟩
    by_contra hlong
    exact not_reachesPort_of_long hsent (Nat.lt_of_not_le hlong) hport
  · intro h
    exact ⟨dataBytes data, encodeFrame_of_fits (fits_data h), reachesPort_of_fits htakes h⟩

/-- A write reaches the port of a board that takes everything, and leaves the session
open, just if it is no longer than a frame may be. -/
theorem write_reaches_port_iff (board : Board) (htakes : ∀ i, board.takes i) (i : ℕ)
    (data : List UInt8) :
    (WrittenWhole board i (remoteWrite data) data ↔ data.length ≤ maxFramePayload) ∧
      (WrittenWhole board i ((sessionWrite data).map Prod.fst) data ↔
        data.length ≤ maxFramePayload) := by
  have hsession : (sessionWrite data).map Prod.fst = remoteWrite data := by
    cases h : remoteWrite data with
    | error e => simp [sessionWrite, h, bind, Except.bind, Except.map]
    | ok sent => simp [sessionWrite, h, bind, Except.bind, pure, Except.pure, Except.map]
  refine ⟨writtenWhole_remoteWrite_iff htakes, ?_⟩
  rw [hsession]
  exact writtenWhole_remoteWrite_iff htakes

def takesAll : Board := ⟨true, fun _ => true⟩

theorem write_reaches_port_iff_prompt :
    WrittenWhole takesAll 0 (remoteWrite [0x68, 0x69]) [0x68, 0x69] ∧
      WrittenWhole takesAll 0 ((sessionWrite []).map Prod.fst) [] :=
  ⟨(write_reaches_port_iff takesAll (fun _ => rfl) 0 [0x68, 0x69]).1.mpr (by decide),
    (write_reaches_port_iff takesAll (fun _ => rfl) 0 []).2.mpr (by decide)⟩

/-- One byte more than a frame may have. -/
theorem long_write_lost :
    ¬ WrittenWhole takesAll 0 (remoteWrite (List.replicate (maxFramePayload + 1) 0))
      (List.replicate (maxFramePayload + 1) 0) := by
  rw [writtenWhole_remoteWrite_iff fun _ => rfl, List.length_replicate]
  exact Nat.not_succ_le_self _

end MbTools.Stream
