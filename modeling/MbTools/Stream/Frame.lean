import MbTools.Lib.Bytes
import MbTools.Lib.Chunks
import MbTools.Lib.Framing

/-! # Stream frames

A frame is a type byte, the length of its payload in four bytes and the payload.
Both ends decode with the same function over a loop of short reads of their own.
-/

namespace MbTools.Stream

open Bytes Chunks Framing

def headerSize : ℕ := 5

def maxFramePayload : ℕ := 2 ^ 20

structure Frame where
  frameType : ℕ
  payload : List UInt8
  deriving Repr, DecidableEq

inductive EncodeError | valueError | overflowError
  deriving Repr, DecidableEq

def encodeFrame (frameType : ℕ) (payload : List UInt8) : Except EncodeError (List UInt8) :=
  if 256 ≤ frameType then .error .valueError
  else if 256 ^ 4 ≤ payload.length then .error .overflowError
  else .ok (UInt8.ofNat frameType :: toBytesBig 4 payload.length ++ payload)

inductive FrameError
  | truncatedHeader (got : ℕ)
  | tooLong (length : ℕ)
  | truncatedPayload (got length : ℕ)
  deriving Repr, DecidableEq

def FrameError.message : FrameError → String
  | truncatedHeader got =>
    "truncated frame header: got " ++ toString got ++ " of " ++ toString headerSize ++ " bytes"
  | tooLong length =>
    "declared frame length " ++ toString length ++ " exceeds the " ++ toString maxFramePayload ++
      "-byte limit"
  | truncatedPayload got length =>
    "truncated frame payload: got " ++ toString got ++ " of " ++ toString length ++ " bytes"

/-- What ends a read with an exception. -/
inductive ReadError
  | frameError (e : FrameError)
  | osError
  | registryUnavailable
  deriving Repr, DecidableEq

abbrev Socket := Source UInt8

/-- A loop of short reads whose `recv` raises as `raised` has it. -/
def readExactOr (raised : ReadError) (n : ℕ) (sock : Socket) :
    Except ReadError (List UInt8) × Socket :=
  match readExact n sock with
  | (none, sock) => (.error raised, sock)
  | (some got, sock) => (.ok got, sock)

/-- `_read_exact` in the server's stream loop. -/
def serverReadExact : ℕ → Socket → Except ReadError (List UInt8) × Socket :=
  readExactOr .osError

/-- `_read_exact` in the client's `RemoteStream`. -/
def clientReadExact : ℕ → Socket → Except ReadError (List UInt8) × Socket :=
  readExactOr .registryUnavailable

def readFrame {S : Type} (readExact : ℕ → S → Except ReadError (List UInt8) × S) (s : S) :
    Except ReadError (Option Frame) × S :=
  match readExact headerSize s with
  | (.error e, s) => (.error e, s)
  | (.ok [], s) => (.ok none, s)
  | (.ok (frameType :: rest), s) =>
    if rest.length + 1 < headerSize then
      (.error (.frameError (.truncatedHeader (rest.length + 1))), s)
    else
      let length := fromBytesBig (rest.take 4)
      if maxFramePayload < length then (.error (.frameError (.tooLong length)), s)
      else if length = 0 then (.ok (some ⟨frameType.toNat, []⟩), s)
      else
        match readExact length s with
        | (.error e, s) => (.error e, s)
        | (.ok payload, s) =>
          if payload.length < length then
            (.error (.frameError (.truncatedPayload payload.length length)), s)
          else (.ok (some ⟨frameType.toNat, payload⟩), s)

/-! ## The frames that can be sent -/

structure Frame.Fits (f : Frame) : Prop where
  frameType : f.frameType < 256
  payload : f.payload.length ≤ maxFramePayload

instance (f : Frame) : Decidable f.Fits :=
  decidable_of_iff (f.frameType < 256 ∧ f.payload.length ≤ maxFramePayload)
    ⟨fun h => ⟨h.1, h.2⟩, fun h => ⟨h.1, h.2⟩⟩

def Frame.bytes (f : Frame) : List UInt8 :=
  UInt8.ofNat f.frameType :: toBytesBig 4 f.payload.length ++ f.payload

theorem encodeFrame_of_fits {f : Frame} (h : f.Fits) :
    encodeFrame f.frameType f.payload = .ok f.bytes := by
  have hlt : f.payload.length < 256 ^ 4 := Nat.lt_of_le_of_lt h.payload (by decide)
  rw [encodeFrame, if_neg (Nat.not_le.mpr h.frameType), if_neg (Nat.not_le.mpr hlt)]
  rfl

theorem Frame.length_bytes (f : Frame) : f.bytes.length = headerSize + f.payload.length := by
  simp [Frame.bytes, headerSize]
  omega

theorem Frame.fits_of_header {h : UInt8} {ls payload : List UInt8} (hl : ls.length = 4)
    (hp : payload.length = fromBytesBig ls) (hmax : fromBytesBig ls ≤ maxFramePayload) :
    (Frame.mk h.toNat payload).Fits ∧ (Frame.mk h.toNat payload).bytes = h :: ls ++ payload := by
  refine ⟨⟨h.toNat_lt, hp ▸ hmax⟩, ?_⟩
  have hls : toBytesBig 4 (fromBytesBig ls) = ls := hl ▸ toBytesBig_fromBytesBig ls
  rw [Frame.bytes, hp, hls, UInt8.ofNat_toNat]

/-! ## One read -/

variable {raised : ReadError} {sock : Socket}

theorem readExactOr_of_le (n : ℕ) (h : sock.resets = false ∨ n ≤ sock.items.length) :
    readExactOr raised n sock = (.ok (sock.items.take n), (readExact n sock).2) := by
  have hgot := (takes_readExact n sock).got
  have hnot : ¬(sock.resets ∧ sock.items.length < n) := by
    rintro ⟨hre, hlt⟩
    rcases h with hopen | hle
    · rw [hopen] at hre
      cases hre
    · omega
  rw [if_neg hnot] at hgot
  rw [readExactOr, ← Prod.mk.eta (p := readExact n sock), hgot]

@[simp] theorem items_readExact (n : ℕ) : (readExact n sock).2.items = sock.items.drop n :=
  (takes_readExact n sock).left

@[simp] theorem resets_readExact (n : ℕ) : (readExact n sock).2.resets = sock.resets :=
  (takes_readExact n sock).resets

theorem readFrame_nothing (h : sock.resets = false) (hv : sock.items = []) :
    (readFrame (readExactOr raised) sock).1 = .ok none := by
  rw [readFrame, readExactOr_of_le _ (.inl h), hv]
  rfl

theorem readFrame_of_short (h : sock.resets = false) (hne : sock.items ≠ [])
    (hlt : sock.items.length < headerSize) :
    (readFrame (readExactOr raised) sock).1 =
      .error (.frameError (.truncatedHeader sock.items.length)) := by
  rw [readFrame, readExactOr_of_le _ (.inl h), List.take_of_length_le (Nat.le_of_lt hlt)]
  cases hv : sock.items with
  | nil => exact absurd hv hne
  | cons b bs =>
    rw [hv, List.length_cons] at hlt
    simp only [if_pos hlt, List.length_cons]

section Header

variable {t : UInt8} {ls rest : List UInt8}

theorem readExactOr_header (hl : ls.length = 4) (hv : sock.items = t :: ls ++ rest) :
    readExactOr raised headerSize sock = (.ok (t :: ls), (readExact headerSize sock).2) := by
  have hle : headerSize ≤ sock.items.length := by
    rw [hv]
    simp [headerSize, hl]
  have hhead : sock.items.take headerSize = t :: ls := by
    rw [hv]
    simp [headerSize, hl]
  rw [readExactOr_of_le _ (.inr hle), hhead]

/-- A header that declares too much ends the read there: nothing behind the header
is asked for. -/
theorem readFrame_of_tooLong (hl : ls.length = 4) (hv : sock.items = t :: ls ++ rest)
    (hmax : maxFramePayload < fromBytesBig ls) :
    readFrame (readExactOr raised) sock =
      (.error (.frameError (.tooLong (fromBytesBig ls))), (readExact headerSize sock).2) := by
  have hlen : ¬ ls.length + 1 < headerSize := by simp [hl, headerSize]
  have htake : ls.take 4 = ls := List.take_of_length_le (Nat.le_of_eq hl)
  rw [readFrame, readExactOr_header hl hv]
  simp only [if_neg hlen, htake, if_pos hmax]

/-- A read that gets a whole header that declares no more than the limit. -/
theorem readFrame_of_header (h : sock.resets = false) (hl : ls.length = 4)
    (hv : sock.items = t :: ls ++ rest) (hmax : fromBytesBig ls ≤ maxFramePayload) :
    (readFrame (readExactOr raised) sock).1 =
        (if rest.length < fromBytesBig ls then
          .error (.frameError (.truncatedPayload rest.length (fromBytesBig ls)))
        else .ok (some ⟨t.toNat, rest.take (fromBytesBig ls)⟩)) ∧
      (readFrame (readExactOr raised) sock).2.items = rest.drop (fromBytesBig ls) ∧
      (readFrame (readExactOr raised) sock).2.resets = false := by
  have hrest : (readExact headerSize sock).2.items = rest := by
    rw [items_readExact, hv]
    simp [headerSize, hl]
  have hlen : ¬ ls.length + 1 < headerSize := by simp [hl, headerSize]
  have htake : ls.take 4 = ls := List.take_of_length_le (Nat.le_of_eq hl)
  rw [readFrame, readExactOr_header hl hv]
  simp only [if_neg hlen, htake, if_neg (Nat.not_lt.mpr hmax)]
  by_cases hzero : fromBytesBig ls = 0
  · simp [hzero, hrest, h]
  · have hopen : (readExact headerSize sock).2.resets = false :=
      (resets_readExact headerSize).trans h
    have hpay : readExactOr raised (fromBytesBig ls) _ = _ := readExactOr_of_le _ (.inl hopen)
    simp only [if_neg hzero, hpay, hrest, List.length_take]
    by_cases hshort : rest.length < fromBytesBig ls
    · simp [hshort, Nat.min_eq_right (Nat.le_of_lt hshort), hrest, h]
    · simp [hshort, hrest, h]

end Header

theorem header_of_le (h : headerSize ≤ sock.items.length) :
    ∃ t ls rest, ls.length = 4 ∧ sock.items = t :: ls ++ rest := by
  cases hv : sock.items with
  | nil =>
    rw [hv] at h
    cases h
  | cons t bs =>
    rw [hv, List.length_cons] at h
    refine ⟨t, bs.take 4, bs.drop 4, ?_, ?_⟩
    · simp only [headerSize] at h
      rw [List.length_take]
      omega
    · rw [List.cons_append, List.take_append_drop]

def IsFrameError (e : ReadError) : Prop := ∃ f, e = .frameError f

theorem Frame.Fits.declared {f : Frame} (h : f.Fits) :
    fromBytesBig (toBytesBig 4 f.payload.length) = f.payload.length := by
  rw [fromBytesBig_toBytesBig]
  exact Nat.mod_eq_of_lt (Nat.lt_of_le_of_lt h.payload (by decide))

theorem Frame.Fits.toNat_ofNat {f : Frame} (h : f.Fits) :
    (UInt8.ofNat f.frameType).toNat = f.frameType :=
  UInt8.toNat_ofNat_of_lt' h.frameType

theorem readFrame_item {f : Frame} {rest : List UInt8} (h : sock.resets = false) (hf : f.Fits)
    (hv : sock.items = f.bytes ++ rest) :
    (readFrame (readExactOr raised) sock).1 = .ok (some f) := by
  rw [Frame.bytes, List.append_assoc] at hv
  have hmax : fromBytesBig (toBytesBig 4 f.payload.length) ≤ maxFramePayload :=
    hf.declared.symm ▸ hf.payload
  rw [(readFrame_of_header h (length_toBytesBig 4 _) hv hmax).1, hf.declared, hf.toNat_ofNat]
  simp

theorem readFrame_cut {f : Frame} {rest : List UInt8} (h : sock.resets = false) (hf : f.Fits)
    (hne : sock.items ≠ []) (hrest : rest ≠ []) (hv : f.bytes = sock.items ++ rest) :
    ∃ e, IsFrameError e ∧ (readFrame (readExactOr raised) sock).1 = .error e := by
  by_cases hlt : sock.items.length < headerSize
  · exact ⟨_, ⟨_, rfl⟩, readFrame_of_short h hne hlt⟩
  · obtain ⟨t, ls, got, hl, hgot⟩ := header_of_le (Nat.le_of_not_lt hlt)
    rw [hgot, Frame.bytes, List.append_assoc] at hv
    obtain ⟨hhead, hpay⟩ := List.append_inj hv (by simp [hl])
    obtain ⟨-, rfl⟩ := List.cons.inj hhead
    have hshort : got.length < f.payload.length := by
      rw [hpay, List.length_append]
      have := List.length_pos_iff.mpr hrest
      omega
    have hmax : fromBytesBig (toBytesBig 4 f.payload.length) ≤ maxFramePayload :=
      hf.declared.symm ▸ hf.payload
    obtain ⟨hres, -⟩ := readFrame_of_header h hl hgot hmax
    rw [hf.declared, if_pos hshort] at hres
    exact ⟨_, ⟨_, rfl⟩, hres⟩

theorem readFrame_sound {f : Frame} (h : sock.resets = false)
    (hr : (readFrame (readExactOr raised) sock).1 = .ok (some f)) :
    f.Fits ∧ sock.items = f.bytes ++ (readFrame (readExactOr raised) sock).2.items ∧
      (readFrame (readExactOr raised) sock).2.resets = false := by
  by_cases hnil : sock.items = []
  · rw [readFrame_nothing h hnil] at hr
    cases hr
  by_cases hlt : sock.items.length < headerSize
  · rw [readFrame_of_short h hnil hlt] at hr
    cases hr
  obtain ⟨t, ls, rest, hl, hv⟩ := header_of_le (Nat.le_of_not_lt hlt)
  by_cases hmax : maxFramePayload < fromBytesBig ls
  · rw [readFrame_of_tooLong hl hv hmax] at hr
    cases hr
  · obtain ⟨hres, hleft, hopen⟩ := readFrame_of_header h hl hv (Nat.le_of_not_lt hmax)
    rw [hres] at hr
    split at hr
    · cases hr
    next hlong =>
      cases hr
      have hlen : (rest.take (fromBytesBig ls)).length = fromBytesBig ls := by
        rw [List.length_take]
        omega
      obtain ⟨hfits, hbytes⟩ := Frame.fits_of_header (h := t) hl hlen (Nat.le_of_not_lt hmax)
      refine ⟨hfits, ?_, hopen⟩
      rw [hbytes, hleft, List.append_assoc, List.take_append_drop, hv]

theorem reads_readFrame : Reads Frame.Fits Frame.bytes Source.items (fun s => s.resets = false)
    IsFrameError (readFrame (readExactOr raised)) where
  item := readFrame_item
  nothing := readFrame_nothing
  cut := readFrame_cut
  sound := readFrame_sound

theorem reads_server : Reads Frame.Fits Frame.bytes Source.items (fun s => s.resets = false)
    IsFrameError (readFrame serverReadExact) := reads_readFrame

theorem reads_client : Reads Frame.Fits Frame.bytes Source.items (fun s => s.resets = false)
    IsFrameError (readFrame clientReadExact) := reads_readFrame

/-! ## Lists of frames -/

def encodeFrames : List Frame → Except EncodeError (List UInt8)
  | [] => .ok []
  | f :: fs => do
    let bytes ← encodeFrame f.frameType f.payload
    let rest ← encodeFrames fs
    return bytes ++ rest

theorem encodeFrames_of_fits {fs : List Frame} (h : ∀ f ∈ fs, f.Fits) :
    encodeFrames fs = .ok (fs.flatMap Frame.bytes) := by
  induction fs with
  | nil => rfl
  | cons f fs ih =>
    rw [List.forall_mem_cons] at h
    rw [encodeFrames, encodeFrame_of_fits h.1, ih h.2]
    rfl

/-- Whatever a connection hands over, both ends read back the frames that were
written: all of them and the clean end from a whole encoding, those wholly inside a
prefix and the clean end or an error from a prefix. A header that declares too much
is an error, and what has been asked for by then lies inside the header. -/
theorem stream_frames_round_trip (loop : ℕ → Socket → Except ReadError (List UInt8) × Socket)
    (hloop : loop = serverReadExact ∨ loop = clientReadExact) :
    (∀ fs : List Frame, (∀ f ∈ fs, f.Fits) → ∃ bytes, encodeFrames fs = .ok bytes ∧
      (∀ sock : Socket, sock.resets = false → sock.items = bytes →
        answers (readFrame loop) (fs.length + 1) sock = fs.map (.ok ∘ some) ++ [.ok none]) ∧
      ∀ n < bytes.length, ∀ sock : Socket, sock.resets = false → sock.items = bytes.take n →
        ∃ last, answers (readFrame loop) ((whole Frame.bytes fs n).length + 1) sock =
            (whole Frame.bytes fs n).map (.ok ∘ some) ++ [last] ∧
          (((whole Frame.bytes fs n).flatMap Frame.bytes).length = n → last = .ok none) ∧
          (((whole Frame.bytes fs n).flatMap Frame.bytes).length ≠ n →
            ∃ e, last = .error (.frameError e))) ∧
    ∀ (sock : Socket) (t : UInt8) (ls rest : List UInt8), ls.length = 4 →
      sock.items = t :: ls ++ rest → maxFramePayload < fromBytesBig ls →
      (readFrame loop sock).1 = .error (.frameError (.tooLong (fromBytesBig ls))) ∧
        ∃ new, (readFrame loop sock).2.requests = sock.requests ++ new ∧
          ∀ q ∈ new, q.1 + q.2 ≤ sock.taken + headerSize := by
  obtain ⟨raised, rfl⟩ : ∃ raised, loop = readExactOr raised := by
    rcases hloop with rfl | rfl
    · exact ⟨.osError, rfl⟩
    · exact ⟨.registryUnavailable, rfl⟩
  refine ⟨?_, ?_⟩
  · intro fs hfs
    refine ⟨fs.flatMap Frame.bytes, encodeFrames_of_fits hfs, ?_, ?_⟩
    · intro sock hopen hv
      exact reads_readFrame.answers_encode hopen hfs hv
    · intro n hn sock hopen hv
      obtain ⟨last, hans, hend, hcut⟩ := reads_readFrame.answers_take hopen hfs hn hv
      refine ⟨last, hans, hend, fun hne => ?_⟩
      obtain ⟨e, ⟨fe, rfl⟩, hlast⟩ := hcut hne
      exact ⟨fe, hlast⟩
  · intro sock t ls rest hl hv hmax
    rw [readFrame_of_tooLong hl hv hmax]
    exact ⟨rfl, (takes_readExact headerSize sock).asked⟩

theorem stream_frames_round_trip_break :
    ∃ bytes, encodeFrames [⟨2, []⟩, ⟨1, [7]⟩] = .ok bytes ∧
      answers (readFrame serverReadExact) 3 (.closing [(2, [0, 0]), (0, [0, 1, 0, 0, 0, 1, 7])]) =
        [.ok (some ⟨2, []⟩), .ok (some ⟨1, [7]⟩), .ok none] := by
  obtain ⟨bytes, henc, hwhole, -⟩ := (stream_frames_round_trip serverReadExact (.inl rfl)).1
    [⟨2, []⟩, ⟨1, [7]⟩] (by decide)
  refine ⟨bytes, henc, hwhole _ rfl ?_⟩
  have hb : encodeFrames [⟨2, []⟩, ⟨1, [7]⟩] = .ok [2, 0, 0, 0, 0, 1, 0, 0, 0, 1, 7] := by decide
  rw [hb] at henc
  cases henc
  rfl

end MbTools.Stream
