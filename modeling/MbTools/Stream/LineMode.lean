import MbTools.Lib.LineBuffer
import MbTools.Lib.Utf8Lines
import MbTools.Virtual.Endpoint

/-! # Line framing

Two readers that cut lines out of what arrives: the one of a named pipe, which
has lines to the end, and the one of a board's endpoint, which goes over to raw
bytes after two lines and has to hand on what it has read beyond them.
-/

namespace MbTools.Stream

open Chunks Lines Utf8 Virtual

/-! ## A named pipe -/

/-- `_PipeLineReader`; it takes at most `chunk + 1` bytes at a time. -/
structure PipeLineReader where
  chunk : ℕ
  buffer : LineBuffer
  eof : Bool

/-- `_PipeLineReader.__init__`. -/
def PipeLineReader.start (chunk : ℕ) (pipe : Source UInt8) : PipeLineReader :=
  ⟨chunk, ⟨[], pipe⟩, false⟩

/-- What is left in the buffer once there is no more to come: all of it, decoded. -/
def PipeLineReader.flush (r : PipeLineReader) : Option (List Char) × PipeLineReader :=
  if r.buffer.buf = [] then (some [], r)
  else (decode? r.buffer.buf, { r with buffer := { r.buffer with buf := [] } })

/-- `_PipeLineReader.readline`; `none` is a `UnicodeDecodeError`. A broken pipe is read as its end,
and after its end nothing is read. -/
def PipeLineReader.readline (r : PipeLineReader) : Option (List Char) × PipeLineReader :=
  if r.eof then
    match splitLine r.buffer.buf with
    | some (line, rest) =>
      (decode? (line ++ [newline]), { r with buffer := { r.buffer with buf := rest } })
    | none => r.flush
  else
    match r.buffer.fetch r.chunk with
    | (.line line, buffer) => (decode? (line ++ [newline]), { r with buffer })
    | (_, buffer) => PipeLineReader.flush { r with buffer, eof := true }

/-- The lines that iterating gives in some turns, if it is over by then and nothing raises. -/
def PipeLineReader.iterate : ℕ → PipeLineReader → Option (List (List Char))
  | 0, _ => none
  | turns + 1, r =>
    match r.readline with
    | (none, _) => none
    | (some [], _) => some []
    | (some line, r) => (iterate turns r).map (line :: ·)

section Pipe

variable {r : PipeLineReader} {text line rest : List Char}

theorem readline_line (he : r.eof = false)
    (hi : r.buffer.items = encode (line ++ '\n' :: rest)) (hl : '\n' ∉ line) :
    ∃ r', r.readline = (some (line ++ ['\n']), r') ∧ r'.eof = false ∧
      r'.buffer.items = encode rest := by
  have hbytes : r.buffer.items = encode line ++ newline :: encode rest := by
    rw [hi, encode_append, ← List.singleton_append, encode_append, encode_newline]
    rfl
  obtain ⟨got, buffer, hf⟩ : ∃ got buffer, r.buffer.fetch r.chunk = (got, buffer) := ⟨_, _, rfl⟩
  have hline := (LineBuffer.fetches_fetch r.chunk r.buffer).line hbytes
    (newline_mem_encode_iff.not.mpr hl)
  rw [hf] at hline
  obtain ⟨rfl, hrest⟩ := hline
  have hdec : decode? (encode line ++ [newline]) = some (line ++ ['\n']) := by
    rw [← encode_newline, ← encode_append, decode?_encode]
  refine ⟨{ r with buffer }, ?_, he, hrest⟩
  rw [PipeLineReader.readline, if_neg (by rw [he]; nofun), hf, ← hdec]

theorem flush_of_buffer (hi : r.buffer.buf = encode text) :
    ∃ r', r.flush = (some text, r') ∧ r'.eof = r.eof ∧ r'.buffer.buf = [] := by
  unfold PipeLineReader.flush
  split
  · rename_i hnil
    have hd := decode?_encode text
    rw [← hi, hnil] at hd
    obtain rfl : [] = text := Option.some.inj ((decode?_encode []).symm.trans hd)
    exact ⟨r, rfl, rfl, hnil⟩
  · rw [hi, decode?_encode]
    exact ⟨_, rfl, rfl, rfl⟩

theorem readline_last (he : r.eof = false) (hi : r.buffer.items = encode text)
    (hl : '\n' ∉ text) : ∃ r', r.readline = (some text, r') ∧ r'.eof = true ∧
      r'.buffer.buf = [] := by
  have hn : newline ∉ r.buffer.items := by
    rw [hi]
    exact newline_mem_encode_iff.not.mpr hl
  obtain ⟨got, buffer, hf⟩ : ∃ got buffer, r.buffer.fetch r.chunk = (got, buffer) := ⟨_, _, rfl⟩
  have hlast := (LineBuffer.fetches_fetch r.chunk r.buffer).last hn
  rw [hf, hi] at hlast
  obtain ⟨rfl, hbuf, -⟩ := hlast
  obtain ⟨r', hr', heof, hnil⟩ := flush_of_buffer (r := { r with buffer, eof := true }) hbuf
  refine ⟨r', ?_, heof, hnil⟩
  rw [PipeLineReader.readline, if_neg (by rw [he]; nofun), hf, ← hr']
  cases r.buffer.sock.resets <;> rfl

theorem readline_ended (he : r.eof = true) (hb : r.buffer.buf = []) :
    r.readline = (some [], r) := by
  rw [PipeLineReader.readline, if_pos he, hb]
  simp only [splitLine, PipeLineReader.flush, hb, if_true]

theorem iterate_line {r' : PipeLineReader} {turns : ℕ} (h : r.readline = (some line, r'))
    (hne : line ≠ []) : r.iterate (turns + 1) = (r'.iterate turns).map (line :: ·) := by
  rw [PipeLineReader.iterate, h]
  cases line with
  | nil => exact absurd rfl hne
  | cons c line => rfl

theorem iterate_eq_textLines (he : r.eof = false) (hi : r.buffer.items = encode text) :
    ∃ turns, r.iterate turns = some (textLines text) := by
  induction hn : text.length using Nat.strong_induction_on generalizing text r with
  | h n ih =>
    by_cases hl : '\n' ∈ text
    · obtain ⟨line, rest, rfl, hline⟩ := exists_line hl
      obtain ⟨r', hr, he', hi'⟩ := readline_line he hi hline
      have hlt : rest.length < n := by
        rw [← hn, List.length_append, List.length_cons]
        omega
      obtain ⟨turns, hturns⟩ := ih rest.length hlt he' hi' rfl
      refine ⟨turns + 1, ?_⟩
      rw [iterate_line hr (by simp), hturns, textLines_line hline]
      rfl
    · obtain ⟨r', hr, he', hb⟩ := readline_last he hi hl
      cases text with
      | nil => exact ⟨1, by rw [PipeLineReader.iterate, hr]; rfl⟩
      | cons c text =>
        have hne := List.cons_ne_nil c text
        refine ⟨2, ?_⟩
        rw [iterate_line hr hne, PipeLineReader.iterate, readline_ended he' hb,
          textLines_last hl hne]
        rfl

end Pipe

/-! ## A board's endpoint -/

/-- How the talk with an endpoint may fail: the texts of the `OSError` of a `recv` and of the
`n`-th `sendall`, if it raises. -/
structure EndpointErrors where
  recv : String
  send : ℕ → Option String

section Endpoint

variable (loads : List UInt8 → Loaded) (errors : EndpointErrors)

/-- `_EndpointConn.read`. -/
def endpointRead (ep : LineBuffer) : Except Failure (Json × LineBuffer) :=
  match ep.fetch 65535 with
  | (.line l, ep) => (Endpoint.message loads l).map (·, ep)
  | (.closed, _) => .error (.endpoint "board endpoint closed the connection")
  | (.raised, _) => .error (.endpoint s!"board endpoint read failed: {errors.recv}")

/-- `_EndpointConn.call` of the `n`-th request. -/
def endpointCall (n : ℕ) (ep : LineBuffer) : Except Failure (Json × LineBuffer) :=
  match errors.send n with
  | some e => .error (.endpoint s!"board endpoint write failed: {e}")
  | none => endpointRead loads errors ep

/-- `_virtual_stream_open`, once it is connected: the ack that refuses it, if one does, and the
connection that `_handle_virtual_stream` gets. -/
def virtualStreamOpen (sock : Source UInt8) : Except Failure (Option Json × LineBuffer) :=
  match endpointCall loads errors 0 ⟨[], sock⟩ with
  | .error f => .error f
  | .ok (ack, ep) =>
    if !isAck ack then .ok (some ack, ep)
    else
      match endpointCall loads errors 1 ep with
      | .error f => .error f
      | .ok (ack, ep) => .ok (if isAck ack then none else some ack, ep)

/-- One turn of `_pump_endpoint_to_client`: the bytes it sends. What was read with the lines goes
first; a `recv` that gives none ends the loop. -/
def pumpTurn (ep : LineBuffer) : List UInt8 × LineBuffer :=
  if ep.buf ≠ [] then (ep.buf, { ep with buf := [] })
  else
    match recv 65536 ep.sock with
    | (some data, sock) => (data, { ep with sock })
    | (none, sock) => ([], { ep with sock })

/-- What some turns send to the client. -/
def pump : ℕ → LineBuffer → List UInt8 × LineBuffer
  | 0, ep => ([], ep)
  | turns + 1, ep =>
    ((pumpTurn ep).1 ++ (pump turns (pumpTurn ep).2).1, (pump turns (pumpTurn ep).2).2)

variable {loads : List UInt8 → Loaded} {errors : EndpointErrors} {ep ep' : LineBuffer} {msg : Json}
  {n : ℕ}

/-- A turn sends the first of what is left, and something while anything is. -/
theorem pumpTurn_spec (ep : LineBuffer) : (pumpTurn ep).1 ++ (pumpTurn ep).2.items = ep.items ∧
    (ep.items ≠ [] → (pumpTurn ep).1 ≠ []) := by
  unfold pumpTurn
  split
  · rename_i hb
    exact ⟨rfl, fun _ => hb⟩
  · rename_i hb
    have hbuf : ep.buf = [] := not_not.mp hb
    have hitems : ep.items = ep.sock.items := by rw [LineBuffer.items, hbuf, List.nil_append]
    by_cases hs : ep.sock.items = []
    · have hleft : ∀ sock : Source UInt8, sock.items = [] →
          LineBuffer.items { ep with sock } = [] := by
        intro sock h
        rw [LineBuffer.items, h, hbuf]
        rfl
      rw [recv_nil hs, hitems, hs]
      cases ep.sock.resets with
      | true => exact ⟨hleft _ hs, fun h => absurd rfl h⟩
      | false => exact ⟨hleft _ hs, fun h => absurd rfl h⟩
    · obtain ⟨a, as, sock, hr, -, hsplit, -⟩ := recv_of_ne (n := 65535) hs
      rw [hr, hitems, hsplit]
      exact ⟨by simp [LineBuffer.items, hbuf], fun _ => List.cons_ne_nil a as⟩

theorem pump_append_items (turns : ℕ) (ep : LineBuffer) :
    (pump turns ep).1 ++ (pump turns ep).2.items = ep.items := by
  induction turns generalizing ep with
  | zero => rfl
  | succ turns ih => rw [pump, List.append_assoc, ih, (pumpTurn_spec ep).1]

theorem pump_of_le {turns : ℕ} (h : ep.items.length ≤ turns) : (pump turns ep).1 = ep.items := by
  have hleft : (pump turns ep).2.items = [] := by
    induction turns generalizing ep with
    | zero => exact List.length_eq_zero_iff.mp (Nat.le_zero.mp h)
    | succ turns ih =>
      obtain ⟨hsplit, hsome⟩ := pumpTurn_spec ep
      refine ih ?_
      by_cases hnil : ep.items = []
      · rw [hnil] at hsplit
        rw [(List.append_eq_nil_iff.mp hsplit).2]
        exact Nat.zero_le turns
      · have hpos := List.length_pos_iff.mpr (hsome hnil)
        rw [← hsplit, List.length_append] at h
        omega
  rw [← pump_append_items turns ep, hleft, List.append_nil]

theorem endpointCall_eq_ok_iff : endpointCall loads errors n ep = .ok (msg, ep') ↔
    errors.send n = none ∧ ∃ l, Endpoint.message loads l = .ok msg ∧
      ep.fetch 65535 = (.line l, ep') := by
  unfold endpointCall
  cases errors.send n with
  | some e => exact iff_of_false nofun fun h => nomatch h.1
  | none =>
    rw [and_iff_right rfl]
    unfold endpointRead
    obtain ⟨got, b, hf⟩ : ∃ got b, ep.fetch 65535 = (got, b) := ⟨_, _, rfl⟩
    rw [hf]
    cases got with
    | line l =>
      dsimp only
      cases hm : Endpoint.message loads l with
      | error f =>
        refine iff_of_false nofun ?_
        rintro ⟨l', hl', he⟩
        cases he
        cases hm.symm.trans hl'
      | ok m =>
        simp only [Except.map, Except.ok.injEq, Prod.mk.injEq, Fetched.line.injEq]
        constructor
        · rintro ⟨rfl, rfl⟩
          exact ⟨l, hm, rfl, rfl⟩
        · rintro ⟨l', hl', rfl, rfl⟩
          exact ⟨Except.ok.inj (hm.symm.trans hl'), rfl⟩
    | closed => exact iff_of_false nofun fun ⟨l, _, he⟩ => nomatch he
    | raised => exact iff_of_false nofun fun ⟨l, _, he⟩ => nomatch he

theorem items_of_fetch {l : List UInt8} (h : ep.fetch n = (.line l, ep')) :
    ep.items = l ++ newline :: ep'.items ∧ newline ∉ l := by
  have hf := LineBuffer.fetches_fetch n ep
  rw [h] at hf
  by_cases hmem : newline ∈ ep.items
  · cases hs : splitLine ep.items with
    | none => exact absurd hmem (splitLine_eq_none_iff.mp hs)
    | some p =>
      obtain ⟨hi, hl⟩ := splitLine_eq_some_iff.mp hs
      obtain ⟨hline, hrest⟩ := hf.line hi hl
      obtain rfl : l = p.1 := Fetched.line.inj hline
      exact ⟨by rw [hi, ← hrest], hl⟩
  · have hlast := (hf.last hmem).1
    split at hlast
    · cases hlast
    · cases hlast

/-- The connection that is handed on still has everything behind the second line. -/
theorem virtualStreamOpen_items {sock : Source UInt8}
    (h : virtualStreamOpen loads errors sock = .ok (none, ep)) :
    ∃ lockAck streamAck, sock.items = lockAck ++ newline :: (streamAck ++ newline :: ep.items) ∧
      newline ∉ lockAck ∧ newline ∉ streamAck := by
  unfold virtualStreamOpen at h
  cases h1 : endpointCall loads errors 0 ⟨[], sock⟩ with
  | error f => simp [h1] at h
  | ok r =>
    obtain ⟨ack, ep1⟩ := r
    obtain ⟨-, l1, -, hf1⟩ := endpointCall_eq_ok_iff.mp h1
    obtain ⟨hi1, hn1⟩ := items_of_fetch hf1
    rw [h1] at h
    dsimp only at h
    split at h
    · cases h
    · cases h2 : endpointCall loads errors 1 ep1 with
      | error f => simp [h2] at h
      | ok r =>
        obtain ⟨ack2, ep2⟩ := r
        obtain ⟨-, l2, -, hf2⟩ := endpointCall_eq_ok_iff.mp h2
        obtain ⟨hi2, hn2⟩ := items_of_fetch hf2
        rw [h2] at h
        obtain rfl : ep2 = ep := (Prod.mk.inj (Except.ok.inj h)).2
        refine ⟨l1, l2, ?_, hn1, hn2⟩
        rw [← hi2]
        exact hi1

theorem completeLines_line {l rest : List UInt8} (h : newline ∉ l) :
    completeLines (l ++ newline :: rest) = l :: completeLines rest := by
  induction l with
  | nil => rfl
  | cons b l ih =>
    rw [List.mem_cons, not_or] at h
    rw [List.cons_append, completeLines, if_neg (show ¬ b = 10 from Ne.symm h.1), ih h.2]

theorem completeLines_last {bytes : List UInt8} (h : newline ∉ bytes) :
    completeLines bytes = [] := by
  induction bytes with
  | nil => rfl
  | cons b bytes ih =>
    rw [List.mem_cons, not_or] at h
    rw [completeLines, if_neg (show ¬ b = 10 from Ne.symm h.1), ih h.2]

/-- The endpoint as its lines are seen, with its bytes and how they end. -/
def endpointOf (errors : EndpointErrors) (sock : Source UInt8) : Endpoint where
  bytes := sock.items
  ending :=
    if sock.resets then s!"board endpoint read failed: {errors.recv}"
    else "board endpoint closed the connection"
  refuses := errors.send

/-- A call gets what it would get of the lines, and leaves the lines behind. -/
theorem endpointCall_agrees (n : ℕ) {sock : Source UInt8} (hr : ep.sock.resets = sock.resets) :
    (endpointCall loads errors n ep).map (fun r => (r.1, completeLines r.2.items)) =
      (endpointOf errors sock).call loads n (completeLines ep.items) ∧
    ∀ r, endpointCall loads errors n ep = .ok r → r.2.sock.resets = sock.resets := by
  have hf := LineBuffer.fetches_fetch 65535 ep
  obtain ⟨got, b, hfetch⟩ : ∃ got b, ep.fetch 65535 = (got, b) := ⟨_, _, rfl⟩
  rw [hfetch] at hf
  unfold endpointCall endpointRead Endpoint.call Endpoint.send endpointOf
  dsimp only
  cases errors.send n with
  | some e => exact ⟨rfl, nofun⟩
  | none =>
    dsimp only
    rw [hfetch]
    by_cases hmem : newline ∈ ep.items
    · obtain ⟨p, hp⟩ : ∃ p, splitLine ep.items = some p := by
        cases hs : splitLine ep.items with
        | none => exact absurd hmem (splitLine_eq_none_iff.mp hs)
        | some p => exact ⟨p, rfl⟩
      obtain ⟨hi, hl⟩ := splitLine_eq_some_iff.mp hp
      obtain ⟨rfl, hrest⟩ := hf.line hi hl
      rw [hi, completeLines_line hl, ← hrest]
      dsimp only [Endpoint.read]
      cases Endpoint.message loads p.1 with
      | error f => exact ⟨rfl, nofun⟩
      | ok msg =>
        refine ⟨rfl, fun r h => ?_⟩
        obtain rfl := Except.ok.inj h
        exact hf.resets.trans hr
    · obtain ⟨hgot, -, -⟩ := hf.last hmem
      dsimp only at hgot
      rw [completeLines_last hmem, hgot, ← hr]
      cases ep.sock.resets with
      | true => exact ⟨rfl, nofun⟩
      | false => exact ⟨rfl, nofun⟩

/-- However its bytes arrive, an endpoint accepts or refuses a stream as by its lines. -/
theorem virtualStreamOpen_agrees (loads : List UInt8 → Loaded) (errors : EndpointErrors)
    (sock : Source UInt8) : (virtualStreamOpen loads errors sock).map Prod.fst =
      (endpointOf errors sock).openStream loads := by
  have h1 : _ ∧ _ := @endpointCall_agrees loads errors ⟨[], sock⟩ 0 sock rfl
  obtain ⟨he1, hr1⟩ := h1
  have hlines : (endpointOf errors sock).lines = completeLines (LineBuffer.items ⟨[], sock⟩) := rfl
  unfold virtualStreamOpen Endpoint.openStream
  rw [hlines, ← he1]
  cases hc1 : endpointCall loads errors 0 ⟨[], sock⟩ with
  | error f => rfl
  | ok r =>
    obtain ⟨ack, ep1⟩ := r
    obtain ⟨he2, -⟩ := @endpointCall_agrees loads errors ep1 1 sock (hr1 _ hc1)
    cases ha : isAck ack with
    | false => simp only [Except.map, ha, Bool.not_false, if_true]
    | true =>
      simp only [Except.map, ha, Bool.not_true, Bool.false_eq_true, if_false, ← he2]
      cases endpointCall loads errors 1 ep1 with
      | error f => rfl
      | ok r => rfl

end Endpoint

/-- A pipe gives the lines of its text, and a stream on a virtual board gives the client what its
endpoint sends behind the line that accepts it: a part of it after any number of turns, all of it
after enough. -/
theorem line_framing_loses_nothing :
    (∀ (text : List Char) (pipe : Source UInt8) (chunk : ℕ), pipe.items = encode text →
      ∃ turns, (PipeLineReader.start chunk pipe).iterate turns = some (textLines text)) ∧
    ∀ (loads : List UInt8 → Loaded) (errors : EndpointErrors) (sock : Source UInt8)
      (ep : LineBuffer), virtualStreamOpen loads errors sock = .ok (none, ep) →
      ∃ lockAck streamAck rest,
        sock.items = lockAck ++ newline :: (streamAck ++ newline :: rest) ∧
        newline ∉ lockAck ∧ newline ∉ streamAck ∧
        (∀ turns, (pump turns ep).1 <+: rest) ∧
        ∀ turns, rest.length ≤ turns → (pump turns ep).1 = rest := by
  constructor
  · intro text pipe chunk hi
    exact iterate_eq_textLines rfl hi
  · intro loads errors sock ep h
    obtain ⟨l1, l2, hi, h1, h2⟩ := virtualStreamOpen_items h
    exact ⟨l1, l2, ep.items, hi, h1, h2, fun turns => ⟨_, pump_append_items turns ep⟩,
      fun turns hle => pump_of_le hle⟩

/-- `é` cut in two, and raw bytes that come with the second ack. -/
theorem line_framing_loses_nothing_cut :
    (∃ turns, (PipeLineReader.start 4095
      (.closing [(0x61, [0xC3]), (0xA9, [10]), (0x62, [])])).iterate turns =
        some [['a', 'é', '\n'], ['b']]) ∧
    ∃ ep, virtualStreamOpen (fun _ => .value (.obj [("ok", .bool true)])) ⟨"", fun _ => none⟩
        (.closing [(0x31, [10, 0x32, 10, 7, 8]), (9, [])]) = .ok (none, ep) ∧
      ∃ lockAck streamAck rest, [0x31, 10, 0x32, 10, 7, 8, 9] =
          lockAck ++ newline :: (streamAck ++ newline :: rest) ∧
        newline ∉ lockAck ∧ newline ∉ streamAck ∧ (∀ turns, (pump turns ep).1 <+: rest) ∧
        ∀ turns, rest.length ≤ turns → (pump turns ep).1 = rest :=
  ⟨line_framing_loses_nothing.1 ['a', 'é', '\n', 'b'] _ 4095 (by decide),
    ⟨[7, 8], ⟨[(9, [])], false, 6, [(0, 65536)]⟩⟩, rfl,
    line_framing_loses_nothing.2 (fun _ => .value (.obj [("ok", .bool true)]))
      ⟨"", fun _ => none⟩ (.closing [(0x31, [10, 0x32, 10, 7, 8]), (9, [])]) _ rfl⟩

end MbTools.Stream
