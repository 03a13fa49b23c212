import MbTools.Lib.Json

/-! # The endpoint of a virtual board

What the registry makes of the bytes an endpoint sends. They are cut at line
feeds, and a line that is no JSON object is an error of the endpoint; but the
decoder raises other exceptions as well, and those are not caught.
-/

namespace MbTools.Virtual

/-- The exceptions that leave a handler. -/
inductive Uncaught where
  | unicodeError
  | valueError
  | recursionError
  | overflowError
  | typeError
  | keyError
  | ambiguousNameError
  | flashLockNotHeldError
  | osError
  deriving DecidableEq, Repr

/-- What `json.loads` does with a line; a `JSONDecodeError` is told from the rest. -/
inductive Loaded where
  | value (v : Json)
  | malformed
  | raises (e : Uncaught)

/-- What an endpoint does with one connection. -/
structure Endpoint where
  bytes : List UInt8
  /-- The text of the error once its bytes are used up: it hung up, or fell silent. -/
  ending : String
  /-- Why the `n`-th request cannot be written, if it cannot. -/
  refuses : ℕ → Option String

/-- `socket.create_connection`; a host that has no encoding raises no `OSError`. -/
inductive Dial where
  | connected (ep : Endpoint)
  | failed (message : String)
  | raises (e : Uncaught)

/-- An `_EndpointError`, or an exception of another type. -/
inductive Failure where
  | endpoint (message : String)
  | uncaught (e : Uncaught)
  deriving DecidableEq, Repr

def Failure.uncaught? : Failure → Option Uncaught
  | .endpoint _ => none
  | .uncaught e => some e

/-- The lines that are complete. -/
def completeLines : List UInt8 → List (List UInt8)
  | [] => []
  | b :: rest =>
    if b = 10 then [] :: completeLines rest
    else
      match completeLines rest with
      | [] => []
      | l :: lines => (b :: l) :: lines

def isAck (v : Json) : Bool := (v.get "ok").truthy

def isLog (v : Json) : Bool :=
  match v.get "type" with
  | .str type => type = "log"
  | _ => false

/-- What comes of the talk of a flash; the flash counts once it was sent. -/
inductive FlashTalk where
  | failed (f : Failure)
  | refused (ack : Json)
  | relayed (logs : List String) (result : Except Failure Json)

def FlashTalk.uncaught? : FlashTalk → Option Uncaught
  | .failed f => f.uncaught?
  | .refused _ => none
  | .relayed _ (.error f) => f.uncaught?
  | .relayed _ (.ok _) => none

namespace Endpoint

variable (loads : List UInt8 → Loaded) (text : Json → String) (ep : Endpoint)

def lines : List (List UInt8) := completeLines ep.bytes

def message (l : List UInt8) : Except Failure Json :=
  match loads l with
  | .value (.obj fields) => .ok (.obj fields)
  | .value _ => .error (.endpoint "board endpoint sent a non-object line")
  | .malformed => .error (.endpoint "board endpoint sent a malformed line")
  | .raises e => .error (.uncaught e)

/-- `_EndpointConn.read`, on the lines still to come. -/
def read : List (List UInt8) → Except Failure (Json × List (List UInt8))
  | [] => .error (.endpoint ep.ending)
  | l :: rest => (message loads l).map (·, rest)

/-- `_EndpointConn.send` of the `n`-th request. -/
def send (n : ℕ) : Except Failure Unit :=
  match ep.refuses n with
  | none => .ok ()
  | some e => .error (.endpoint s!"board endpoint write failed: {e}")

/-- `_EndpointConn.call`. -/
def call (n : ℕ) (lines : List (List UInt8)) : Except Failure (Json × List (List UInt8)) :=
  match ep.send n with
  | .error f => .error f
  | .ok () => ep.read loads lines

/-- The `lock` and the `stream` of `_virtual_stream_open`: the ack that refuses it, if one does. -/
def openStream : Except Failure (Option Json) :=
  match ep.call loads 0 ep.lines with
  | .error f => .error f
  | .ok (ack, rest) =>
    if !isAck ack then .ok (some ack)
    else
      match ep.call loads 1 rest with
      | .error f => .error f
      | .ok (ack, _) => .ok (if isAck ack then none else some ack)

/-- The loop of `_flash_virtual`: the log lines, and the message that ends them. -/
def relay : List (List UInt8) → List String × Except Failure Json
  | [] => ([], .error (.endpoint ep.ending))
  | l :: rest =>
    match message loads l with
    | .error f => ([], .error f)
    | .ok msg =>
      if isLog msg then ((msg.get "line").strOf text :: (relay rest).1, (relay rest).2)
      else ([], .ok msg)

/-- The `lock`, the `send_hex` and the `flash` of `_flash_virtual`. -/
def flash : FlashTalk :=
  match ep.call loads 0 ep.lines with
  | .error f => .failed f
  | .ok (ack, rest) =>
    if !isAck ack then .refused ack
    else
      match ep.call loads 1 rest with
      | .error f => .failed f
      | .ok (ack, rest) =>
        if !isAck ack || !(ack.get "hex_path").truthy then .refused ack
        else
          match ep.send 2 with
          | .error f => .failed f
          | .ok () => .relayed (ep.relay loads text rest).1 (ep.relay loads text rest).2

/-- Do the lines from number `n` on lead to one that the decoder raises on? Each before it is an
object that the talk goes on after, and no request up to it is refused. -/
inductive Trips (goesOn : ℕ → Json → Bool) : ℕ → List (List UInt8) → Prop
  | here {n : ℕ} {l : List UInt8} {rest : List (List UInt8)} {e : Uncaught}
      (sent : n ≤ 2 → ep.refuses n = none) (raises : loads l = .raises e) :
      Trips goesOn n (l :: rest)
  | later {n : ℕ} {l : List UInt8} {rest : List (List UInt8)} {fields : List (String × Json)}
      (sent : n ≤ 2 → ep.refuses n = none) (value : loads l = .value (.obj fields))
      (on : goesOn n (.obj fields) = true) (rest_trips : Trips goesOn (n + 1) rest) :
      Trips goesOn n (l :: rest)

def streamGoesOn : ℕ → Json → Bool
  | 0, ack => isAck ack
  | _, _ => false

def flashGoesOn : ℕ → Json → Bool
  | 0, ack => isAck ack
  | 1, ack => isAck ack && (ack.get "hex_path").truthy
  | _, msg => isLog msg

section Lemmas

variable {loads : List UInt8 → Loaded} {text : Json → String} {ep : Endpoint}
  {goesOn : ℕ → Json → Bool} {n : ℕ} {l : List UInt8} {rest lines : List (List UInt8)}

theorem message_eq_uncaught_iff {e : Uncaught} :
    message loads l = .error (.uncaught e) ↔ loads l = .raises e := by
  unfold message
  cases loads l with
  | value v => cases v <;> simp
  | malformed => simp
  | raises e' => simp

theorem message_eq_ok_iff {v : Json} :
    message loads l = .ok v ↔ loads l = .value v ∧ ∃ fields, v = .obj fields := by
  unfold message
  cases loads l with
  | value w =>
    cases w with
    | obj fields =>
      simp only [Except.ok.injEq, Loaded.value.injEq]
      constructor
      · rintro rfl
        exact ⟨rfl, fields, rfl⟩
      · exact fun h => h.1
    | _ =>
      simp only [reduceCtorEq, Loaded.value.injEq, false_iff, not_and]
      rintro rfl ⟨_, h⟩
      cases h
  | malformed => simp
  | raises e => simp

theorem not_trips_nil : ¬ ep.Trips loads goesOn n [] := nofun

theorem not_trips_of_refused {e : String} (hn : n ≤ 2) (h : ep.refuses n = some e) :
    ¬ ep.Trips loads goesOn n lines := by
  intro ht
  cases ht with
  | here sent _ => exact absurd (sent hn) (by simp [h])
  | later sent _ _ _ => exact absurd (sent hn) (by simp [h])

theorem trips_cons_iff (sent : n ≤ 2 → ep.refuses n = none) :
    ep.Trips loads goesOn n (l :: rest) ↔ (∃ e, message loads l = .error (.uncaught e)) ∨
      ∃ v, message loads l = .ok v ∧ goesOn n v = true ∧ ep.Trips loads goesOn (n + 1) rest := by
  simp only [message_eq_uncaught_iff, message_eq_ok_iff]
  constructor
  · intro h
    cases h with
    | here _ raises => exact Or.inl ⟨_, raises⟩
    | later _ value on rest_trips => exact Or.inr ⟨_, ⟨value, _, rfl⟩, on, rest_trips⟩
  · rintro (⟨e, he⟩ | ⟨_, ⟨hv, fields, rfl⟩, on, rest_trips⟩)
    · exact .here sent he
    · exact .later sent hv on rest_trips

theorem call_cases (hn : n ≤ 2) :
    (∃ m, ep.call loads n lines = .error (.endpoint m) ∧ ¬ ep.Trips loads goesOn n lines) ∨
    (∃ e, ep.call loads n lines = .error (.uncaught e) ∧ ep.Trips loads goesOn n lines) ∨
    ∃ v rest, ep.call loads n lines = .ok (v, rest) ∧
      (ep.Trips loads goesOn n lines ↔ goesOn n v = true ∧ ep.Trips loads goesOn (n + 1) rest) := by
  unfold call send
  cases hr : ep.refuses n with
  | some e => exact Or.inl ⟨_, rfl, not_trips_of_refused hn hr⟩
  | none =>
    cases lines with
    | nil => exact Or.inl ⟨_, rfl, not_trips_nil⟩
    | cons l rest =>
      have htrips := @trips_cons_iff loads ep goesOn n l rest fun _ => hr
      cases hm : message loads l with
      | error f =>
        simp only [hm, reduceCtorEq, false_and, exists_false, or_false] at htrips
        cases f with
        | endpoint m =>
          exact Or.inl ⟨m, by simp [read, hm, Except.map], by simp [htrips]⟩
        | uncaught e =>
          exact Or.inr (Or.inl ⟨e, by simp [read, hm, Except.map], htrips.mpr ⟨e, rfl⟩⟩)
      | ok v =>
        refine Or.inr (Or.inr ⟨v, rest, by simp [read, hm, Except.map], htrips.trans ?_⟩)
        simp [hm]

/-- An exception leaves the opening of a stream exactly when a line trips it. -/
theorem openStream_uncaught_iff : (∃ e, ep.openStream loads = .error (.uncaught e)) ↔
    ep.Trips loads streamGoesOn 0 ep.lines := by
  unfold openStream
  rcases @call_cases loads ep streamGoesOn 0 ep.lines (Nat.zero_le 2) with
    (⟨m, hc, hno⟩ | ⟨e, hc, ht⟩ | ⟨ack, rest, hc, htrips⟩)
  · simp [hc, hno]
  · simp [hc, ht]
  · rw [hc, htrips]
    cases ha : isAck ack with
    | false => simp [ha, streamGoesOn]
    | true =>
      rcases @call_cases loads ep streamGoesOn 1 rest (by omega) with
        (⟨m, hc, hno⟩ | ⟨e, hc, ht⟩ | ⟨ack', rest', hc, htrips'⟩)
      · simp [ha, streamGoesOn, hc, hno]
      · simp [ha, streamGoesOn, hc, ht]
      · simp [ha, streamGoesOn, hc, htrips']

theorem relay_uncaught_iff (hn : 2 ≤ n) (sent : n ≤ 2 → ep.refuses n = none) :
    (∃ e, (ep.relay loads text lines).2 = .error (.uncaught e)) ↔
      ep.Trips loads flashGoesOn n lines := by
  induction lines generalizing n with
  | nil => simp [relay, not_trips_nil]
  | cons l rest ih =>
    obtain ⟨k, rfl⟩ : ∃ k, n = k + 2 := ⟨n - 2, by omega⟩
    rw [trips_cons_iff sent]
    cases hm : message loads l with
    | error f => simp [relay, hm]
    | ok msg =>
      cases hl : isLog msg with
      | false => simp [relay, hm, hl, flashGoesOn]
      | true =>
        have hrest := ih (n := k + 3) (by omega) (by omega)
        simpa [relay, hm, hl, flashGoesOn] using hrest

theorem flash_uncaught_iff : (∃ e, (ep.flash loads text).uncaught? = some e) ↔
    ep.Trips loads flashGoesOn 0 ep.lines := by
  unfold flash
  rcases @call_cases loads ep flashGoesOn 0 ep.lines (Nat.zero_le 2) with
    (⟨m, hc, hno⟩ | ⟨e, hc, ht⟩ | ⟨ack, rest, hc, htrips⟩)
  · simp [hc, hno, FlashTalk.uncaught?, Failure.uncaught?]
  · simp [hc, ht, FlashTalk.uncaught?, Failure.uncaught?]
  rw [hc, htrips]
  cases ha : isAck ack with
  | false => simp [ha, flashGoesOn, FlashTalk.uncaught?]
  | true =>
    rcases @call_cases loads ep flashGoesOn 1 rest (by omega) with
      (⟨m, hc, hno⟩ | ⟨e, hc, ht⟩ | ⟨ack', rest', hc, htrips'⟩)
    · simp [ha, flashGoesOn, hc, hno, FlashTalk.uncaught?, Failure.uncaught?]
    · simp [ha, flashGoesOn, hc, ht, FlashTalk.uncaught?, Failure.uncaught?]
    cases hp : isAck ack' && (ack'.get "hex_path").truthy with
    | false =>
      have hno : (!isAck ack' || !(ack'.get "hex_path").truthy) = true := by
        rw [← Bool.not_and, hp, Bool.not_false]
      simp [ha, flashGoesOn, hc, htrips', hp, hno, FlashTalk.uncaught?]
    | true =>
      have hyes : (!isAck ack' || !(ack'.get "hex_path").truthy) = false := by
        rw [← Bool.not_and, hp, Bool.not_true]
      cases hs : ep.refuses 2 with
      | some m =>
        have hno := @not_trips_of_refused loads ep flashGoesOn 2 rest' m (Nat.le_refl _) hs
        simp [ha, flashGoesOn, hc, htrips', hp, hyes, send, hs, hno, FlashTalk.uncaught?,
          Failure.uncaught?]
      | none =>
        have hrelay := @relay_uncaught_iff loads text ep 2 rest' (Nat.le_refl _) fun _ => hs
        simp only [ha, Bool.not_true, Bool.false_eq_true, if_false, hc, hyes, send, hs, htrips',
          flashGoesOn, hp, true_and, ← hrelay]
        cases (ep.relay loads text rest').2 with
        | ok msg => simp [FlashTalk.uncaught?]
        | error f => cases f <;> simp [FlashTalk.uncaught?, Failure.uncaught?]

end Lemmas

end Endpoint

end MbTools.Virtual
