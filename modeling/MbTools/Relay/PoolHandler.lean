import MbTools.Api.System
import MbTools.Lib.Unwind

/-! # One connection of the relay pool

A connection of the pool port gets a relay of its own: locked, reset, piped and given
back. Every call on the channel and on the client's socket may raise anything.
-/

namespace MbTools.RelayPool

open Unwind

/-- An exception, as far as the handler tells them apart. -/
inductive Exn where
  | relayError (message : String)
  | osError (message : String)
  | other (name message : String)
  deriving DecidableEq, Repr

def Exn.isRelayError : Exn → Bool
  | relayError _ => true
  | _ => false

def Exn.isOsError : Exn → Bool
  | osError _ => true
  | _ => false

abbrev Bytes := List UInt8

/-- What the calls inside `RelayControl.reset_and_normalize` come to: the opening, the
talk with the board up to its banner, and the closing. -/
structure Normalizing where
  opening : Option Exn
  dialog : Except Exn Bytes
  closing : Option Exn

/-- What the calls of the pipe come to: each chunk the client sends with its write, and the end
of the reading, where `none` is the client's disconnection. -/
structure Piping where
  opening : Option Exn
  startReading : Option Exn
  chunks : List (Bytes × Option Exn)
  lastRead : Option Exn
  stopReading : Option Exn
  closing : Option Exn

structure Behaviour where
  construct : String → Option Exn
  acquire : Normalizing
  sendall : Bytes → Option Exn
  pipe : Piping
  release : Normalizing
  connClose : Option Exn

/-- The locks of the registry, and whether `close` was called on the client's socket. -/
structure Handling where
  locks : LockManager
  closed : Bool
  deriving DecidableEq, Repr

abbrev HandlerM (α : Type) := Unwind Handling Exn α

def resetAndNormalize (n : Normalizing) : HandlerM Bytes := do
  raises n.opening
  ensure (answer n.dialog) (raises n.closing)

/-- The reading loop. -/
def forward (lastRead : Option Exn) : List (Bytes × Option Exn) → HandlerM Unit
  | [] => except Exn.isOsError (raises lastRead) fun _ => pure ()
  | (data, written) :: chunks =>
    if data = [] then pure ()
    else do
      raises written
      forward lastRead chunks

def pump (p : Piping) : HandlerM Unit := do
  raises p.opening
  ensure
    (do
      raises p.startReading
      ensure (forward p.lastRead p.chunks) (raises p.stopReading))
    (raises p.closing)

variable (b : Behaviour)

def safeClose : HandlerM Unit := do
  change fun h => { h with closed := true }
  except Exn.isOsError (raises b.connClose) fun _ => pure ()

def ascii (text : String) : Bytes := text.toList.map fun c => UInt8.ofNat c.toNat

def crlf : Bytes := [0x0D, 0x0A]

def rejectMessage (total busy : ℕ) : String :=
  s!"# ERROR: no relay available ({total} devices, {busy} in use)"

def reject (total busy : ℕ) : HandlerM Unit := do
  except Exn.isOsError (raises (b.sendall (ascii (rejectMessage total busy) ++ crlf)))
    fun _ => pure ()
  safeClose b

/-- The session on a locked relay, up to its cleanup. -/
def session : HandlerM Unit := do
  let banner ← except Exn.isRelayError (some <$> resetAndNormalize b.acquire) fun _ => pure none
  match banner with
  | none => pure ()
  | some banner => do
    let sent ← except Exn.isOsError
      (do
        raises (b.sendall (banner ++ crlf))
        pure true)
      fun _ => pure false
    if sent then pump b.pipe else pure ()

/-- The reset on release, with a failure of the protocol only logged. -/
def quietReset (n : Normalizing) : HandlerM Unit :=
  except Exn.isRelayError
    (do
      let _ ← resetAndNormalize n
      pure ())
    fun _ => pure ()

/-- What gives the relay back: the reset, the release of the lock, the closing. -/
def giveBack (uid : String) (holder : HolderRef) : HandlerM Unit := do
  quietReset b.release
  change fun h => { h with locks := (h.locks.release uid holder).1 }
  safeClose b

/-- `(total, busy)` among the relays of this host. -/
def localRelayCounts (C : Casing) (s : Store) (locks : LockManager) : ℕ × ℕ :=
  let relays := s.snapshotLocalDevices.filter fun r => Api.System.isRelayRole C r.role
  (relays.length, relays.countP fun r => (locks.status r.uid).isSome)

/-- The connection of a client, once its relay is locked. -/
def serve (record : DeviceRecord) (holder : HolderRef) : HandlerM Unit := do
  raises (b.construct (record.port.getD ""))
  ensure (session b) (giveBack b record.uid holder)

/-- `_handle_connection`, on the registry as it is when the connection comes in. -/
def handleConnection (sys : Api.System) (now : ℕ) (holder : HolderRef) :
    Except Exn Unit × Handling :=
  let locks := sys.daemon.locks
  match sys.pickFreeLocalRelay with
  | none =>
    let counts := localRelayCounts sys.daemon.casing sys.daemon.store locks
    reject b counts.1 counts.2 ⟨locks, false⟩
  | some record =>
    match locks.acquire now record.uid .relay holder none with
    | .error _ => (.error (.other "LockHeldError" record.uid), ⟨locks, false⟩)
    | .ok locks => serve b record holder ⟨locks, false⟩

/-! ## Giving back -/

/-- Is an exception of the reset on release one the handler names? -/
def Normalizing.named (n : Normalizing) : Prop :=
  (∀ e, n.opening = some e → e.isRelayError = true) ∧
    (n.opening = none → ∀ e, n.closing = some e → e.isRelayError = true) ∧
    (n.opening = none → n.closing = none → ∀ e, n.dialog = .error e → e.isRelayError = true)

variable {b} {n : Normalizing} {locks : LockManager} {uid : String} {holder : HolderRef}

theorem resetAndNormalize_silent (n : Normalizing) : Silent (resetAndNormalize n) :=
  (Silent.answer _).bind fun _ => (Silent.answer _).ensure (.answer _)

theorem forward_silent (lastRead : Option Exn) (chunks : List (Bytes × Option Exn)) :
    Silent (forward lastRead chunks) := by
  induction chunks with
  | nil => exact (Silent.answer _).except fun _ => .pure _
  | cons chunk chunks ih =>
    apply Silent.ite
    · exact .pure _
    · exact (Silent.answer _).bind fun _ => ih

theorem pump_silent (p : Piping) : Silent (pump p) := by
  apply (Silent.answer _).bind
  intro _
  apply Silent.ensure
  · apply (Silent.answer _).bind
    intro _
    exact (forward_silent p.lastRead p.chunks).ensure (.answer _)
  · exact .answer _

/-- Whatever happens on the channel and the socket, the session touches no lock. -/
theorem session_silent (b : Behaviour) : Silent (session b) := by
  apply Silent.bind
  · exact ((resetAndNormalize_silent b.acquire).bind fun _ => .pure _).except fun _ => .pure _
  · intro banner
    cases banner with
    | none => exact .pure _
    | some banner =>
      apply Silent.bind
      · exact ((Silent.answer _).bind fun _ => .pure _).except fun _ => .pure _
      · intro sent
        exact Silent.ite (pump_silent b.pipe) (.pure _)

/-- The closing is made in any case, and its exception takes the place of another one. -/
def Normalizing.outcome (n : Normalizing) : Except Exn Bytes :=
  match n.opening, n.closing with
  | some e, _ => .error e
  | none, some e => .error e
  | none, none => n.dialog

theorem named_iff : n.named ↔ ∀ e, n.outcome = .error e → e.isRelayError = true := by
  unfold Normalizing.named Normalizing.outcome
  cases n.opening with
  | some e => simp
  | none =>
    cases n.closing with
    | some e => simp
    | none => simp

theorem resetAndNormalize_run (n : Normalizing) (h : Handling) :
    resetAndNormalize n h = (n.outcome, h) := by
  unfold Normalizing.outcome
  rcases n with ⟨opening, dialog, closing⟩
  cases opening with
  | some e => rfl
  | none =>
    cases closing with
    | some e => rfl
    | none => rfl

/-- The reset on release: the handler goes on after it, or its exception leaves the handler. -/
theorem quietReset_cases (n : Normalizing) (h : Handling) :
    (n.named ∧ quietReset n h = (.ok (), h)) ∨
      (¬ n.named ∧ ∃ e, quietReset n h = (.error e, h)) := by
  rw [named_iff, quietReset, Unwind.except]
  have hrun := resetAndNormalize_run n h
  cases hout : n.outcome with
  | ok banner =>
    rw [hout] at hrun
    rw [bind_of_ok hrun]
    exact Or.inl ⟨by simp, rfl⟩
  | error e =>
    rw [hout] at hrun
    rw [bind_of_error hrun]
    dsimp only
    by_cases he : e.isRelayError = true
    · rw [if_pos he]
      exact Or.inl ⟨by simp [he], rfl⟩
    · rw [if_neg he]
      exact Or.inr ⟨fun h => he (h e rfl), e, rfl⟩

theorem giveBack_cases (b : Behaviour) (uid : String) (holder : HolderRef) (h : Handling) :
    (b.release.named ∧ (giveBack b uid holder h).2 = ⟨(h.locks.release uid holder).1, true⟩) ∨
      (¬ b.release.named ∧ (giveBack b uid holder h).2 = h) := by
  rcases quietReset_cases b.release h with ⟨hnamed, hcaught⟩ | ⟨hnamed, e, hraised⟩
  · refine Or.inl ⟨hnamed, ?_⟩
    have hclose : Silent (except Exn.isOsError (raises b.connClose) fun _ => pure () :
        HandlerM Unit) := (Silent.answer _).except fun _ => .pure _
    rw [giveBack, bind_of_ok hcaught]
    exact hclose ⟨(h.locks.release uid holder).1, true⟩
  · refine Or.inr ⟨hnamed, ?_⟩
    rw [giveBack, bind_of_error hraised]

/-- The relay is free again and the client's connection is closed. -/
def GivenBack (uid : String) (h : Handling) : Prop :=
  h.locks.status uid = none ∧ h.closed = true

/-- The handler gives the relay back exactly when the channel could be made and the reset on
release raised nothing but a `RelayError`. -/
theorem handleConnection_gives_back_iff (b : Behaviour) (sys : Api.System) (now : ℕ)
    (holder : HolderRef) (record : DeviceRecord)
    (hfree : sys.pickFreeLocalRelay = some record) :
    GivenBack record.uid (handleConnection b sys now holder).2 ↔
      b.construct (record.port.getD "") = none ∧ b.release.named := by
  have hstatus : sys.daemon.locks.status record.uid = none := by
    have := List.find?_some hfree
    simp only [Bool.and_eq_true, Option.isNone_iff_eq_none] at this
    exact this.2
  have hacquire : sys.daemon.locks.acquire now record.uid .relay holder none =
      .ok (sys.daemon.locks.insert record.uid ⟨.relay, holder, none, now⟩) :=
    LockManager.acquire_eq_ok_iff.mpr ⟨hstatus, rfl⟩
  let locked : Handling := ⟨sys.daemon.locks.insert record.uid ⟨.relay, holder, none, now⟩, false⟩
  have hlocked : locked.locks.status record.uid = some ⟨.relay, holder, none, now⟩ := by
    rw [LockManager.status_insert, if_pos rfl]
  have hrun : (handleConnection b sys now holder).2 = (serve b record holder locked).2 := by
    simp only [handleConnection, hfree, hacquire, locked]
  rw [hrun]
  cases hconstruct : b.construct (record.port.getD "") with
  | some e =>
    have hserve : (serve b record holder locked).2 = locked := by
      simp only [serve, hconstruct]
      rfl
    rw [hserve]
    simp [GivenBack, locked]
  | none =>
    have hserve : (serve b record holder locked).2 =
        (giveBack b record.uid holder locked).2 := by
      have hensure := ensure_state (session b) (giveBack b record.uid holder) locked
      rw [session_silent b locked] at hensure
      rw [← hensure]
      simp only [serve, hconstruct]
      rfl
    rw [hserve]
    rcases giveBack_cases b record.uid holder locked with ⟨hnamed, hback⟩ | ⟨hnamed, hback⟩
    · rw [hback]
      simp only [GivenBack, hnamed, and_true, iff_true]
      rw [LockManager.release_status_self, hlocked]
      simp [Option.filter]
    · rw [hback]
      simp [GivenBack, locked, hnamed]

def relayRow : DeviceRecord :=
  { DeviceRecord.new 1 "9900a" none (some "/dev/ttyACM0") none with
    role := some "RADIOBRIDGE", state := .connected }

def oneRelay : Api.System := .start .ascii (Store.empty.writeRow relayRow)

def poolHolder : HolderRef := ⟨.local, "console-compat-pool:1", some 1, none⟩

/-- A board that answers every time it is opened. -/
def answering : Normalizing := ⟨none, .ok (ascii "DEVICE:RADIOBRIDGE:relay:togov:1234"), none⟩

/-- One line to the board, and the client goes away. -/
def quietSession : Behaviour where
  construct := fun _ => none
  acquire := answering
  sendall := fun _ => none
  pipe := ⟨none, none, [(ascii "?\n", none)], none, none, none⟩
  release := answering
  connClose := none

theorem quietSession_given_back :
    GivenBack "9900a" (handleConnection quietSession oneRelay 2 poolHolder).2 :=
  (handleConnection_gives_back_iff quietSession oneRelay 2 poolHolder relayRow
    (by decide +kernel)).mpr ⟨rfl, by simp [Normalizing.named, quietSession, answering]⟩

/-- The board is pulled out during the session: the port cannot be opened again. -/
def unplugged : Behaviour :=
  { quietSession with
    release := ⟨some (.other "ConnectError" "cannot open /dev/ttyACM0"), .ok [], none⟩ }

theorem unplugged_not_given_back : ¬ ∀ b sys now holder record,
    Api.System.pickFreeLocalRelay sys = some record →
      GivenBack record.uid (handleConnection b sys now holder).2 := by
  intro h
  have hclosed := (h unplugged oneRelay 2 poolHolder relayRow (by decide +kernel)).2
  have hopen : (handleConnection unplugged oneRelay 2 poolHolder).2.closed = false := by
    decide +kernel
  rw [hopen] at hclosed
  cases hclosed

end MbTools.RelayPool
