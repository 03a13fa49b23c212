import Mathlib.Tactic.Common
import MbTools.Lib.Unwind

/-! # Opening a session

`connect` finds a board, locks it, opens its port or stream and resets it if asked. What it
holds when a step fails has to be given back: the port and the lock. The model follows the
handles that are open and the lock through every outcome of the steps.
-/

namespace MbTools.Serial

open Unwind

inductive Exn where
  | registryClientError (message : String)
  | registryUnavailable (message : String)
  | connectError (message : String)
  | other (message : String)
  deriving DecidableEq

def Exn.message : Exn → String
  | registryClientError message | registryUnavailable message => message
  | connectError message | other message => message

def Exn.isRegistryClientError : Exn → Bool
  | registryClientError _ => true
  | _ => false

/-- The port that is opened first, the one a reset opens, and the stream. -/
inductive Handle where
  | port
  | reopened
  | stream
  deriving DecidableEq

/-- What a call of `connect` has open, and whether it holds the lock. -/
structure Held where
  handles : List Handle
  locked : Bool
  deriving DecidableEq

abbrev OpenM (α : Type) := Unwind Held Exn α

/-- The fields of the answer to `find` that are read. -/
structure Device where
  uid : String
  deviceName : Option String
  port : Option String

def Device.name (device : Device) : String :=
  match device.deviceName with
  | some name => if name = "" then device.uid else name
  | none => device.uid

/-- What a call comes to whose effect may be there even if it raises. -/
structure Outcome where
  raised : Option Exn
  effective : Bool

structure Session where
  uid : String
  name : String
  handle : Handle
  deriving DecidableEq

/-- What the steps of the local `connect` come to. -/
structure Hardware where
  find : Except Exn Device
  lock : Option Exn
  construct : Option Exn
  opening : Option Exn
  sendBreak : Option Exn
  close : Outcome
  reconstruct : Option Exn
  reopening : Option Exn
  setDtr : Option Exn
  setRts : Option Exn
  unlock : Outcome

/-- What the steps of the remote `connect` come to. -/
structure Remote where
  find : Except Exn Device
  lock : Option Exn
  openStream : Option Exn
  sendBreak : Option Exn
  unlock : Outcome

def hold (handle : Handle) : OpenM Handle := do
  change fun h => { h with handles := handle :: h.handles }
  pure handle

def locks (lock : Option Exn) : OpenM Unit := do
  raises lock
  change fun h => { h with locked := true }

/-- `raise ConnectError(...) from exc` -/
def orConnectError (what : String) (step : OpenM Unit) : OpenM Unit :=
  except (fun _ => true) step fun e => raises (some (.connectError (what ++ ": " ++ e.message)))

/-- `client.unlock(uid)`, with the errors of the registry's protocol passed over. -/
def unlockQuietly (unlock : Outcome) : OpenM Unit :=
  except Exn.isRegistryClientError
    (do
      change fun h => if unlock.effective = true then { h with locked := false } else h
      raises unlock.raised)
    fun _ => pure ()

/-- `except Exception`: the lock is given back and the exception raised again. -/
def orUnlock {α : Type} (unlock : Outcome) (part : OpenM α) : OpenM α :=
  except (fun _ => true) part fun e => do
    unlockQuietly unlock
    answer (.error e)

variable (w : Hardware) (r : Remote)

def openNoReboot (port : String) : OpenM Handle := do
  raises w.construct
  orConnectError ("cannot open " ++ port) (raises w.opening)
  hold .port

def resetViaBreak (handle : Handle) (port : String) : OpenM Handle := do
  orConnectError ("cannot send reset BREAK to " ++ port) (raises w.sendBreak)
  pure handle

/-- `ser.close()`, whatever it raises. -/
def closeQuietly (handle : Handle) : OpenM Unit :=
  except (fun _ => true)
    (do
      change fun h =>
        if w.close.effective = true then { h with handles := h.handles.erase handle } else h
      raises w.close.raised)
    fun _ => pure ()

def resetViaReopen (handle : Handle) (port : String) : OpenM Handle := do
  closeQuietly w handle
  orConnectError ("cannot reopen " ++ port ++ " to reset it")
    (do
      raises w.reconstruct
      raises w.reopening)
  let handle ← hold .reopened
  raises w.setDtr
  raises w.setRts
  pure handle

def openAndReset (platform : String) (reset : Bool) (port : String) : OpenM Handle := do
  let handle ← openNoReboot w port
  if reset = true then
    if platform = "Linux" then resetViaBreak w handle port else resetViaReopen w handle port
  else pure handle

/-- `serial.connect.connect` on a platform. -/
def connect (platform : String) (reset : Bool) : OpenM Session := do
  let device ← answer w.find
  let port := device.port.getD ""
  if port = "" then answer (.error (.connectError (device.name ++ " has no known port to open")))
  else do
    locks w.lock
    let handle ← orUnlock w.unlock (openAndReset w platform reset port)
    pure ⟨device.uid, device.name, handle⟩

def openStream : OpenM Handle := do
  raises r.openStream
  hold .stream

/-- `serial.remote_connect.connect`. -/
def remoteConnect (reset : Bool) : OpenM Session := do
  let device ← answer r.find
  locks r.lock
  let handle ← orUnlock r.unlock (openStream r)
  if reset = true then raises r.sendBreak else pure ()
  pure ⟨device.uid, device.name, handle⟩

/-- When the call raises it has nothing open and does not hold the lock. -/
def AllOrNothing {α : Type} (f : OpenM α) : Prop :=
  ∀ e h, f ⟨[], false⟩ = (.error e, h) → h = ⟨[], false⟩

/-- The lock is granted. -/
def Hardware.Granted : Prop :=
  w.lock = none ∧ ∃ device, w.find = .ok device ∧ device.port.getD "" ≠ ""

def Remote.Granted : Prop := r.lock = none ∧ ∃ device, r.find = .ok device

/-- What fails after the lock is something that is undone: the first opening, with an
`unlock` that releases; or the second, with a `close` that closes besides. -/
def Hardware.Undone (platform : String) (reset : Bool) : Prop :=
  if w.construct ≠ none ∨ w.opening ≠ none then w.unlock.effective = true
  else if reset = false then True
  else if platform = "Linux" then w.sendBreak = none
  else if w.reconstruct ≠ none ∨ w.reopening ≠ none then
    w.close.effective = true ∧ w.unlock.effective = true
  else w.setDtr = none ∧ w.setRts = none

def Remote.Undone (reset : Bool) : Prop :=
  if r.openStream ≠ none then r.unlock.effective = true
  else reset = true → r.sendBreak = none

theorem raises_run (x : Option Exn) (h : Held) :
    (raises x : OpenM Unit) h = (match x with | some e => .error e | none => .ok (), h) := by
  cases x <;> rfl

/-- An `unlock` has its effect whatever it raises; the errors of the protocol end here. -/
theorem unlockQuietly_run (unlock : Outcome) (h : Held) : ∃ result, unlockQuietly unlock h =
    (result, if unlock.effective = true then { h with locked := false } else h) := by
  obtain ⟨raised, effective⟩ := unlock
  simp only [unlockQuietly, Unwind.except, change_bind, raises_run]
  cases raised with
  | none => exact ⟨_, rfl⟩
  | some e =>
    cases hr : e.isRegistryClientError with
    | true => exact ⟨_, by simp only [hr, if_true]; rfl⟩
    | false => exact ⟨_, by simp only [hr]; rfl⟩

theorem orUnlock_error {α : Type} (unlock : Outcome) {part : OpenM α} {h h' : Held} {e : Exn}
    (hpart : part h = (.error e, h')) : ∃ e', orUnlock unlock part h =
      (.error e', if unlock.effective = true then { h' with locked := false } else h') := by
  obtain ⟨result, hquiet⟩ := unlockQuietly_run unlock h'
  simp only [orUnlock, Unwind.except, hpart, if_true]
  cases result with
  | ok x =>
    rw [bind_of_ok hquiet]
    exact ⟨e, rfl⟩
  | error e' =>
    rw [bind_of_error hquiet]
    exact ⟨e', rfl⟩

theorem orUnlock_ok {α : Type} (unlock : Outcome) {part : OpenM α} {h h' : Held} {a : α}
    (hpart : part h = (.ok a, h')) : orUnlock unlock part h = (.ok a, h') := by
  simp only [orUnlock, Unwind.except, hpart]

theorem openNoReboot_run (port : String) (locked : Bool) :
    ((w.construct ≠ none ∨ w.opening ≠ none) ∧
        ∃ e, openNoReboot w port ⟨[], locked⟩ = (.error e, ⟨[], locked⟩)) ∨
      (¬ (w.construct ≠ none ∨ w.opening ≠ none) ∧
        openNoReboot w port ⟨[], locked⟩ = (.ok .port, ⟨[.port], locked⟩)) := by
  unfold openNoReboot
  cases hc : w.construct with
  | some e => exact .inl ⟨.inl (by simp), e, rfl⟩
  | none =>
    cases ho : w.opening with
    | some e => exact .inl ⟨.inr (by simp), _, rfl⟩
    | none => exact .inr ⟨by simp, rfl⟩

theorem resetViaBreak_run (port : String) (h : Held) :
    (w.sendBreak ≠ none ∧ ∃ e, resetViaBreak w .port port h = (.error e, h)) ∨
      (w.sendBreak = none ∧ resetViaBreak w .port port h = (.ok .port, h)) := by
  unfold resetViaBreak
  cases hs : w.sendBreak with
  | some e => exact .inl ⟨by simp, _, rfl⟩
  | none => exact .inr ⟨rfl, rfl⟩

theorem closeQuietly_run (handle : Handle) (h : Held) : closeQuietly w handle h =
    (.ok (), if w.close.effective = true then { h with handles := h.handles.erase handle }
      else h) := by
  simp only [closeQuietly, Unwind.except, change_bind, raises_run]
  cases w.close.raised <;> rfl

/-- The second opening that fails leaves open what the `close` has not closed; after it a
modem line that fails leaves the new port open. -/
theorem resetViaReopen_run (port : String) (locked : Bool) :
    ((w.reconstruct ≠ none ∨ w.reopening ≠ none) ∧
        ∃ e, resetViaReopen w .port port ⟨[.port], locked⟩ =
          (.error e, ⟨if w.close.effective = true then [] else [.port], locked⟩)) ∨
      (¬ (w.reconstruct ≠ none ∨ w.reopening ≠ none) ∧ ¬ (w.setDtr = none ∧ w.setRts = none) ∧
        ∃ e handles, resetViaReopen w .port port ⟨[.port], locked⟩ =
          (.error e, ⟨.reopened :: handles, locked⟩)) ∨
      (¬ (w.reconstruct ≠ none ∨ w.reopening ≠ none) ∧ (w.setDtr = none ∧ w.setRts = none) ∧
        ∃ h, resetViaReopen w .port port ⟨[.port], locked⟩ = (.ok .reopened, h)) := by
  have hclose : closeQuietly w .port ⟨[.port], locked⟩ =
      (.ok (), ⟨if w.close.effective = true then [] else [.port], locked⟩) := by
    rw [closeQuietly_run]
    cases w.close.effective <;> rfl
  have hrest : resetViaReopen w .port port ⟨[.port], locked⟩ = _ := bind_of_ok hclose
  rw [hrest]
  generalize (if w.close.effective = true then [] else [Handle.port]) = handles
  cases hc : w.reconstruct with
  | some e => exact .inl ⟨.inl (by simp), _, rfl⟩
  | none =>
    cases ho : w.reopening with
    | some e => exact .inl ⟨.inr (by simp), _, rfl⟩
    | none =>
      cases hd : w.setDtr with
      | some e => exact .inr (.inl ⟨by simp, by simp, e, handles, rfl⟩)
      | none =>
        cases hr : w.setRts with
        | some e => exact .inr (.inl ⟨by simp, by simp, e, handles, rfl⟩)
        | none => exact .inr (.inr ⟨by simp, by simp, _, rfl⟩)

/-- What is done with the lock held: it fails, and gives everything back together with the
lock exactly when that is undone; or it succeeds, with nothing to undo. -/
theorem openAndReset_run (platform : String) (reset : Bool) (port : String) :
    (∃ e handles, openAndReset w platform reset port ⟨[], true⟩ = (.error e, ⟨handles, true⟩) ∧
        (w.Undone platform reset ↔ handles = [] ∧ w.unlock.effective = true)) ∨
      (∃ handle h, openAndReset w platform reset port ⟨[], true⟩ = (.ok handle, h) ∧
        w.Undone platform reset) := by
  unfold Hardware.Undone
  obtain ⟨hfails, e, hopen⟩ | ⟨hopens, hopen⟩ := openNoReboot_run w port true
  · refine .inl ⟨e, [], bind_of_error hopen, ?_⟩
    rw [if_pos hfails]
    simp
  · have hrest : openAndReset w platform reset port ⟨[], true⟩ = _ := bind_of_ok hopen
    rw [hrest, if_neg hopens]
    cases reset with
    | false => exact .inr ⟨_, _, rfl, trivial⟩
    | true =>
      simp only [if_true, Bool.true_eq_false, if_false]
      by_cases hlinux : platform = "Linux"
      · simp only [hlinux, if_true]
        obtain ⟨hfails, e, hbreak⟩ | ⟨hsends, hbreak⟩ := resetViaBreak_run w port ⟨[.port], true⟩
        · exact .inl ⟨e, _, hbreak, by simp [hfails]⟩
        · exact .inr ⟨_, _, hbreak, hsends⟩
      · simp only [hlinux, if_false]
        obtain ⟨hfails, e, hreopen⟩ | ⟨hopens, hlines, e, handles, hreopen⟩ |
          ⟨hopens, hlines, h, hreopen⟩ := resetViaReopen_run w port true
        · refine .inl ⟨e, _, hreopen, ?_⟩
          rw [if_pos hfails]
          simp
        · refine .inl ⟨e, _, hreopen, ?_⟩
          rw [if_neg hopens]
          simp [hlines]
        · refine .inr ⟨_, _, hreopen, ?_⟩
          rw [if_neg hopens]
          exact hlines

theorem connect_of_not_granted (platform : String) (reset : Bool) (h : ¬ w.Granted) :
    ∃ e, connect w platform reset ⟨[], false⟩ = (.error e, ⟨[], false⟩) := by
  unfold connect
  cases hfind : w.find with
  | error e => exact ⟨e, rfl⟩
  | ok device =>
    rw [answer_bind]
    by_cases hport : device.port.getD "" = ""
    · rw [if_pos hport]
      exact ⟨_, rfl⟩
    · rw [if_neg hport]
      cases hlock : w.lock with
      | some e => exact ⟨e, rfl⟩
      | none => exact absurd ⟨hlock, device, hfind, hport⟩ h

theorem connect_of_granted (platform : String) (reset : Bool) (h : w.Granted) :
    ∃ device port, connect w platform reset ⟨[], false⟩ =
      (do
        let handle ← orUnlock w.unlock (openAndReset w platform reset port)
        pure (⟨Device.uid device, device.name, handle⟩ : Session)) ⟨[], true⟩ := by
  obtain ⟨hlock, device, hfind, hport⟩ := h
  refine ⟨device, device.port.getD "", ?_⟩
  unfold connect
  rw [hfind, answer_bind]
  rw [if_neg hport, hlock]
  rfl

theorem allOrNothing_of_ok {α : Type} {f : OpenM α} {a : α} {h : Held}
    (hf : f ⟨[], false⟩ = (.ok a, h)) : AllOrNothing f := by
  intro e h' he
  rw [hf] at he
  cases he

theorem allOrNothing_of_error {α : Type} {f : OpenM α} {e : Exn} {h : Held}
    (hf : f ⟨[], false⟩ = (.error e, h)) : AllOrNothing f ↔ h = ⟨[], false⟩ := by
  constructor
  · exact fun hall => hall e h hf
  · intro hh e' h' he
    rw [hf] at he
    cases he
    exact hh

/-- The local call is all or nothing exactly when what fails with the lock held is undone. -/
theorem connect_allOrNothing_iff (platform : String) (reset : Bool) :
    AllOrNothing (connect w platform reset) ↔ (w.Granted → w.Undone platform reset) := by
  by_cases hgranted : w.Granted
  · rw [imp_iff_right hgranted]
    obtain ⟨device, port, hconnect⟩ := connect_of_granted w platform reset hgranted
    obtain ⟨e, handles, hrun, hiff⟩ | ⟨handle, h, hrun, hundone⟩ :=
      openAndReset_run w platform reset port
    · obtain ⟨e', hunlock⟩ := orUnlock_error w.unlock hrun
      rw [allOrNothing_of_error (hconnect.trans (bind_of_error hunlock)), hiff]
      cases w.unlock.effective <;> simp
    · have hok := orUnlock_ok w.unlock hrun
      exact iff_of_true (allOrNothing_of_ok (hconnect.trans (bind_of_ok hok))) hundone
  · obtain ⟨e, hconnect⟩ := connect_of_not_granted w platform reset hgranted
    exact iff_of_true ((allOrNothing_of_error hconnect).mpr rfl) fun h => absurd h hgranted

theorem remoteConnect_of_not_granted (reset : Bool) (h : ¬ r.Granted) :
    ∃ e, remoteConnect r reset ⟨[], false⟩ = (.error e, ⟨[], false⟩) := by
  unfold remoteConnect
  cases hfind : r.find with
  | error e => exact ⟨e, rfl⟩
  | ok device =>
    cases hlock : r.lock with
    | some e => exact ⟨e, rfl⟩
    | none => exact absurd ⟨hlock, device, hfind⟩ h

theorem remoteConnect_of_granted (reset : Bool) (h : r.Granted) :
    ∃ device, remoteConnect r reset ⟨[], false⟩ =
      (do
        let handle ← orUnlock r.unlock (openStream r)
        if reset = true then raises r.sendBreak else pure ()
        pure (⟨Device.uid device, device.name, handle⟩ : Session)) ⟨[], true⟩ := by
  obtain ⟨hlock, device, hfind⟩ := h
  refine ⟨device, ?_⟩
  unfold remoteConnect
  rw [hfind, answer_bind, hlock]
  rfl

theorem remoteConnect_allOrNothing_iff (reset : Bool) :
    AllOrNothing (remoteConnect r reset) ↔ (r.Granted → r.Undone reset) := by
  by_cases hgranted : r.Granted
  · rw [imp_iff_right hgranted]
    obtain ⟨device, hconnect⟩ := remoteConnect_of_granted r reset hgranted
    unfold Remote.Undone
    cases hopen : r.openStream with
    | some e =>
      have hrun : openStream r ⟨[], true⟩ = (.error e, ⟨[], true⟩) := by
        unfold openStream
        rw [hopen]
        rfl
      obtain ⟨e', hunlock⟩ := orUnlock_error r.unlock hrun
      rw [allOrNothing_of_error (hconnect.trans (bind_of_error hunlock))]
      cases r.unlock.effective <;> simp
    | none =>
      have hrun : openStream r ⟨[], true⟩ = (.ok .stream, ⟨[.stream], true⟩) := by
        unfold openStream
        rw [hopen]
        rfl
      have hafter := hconnect.trans (bind_of_ok (orUnlock_ok r.unlock hrun))
      cases reset with
      | false => exact iff_of_true (allOrNothing_of_ok hafter) (by simp)
      | true =>
        -- no caller has the stream yet, and no handler is around the BREAK
        cases hbreak : r.sendBreak with
        | some e =>
          rw [hbreak] at hafter
          rw [allOrNothing_of_error hafter]
          simp
        | none =>
          rw [hbreak] at hafter
          exact iff_of_true (allOrNothing_of_ok hafter) (by simp)
  · obtain ⟨e, hconnect⟩ := remoteConnect_of_not_granted r reset hgranted
    exact iff_of_true ((allOrNothing_of_error hconnect).mpr rfl) fun h => absurd h hgranted

/-- Opening a session, on either transport: a call that raises leaves nothing open and no lock
held exactly when what fails after the lock was granted is undone. -/
theorem opening_allOrNothing_iff (w : Hardware) (r : Remote) (platform : String) (reset : Bool) :
    (AllOrNothing (connect w platform reset) ↔ (w.Granted → w.Undone platform reset)) ∧
      (AllOrNothing (remoteConnect r reset) ↔ (r.Granted → r.Undone reset)) :=
  ⟨connect_allOrNothing_iff w platform reset, remoteConnect_allOrNothing_iff r reset⟩

/-- A port that takes no BREAK. -/
def noBreak : Hardware where
  find := .ok ⟨"9904", none, some "/dev/ttyACM0"⟩
  lock := none
  construct := none
  opening := none
  sendBreak := some (.other "Inappropriate ioctl for device")
  close := ⟨none, true⟩
  reconstruct := none
  reopening := none
  setDtr := none
  setRts := none
  unlock := ⟨none, true⟩

/-- A stream that breaks before its first frame. -/
def noFrame : Remote where
  find := .ok ⟨"9904", none, some "/dev/ttyACM0"⟩
  lock := none
  openStream := none
  sendBreak := some (.registryUnavailable "remote stream unavailable: Broken pipe")
  unlock := ⟨none, true⟩

/-- The port stays open after its lock is released; the stream stays open with its lock. -/
theorem failed_break_left_open :
    (¬ AllOrNothing (connect noBreak "Linux" true) ∧
      (connect noBreak "Linux" true ⟨[], false⟩).2 = ⟨[.port], false⟩) ∧
    ¬ AllOrNothing (remoteConnect noFrame true) ∧
      (remoteConnect noFrame true ⟨[], false⟩).2 = ⟨[.stream], true⟩ := by
  refine ⟨⟨?_, rfl⟩, ?_, rfl⟩
  · intro h
    cases h _ ⟨[.port], false⟩ rfl
  · intro h
    cases h _ ⟨[.stream], true⟩ rfl

end MbTools.Serial
