import MbTools.Api.Ops
import MbTools.Lib.Json

/-! # Requests as they arrive

What the shared operations make of a JSON request object: which fields they
read, when they refuse it, and the response. A text with a lone surrogate
cannot be bound by the database, and the exception for it is not caught.
-/

namespace MbTools.Api

/-- An exception that ends the handling of a connection. -/
inductive Raised where
  | unicodeEncodeError
  deriving DecidableEq, Repr

/-- The lock fields of a device dictionary. -/
structure LockFields where
  kind : LockKind
  pid : Option ℕ
  label : Option String
  since : ℕ
  deriving DecidableEq, Repr

/-- `_device_dict`. -/
structure DeviceEntry where
  record : DeviceRecord
  lock : Option LockFields
  endpoint : Option String
  peerReachable : Bool
  simulated : Bool
  deriving DecidableEq, Repr

def lockFields (st : LockStatus) : LockFields := ⟨st.kind, st.holder.pid, st.label, st.since⟩

def deviceDict (s : Store) (locks : LockManager) (r : DeviceRecord) : DeviceEntry :=
  match r.host with
  | none => ⟨r, (locks.status r.uid).map lockFields, none, true, r.isVirtual⟩
  | some host =>
    let peer := s.peer.get? host
    ⟨r, none, peer.map PeerRecord.endpoint, (peer.map PeerRecord.reachable).getD false,
      r.isVirtual⟩

@[simp] theorem deviceDict_record (s : Store) (locks : LockManager) (r : DeviceRecord) :
    (deviceDict s locks r).record = r := by
  unfold deviceDict
  split <;> rfl

/-- The remote port lists what a snapshot would; the local servers list every row. -/
def listVisibleDevices (server : Server) (s : Store) : List DeviceRecord :=
  match server with
  | .tcp => s.snapshotLocalDevices
  | _ => s.listDevices

inductive Response where
  | ok
  | devices (l : List DeviceEntry)
  | device (d : DeviceEntry)
  | released (b : Bool)
  | error (e : ApiError)
  deriving DecidableEq, Repr

/-- The kinds of request line that look at devices and locks and do no I/O on the remote port. -/
inductive Query where
  | list
  | find
  | lock
  | unlock
  | markFlashed
  | stream
  deriving DecidableEq, Repr

/-- What a request names a device by; a text with a lone surrogate is kept apart. -/
inductive Token where
  | missing
  | lone
  | text (s : String)
  deriving DecidableEq, Repr

def Token.text? : Token → Option String
  | .text s => some s
  | _ => none

/-- Go on with a token, unless it is missing or the database cannot bind it. -/
def Token.run {α : Type} (t : Token) (missing : α) (f : String → α) : Except Raised α :=
  match t with
  | .missing => .ok missing
  | .lone => .error .unicodeEncodeError
  | .text s => .ok (f s)

def kindOf : Json → Option LockKind
  | .str kind => LockKind.ofString? kind
  | _ => none

section Ops

variable (text : Json → String)

/-- The token a field holds. Python's text of a value that counts as true is not empty. -/
def tokenOf : Json → Token
  | .lone _ => .lone
  | v => if v.truthy ∧ v.strOf text ≠ "" then .text (v.strOf text) else .missing

/-- `req.get("uid") or req.get("token")`. -/
def findToken (req : Json) : Json :=
  if (req.get "uid").truthy then req.get "uid" else req.get "token"

def labelOf : Json → Option String
  | .null => none
  | v => some (v.strOf text)

def answerFind (server : Server) (d : Daemon) (token : String) : Response :=
  match resolveVisible server d.casing d.store token with
  | .error e => .error e
  | .ok r => .device (deviceDict d.store d.locks r)

def answerLock (server : Server) (d : Daemon) (now : ℕ) (req : LockRequest) (holder : HolderRef) :
    Response × Daemon :=
  match opLock server d now req holder with
  | .error e => (.error e, d)
  | .ok (_, d') => (.ok, d')

def answerUnlock (server : Server) (d : Daemon) (now : ℕ) (token : String) (holder : HolderRef) :
    Response × Daemon :=
  match opUnlock server d now (some token) holder with
  | .error e => (.error e, d)
  | .ok (_, released, d') => (.released released, d')

/-- `_op_mark_flashed`. -/
def answerMarkFlashed (server : Server) (d : Daemon) (token : String) (holder : HolderRef) :
    Response × Daemon :=
  match resolveVisible server d.casing d.store token with
  | .error e => (.error e, d)
  | .ok r =>
    match d.locks.status r.uid with
    | none => (.error (.notLocked r.uid markFlashedMessage), d)
    | some st =>
      if st.kind = .flash ∧ st.holder = holder then
        match d.store.incrementFlashCount r.uid with
        | .ok s => (.ok, { d with store := s })
        | .error _ => (.error (.internalError "the row is gone"), d)
      else (.error (.notLocked r.uid markFlashedMessage), d)
where
  markFlashedMessage :=
    "mark_flashed requires a flash-kind lock held by this connection (call 'lock' first)"

/-- The response to `stream`; no virtual board is visible on the remote port. -/
def answerStream (server : Server) (d : Daemon) (token : String) (holder : HolderRef) : Response :=
  match opStreamPrecheck server d (some token) holder with
  | .error e => .error e
  | .ok _ => .ok

def unknownKind : Json → String
  | .str kind => s!"unknown lock kind '{kind}'"
  | v => s!"unknown lock kind {text v}"

/-- `_op_lock` on a request object. -/
def lockRequest (server : Server) (d : Daemon) (now : ℕ) (holder : HolderRef) (req : Json) :
    Except Raised (Response × Daemon) :=
  let missing : Response × Daemon :=
    (.error (.invalidRequest "'lock' requires 'uid' and 'kind'"), d)
  if tokenOf text (req.get "uid") = .missing ∨ !(req.get "kind").truthy then .ok missing
  else
    match kindOf (req.get "kind") with
    | none => .ok (.error (.invalidRequest (unknownKind text (req.get "kind"))), d)
    | some _ =>
      (tokenOf text (req.get "uid")).run missing fun token =>
        answerLock server d now
          ⟨some token, some ((req.get "kind").strOf text), labelOf text (req.get "label")⟩ holder

/-- The response to one request on the remote port, and the daemon after it. -/
def answer (d : Daemon) (now : ℕ) (holder : HolderRef) (req : Json) :
    Query → Except Raised (Response × Daemon)
  | .list =>
    .ok (.devices ((listVisibleDevices .tcp d.store).map (deviceDict d.store d.locks)), d)
  | .find =>
    (tokenOf text (findToken req)).run
      (.error (.invalidRequest "'get'/'find' requires 'uid'"), d)
      fun token => (answerFind .tcp d token, d)
  | .lock => lockRequest text .tcp d now holder req
  | .unlock =>
    (tokenOf text (req.get "uid")).run (.error (.invalidRequest "'unlock' requires 'uid'"), d)
      fun token => answerUnlock .tcp d now token holder
  | .markFlashed =>
    (tokenOf text (req.get "uid")).run
      (.error (.invalidRequest "'mark_flashed' requires 'uid'"), d)
      fun token => answerMarkFlashed .tcp d token holder
  | .stream =>
    (tokenOf text (req.get "uid")).run (.error (.invalidRequest "'stream' requires 'uid'"), d)
      fun token => (answerStream .tcp d token holder, d)

/-- The token that a request has resolved, if it gets as far. -/
def resolves (req : Json) : Query → Option String
  | .list => none
  | .find => (tokenOf text (findToken req)).text?
  | .lock => (kindOf (req.get "kind")).bind fun _ => (tokenOf text (req.get "uid")).text?
  | _ => (tokenOf text (req.get "uid")).text?

variable {text} in
theorem tokenOf_ne_empty {v : Json} {token : String} (h : tokenOf text v = .text token) :
    token ≠ "" := by
  unfold tokenOf at h
  split at h
  · cases h
  · split at h
    · rename_i hv
      cases h
      exact hv.2
    · cases h

theorem kindOf_eq_some {v : Json} {kind : LockKind} (h : kindOf v = some kind) :
    v.truthy = true ∧ v.strOf text ≠ "" ∧ LockKind.ofString? (v.strOf text) = some kind := by
  cases v with
  | str s =>
    have hs : s ≠ "" := by
      rintro rfl
      cases h
    exact ⟨by simp [Json.truthy, hs], hs, h⟩
  | _ => cases h

end Ops

end MbTools.Api
