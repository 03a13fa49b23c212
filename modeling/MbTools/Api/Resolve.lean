import MbTools.Registry.Daemon

/-! # Resolving a token

How a client's token becomes a device row: `Store.find`, the visibility scope
of the server the request came in on, and the check that refuses a local
device that is gone.
-/

namespace MbTools

/-- Equality under SQLite's `NOCASE`, which folds ASCII letters only. -/
def nocaseEq (a b : String) : Bool := a.toList.map Char.toLower = b.toList.map Char.toLower

/-- `token.rpartition("@")`, for a token with an `@`. -/
def rpartitionAt (token : String) : Option (String × String) :=
  if '@' ∈ token.toList then
    let host := (token.toList.reverse.takeWhile (· ≠ '@')).reverse
    some (String.ofList (token.toList.take (token.toList.length - host.length - 1)),
      String.ofList host)
  else none

namespace Store

/-- A host as the ambiguity check compares it, under `str.lower`. -/
def hostKey (C : Casing) (host : Option String) : Option String := host.map C.lower

/-- The hosts the error names: the first spelling of each. -/
def uniqueHosts (C : Casing) : List (Option String) → List (Option String)
  | [] => []
  | h :: hs => h :: (uniqueHosts C hs).filter fun g => hostKey C g ≠ hostKey C h

/-- Resolve a token; the error carries the hosts of an ambiguous device name. -/
def find (C : Casing) (s : Store) (token : String) :
    Except (List (Option String)) (Option DeviceRecord) :=
  match rpartitionAt token with
  | some (name, host) =>
    .ok (s.listDevices.find? fun r =>
      r.deviceName.any (nocaseEq · name) && r.host.any (nocaseEq · host))
  | none =>
    match (s.get token).or (s.listDevices.find? fun r => r.shortUid = token) with
    | some r => .ok (some r)
    | none =>
      match s.listDevices.filter fun r => r.deviceName.any (nocaseEq · token) with
      | [] => .ok none
      | r :: rest =>
        let hosts := uniqueHosts C ((r :: rest).map DeviceRecord.host)
        if 1 < hosts.length then .error hosts else .ok (some r)

end Store

namespace Api

/-- The three servers that share the request handling. -/
inductive Server where
  | socket
  | pipe
  | tcp
  deriving DecidableEq, Repr

inductive ApiError where
  | invalidRequest (message : String)
  | notFound (token : String)
  | notAttached (uid : String) (port : Option String)
  | ambiguousName (token : String) (hosts : List (Option String))
  | locked (uid : String) (current : LockStatus)
  | notLocked (uid message : String)
  | internalError (message : String)
  deriving DecidableEq, Repr

/-- The `code` field of the wire error. -/
def ApiError.code : ApiError → String
  | .invalidRequest _ => "invalid_request"
  | .notFound _ => "not_found"
  | .notAttached _ _ => "not_found"
  | .ambiguousName _ _ => "ambiguous_name"
  | .locked _ _ => "locked"
  | .notLocked _ _ => "not_locked"
  | .internalError _ => "internal_error"

/-- Only the remote port hides rows: peers' devices and simulators. -/
def deviceVisible : Server → DeviceRecord → Bool
  | .tcp, r => r.host = none && !r.isVirtual
  | .socket, _ => true
  | .pipe, _ => true

def resolveVisible (server : Server) (C : Casing) (s : Store) (token : String) :
    Except ApiError DeviceRecord :=
  match s.find C token with
  | .error hosts => .error (.ambiguousName token hosts)
  | .ok none => .error (.notFound token)
  | .ok (some r) => if deviceVisible server r then .ok r else .error (.notFound token)

/-- A local device that is gone is refused; a peer's device passes, attached or not. -/
def detachedError (r : DeviceRecord) : Option ApiError :=
  if r.host = none ∧ r.state = .disconnected then some (.notAttached r.uid r.port) else none

variable {C : Casing} {s : Store} {token : String} {r : DeviceRecord} {server : Server}

theorem get_of_find (h : s.find C token = .ok (some r)) : s.get r.uid = some r := by
  have hmem : r ∈ s.listDevices := by
    unfold Store.find at h
    split at h
    · exact List.mem_of_find?_eq_some (Except.ok.inj h)
    · split at h
      · rename_i hr
        obtain rfl := Option.some.inj (Except.ok.inj h)
        rcases Option.or_eq_some_iff.mp hr with (hg | ⟨-, hg⟩)
        · exact Store.mem_listDevices_iff.mpr (by rwa [Store.uid_of_get hg])
        · exact List.mem_of_find?_eq_some hg
      · split at h
        · cases Except.ok.inj h
        · rename_i hf
          dsimp only at h
          split at h
          · cases h
          · obtain rfl := Option.some.inj (Except.ok.inj h)
            exact List.mem_of_mem_filter (hf ▸ List.mem_cons_self)
  exact Store.mem_listDevices_iff.mp hmem

theorem resolveVisible_eq_ok_iff :
    resolveVisible server C s token = .ok r ↔
      s.find C token = .ok (some r) ∧ deviceVisible server r = true := by
  unfold resolveVisible
  split
  · rename_i h
    simp [h]
  · rename_i h
    simp [h]
  · rename_i h
    split
    · rename_i hv
      simp only [h, Except.ok.injEq, Option.some.injEq]
      constructor
      · rintro rfl
        exact ⟨rfl, hv⟩
      · exact fun he => he.1
    · rename_i hv
      simp only [h, Except.ok.injEq, Option.some.injEq, reduceCtorEq, false_iff]
      rintro ⟨rfl, hr⟩
      exact hv hr

theorem resolveVisible_eq_error {e : ApiError} (h : resolveVisible server C s token = .error e) :
    (∃ hosts, s.find C token = .error hosts ∧ e = .ambiguousName token hosts) ∨
      e = .notFound token := by
  unfold resolveVisible at h
  split at h
  · rename_i hosts hf
    cases h
    exact Or.inl ⟨hosts, hf, rfl⟩
  · cases h
    exact Or.inr rfl
  · split at h
    · cases h
    · cases h
      exact Or.inr rfl

theorem get_of_resolveVisible (h : resolveVisible server C s token = .ok r) :
    s.get r.uid = some r := get_of_find (resolveVisible_eq_ok_iff.mp h).1

theorem detachedError_eq_none_iff :
    detachedError r = none ↔ (r.host = none → r.state ≠ .disconnected) := by
  simp [detachedError]

end Api

end MbTools
