import MbTools.Api.Marks
import MbTools.Store.Virtual

/-! # Registered virtual boards

A simulated board is registered over a local connection, which is its lifetime
handle: the request makes the registration and the row, its ack is written, and
from then on the handler only waits for the connection to end, and takes both
away. The steps of the registry around it are those of the system.
-/

namespace MbTools.Virtual

open Store Api

/-- `VirtualRegistration`. What `validate_registration` returns has no connection yet. -/
structure VirtualRegistration where
  name : String
  /-- The host, which may hold lone surrogates, by its code points, and the port. -/
  endpoint : List ℕ × ℕ
  role : String
  serial : String
  conn : Option ℕ
  deriving DecidableEq, Repr

/-- `str.lower` of a validated name, which is ASCII. -/
def lowerName (name : String) : String := String.ofList (name.toList.map Naming.lower)

namespace VirtualRegistration

def uid (reg : VirtualRegistration) : String := virtualUidPrefix ++ reg.name

def key (reg : VirtualRegistration) : String := lowerName reg.name

end VirtualRegistration

/-- `is_reserved_name`. -/
def isReservedName (name : String) : Bool := Naming.wellFormed (Naming.normalize name)

/-- The live registrations, by lowercase name. -/
abbrev VirtualBoards := Dict String VirtualRegistration

namespace VirtualBoards

def nameInUse (b : VirtualBoards) (name : String) : Bool := (b.lookup (lowerName name)).isSome

def add (b : VirtualBoards) (reg : VirtualRegistration) : VirtualBoards := b.insert reg.key reg

/-- Remove a registration that is still the live one of its name. -/
def remove (b : VirtualBoards) (reg : VirtualRegistration) : VirtualBoards × Bool :=
  if b.lookup reg.key = some reg then (b.erase reg.key, true) else (b, false)

end VirtualBoards

/-- The errors `register_board` answers with. -/
inductive RegisterError where
  | invalidRequest (message : String)
  | nameReserved (name : String)
  | nameInUse (name : String)
  deriving DecidableEq, Repr

/-- `repr` of a validated name: it may end in a line feed, and has nothing else to escape. -/
def reprName (name : String) : String :=
  "'" ++ String.join (name.toList.map fun c => if c = '\n' then "\\n" else c.toString) ++ "'"

def RegisterError.message : RegisterError → String
  | .invalidRequest message => message
  | .nameReserved name => reprName name ++ " looks like a real robot name; pick a name that is " ++
      "not five letters of consonant-vowel pattern"
  | .nameInUse name => "a board named " ++ reprName name ++ " is already registered"

/-- What the handler of a registering connection has still to do. -/
inductive Duty where
  | acking (reg : VirtualRegistration)
  | holding (reg : VirtualRegistration)
  /-- Nothing but its `finally` block. -/
  | ended
  deriving DecidableEq, Repr

/-- The system with its registrations, and all that were ever made. -/
structure Boards where
  sys : System
  live : VirtualBoards
  duty : Dict ℕ Duty
  made : List VirtualRegistration

inductive BoardAction where
  | act (a : Action)
  /-- A `register_board` request, as `validate_registration` reads it. -/
  | register (i now : ℕ) (request : Except String VirtualRegistration)
  | ack (i : ℕ) (written : Bool)
  | detach (i now : ℕ)

/-- The connection an action of the system is of. -/
def actor : Action → Option ℕ
  | .connect i _ _ => some i
  | .lock i _ _ => some i
  | .track i => some i
  | .unlock i _ _ => some i
  | .untrack i => some i
  | .forceUnlock i _ _ => some i
  | .flash i _ _ => some i
  | .flashEnd i _ => some i
  | .stream i _ _ => some i
  | .session i _ => some i
  | .streamEnd i _ => some i
  | .hangUp i _ => some i
  | _ => none

/-- Everything else in the registry leaves the virtual boards alone. -/
def spares : Action → Bool
  | .write w => w.spares
  | .cycle c => c.scan.keys.all (!isVirtualUid ·)
  | .detachVirtual _ _ => false
  | _ => true

/-- The section of `_detach_virtual` that takes the board of the uid away. -/
def takeAway (s : System) (now : ℕ) (uid : String) : System :=
  let d := match s.daemon.locks.status uid with
    | none => s.daemon
    | some st => s.daemon.releaseLock now uid st.holder
  (s.setDaemon { d with store := d.store.removeVirtual uid }).shutTracked uid

namespace Boards

variable (b : Boards)

/-- `_op_register_board`: the registration, and the state after it. -/
def opRegisterBoard (i now : ℕ) (request : Except String VirtualRegistration) :
    Except RegisterError (VirtualRegistration × Boards) :=
  match request with
  | .error message => .error (.invalidRequest message)
  | .ok reg =>
    if isReservedName reg.name then .error (.nameReserved reg.name)
    else
      let reg := { reg with conn := some i }
      if b.live.nameInUse reg.name then .error (.nameInUse reg.name)
      else
        let store := b.sys.daemon.store.upsertVirtual now reg.uid reg.name reg.role reg.serial
        .ok (reg, { b with
          live := b.live.add reg
          sys := b.sys.setDaemon { b.sys.daemon with store } })

def detachVirtual (now : ℕ) (reg : VirtualRegistration) : Boards :=
  match b.live.remove reg with
  | (_, false) => b
  | (live, true) => { b with live, sys := takeAway b.sys now reg.uid }

/-- A connection whose handler is not free takes no other step; one that has ended only goes. -/
def free : Action → Bool
  | .hangUp i _ => b.duty.lookup i = none || b.duty.lookup i = some .ended
  | a => (actor a).all fun i => b.duty.lookup i = none

/-- What is left to do for a connection once it has gone. -/
def dutyAfter : Action → Dict ℕ Duty
  | .hangUp i _ => b.duty.erase i
  | _ => b.duty

def step (b : Boards) : BoardAction → Option Boards
  | .act a =>
    if b.free a && spares a then
      (b.sys.step a).map fun sys => { b with sys, duty := b.dutyAfter a }
    else none
  | .register i now request =>
    match b.sys.conns.lookup i with
    | none => none
    | some c =>
      if c.mode = .idle ∧ c.server = .socket ∧ b.duty.lookup i = none then
        match b.opRegisterBoard i now request with
        | .error _ => some b
        | .ok (reg, b') =>
          some { b' with duty := b.duty.insert i (.acking reg), made := b.made ++ [reg] }
      else none
  | .ack i written =>
    match b.duty.lookup i with
    | some (.acking reg) =>
      -- a write that raises ends the handler
      some { b with duty := b.duty.insert i (if written then .holding reg else .ended) }
    | _ => none
  | .detach i now =>
    match b.duty.lookup i with
    | some (.holding reg) =>
      some { b.detachVirtual now reg with duty := b.duty.insert i .ended }
    | _ => none

/-- A registry that has just started, on whatever an earlier one has left. -/
def start (C : Casing) (store : Store) : Boards :=
  ⟨System.start C store.sweepVirtual, Table.empty, Table.empty, []⟩

end Boards

end MbTools.Virtual
