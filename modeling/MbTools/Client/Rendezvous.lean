import MbTools.Lib.Runs
import MbTools.Service.Manager

/-! # Where daemon and client meet

A daemon binds its socket file at the address its flags and its user give, and a client looks for
one. Nothing keeps two daemons apart at one path: each start removes what is there, each stop too,
and a daemon that dies leaves its file behind.
-/

namespace MbTools.Rendezvous

open Dict Runs Service

/-! ## Addresses -/

/-- A daemon or a client, with what it resolves its address from; an empty flag or variable counts
as none. -/
structure Caller where
  host : Service.Host
  root : Bool
  flag : Option Path
  socketVar : Option Path

section Addresses

variable (p : Platform) (c : Caller)

def defaultSocketPath : Path := if c.root then systemSocketPath p else userSocketPath c.host p

def clientSocketCandidates : List Path :=
  let (first, second) :=
    if c.root then (systemSocketPath p, userSocketPath c.host p)
    else (userSocketPath c.host p, systemSocketPath p)
  if first = second then [first] else [first, second]

/-- The first candidate that exists, or the first one. -/
def findClientSocket (files : Path → Bool) : Path :=
  ((clientSocketCandidates p c).find? files).getD (defaultSocketPath p c)

/-- `resolve_local_api_address`, with `resolve_socket_path`: where a daemon binds. -/
def resolveLocalApiAddress : Path := (c.flag.or c.socketVar).getD (defaultSocketPath p c)

/-- `find_local_api_address`: where a client connects. -/
def findLocalApiAddress (files : Path → Bool) : Path :=
  (c.flag.or c.socketVar).getD (findClientSocket p c files)

end Addresses

/-! ## Socket files -/

/-- How far a daemon is with its API server's `start` and `stop`. -/
inductive Phase where
  /-- What was at its path is removed. -/
  | cleared
  | bound
  | listening
  /-- Its socket is closed, its threads are joined. -/
  | closed
  | gone
  deriving DecidableEq, Repr

/-- The socket files of a host, each with the daemon that bound it, and the daemons. -/
structure Sockets where
  files : Dict Path ℕ
  daemons : Dict ℕ (Path × Phase)
  deriving DecidableEq, Repr

inductive Action where
  | launch (d : ℕ) (path : Path)
  /-- With a file at its path `bind` raises, and the daemon ends. -/
  | bind (d : ℕ)
  | listen (d : ℕ)
  | close (d : ℕ)
  | unlink (d : ℕ)
  /-- It is killed, or another part of it fails to start. -/
  | die (d : ℕ)
  deriving DecidableEq, Repr

namespace Sockets

def start : Sockets := ⟨Table.empty, Table.empty⟩

variable (s : Sockets)

def setDaemon (d : ℕ) (path : Path) (phase : Phase) : Sockets :=
  { s with daemons := s.daemons.insert d (path, phase) }

def step : Action → Option Sockets
  | .launch d path =>
    if s.daemons.lookup d = none then
      some { s.setDaemon d path .cleared with files := Table.erase s.files path }
    else none
  | .bind d =>
    match s.daemons.lookup d with
    | some (path, .cleared) =>
      match s.files.lookup path with
      | none => some { s.setDaemon d path .bound with files := s.files.insert path d }
      | some _ => some (s.setDaemon d path .gone)
    | _ => none
  | .listen d =>
    match s.daemons.lookup d with
    | some (path, .bound) => some (s.setDaemon d path .listening)
    | _ => none
  | .close d =>
    match s.daemons.lookup d with
    | some (path, .listening) => some (s.setDaemon d path .closed)
    | _ => none
  | .unlink d =>
    match s.daemons.lookup d with
    | some (path, .closed) =>
      some { s.setDaemon d path .gone with files := Table.erase s.files path }
    | _ => none
  | .die d =>
    match s.daemons.lookup d with
    | some (path, _) => some (s.setDaemon d path .gone)
    | none => none

/-- The path an action removes the file of, whoever bound it. -/
def clears : Action → Option Path
  | .launch _ path => some path
  | .unlink d => (s.daemons.lookup d).map Prod.fst
  | _ => none

def isListening (d : ℕ) : Bool := (s.daemons.lookup d).any fun x => x.2 = .listening

/-- The daemon that a connection to a path gets, if any. -/
def connect (path : Path) : Option ℕ := (s.files.lookup path).filter s.isListening

def isFile (path : Path) : Bool := (s.files.lookup path).isSome

end Sockets

/-- The daemon a client gets. -/
def reach (p : Platform) (c : Caller) (s : Sockets) : Option ℕ :=
  s.connect (findLocalApiAddress p c s.isFile)

open Sockets

/-- A file is at the path of the daemon that bound it. -/
def Sound (s : Sockets) : Prop :=
  ∀ path d, s.files.lookup path = some d →
    ∃ phase, s.daemons.lookup d = some (path, phase) ∧ phase ≠ .cleared

/-- The socket files are as they should be, and `d` has bound one at `path`. -/
structure HasBound (d : ℕ) (path : Path) (s : Sockets) : Prop where
  sound : Sound s
  daemon : ∃ phase, s.daemons.lookup d = some (path, phase) ∧ phase ≠ .cleared

/-- What a step is: the daemon `k` at the path `q` comes to a phase, and keeps the files, removes
the one at its path or binds one there. -/
structure Turn (s s' : Sockets) (a : Action) (k : ℕ) (q : Path) (phase : Phase) : Prop where
  daemons : s'.daemons = s.daemons.insert k (q, phase)
  own : s.daemons.lookup k = none ∧ phase = .cleared ∨
    (∃ old, s.daemons.lookup k = some (q, old)) ∧ phase ≠ .cleared
  files : s'.files = s.files ∧ s.clears a = none ∨
    s'.files = Table.erase s.files q ∧ s.clears a = some q ∨
    s'.files = s.files.insert q k ∧ s.clears a = none ∧ s.files.lookup q = none ∧
      s.daemons.lookup k = some (q, .cleared)

section Steps

variable {s s' : Sockets} {a : Action} {as : List Action} {d k : ℕ} {path q : Path} {phase : Phase}

theorem turn_of_step (h : s.step a = some s') : ∃ k q phase, Turn s s' a k q phase := by
  cases a with
  | launch d path =>
    simp only [step, Option.ite_none_right_eq_some] at h
    obtain ⟨hfresh, ⟨⟩⟩ := h
    exact ⟨d, path, .cleared, rfl, .inl ⟨hfresh, rfl⟩, .inr (.inl ⟨rfl, rfl⟩)⟩
  | bind d =>
    simp only [step] at h
    split at h
    · rename_i path hd
      split at h
      · rename_i hfree
        obtain rfl := Option.some.inj h
        exact ⟨d, path, .bound, rfl, .inr ⟨⟨_, hd⟩, nofun⟩, .inr (.inr ⟨rfl, rfl, hfree, hd⟩)⟩
      · obtain rfl := Option.some.inj h
        exact ⟨d, path, .gone, rfl, .inr ⟨⟨_, hd⟩, nofun⟩, .inl ⟨rfl, rfl⟩⟩
    · cases h
  | listen d =>
    simp only [step] at h
    split at h
    · rename_i path hd
      obtain rfl := Option.some.inj h
      exact ⟨d, path, .listening, rfl, .inr ⟨⟨_, hd⟩, nofun⟩, .inl ⟨rfl, rfl⟩⟩
    · cases h
  | close d =>
    simp only [step] at h
    split at h
    · rename_i path hd
      obtain rfl := Option.some.inj h
      exact ⟨d, path, .closed, rfl, .inr ⟨⟨_, hd⟩, nofun⟩, .inl ⟨rfl, rfl⟩⟩
    · cases h
  | unlink d =>
    simp only [step] at h
    split at h
    · rename_i path hd
      obtain rfl := Option.some.inj h
      refine ⟨d, path, .gone, rfl, .inr ⟨⟨_, hd⟩, nofun⟩, .inr (.inl ⟨rfl, ?_⟩)⟩
      rw [clears, hd]
      rfl
    · cases h
  | die d =>
    simp only [step] at h
    split at h
    · rename_i path old hd
      obtain rfl := Option.some.inj h
      exact ⟨d, path, .gone, rfl, .inr ⟨⟨_, hd⟩, nofun⟩, .inl ⟨rfl, rfl⟩⟩
    · cases h

theorem Turn.daemon (h : Turn s s' a k q phase)
    (hd : ∃ phase, s.daemons.lookup d = some (path, phase) ∧ phase ≠ .cleared) :
    ∃ phase, s'.daemons.lookup d = some (path, phase) ∧ phase ≠ .cleared := by
  obtain ⟨old, hold, hne⟩ := hd
  by_cases hk : k = d
  · subst hk
    rcases h.own with ⟨hnone, -⟩ | ⟨⟨old', hold'⟩, hphase⟩
    · rw [hnone] at hold
      cases hold
    · obtain ⟨rfl, -⟩ := Prod.mk.inj (Option.some.inj (hold'.symm.trans hold))
      exact ⟨phase, by rw [h.daemons, lookup_insert_self], hphase⟩
  · exact ⟨old, by rwa [h.daemons, lookup_insert_of_ne hk], hne⟩

theorem Turn.sound (h : Turn s s' a k q phase) (hs : Sound s) : Sound s' := by
  intro path d hf
  rcases h.files with ⟨hfiles, -⟩ | ⟨hfiles, -⟩ | ⟨hfiles, -, -, hk⟩
  · exact h.daemon (hs path d (hfiles ▸ hf))
  · rw [hfiles] at hf
    exact h.daemon (hs path d (lookup_erase_eq_some hf).2)
  · rw [hfiles] at hf
    rcases lookup_insert_cases hf with ⟨rfl, rfl⟩ | hf
    · -- it is the daemon that binds
      have hphase : phase ≠ .cleared := by
        rcases h.own with ⟨hnone, -⟩ | ⟨-, hne⟩
        · rw [hk] at hnone
          cases hnone
        · exact hne
      exact ⟨phase, by rw [h.daemons, lookup_insert_self], hphase⟩
    · exact h.daemon (hs path d hf)

theorem HasBound.step (hb : HasBound d path s) (h : s.step a = some s') : HasBound d path s' := by
  obtain ⟨k, q, phase, ht⟩ := turn_of_step h
  exact ⟨ht.sound hb.sound, ht.daemon hb.daemon⟩

/-- Only an action that clears its path takes a daemon's file away, and nothing brings it back. -/
theorem lookup_files_iff (hb : HasBound d path s) (h : s.step a = some s') :
    s'.files.lookup path = some d ↔ s.files.lookup path = some d ∧ ¬ s.clears a = some path := by
  obtain ⟨k, q, phase, ht⟩ := turn_of_step h
  rcases ht.files with ⟨hfiles, hc⟩ | ⟨hfiles, hc⟩ | ⟨hfiles, hc, hfree, hk⟩
  · simp [hfiles, hc]
  · rw [hfiles, hc, lookup_erase]
    by_cases hq : q = path
    · simp [hq]
    · simp [hq]
  · rw [hfiles, hc, lookup_insert]
    by_cases hq : q = path
    · -- the daemon that binds there has bound nothing before
      subst hq
      obtain ⟨old, hold, hne⟩ := hb.daemon
      have hkd : k ≠ d := by
        rintro rfl
        rw [hk] at hold
        obtain ⟨-, rfl⟩ := Prod.mk.inj (Option.some.inj hold)
        exact hne rfl
      simp [hkd, hfree]
    · simp [hq]

theorem sound_of_run (hr : exec Sockets.step start as = some s) : Sound s := by
  refine inv_of_exec (fun s a s' hs h => ?_) ?_ hr
  · obtain ⟨k, q, phase, ht⟩ := turn_of_step h
    exact ht.sound hs
  · intro path d hf
    cases hf

theorem connect_eq_some_iff : s.connect path = some d ↔
    s.files.lookup path = some d ∧ s.isListening d = true := by
  rw [connect, Option.filter_eq_some_iff]

end Steps

section Addresses

variable {p : Platform} {c : Caller} {files : Path → Bool} {path : Path}

/-- The daemon of the client's own user comes first, and there is at most one other. -/
theorem candidates_cases : ∃ other, clientSocketCandidates p c = [defaultSocketPath p c] ∨
    clientSocketCandidates p c = [defaultSocketPath p c, other] := by
  unfold clientSocketCandidates defaultSocketPath
  cases c.root with
  | true =>
    refine ⟨userSocketPath c.host p, ?_⟩
    by_cases h : systemSocketPath p = userSocketPath c.host p
    · simp [h]
    · simp [h]
  | false =>
    refine ⟨systemSocketPath p, ?_⟩
    by_cases h : userSocketPath c.host p = systemSocketPath p
    · simp [h]
    · simp [h]

/-- Where there is a file, a client without an address of its own goes there if its user's daemon
would bind there, or else if that one has no file. -/
theorem findClientSocket_eq_iff (h : files path = true) :
    findClientSocket p c files = path ↔ path = defaultSocketPath p c ∨
      path ∈ clientSocketCandidates p c ∧ files (defaultSocketPath p c) = false := by
  unfold findClientSocket
  by_cases hd : path = defaultSocketPath p c
  · subst hd
    obtain ⟨other, hc | hc⟩ := @candidates_cases p c
    · simp [hc, h]
    · simp [hc, h]
  · have hne : defaultSocketPath p c ≠ path := Ne.symm hd
    obtain ⟨other, hc | hc⟩ := @candidates_cases p c
    · cases hf : files (defaultSocketPath p c) <;> simp [hc, hf, hd, hne]
    · cases hf : files (defaultSocketPath p c) with
      | true => simp [hc, hf, hd, hne]
      | false =>
        by_cases ho : path = other
        · subst ho
          simp [hc, hf, h]
        · cases hf' : files other <;> simp [hc, hf, hf', hd, hne, ho, Ne.symm ho]

theorem findLocalApiAddress_eq_iff (h : files path = true) :
    findLocalApiAddress p c files = path ↔ path = resolveLocalApiAddress p c ∨
      c.flag = none ∧ c.socketVar = none ∧ path ∈ clientSocketCandidates p c ∧
        files (defaultSocketPath p c) = false := by
  unfold findLocalApiAddress resolveLocalApiAddress
  cases hq : c.flag.or c.socketVar with
  | none =>
    obtain ⟨hflag, hvar⟩ := Option.or_eq_none_iff.mp hq
    simp only [Option.getD_none, hflag, hvar, true_and]
    exact findClientSocket_eq_iff h
  | some q =>
    have hgiven : ¬ (c.flag = none ∧ c.socketVar = none) := fun hn => by
      rw [Option.or_eq_none_iff.mpr hn] at hq
      cases hq
    simp only [Option.getD_some, ← and_assoc, hgiven, false_and, or_false, eq_comm]

end Addresses

/-- A daemon that has been reached at its path is reached again exactly if it still listens and
since then no daemon has been started at that path and no other stop has removed what was there. A
client gets it exactly if it resolves to that path as the daemon does, or has no address of its own
and finds no file where its own user's daemon would bind. -/
theorem client_reaches_daemon_iff (p : Platform) (c : Caller) {as bs : List Action}
    {s s' : Sockets} {d : ℕ} {path : Path} (hs : exec Sockets.step start as = some s)
    (hd : s.connect path = some d) (hr : exec Sockets.step s bs = some s') :
    (s'.connect path = some d ↔ s'.isListening d = true ∧
      ¬ Happened Sockets.step (fun s a => s.clears a = some path) s bs) ∧
    (reach p c s' = some d ↔ s'.connect path = some d ∧
      (path = resolveLocalApiAddress p c ∨
        c.flag = none ∧ c.socketVar = none ∧ path ∈ clientSocketCandidates p c ∧
          s'.isFile (defaultSocketPath p c) = false)) := by
  have hsound := sound_of_run hs
  have hfile := (connect_eq_some_iff.mp hd).1
  have hbound : HasBound d path s := ⟨hsound, hsound path d hfile⟩
  have hbound' : HasBound d path s' := inv_of_exec (fun _ _ _ => HasBound.step) hbound hr
  refine ⟨?_, ?_⟩
  · have hfiles := holds_iff_not_happened (H := fun s : Sockets => s.files.lookup path = some d)
      (fun _ _ _ => HasBound.step) (fun _ _ _ => lookup_files_iff) hbound hr
    rw [connect_eq_some_iff, hfiles, and_iff_right hfile, and_comm]
  · have hreach : reach p c s' = some d ↔
        s'.connect path = some d ∧ findLocalApiAddress p c s'.isFile = path := by
      constructor
      · intro h
        -- a file of this daemon is at its path and nowhere else
        obtain ⟨phase, hpath, -⟩ := hbound'.sound _ d (connect_eq_some_iff.mp h).1
        obtain ⟨phase', hpath', -⟩ := hbound'.daemon
        obtain ⟨heq, -⟩ := Prod.mk.inj (Option.some.inj (hpath.symm.trans hpath'))
        exact ⟨heq ▸ h, heq⟩
      · rintro ⟨h, heq⟩
        rw [reach, heq, h]
    rw [hreach]
    refine and_congr_right fun h => findLocalApiAddress_eq_iff ?_
    rw [isFile, (connect_eq_some_iff.mp h).1]
    rfl

def user : Caller where
  host :=
    { home := ["home", "a"], stateHome := none, runtimeDir := none, uid := 1000
      executable := "python3", sudoUser := none, userVar := some "a", loginName := "a"
      inPlugdev := fun _ => true, plistDumps := fun _ => "" }
  root := false
  flag := none
  socketVar := none

/-- The daemon of root listens. -/
def systemDaemon : List Action :=
  [.launch 0 (systemSocketPath .linux), .bind 0, .listen 0]

/-- A daemon of the user's is killed. -/
def userDaemonDies : List Action :=
  [.launch 1 (userSocketPath user.host .linux), .bind 1, .listen 1, .die 1]

/-- The file that the user's daemon leaves hides the daemon of root. -/
theorem client_reaches_daemon_iff_hidden : ∃ s s',
    exec Sockets.step start systemDaemon = some s ∧ exec Sockets.step s userDaemonDies = some s' ∧
    reach .linux user s = some 0 ∧ reach .linux user s' = none ∧
    (s'.connect (systemSocketPath .linux) = some 0 ↔ s'.isListening 0 = true ∧
      ¬ Happened Sockets.step (fun s a => s.clears a = some (systemSocketPath .linux)) s
        userDaemonDies) ∧
    (reach .linux user s' = some 0 ↔ s'.connect (systemSocketPath .linux) = some 0 ∧
      (systemSocketPath .linux = resolveLocalApiAddress .linux user ∨
        user.flag = none ∧ user.socketVar = none ∧
          systemSocketPath .linux ∈ clientSocketCandidates .linux user ∧
          s'.isFile (defaultSocketPath .linux user) = false)) := by
  have h s s' (hs : exec Sockets.step start systemDaemon = some s)
      (hd : s.connect (systemSocketPath .linux) = some 0)
      (hr : exec Sockets.step s userDaemonDies = some s') :=
    client_reaches_daemon_iff .linux user hs hd hr
  exact ⟨_, _, rfl, rfl, rfl, rfl, h _ _ rfl rfl rfl⟩

end MbTools.Rendezvous
