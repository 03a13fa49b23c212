import MbTools.Lib.Workers

/-! # Shutting the registry down

The four servers that `mbregistry run` starts besides its peering, and the end of the run: they
are stopped one after another, and the store is closed last.
-/

namespace MbTools.Shutdown

open Runs Workers

inductive Component where
  | api
  | remoteApi
  | relayPool
  | namesApi
  deriving DecidableEq, Repr

/-- `RegistryAPIServer.stop` and `RemoteAPIServer.stop`: the helper is the sweeper. -/
def apiDesign : Design where
  script := [.tell, .awaitAcceptor true, .awaitHelper, .awaitWorkers]
  lists := true
  failEnds := true
  rechecks := false

/-- `RelayPool.stop`: the helper, which refreshes the address, has a flag of its own. -/
def relayPoolDesign : Design where
  script := [.awaitHelper, .tell, .awaitAcceptor true, .awaitWorkers]
  lists := true
  failEnds := true
  rechecks := false

/-- `NamesAPI.stop`: `shutdown` waits for the serving loop as long as that takes. The requests
run on daemon threads, and `server_close` waits for none of them. -/
def namesApiDesign : Design where
  script := [.tell, .awaitAcceptor false, .awaitAcceptor true]
  lists := false
  failEnds := false
  rechecks := true

namespace Component

def design : Component → Design
  | api | remoteApi => apiDesign
  | relayPool => relayPoolDesign
  | namesApi => namesApiDesign

def hasHelper : Component → Bool
  | namesApi => false
  | _ => true

end Component

/-- The order of the `finally` in `_run_registry`, with or without a relay pool. -/
def stopOrder (pool : Bool) : List Component :=
  .namesApi :: (if pool then [.relayPool] else []) ++ [.remoteApi, .api]

structure Process where
  servers : Component → Server
  /-- Is the daemon still polling? -/
  polling : Bool
  /-- The servers whose `stop` has not returned, in their order. -/
  toStop : List Component
  closed : Bool

inductive Move where
  | server (c : Component) (a : Workers.Action)
  /-- `daemon.run` is over, whether it returns or raises. -/
  | pollEnds
  /-- The `stop` that was called returns. -/
  | stopped
  | close
  deriving DecidableEq, Repr

def start (pool : Bool) : Process where
  servers c := Server.start c.hasHelper
  polling := true
  toStop := stopOrder pool
  closed := false

/-- May the server do this now? Its `stop` is called when the one before has returned. -/
def allowed (pool : Bool) (p : Process) (c : Component) (a : Workers.Action) : Bool :=
  (stopOrder pool).contains c && (!a.isStoppers || !p.polling && p.toStop.head? = some c)

def step (pool : Bool) (p : Process) : Move → Option Process
  | .server c a =>
    if allowed pool p c a then
      ((p.servers c).step c.design a).map fun s =>
        { p with servers := fun c' => if c' = c then s else p.servers c' }
    else none
  | .pollEnds => if p.polling then some { p with polling := false } else none
  | .stopped =>
    match p.toStop with
    | [] => none
    | c :: rest => if (p.servers c).orders = some [] then some { p with toStop := rest } else none
  | .close => if !p.polling && p.toStop = [] then some { p with closed := true } else none

variable {pool : Bool} {p p' : Process} {m : Move} {as : List Move}

/-- What holds of the process and its servers after any number of moves. -/
structure Sound (pool : Bool) (p : Process) : Prop where
  servers : ∀ c, Workers.Sound c.design (p.servers c)
  helpers : ∀ c : Component, c.hasHelper = false → (p.servers c).helper = false
  stopped : ∀ c ∈ stopOrder pool, c ∈ p.toStop ∨ (p.servers c).orders = some []
  closed : p.closed = true → p.toStop = []

theorem sound_start (pool : Bool) : Sound pool (start pool) where
  servers c := Workers.sound_start c.design c.hasHelper
  helpers _ h := h
  stopped _ h := Or.inl h
  closed := nofun

theorem sound_step (hp : Sound pool p) (h : step pool p m = some p') : Sound pool p' := by
  cases m with
  | server c a =>
    obtain ⟨-, h⟩ := Option.ite_none_right_eq_some.mp h
    obtain ⟨s, hs, rfl⟩ := Option.map_eq_some_iff.mp h
    constructor
    · intro c'
      dsimp only
      split
      next heq => exact heq ▸ Workers.sound_step (hp.servers c) hs
      · exact hp.servers c'
    · intro c' hc'
      dsimp only
      split
      next heq =>
        subst heq
        rw [Bool.eq_false_iff]
        intro hrun
        exact absurd ((later_step hs).helper hrun) (Bool.eq_false_iff.mp (hp.helpers c' hc'))
      · exact hp.helpers c' hc'
    · intro c' hc'
      refine (hp.stopped c' hc').imp_right fun horders => ?_
      dsimp only
      split
      next heq =>
        subst heq
        exact orders_of_stopped horders hs
      · exact horders
    · exact hp.closed
  | pollEnds =>
    obtain ⟨-, ⟨⟩⟩ := Option.ite_none_right_eq_some.mp h
    exact ⟨hp.servers, hp.helpers, hp.stopped, hp.closed⟩
  | stopped =>
    simp only [step] at h
    split at h
    · cases h
    next c rest htoStop =>
      obtain ⟨horders, ⟨⟩⟩ := Option.ite_none_right_eq_some.mp h
      refine ⟨hp.servers, hp.helpers, fun c' hc' => ?_, fun hclosed => ?_⟩
      · rcases hp.stopped c' hc' with hmem | hstopped
        · rw [htoStop] at hmem
          rcases List.mem_cons.mp hmem with rfl | hrest
          · exact Or.inr horders
          · exact Or.inl hrest
        · exact Or.inr hstopped
      · rw [hp.closed hclosed] at htoStop
        cases htoStop
  | close =>
    obtain ⟨hready, ⟨⟩⟩ := Option.ite_none_right_eq_some.mp h
    refine ⟨hp.servers, hp.helpers, hp.stopped, fun _ => ?_⟩
    exact of_decide_eq_true (Bool.and_eq_true_iff.mp hready).2

theorem sound_of_exec (h : exec (step pool) (start pool) as = some p) : Sound pool p :=
  inv_of_exec (fun _ _ _ hp hs => sound_step hp hs) (sound_start pool) h

theorem left_running {c : Component} (hp : Sound pool p) (hc : (p.servers c).orders = some [])
    {t : Thread} (ht : (p.servers c).Runs t) : t ∈ (p.servers c).abandoned ∨
      ∃ w, t = .worker w ∧ (c = .namesApi ∨ .acceptor ∈ (p.servers c).abandoned) := by
  have hcarried := (hp.servers c).carried_all hc
  cases t with
  | acceptor =>
    left
    cases c with
    | api | remoteApi | relayPool => exact (hcarried.acceptor true (by decide) ht).2
    | namesApi => exact absurd (hcarried.acceptor false (by decide) ht).1 Bool.false_ne_true
  | helper =>
    left
    cases c with
    | api | remoteApi | relayPool => exact hcarried.helper (by decide) ht
    | namesApi => exact absurd ht (Bool.eq_false_iff.mp (hp.helpers .namesApi rfl))
  | worker w =>
    have hworker (hlists : c.design.lists = true) (horder : InOrder c.design.script) :
        .worker w ∈ (p.servers c).abandoned ∨ ∃ v, Thread.worker w = .worker v ∧
          (c = .namesApi ∨ .acceptor ∈ (p.servers c).abandoned) :=
      ((hp.servers c).worker_given_up hc hlists horder ht).imp_right fun h => ⟨w, rfl, Or.inr h⟩
    cases c with
    | api | remoteApi =>
      exact hworker rfl ⟨[.tell], true, [.awaitHelper, .awaitWorkers], rfl, by decide⟩
    | relayPool => exact hworker rfl ⟨[.awaitHelper, .tell], true, [.awaitWorkers], rfl, by decide⟩
    | namesApi => exact Or.inr ⟨w, rfl, Or.inl rfl⟩

/-- A stop without a wait that is given up. -/
def quickStop : Component → List Workers.Action
  | .api | .remoteApi => [.stop, .obey, .check, .obey, .helperEnds, .obey, .obey]
  | .relayPool => [.stop, .helperEnds, .obey, .obey, .check, .obey, .obey]
  | .namesApi => [.stop, .obey, .check, .obey, .obey]

/-- A request for a name is accepted, and the registry ends before it is answered. -/
def unanswered (pool : Bool) : List Move :=
  [Move.server .namesApi .check, .server .namesApi .accept, .server .namesApi .spawn, .pollEnds] ++
    (stopOrder pool).flatMap (fun c => (quickStop c).map (.server c) ++ [.stopped]) ++ [.close]

theorem unanswered_leaves_one (pool : Bool) :
    ∃ p, exec (step pool) (start pool) (unanswered pool) = some p ∧ p.closed = true ∧
      (∀ c ∈ stopOrder pool, (p.servers c).abandoned = []) ∧
      (p.servers .namesApi).running 0 = true := by
  have hrun : (exec (step pool) (start pool) (unanswered pool)).any (fun p => p.closed &&
      ((stopOrder pool).all fun c => (p.servers c).abandoned = []) &&
        (p.servers .namesApi).running 0) = true := by cases pool <;> rfl
  obtain ⟨p, hp, hleft⟩ := (Option.any_eq_true _ _).mp hrun
  simp only [Bool.and_eq_true, List.all_eq_true, decide_eq_true_eq] at hleft
  exact ⟨p, hp, hleft.1.1, hleft.1.2, hleft.2⟩

/-- When the store is closed, and ever after, a thread of a server runs only if the wait for it,
or for the acceptor that started it, was given up, or it answers a request of the names API;
and such a request can be left without any wait being given up. -/
theorem closed_store_is_left_alone (pool : Bool) :
    (∀ as p, exec (step pool) (start pool) as = some p → p.closed = true →
      ∀ c ∈ stopOrder pool, ∀ t, (p.servers c).Runs t → t ∈ (p.servers c).abandoned ∨
        ∃ w, t = .worker w ∧ (c = .namesApi ∨ .acceptor ∈ (p.servers c).abandoned)) ∧
    ∃ as p, exec (step pool) (start pool) as = some p ∧ p.closed = true ∧
      (∀ c ∈ stopOrder pool, (p.servers c).abandoned = []) ∧
        (p.servers .namesApi).Runs (.worker 0) := by
  constructor
  · intro as p h hclosed c hc t ht
    have hp := sound_of_exec h
    have hstopped : (p.servers c).orders = some [] := by
      refine (hp.stopped c hc).resolve_left fun hmem => ?_
      rw [hp.closed hclosed] at hmem
      cases hmem
    exact left_running hp hstopped ht
  · exact ⟨unanswered pool, unanswered_leaves_one pool⟩

end MbTools.Shutdown
