import MbTools.Lib.Runs
import Mathlib.Data.List.Basic

/-! # Stopping a server with worker threads

A server accepts connections on a thread of its own and gives each a worker thread. To stop it is
to go through a list of orders: to set the flag the acceptor looks at, and to wait for its
threads, for most of them a limited time only.
-/

namespace MbTools.Workers

/-- Where the accepting thread is in its loop. -/
inductive Acceptor where
  | checking
  | accepting
  | accepted
  /-- It has started a worker that it has not listed yet. -/
  | started (w : ℕ)
  | ended
  deriving DecidableEq, Repr

inductive Thread where
  | acceptor
  | helper
  | worker (w : ℕ)
  deriving DecidableEq, Repr

inductive Order where
  | tell
  | awaitAcceptor (limited : Bool)
  | awaitHelper
  /-- One after another, for the workers that are listed. -/
  | awaitWorkers
  deriving DecidableEq, Repr

structure Design where
  script : List Order
  /-- Does the acceptor list its workers, for the stop to wait for them? -/
  lists : Bool
  /-- Does it end when it cannot accept? -/
  failEnds : Bool
  /-- Does it look at the flag again before it takes a connection? -/
  rechecks : Bool

structure Server where
  told : Bool
  acceptor : Acceptor
  /-- Does the helper thread run? -/
  helper : Bool
  /-- The workers by number: does it run? -/
  workers : List Bool
  listed : List ℕ
  /-- What is left of the stop, if there is one. -/
  orders : Option (List Order)
  /-- How many listed workers the stop has waited for. -/
  next : ℕ
  /-- The threads the stop gave up waiting for. -/
  abandoned : List Thread
  deriving DecidableEq, Repr

inductive Action where
  | check
  | accept
  | fail
  | spawn
  | list
  | finish (w : ℕ)
  | helperEnds
  | stop
  | obey
  | giveUp
  deriving DecidableEq, Repr

/-- An action of the thread that stops the server. -/
def Action.isStoppers : Action → Bool
  | stop | obey | giveUp => true
  | _ => false

namespace Server

def start (helper : Bool) : Server := ⟨false, .checking, helper, [], [], none, 0, []⟩

variable (d : Design) (s : Server)

def running (w : ℕ) : Bool := s.workers[w]? = some true

/-- The next order is carried out, or what it waits for has happened. -/
def obey : List Order → Option Server
  | [] => none
  | .tell :: rest => some { s with told := true, orders := some rest }
  | .awaitAcceptor _ :: rest =>
    if s.acceptor = .ended then some { s with orders := some rest } else none
  | .awaitHelper :: rest => if s.helper then none else some { s with orders := some rest }
  | .awaitWorkers :: rest =>
    match s.listed[s.next]? with
    | none => some { s with orders := some rest }
    | some w => if s.running w then none else some { s with next := s.next + 1 }

/-- A wait is over before what it waits for has happened. -/
def giveUp : List Order → Option Server
  | .awaitAcceptor true :: rest =>
    if s.acceptor = .ended then none
    else some { s with orders := some rest, abandoned := .acceptor :: s.abandoned }
  | .awaitHelper :: rest =>
    if s.helper then some { s with orders := some rest, abandoned := .helper :: s.abandoned }
    else none
  | .awaitWorkers :: _ =>
    match s.listed[s.next]? with
    | none => none
    | some w =>
      if s.running w then some { s with next := s.next + 1, abandoned := .worker w :: s.abandoned }
      else none
  | _ => none

def step : Action → Option Server
  | .check =>
    if s.acceptor = .checking then
      some { s with acceptor := if s.told then .ended else .accepting }
    else none
  | .accept =>
    if s.acceptor = .accepting then
      some { s with acceptor := if d.rechecks && s.told then .ended else .accepted }
    else none
  | .fail =>
    if s.acceptor = .accepting then
      some { s with acceptor := if d.failEnds then .ended else .checking }
    else none
  | .spawn =>
    if s.acceptor = .accepted then
      some { s with
        workers := s.workers ++ [true]
        acceptor := if d.lists then .started s.workers.length else .checking }
    else none
  | .list =>
    match s.acceptor with
    | .started w => some { s with listed := s.listed ++ [w], acceptor := .checking }
    | _ => none
  | .finish w => if s.running w then some { s with workers := s.workers.set w false } else none
  | .helperEnds => if s.helper then some { s with helper := false } else none
  | .stop => if s.orders = none then some { s with orders := some d.script } else none
  | .obey => s.orders.bind s.obey
  | .giveUp => s.orders.bind s.giveUp

/-- Is the thread running? -/
def Runs : Thread → Prop
  | .acceptor => s.acceptor ≠ .ended
  | .helper => s.helper = true
  | .worker w => s.running w = true

end Server

open Server

variable {d : Design} {s t : Server} {a : Action}

/-! ## What steps keep -/

/-- What has ended stays so, and what is listed or given up stays listed or given up. -/
structure Later (s t : Server) : Prop where
  acceptor : s.acceptor = .ended → t.acceptor = .ended ∧ t.listed = s.listed
  helper : t.helper = true → s.helper = true
  workers : ∀ w < s.workers.length, t.running w = true → s.running w = true
  length : s.workers.length ≤ t.workers.length
  listed : s.listed <+: t.listed
  next : s.next ≤ t.next
  abandoned : s.abandoned ⊆ t.abandoned

/-- What the stop does at its next order: what that waits for has happened or is given up, and it is
done with the order or with one more worker. -/
inductive StopperTurn (s : Server) : List Order → Server → Prop where
  | next {o : Order} {rest : List Order} {told : Bool} {abandoned : List Thread} :
      s.abandoned ⊆ abandoned →
      (∀ limited, o = .awaitAcceptor limited → s.acceptor ≠ .ended →
        limited = true ∧ .acceptor ∈ abandoned) →
      (o = .awaitHelper → s.helper = true → .helper ∈ abandoned) →
      (o = .awaitWorkers → s.listed.length ≤ s.next) →
      StopperTurn s (o :: rest) { s with told, orders := some rest, abandoned }
  | worker {w : ℕ} {rest : List Order} {abandoned : List Thread} :
      s.abandoned ⊆ abandoned → s.listed[s.next]? = some w →
      (s.running w = true → .worker w ∈ abandoned) →
      StopperTurn s (.awaitWorkers :: rest) { s with next := s.next + 1, abandoned }

theorem turn_of_obey {orders : List Order} (h : s.obey orders = some t) :
    StopperTurn s orders t := by
  unfold obey at h
  split at h
  · cases h
  · cases h
    exact .next (List.Subset.refl _) nofun nofun nofun
  · obtain ⟨hends, ⟨⟩⟩ := Option.ite_none_right_eq_some.mp h
    exact .next (List.Subset.refl _) (fun _ _ hrun => absurd hends hrun) nofun nofun
  · obtain ⟨hends, ⟨⟩⟩ := Option.ite_none_left_eq_some.mp h
    exact .next (List.Subset.refl _) nofun (fun _ hrun => absurd hrun hends) nofun
  · split at h
    next hnone =>
      cases h
      exact .next (List.Subset.refl _) nofun nofun fun _ => List.getElem?_eq_none_iff.mp hnone
    next w hw =>
      obtain ⟨hidle, ⟨⟩⟩ := Option.ite_none_left_eq_some.mp h
      exact .worker (List.Subset.refl _) hw fun hrun => absurd hrun hidle

theorem turn_of_giveUp {orders : List Order} (h : s.giveUp orders = some t) :
    StopperTurn s orders t := by
  unfold giveUp at h
  split at h
  · obtain ⟨-, ⟨⟩⟩ := Option.ite_none_left_eq_some.mp h
    refine .next (List.subset_cons_self _ _) (fun limited hlimited _ => ?_) nofun nofun
    exact ⟨(Order.awaitAcceptor.inj hlimited).symm, List.mem_cons_self⟩
  · obtain ⟨-, ⟨⟩⟩ := Option.ite_none_right_eq_some.mp h
    exact .next (List.subset_cons_self _ _) nofun (fun _ _ => List.mem_cons_self) nofun
  · split at h
    · cases h
    next w hw =>
      obtain ⟨-, ⟨⟩⟩ := Option.ite_none_right_eq_some.mp h
      exact .worker (List.subset_cons_self _ _) hw fun _ => List.mem_cons_self
  · cases h

/-- A step of the stop behind its first, with the orders it had left. -/
theorem turn_of_stopper (ha : a = .obey ∨ a = .giveUp) (h : s.step d a = some t) :
    ∃ orders, s.orders = some orders ∧ StopperTurn s orders t := by
  rcases ha with rfl | rfl
  · obtain ⟨orders, horders, h⟩ := Option.bind_eq_some_iff.mp h
    exact ⟨orders, horders, turn_of_obey h⟩
  · obtain ⟨orders, horders, h⟩ := Option.bind_eq_some_iff.mp h
    exact ⟨orders, horders, turn_of_giveUp h⟩

theorem later_turn {orders : List Order} (h : StopperTurn s orders t) : Later s t := by
  cases h with
  | next habandoned =>
    exact ⟨fun hend => ⟨hend, rfl⟩, id, fun _ _ => id, Nat.le_refl _, List.prefix_rfl,
      Nat.le_refl _, habandoned⟩
  | worker habandoned =>
    exact ⟨fun hend => ⟨hend, rfl⟩, id, fun _ _ => id, Nat.le_refl _, List.prefix_rfl,
      Nat.le_succ _, habandoned⟩

/-- A step of the acceptor that starts and lists nothing. -/
theorem later_of_acceptor {acceptor : Acceptor} (h : s.acceptor ≠ .ended) :
    Later s { s with acceptor } :=
  ⟨fun hend => absurd hend h, id, fun _ _ => id, Nat.le_refl _, List.prefix_rfl, Nat.le_refl _,
    List.Subset.refl _⟩

theorem running_append {w : ℕ} (hw : w < s.workers.length) {acceptor : Acceptor} :
    { s with workers := s.workers ++ [true], acceptor }.running w = s.running w := by
  simp only [running, List.getElem?_append_left hw]

theorem running_set {v w : ℕ} :
    { s with workers := s.workers.set v false }.running w = (s.running w && decide (v ≠ w)) := by
  simp only [running, List.getElem?_set]
  by_cases hvw : v = w
  · subst hvw
    by_cases hlen : v < s.workers.length <;> simp [hlen]
  · simp [hvw]

theorem later_step (h : s.step d a = some t) : Later s t := by
  cases a with
  | check =>
    obtain ⟨hs, ⟨⟩⟩ := Option.ite_none_right_eq_some.mp h
    exact later_of_acceptor (by simp [hs])
  | accept =>
    obtain ⟨hs, ⟨⟩⟩ := Option.ite_none_right_eq_some.mp h
    exact later_of_acceptor (by simp [hs])
  | fail =>
    obtain ⟨hs, ⟨⟩⟩ := Option.ite_none_right_eq_some.mp h
    exact later_of_acceptor (by simp [hs])
  | spawn =>
    obtain ⟨hs, ⟨⟩⟩ := Option.ite_none_right_eq_some.mp h
    refine ⟨fun hend => ?_, id, fun w hw hrun => ?_, ?_, List.prefix_rfl, Nat.le_refl _,
      List.Subset.refl _⟩
    · rw [hs] at hend
      cases hend
    · rwa [running_append hw] at hrun
    · simp
  | list =>
    simp only [step] at h
    split at h
    next w hs =>
      cases h
      refine ⟨fun hend => ?_, id, fun _ _ => id, Nat.le_refl _, List.prefix_append _ _,
        Nat.le_refl _, List.Subset.refl _⟩
      rw [hs] at hend
      cases hend
    · cases h
  | finish w =>
    obtain ⟨-, ⟨⟩⟩ := Option.ite_none_right_eq_some.mp h
    refine ⟨fun hend => ⟨hend, rfl⟩, id, fun v _ hrun => ?_, ?_, List.prefix_rfl, Nat.le_refl _,
      List.Subset.refl _⟩
    · rw [running_set, Bool.and_eq_true] at hrun
      exact hrun.1
    · simp
  | helperEnds =>
    obtain ⟨-, ⟨⟩⟩ := Option.ite_none_right_eq_some.mp h
    exact ⟨fun hend => ⟨hend, rfl⟩, nofun, fun _ _ => id, Nat.le_refl _, List.prefix_rfl,
      Nat.le_refl _, List.Subset.refl _⟩
  | stop =>
    obtain ⟨-, ⟨⟩⟩ := Option.ite_none_right_eq_some.mp h
    exact ⟨fun hend => ⟨hend, rfl⟩, id, fun _ _ => id, Nat.le_refl _, List.prefix_rfl,
      Nat.le_refl _, List.Subset.refl _⟩
  | obey =>
    obtain ⟨_, -, hturn⟩ := turn_of_stopper (.inl rfl) h
    exact later_turn hturn
  | giveUp =>
    obtain ⟨_, -, hturn⟩ := turn_of_stopper (.inr rfl) h
    exact later_turn hturn

/-! ## What a stop is sure of -/

/-- The listed workers are where the stop or the acceptor finds them. -/
structure Listed (d : Design) (s : Server) : Prop where
  bound : ∀ w ∈ s.listed, w < s.workers.length
  last : ∀ w, s.acceptor = .started w → w < s.workers.length
  all : d.lists = true → ∀ w, s.running w = true → w ∈ s.listed ∨ s.acceptor = .started w
  next_le : s.next ≤ s.listed.length
  /-- Those the stop has waited for do not run, or it gave them up. -/
  awaited : ∀ j < s.next, ∀ w, s.listed[j]? = some w → s.running w = true →
    .worker w ∈ s.abandoned

theorem running_lt {w : ℕ} (h : s.running w = true) : w < s.workers.length := by
  rw [running, decide_eq_true_eq] at h
  exact (List.getElem?_eq_some_iff.mp h).1

/-- A step that neither starts nor lists a worker nor waits for one. -/
theorem Listed.of_later (h : Listed d s) (hst : Later s t)
    (hlength : t.workers.length = s.workers.length) (hlisted : t.listed = s.listed)
    (hnext : t.next = s.next) (hstarted : ∀ w, t.acceptor = .started w ↔ s.acceptor = .started w) :
    Listed d t where
  bound w hw := by
    rw [hlength]
    exact h.bound w (hlisted ▸ hw)
  last w hw := by
    rw [hlength]
    exact h.last w ((hstarted w).mp hw)
  all hlists w hrun := by
    have hlt := running_lt hrun
    rw [hlength] at hlt
    rw [hlisted, hstarted]
    exact h.all hlists w (hst.workers w hlt hrun)
  next_le := by
    rw [hlisted, hnext]
    exact h.next_le
  awaited j hj w hw hrun := by
    have hlt := running_lt hrun
    rw [hlength] at hlt
    rw [hnext] at hj
    rw [hlisted] at hw
    exact hst.abandoned (h.awaited j hj w hw (hst.workers w hlt hrun))

theorem listed_turn {orders : List Order} (hs : Listed d s) (h : StopperTurn s orders t) :
    Listed d t := by
  cases h with
  | next habandoned =>
    exact ⟨hs.bound, hs.last, hs.all, hs.next_le, fun j hj w hw hrun =>
      habandoned (hs.awaited j hj w hw hrun)⟩
  | @worker w _ _ habandoned hw hdone =>
    refine ⟨hs.bound, hs.last, hs.all, (List.getElem?_eq_some_iff.mp hw).1, ?_⟩
    intro j hj v hv hrun
    rcases Nat.lt_succ_iff_lt_or_eq.mp hj with hlt | rfl
    · exact habandoned (hs.awaited j hlt v hv hrun)
    · obtain rfl : w = v := Option.some.inj (hw.symm.trans hv)
      exact hdone hrun

theorem listed_step (hs : Listed d s) (h : s.step d a = some t) : Listed d t := by
  have hst := later_step h
  cases a with
  | check =>
    obtain ⟨hchecking, ⟨⟩⟩ := Option.ite_none_right_eq_some.mp h
    refine hs.of_later hst rfl rfl rfl fun w => ?_
    cases htold : s.told <;> simp [hchecking]
  | accept =>
    obtain ⟨haccepting, ⟨⟩⟩ := Option.ite_none_right_eq_some.mp h
    refine hs.of_later hst rfl rfl rfl fun w => ?_
    cases hends : d.rechecks && s.told <;> simp [haccepting]
  | fail =>
    obtain ⟨haccepting, ⟨⟩⟩ := Option.ite_none_right_eq_some.mp h
    refine hs.of_later hst rfl rfl rfl fun w => ?_
    cases hends : d.failEnds <;> simp [haccepting]
  | spawn =>
    obtain ⟨haccepted, ⟨⟩⟩ := Option.ite_none_right_eq_some.mp h
    constructor
    · intro w hw
      rw [List.length_append]
      exact Nat.lt_add_right _ (hs.bound w hw)
    · intro w hw
      split at hw
      · obtain rfl := Acceptor.started.inj hw
        simp
      · cases hw
    · intro hlists w hrun
      have hlt := running_lt hrun
      rw [List.length_append, List.length_singleton] at hlt
      rw [if_pos hlists]
      rcases Nat.lt_succ_iff_lt_or_eq.mp hlt with hold | rfl
      · rw [running_append hold] at hrun
        rcases hs.all hlists w hrun with hmem | hstarted
        · exact Or.inl hmem
        · rw [haccepted] at hstarted
          cases hstarted
      · exact Or.inr rfl
    · exact hs.next_le
    · intro j hj w hw hrun
      rw [running_append (hs.bound w (List.mem_of_getElem? hw))] at hrun
      exact hs.awaited j hj w hw hrun
  | list =>
    simp only [step] at h
    split at h
    next w hstarted =>
      cases h
      constructor
      · intro v hv
        rcases List.mem_append.mp hv with hold | hnew
        · exact hs.bound v hold
        · exact List.mem_singleton.mp hnew ▸ hs.last w hstarted
      · nofun
      · intro hlists v hrun
        left
        rcases hs.all hlists v hrun with hmem | heq
        · exact List.mem_append_left _ hmem
        · rw [hstarted] at heq
          obtain rfl := Acceptor.started.inj heq
          exact List.mem_append_right _ (List.mem_singleton_self w)
      · rw [List.length_append]
        exact Nat.le_add_right_of_le hs.next_le
      · intro j hj v hv hrun
        rw [List.getElem?_append_left (Nat.lt_of_lt_of_le hj hs.next_le)] at hv
        exact hs.awaited j hj v hv hrun
    · cases h
  | finish w =>
    obtain ⟨-, ⟨⟩⟩ := Option.ite_none_right_eq_some.mp h
    exact hs.of_later hst (List.length_set ..) rfl rfl fun _ => Iff.rfl
  | helperEnds =>
    obtain ⟨-, ⟨⟩⟩ := Option.ite_none_right_eq_some.mp h
    exact hs.of_later hst rfl rfl rfl fun _ => Iff.rfl
  | stop =>
    obtain ⟨-, ⟨⟩⟩ := Option.ite_none_right_eq_some.mp h
    exact ⟨hs.bound, hs.last, hs.all, hs.next_le, hs.awaited⟩
  | obey =>
    obtain ⟨_, -, hturn⟩ := turn_of_stopper (.inl rfl) h
    exact listed_turn hs hturn
  | giveUp =>
    obtain ⟨_, -, hturn⟩ := turn_of_stopper (.inr rfl) h
    exact listed_turn hs hturn

/-- First the acceptor is waited for, then the workers it listed. -/
def InOrder (done : List Order) : Prop :=
  ∃ before limited after, done = before ++ .awaitAcceptor limited :: after ∧ .awaitWorkers ∈ after

/-- What orders that have been carried out leave behind. -/
structure Carried (done : List Order) (s : Server) : Prop where
  acceptor : ∀ limited, .awaitAcceptor limited ∈ done → s.acceptor ≠ .ended →
    limited = true ∧ .acceptor ∈ s.abandoned
  helper : .awaitHelper ∈ done → s.helper = true → .helper ∈ s.abandoned
  workers : InOrder done → .acceptor ∈ s.abandoned ∨
    s.acceptor = .ended ∧ s.listed.length ≤ s.next

theorem Carried.later {done : List Order} (h : Carried done s) (hst : Later s t) :
    Carried done t where
  acceptor limited hmem hrun := by
    have hbefore : s.acceptor ≠ .ended := fun hend => hrun (hst.acceptor hend).1
    exact (h.acceptor limited hmem hbefore).imp_right fun hs => hst.abandoned hs
  helper hmem hrun := hst.abandoned (h.helper hmem (hst.helper hrun))
  workers hinOrder := by
    rcases h.workers hinOrder with hs | ⟨hend, hnext⟩
    · exact Or.inl (hst.abandoned hs)
    · refine Or.inr ⟨(hst.acceptor hend).1, ?_⟩
      rw [(hst.acceptor hend).2]
      exact Nat.le_trans hnext hst.next

theorem Carried.concat {done : List Order} {o : Order} (h : Carried done s)
    (hacceptor : ∀ limited, o = .awaitAcceptor limited → s.acceptor ≠ .ended →
      limited = true ∧ .acceptor ∈ s.abandoned)
    (hhelper : o = .awaitHelper → s.helper = true → .helper ∈ s.abandoned)
    (hworkers : o = .awaitWorkers → s.listed.length ≤ s.next) : Carried (done ++ [o]) s where
  acceptor limited hmem hrun := by
    rcases List.mem_append.mp hmem with hold | hnew
    · exact h.acceptor limited hold hrun
    · exact hacceptor limited (List.mem_singleton.mp hnew).symm hrun
  helper hmem hrun := by
    rcases List.mem_append.mp hmem with hold | hnew
    · exact h.helper hold hrun
    · exact hhelper (List.mem_singleton.mp hnew).symm hrun
  workers := by
    rintro ⟨before, limited, after, hdone, hmem⟩
    rcases List.eq_nil_or_concat after with rfl | ⟨init, last, rfl⟩
    · cases hmem
    rw [List.concat_eq_append, ← List.cons_append, ← List.append_assoc] at hdone
    obtain ⟨hinit, hlast⟩ := List.append_inj' hdone rfl
    obtain rfl : o = last := List.singleton_inj.mp hlast
    rw [List.concat_eq_append] at hmem
    rcases List.mem_append.mp hmem with hold | hnew
    · exact h.workers ⟨before, limited, init, hinit, hold⟩
    · have hawaited : Order.awaitAcceptor limited ∈ done := by
        rw [hinit]
        exact List.mem_append_right _ List.mem_cons_self
      have hnext := hworkers (List.mem_singleton.mp hnew).symm
      by_cases hend : s.acceptor = .ended
      · exact Or.inr ⟨hend, hnext⟩
      · exact Or.inl (h.acceptor limited hawaited hend).2

/-- What holds of a server and its stop after any number of steps. -/
structure Sound (d : Design) (s : Server) : Prop where
  listed : Listed d s
  carried : ∀ todo, s.orders = some todo → ∃ done, d.script = done ++ todo ∧ Carried done s

theorem sound_start (d : Design) (helper : Bool) : Sound d (start helper) where
  listed := by
    constructor
    · nofun
    · nofun
    · intro _ w hrun
      simp [running, start] at hrun
    · exact Nat.le_refl _
    · intro j hj
      exact absurd hj (Nat.not_lt_zero j)
  carried := nofun

theorem orders_of_work (ha : a.isStoppers = false) (h : s.step d a = some t) :
    t.orders = s.orders := by
  cases a with
  | check | accept | fail | spawn | finish | helperEnds =>
    obtain ⟨-, ⟨⟩⟩ := Option.ite_none_right_eq_some.mp h
    rfl
  | list =>
    simp only [step] at h
    split at h
    · cases h
      rfl
    · cases h
  | stop | obey | giveUp => cases ha

theorem orders_of_stopped (hs : s.orders = some []) (h : s.step d a = some t) :
    t.orders = some [] := by
  cases ha : a.isStoppers with
  | false => rw [orders_of_work ha h, hs]
  | true =>
    cases a with
    | stop =>
      rw [step, hs] at h
      cases h
    | obey | giveUp =>
      rw [step, hs] at h
      cases h
    | _ => cases ha

theorem carried_turn {done orders : List Order} (hs : Carried done s)
    (hscript : d.script = done ++ orders) (horders : s.orders = some orders)
    (h : StopperTurn s orders t) :
    ∀ todo, t.orders = some todo → ∃ done, d.script = done ++ todo ∧ Carried done t := by
  have hlater : Carried done t := hs.later (later_turn h)
  intro todo htodo
  cases h with
  | @next o rest _ _ _ hacceptor hhelper hworkers =>
    -- the order that is carried out joins those that were
    obtain rfl := Option.some.inj htodo
    refine ⟨done ++ [o], ?_, hlater.concat hacceptor hhelper hworkers⟩
    rw [hscript, List.append_assoc, List.singleton_append]
  | worker _ _ _ =>
    obtain rfl := Option.some.inj (horders.symm.trans htodo)
    exact ⟨done, hscript, hlater⟩

theorem sound_step (hs : Sound d s) (h : s.step d a = some t) : Sound d t := by
  refine ⟨listed_step hs.listed h, ?_⟩
  cases ha : a.isStoppers with
  | false =>
    intro todo htodo
    rw [orders_of_work ha h] at htodo
    obtain ⟨done, hscript, hdone⟩ := hs.carried todo htodo
    exact ⟨done, hscript, hdone.later (later_step h)⟩
  | true =>
    cases a with
    | stop =>
      obtain ⟨-, ⟨⟩⟩ := Option.ite_none_right_eq_some.mp h
      intro todo htodo
      obtain rfl := Option.some.inj htodo
      refine ⟨[], rfl, nofun, nofun, ?_⟩
      rintro ⟨before, limited, after, hnil, -⟩
      exact absurd (congrArg List.length hnil) (by simp)
    | obey =>
      obtain ⟨orders, horders, hturn⟩ := turn_of_stopper (.inl rfl) h
      obtain ⟨done, hscript, hdone⟩ := hs.carried orders horders
      exact carried_turn hdone hscript horders hturn
    | giveUp =>
      obtain ⟨orders, horders, hturn⟩ := turn_of_stopper (.inr rfl) h
      obtain ⟨done, hscript, hdone⟩ := hs.carried orders horders
      exact carried_turn hdone hscript horders hturn
    | _ => cases ha

/-- After a whole script of orders what they waited for does not run, unless it was given up. -/
theorem Sound.carried_all (hs : Sound d s) (h : s.orders = some []) : Carried d.script s := by
  obtain ⟨done, hscript, hdone⟩ := hs.carried [] h
  rw [List.append_nil] at hscript
  exact hscript ▸ hdone

/-- A worker that runs after the stop was given up, or the acceptor was. -/
theorem Sound.worker_given_up (hs : Sound d s) (h : s.orders = some []) (hlists : d.lists = true)
    (horder : InOrder d.script) {w : ℕ} (hrun : s.running w = true) :
    .worker w ∈ s.abandoned ∨ .acceptor ∈ s.abandoned := by
  rcases (hs.carried_all h).workers horder with hacceptor | ⟨hend, hnext⟩
  · exact Or.inr hacceptor
  · rcases hs.listed.all hlists w hrun with hmem | hstarted
    · obtain ⟨j, hj, hw⟩ := List.getElem_of_mem hmem
      have hget : s.listed[j]? = some w := hw ▸ List.getElem?_eq_getElem hj
      exact Or.inl (hs.listed.awaited j (Nat.lt_of_lt_of_le hj hnext) w hget hrun)
    · rw [hend] at hstarted
      cases hstarted

end MbTools.Workers
