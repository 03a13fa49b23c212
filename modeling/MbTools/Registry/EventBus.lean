import MbTools.Lib.Fanout

/-! # The event bus and its watch clients

Threads of the daemon publish events; each `watch` connection has a thread of its own that
subscribes, writes what it is given and unsubscribes when a write raises. A step is
one section under the bus's lock, one call on a queue, or one write.
-/

namespace MbTools.EventBus

open Fanout Dict

variable {ε : Type}

/-- Where a connection that asked to `watch` is: acknowledged, in its loop, or out of it with the
event whose write raised. -/
inductive Phase (ε : Type) where
  | acked
  | waiting
  | writing (event : ε)
  | leaving (event : ε)
  | left (event : ε)
  deriving DecidableEq, Repr

/-- Between `subscribe` and `unsubscribe`. -/
def Phase.subscribed : Phase ε → Bool
  | .acked => false
  | .waiting => true
  | .writing _ => true
  | .leaving _ => true
  | .left _ => false

/-- The event that was taken from the queue and not written. -/
def Phase.inHand : Phase ε → List ε
  | .acked => []
  | .waiting => []
  | .writing event => [event]
  | .leaving event => [event]
  | .left event => [event]

structure Watcher (ε : Type) where
  phase : Phase ε
  written : List ε
  deriving DecidableEq, Repr

/-- The bus, with its publishers' threads and the connections that watch. -/
structure Feed (ε : Type) where
  bus : Bus ℕ ℕ ε
  watchers : Dict ℕ (Watcher ε)

inductive Action (ε : Type) where
  | ack (i : ℕ)
  | subscribe (i : ℕ)
  | get (i : ℕ)
  | write (i : ℕ) (ok : Bool)
  | unsubscribe (i : ℕ)
  | snapshot (t : ℕ) (event : ε) (order : List ℕ)
  | put (t : ℕ)
  | finish (t : ℕ)
  deriving DecidableEq

/-- What an action does to the bus. -/
def Action.onBus : Action ε → Option (Fanout.Action ℕ ℕ ε)
  | .ack _ => none
  | .subscribe i => some (.subscribe i)
  | .get i => some (.get i)
  | .write _ _ => none
  | .unsubscribe i => some (.unsubscribe i)
  | .snapshot t event order => some (.snapshot t event order)
  | .put t => some (.put t)
  | .finish t => some (.finish t)

/-- What the thread `t` starts to publish in a list of actions. -/
def publishedBy (t : ℕ) (as : List (Action ε)) : List ε :=
  as.filterMap fun
    | .snapshot t' event _ => if t' = t then some event else none
    | _ => none

namespace Feed

def start : Feed ε := ⟨Bus.start, Table.empty⟩

variable (s : Feed ε)

/-- A step of the bus that is a step of the watcher too. -/
def both (a : Fanout.Action ℕ ℕ ε) (i : ℕ) (w : Watcher ε) : Option (Feed ε) :=
  (s.bus.step a).map fun bus => ⟨bus, s.watchers.insert i w⟩

def publish (a : Fanout.Action ℕ ℕ ε) : Option (Feed ε) :=
  (s.bus.step a).map fun bus => { s with bus }

def step : Action ε → Option (Feed ε)
  | .ack i =>
    match s.watchers.lookup i with
    | none => some { s with watchers := s.watchers.insert i ⟨.acked, []⟩ }
    | some _ => none
  | .subscribe i =>
    match s.watchers.lookup i with
    | some ⟨.acked, written⟩ => s.both (.subscribe i) i ⟨.waiting, written⟩
    | _ => none
  | .get i =>
    match s.watchers.lookup i, s.bus.queue i with
    | some ⟨.waiting, written⟩, event :: _ => s.both (.get i) i ⟨.writing event, written⟩
    | _, _ => none
  | .write i ok =>
    match s.watchers.lookup i with
    | some ⟨.writing event, written⟩ =>
      let w := if ok then ⟨.waiting, written ++ [event]⟩ else ⟨.leaving event, written⟩
      some { s with watchers := s.watchers.insert i w }
    | _ => none
  | .unsubscribe i =>
    match s.watchers.lookup i with
    | some ⟨.leaving event, written⟩ => s.both (.unsubscribe i) i ⟨.left event, written⟩
    | _ => none
  | .snapshot t event order => s.publish (.snapshot t event order)
  | .put t => s.publish (.put t)
  | .finish t => s.publish (.finish t)

/-- How a step moves the connection it is about. -/
inductive Turns : Action ε → ℕ → Option (Watcher ε) → Watcher ε → Prop where
  | ack (i : ℕ) : Turns (.ack i) i none ⟨.acked, []⟩
  | subscribe (i : ℕ) (written : List ε) :
    Turns (.subscribe i) i (some ⟨.acked, written⟩) ⟨.waiting, written⟩
  | get (i : ℕ) (event : ε) (es written : List ε) (hq : s.bus.queue i = event :: es) :
    Turns (.get i) i (some ⟨.waiting, written⟩) ⟨.writing event, written⟩
  | wrote (i : ℕ) (event : ε) (written : List ε) :
    Turns (.write i true) i (some ⟨.writing event, written⟩) ⟨.waiting, written ++ [event]⟩
  | failed (i : ℕ) (event : ε) (written : List ε) :
    Turns (.write i false) i (some ⟨.writing event, written⟩) ⟨.leaving event, written⟩
  | unsubscribe (i : ℕ) (event : ε) (written : List ε) :
    Turns (.unsubscribe i) i (some ⟨.leaving event, written⟩) ⟨.left event, written⟩

/-- A step of a publisher's thread. -/
def publishes : Action ε → Bool
  | .snapshot _ _ _ => true
  | .put _ => true
  | .finish _ => true
  | _ => false

/-- A step is one of a publisher, or turns one connection; the bus takes its own part of it. -/
theorem step_cases {s s' : Feed ε} {a : Action ε} (hs : s.step a = some s') :
    Runs.exec Bus.step s.bus a.onBus.toList = some s'.bus ∧
      ((publishes a = true ∧ s'.watchers = s.watchers) ∨
        ∃ i w, s.Turns a i (s.watchers.lookup i) w ∧ s'.watchers = s.watchers.insert i w) := by
  have hboth : ∀ b i w, s.both b i w = some s' →
      Runs.exec Bus.step s.bus [b] = some s'.bus ∧ s'.watchers = s.watchers.insert i w := by
    intro b i w h
    obtain ⟨bus, hb, rfl⟩ := Option.map_eq_some_iff.mp h
    exact ⟨Runs.exec_cons.mpr ⟨bus, hb, rfl⟩, rfl⟩
  have hpublish : ∀ b, s.publish b = some s' →
      Runs.exec Bus.step s.bus [b] = some s'.bus ∧ s'.watchers = s.watchers := by
    intro b h
    obtain ⟨bus, hb, rfl⟩ := Option.map_eq_some_iff.mp h
    exact ⟨Runs.exec_cons.mpr ⟨bus, hb, rfl⟩, rfl⟩
  cases a with
  | ack i =>
    simp only [step] at hs
    split at hs
    · rename_i hw
      obtain rfl := Option.some.inj hs
      exact ⟨rfl, Or.inr ⟨i, _, hw ▸ .ack i, rfl⟩⟩
    · cases hs
  | subscribe i =>
    simp only [step] at hs
    split at hs
    · rename_i written hw
      obtain ⟨hb, hws⟩ := hboth _ _ _ hs
      exact ⟨hb, Or.inr ⟨i, _, hw ▸ .subscribe i written, hws⟩⟩
    · cases hs
  | get i =>
    simp only [step] at hs
    split at hs
    · rename_i written event es hw hq
      obtain ⟨hb, hws⟩ := hboth _ _ _ hs
      exact ⟨hb, Or.inr ⟨i, _, hw ▸ .get i event es written hq, hws⟩⟩
    · cases hs
  | write i ok =>
    simp only [step] at hs
    split at hs
    · rename_i event written hw
      obtain rfl := Option.some.inj hs
      cases ok with
      | true => exact ⟨rfl, Or.inr ⟨i, _, hw ▸ .wrote i event written, rfl⟩⟩
      | false => exact ⟨rfl, Or.inr ⟨i, _, hw ▸ .failed i event written, rfl⟩⟩
    · cases hs
  | unsubscribe i =>
    simp only [step] at hs
    split at hs
    · rename_i event written hw
      obtain ⟨hb, hws⟩ := hboth _ _ _ hs
      exact ⟨hb, Or.inr ⟨i, _, hw ▸ .unsubscribe i event written, hws⟩⟩
    · cases hs
  | snapshot t event order => exact (hpublish _ hs).imp_right fun h => Or.inl ⟨rfl, h⟩
  | put t => exact (hpublish _ hs).imp_right fun h => Or.inl ⟨rfl, h⟩
  | finish t => exact (hpublish _ hs).imp_right fun h => Or.inl ⟨rfl, h⟩

end Feed

open Feed

section Runs

variable {s s' : Feed ε} {as bs : List (Action ε)} {a : Action ε} {i : ℕ} {w : Watcher ε}

theorem bus_exec (hr : Runs.exec step s as = some s') :
    Runs.exec Bus.step s.bus (as.filterMap Action.onBus) = some s'.bus := by
  induction as generalizing s with
  | nil => exact congrArg (Option.map Feed.bus) hr
  | cons a as ih =>
    obtain ⟨u, hu, hr⟩ := Runs.exec_cons.mp hr
    have hsplit : (a :: as).filterMap Action.onBus =
        a.onBus.toList ++ as.filterMap Action.onBus := by
      cases a <;> rfl
    rw [hsplit]
    exact Runs.exec_append.mpr ⟨u.bus, (step_cases hu).1, ih hr⟩

theorem publishedBy_onBus (t : ℕ) (as : List (Action ε)) :
    Fanout.publishedBy t (as.filterMap Action.onBus) = publishedBy t as := by
  rw [Fanout.publishedBy, List.filterMap_filterMap, publishedBy]
  congr 1
  funext a
  cases a <;> rfl

theorem not_unsubscribed (h : .unsubscribe i ∉ as) :
    Fanout.Action.unsubscribe i ∉ as.filterMap Action.onBus := by
  intro hmem
  obtain ⟨a, ha, hb⟩ := List.mem_filterMap.mp hmem
  cases a <;> simp only [Action.onBus, Option.some.injEq, reduceCtorEq] at hb
  cases hb
  exact h ha

/-- The bus serves the connections that are in their loop, and it made a queue for each of those
that got there. -/
structure Fits (s : Feed ε) : Prop where
  sound : Sound s.bus
  subscribed : ∀ i, i ∈ s.bus.subscribers ↔
    ∃ w, s.watchers.lookup i = some w ∧ w.phase.subscribed = true
  made : ∀ i, s.bus.queues.lookup i ≠ none ↔
    ∃ w, s.watchers.lookup i = some w ∧ w.phase ≠ .acked
  fresh : ∀ i w, s.watchers.lookup i = some w → w.phase = .acked → w.written = []

theorem fits_start : Fits (start : Feed ε) where
  sound := sound_start
  subscribed := by simp [start, Bus.start]
  made := by simp [start, Bus.start]
  fresh := by simp [start]

theorem onBus_eq_subscribe : a.onBus = some (.subscribe i) ↔ a = .subscribe i := by
  cases a <;> simp [Action.onBus]

theorem onBus_eq_unsubscribe : a.onBus = some (.unsubscribe i) ↔ a = .unsubscribe i := by
  cases a <;> simp [Action.onBus]

theorem bus_cases (hs : s.step a = some s') :
    (a.onBus = none ∧ s'.bus = s.bus) ∨
      ∃ b, a.onBus = some b ∧ s.bus.step b = some s'.bus := by
  have hbus := (step_cases hs).1
  cases hb : a.onBus with
  | none =>
    rw [hb] at hbus
    exact Or.inl ⟨rfl, (Option.some.inj hbus).symm⟩
  | some b =>
    rw [hb] at hbus
    obtain ⟨bus, hstep, hnil⟩ := Runs.exec_cons.mp hbus
    obtain rfl := Option.some.inj hnil
    exact Or.inr ⟨b, rfl, hstep⟩

theorem mem_subscribers_step (hs : s.step a = some s') : i ∈ s'.bus.subscribers ↔
    a = .subscribe i ∨ i ∈ s.bus.subscribers ∧ a ≠ .unsubscribe i := by
  rw [← onBus_eq_subscribe, ne_eq, ← onBus_eq_unsubscribe]
  rcases bus_cases hs with ⟨hnone, hbus⟩ | ⟨b, hb, hstep⟩
  · simp [hnone, hbus]
  · simp [hb, Fanout.mem_subscribers_step hstep]

theorem made_step (h : Sound s.bus) (hs : s.step a = some s') :
    s'.bus.queues.lookup i ≠ none ↔ a = .subscribe i ∨ s.bus.queues.lookup i ≠ none := by
  rw [← onBus_eq_subscribe]
  rcases bus_cases hs with ⟨hnone, hbus⟩ | ⟨b, hb, hstep⟩
  · simp [hnone, hbus]
  · simp only [hb, Option.some.injEq]
    exact Fanout.made_step h hstep

theorem ne_of_turns {j : ℕ} {w₀ : Option (Watcher ε)} (hturn : s.Turns a j w₀ w) (hne : j ≠ i) :
    a ≠ .subscribe i ∧ a ≠ .unsubscribe i ∧ a ≠ .get i := by
  cases hturn <;> simp [hne]

theorem ne_of_publishes (hpub : publishes a = true) (i : ℕ) :
    a ≠ .subscribe i ∧ a ≠ .unsubscribe i ∧ a ≠ .get i := by
  cases a with
  | snapshot t event order => simp
  | put t => simp
  | finish t => simp
  | _ => cases hpub

/-- What is taken from a connection's queue, that connection takes. -/
theorem taken_of_ne (h : a ≠ .get i) :
    along (Bus.taken · i) s.bus a.onBus.toList = [] := by
  cases a with
  | get j =>
    have hne : j ≠ i := fun heq => h (by rw [heq])
    simp [Action.onBus, Bus.taken, hne]
  | _ => simp [Action.onBus, Bus.taken]

theorem Fits.step (h : Fits s) (hs : s.step a = some s') : Fits s' := by
  have hsound : Sound s'.bus := by
    rcases bus_cases hs with ⟨-, hbus⟩ | ⟨b, -, hstep⟩
    · exact hbus ▸ h.sound
    · exact h.sound.step hstep
  rcases (step_cases hs).2 with ⟨hpub, hws⟩ | ⟨i, w, hturn, hws⟩
  · have hnot := ne_of_publishes hpub
    refine ⟨hsound, ?_, ?_, ?_⟩
    · intro j
      rw [mem_subscribers_step hs, hws, ← h.subscribed j]
      simp [hnot j]
    · intro j
      rw [made_step h.sound hs, hws, ← h.made j]
      simp [hnot j]
    · rw [hws]
      exact h.fresh
  · refine ⟨hsound, ?_, ?_, ?_⟩
    · intro j
      rw [mem_subscribers_step hs, hws, h.subscribed j, lookup_insert]
      by_cases hij : i = j
      · subst hij
        rw [if_pos rfl]
        cases hw : s.watchers.lookup i <;> rw [hw] at hturn <;> cases hturn <;>
          simp [Phase.subscribed]
      · rw [if_neg hij]
        simp [ne_of_turns hturn hij]
    · intro j
      rw [made_step h.sound hs, hws, h.made j, lookup_insert]
      by_cases hij : i = j
      · subst hij
        rw [if_pos rfl]
        cases hw : s.watchers.lookup i <;> rw [hw] at hturn <;> cases hturn <;> simp
      · rw [if_neg hij]
        simp [ne_of_turns hturn hij]
    · intro j w' hj hacked
      rw [hws] at hj
      rcases lookup_insert_cases hj with ⟨rfl, rfl⟩ | hj
      · cases hw : s.watchers.lookup i <;> rw [hw] at hturn <;> cases hturn <;>
          first | rfl | cases hacked
      · exact h.fresh j w' hj hacked

theorem fits_of_exec (hr : Runs.exec step start as = some s) : Fits s :=
  Runs.inv_of_exec (fun _ _ _ h hs => h.step hs) fits_start hr

/-! ## What a connection writes -/

/-- A connection writes what it takes from its queue, in order; what it has not written is in its
hand. -/
theorem written_step (hs : s.step a = some s') (hw : s.watchers.lookup i = some w) :
    ∃ w', s'.watchers.lookup i = some w' ∧ w'.written ++ w'.phase.inHand =
      w.written ++ w.phase.inHand ++ along (Bus.taken · i) s.bus a.onBus.toList := by
  rcases (step_cases hs).2 with ⟨hpub, hws⟩ | ⟨j, w', hturn, hws⟩
  · refine ⟨w, hws ▸ hw, ?_⟩
    rw [taken_of_ne (ne_of_publishes hpub i).2.2, List.append_nil]
  · by_cases hij : j = i
    · subst hij
      refine ⟨w', by rw [hws, lookup_insert_self], ?_⟩
      rw [hw] at hturn
      cases hturn with
      | subscribe _ written => simp [Phase.inHand, Action.onBus, Bus.taken]
      | get _ event es written hq => simp [Phase.inHand, Action.onBus, Bus.taken, hq]
      | wrote _ event written => simp [Phase.inHand, Action.onBus]
      | failed _ event written => simp [Phase.inHand, Action.onBus]
      | unsubscribe _ event written => simp [Phase.inHand, Action.onBus, Bus.taken]
    · refine ⟨w, by rw [hws, lookup_insert_of_ne hij, hw], ?_⟩
      rw [taken_of_ne (ne_of_turns hturn hij).2.2, List.append_nil]

theorem written_exec (hr : Runs.exec step s as = some s') (hw : s.watchers.lookup i = some w) :
    ∃ w', s'.watchers.lookup i = some w' ∧ w'.written ++ w'.phase.inHand =
      w.written ++ w.phase.inHand ++
        along (Bus.taken · i) s.bus (as.filterMap Action.onBus) := by
  induction as generalizing s w with
  | nil =>
    obtain rfl := Option.some.inj hr
    exact ⟨w, hw, by simp⟩
  | cons a as ih =>
    obtain ⟨u, hu, hr⟩ := Runs.exec_cons.mp hr
    obtain ⟨w₁, hw₁, hstep⟩ := written_step hu hw
    obtain ⟨w', hw', hrest⟩ := ih hr hw₁
    refine ⟨w', hw', ?_⟩
    have hsplit : (a :: as).filterMap Action.onBus =
        a.onBus.toList ++ as.filterMap Action.onBus := by
      cases a <;> rfl
    rw [hrest, hstep, hsplit, along_append (step_cases hu).1, List.append_assoc]

/-- Between its subscription and its leaving, a connection is given every event that a thread starts
to publish, each once and each thread's in order: they are written, in its hand or in its queue,
but for the one the thread is still handing out. -/
theorem watcher_is_given_each_event (before during : List (Action ε))
    (hr : Runs.exec step start (before ++ .subscribe i :: during) = some s)
    (hstay : .unsubscribe i ∉ during) :
    ∃ w, s.watchers.lookup i = some w ∧ ∃ given : List (ℕ × ε),
      w.written ++ w.phase.inHand ++ s.bus.queue i = given.map Prod.snd ∧
        ∀ t, ofPublisher t given ++ s.bus.owed t i = publishedBy t during := by
  obtain ⟨s₀, hr₀, hr⟩ := Runs.exec_append.mp hr
  obtain ⟨s₁, hs₁, hr⟩ := Runs.exec_cons.mp hr
  have hfits₀ := fits_of_exec hr₀
  have hfits₁ := hfits₀.step hs₁
  -- the connection that subscribes has written nothing, and its queue is new
  have hw₁ : s₁.watchers.lookup i = some ⟨.waiting, []⟩ := by
    rcases (step_cases hs₁).2 with ⟨hpub, -⟩ | ⟨j, w, hturn, hws⟩
    · cases hpub
    · cases hw₀ : s₀.watchers.lookup j with
      | none =>
        rw [hw₀] at hturn
        cases hturn
      | some w₀ =>
        rw [hw₀] at hturn
        cases hturn with
        | subscribe _ written =>
          obtain rfl : written = [] := hfits₀.fresh i _ hw₀ rfl
          rw [hws, lookup_insert_self]
  have hsub : s₀.bus.step (.subscribe i) = some s₁.bus := by
    obtain ⟨bus, hbus, hnil⟩ := Runs.exec_cons.mp (step_cases hs₁).1
    rw [hbus, Option.some.inj hnil]
  have hbus := bus_exec hr
  obtain ⟨w, hw, hwritten⟩ := written_exec hr hw₁
  refine ⟨w, hw, along (Bus.given · i) s₁.bus (during.filterMap Action.onBus), ?_, fun t => ?_⟩
  · rw [hwritten, Phase.inHand, List.append_nil, List.nil_append, queue_exec hbus,
      queue_of_subscribe hsub, List.nil_append]
  · rw [owed_exec hfits₁.sound hbus, owed_of_subscribe hfits₀.sound hsub, List.nil_append,
      ← publishedBy_onBus]
    have hmem : i ∈ s₁.bus.subscribers := (mem_subscribers_step hs₁).mpr (Or.inl rfl)
    exact addressed_of_subscribed hfits₁.sound hmem (not_unsubscribed hstay) hbus

/-- Two threads publish while one connection watches. -/
def overlapping : List (Action String) :=
  [.snapshot 7 "attach" [1], .snapshot 8 "lock_state" [1], .put 8, .get 1, .put 7, .finish 8,
    .write 1 true, .snapshot 8 "identity" [1]]

def watched : Feed String :=
  (Runs.exec step start ([.ack 1] ++ .subscribe 1 :: overlapping)).getD start

theorem overlapping_is_given : ∃ w, watched.watchers.lookup 1 = some w ∧
    ∃ given : List (ℕ × String),
      w.written ++ w.phase.inHand ++ watched.bus.queue 1 = given.map Prod.snd ∧
        ∀ t, ofPublisher t given ++ watched.bus.owed t 1 = publishedBy t overlapping :=
  watcher_is_given_each_event [.ack 1] overlapping rfl (by decide)

/-- The bus's subscribers are the connections in their loop, each once. When one has left, its queue
is given no event that is published after that: only those a thread had in hand for it. -/
theorem no_subscriber_is_leaked (as : List (Action ε)) (hr : Runs.exec step start as = some s) :
    s.bus.subscribers.Nodup ∧
      (∀ i, i ∈ s.bus.subscribers ↔
        ∃ w, s.watchers.lookup i = some w ∧ w.phase.subscribed = true) ∧
      ∀ i event written, s.watchers.lookup i = some ⟨.left event, written⟩ →
        ∀ bs s', Runs.exec step s bs = some s' → ∀ t,
          ofPublisher t (along (Bus.given · i) s.bus (bs.filterMap Action.onBus)) ++
            s'.bus.owed t i = s.bus.owed t i := by
  have hfits := fits_of_exec hr
  refine ⟨hfits.sound.nodup, hfits.subscribed, fun i event written hw bs s' hr' t => ?_⟩
  have hmade : s.bus.queues.lookup i ≠ none := (hfits.made i).mpr ⟨_, hw, by simp⟩
  have hnot : i ∉ s.bus.subscribers := by
    rw [hfits.subscribed i]
    rintro ⟨w, hw', hphase⟩
    obtain rfl := Option.some.inj (hw.symm.trans hw')
    cases hphase
  rw [owed_exec hfits.sound (bus_exec hr'),
    addressed_of_unsubscribed hfits.sound hmade hnot (bus_exec hr'), List.append_nil]

/-- A client that went away while two threads had an event for it. -/
def cutOff : List (Action String) :=
  [.ack 1, .subscribe 1, .snapshot 7 "attach" [1], .snapshot 8 "lock_state" [1], .put 7, .get 1,
    .write 1 false, .unsubscribe 1]

def deserted : Feed String := (Runs.exec step start cutOff).getD start

theorem cutOff_leaks_none : deserted.bus.subscribers.Nodup ∧
    (∀ i, i ∈ deserted.bus.subscribers ↔
      ∃ w, deserted.watchers.lookup i = some w ∧ w.phase.subscribed = true) ∧
    ∀ i event written, deserted.watchers.lookup i = some ⟨.left event, written⟩ →
      ∀ bs s', Runs.exec step deserted bs = some s' → ∀ t,
        ofPublisher t (along (Bus.given · i) deserted.bus (bs.filterMap Action.onBus)) ++
          s'.bus.owed t i = deserted.bus.owed t i :=
  no_subscriber_is_leaked cutOff rfl

example : deserted.watchers.lookup 1 = some ⟨.left "attach", []⟩ := by decide

end Runs

end MbTools.EventBus
