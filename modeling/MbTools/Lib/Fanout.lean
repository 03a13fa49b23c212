import MbTools.Lib.Runs
import MbTools.Lib.Table
import Mathlib.Data.List.Perm.Basic
import Mathlib.Data.List.Perm.Lattice

/-! # Fanning events out to queues

A publisher takes a snapshot of the subscribed queues and then puts its event into
them one by one, while others subscribe, unsubscribe, publish and take events out.
What a queue is given is followed through a run, one publisher at a time.
-/

namespace MbTools.Fanout

open Dict

variable {τ κ ε : Type} [DecidableEq τ] [DecidableEq κ]

structure Bus (τ κ ε : Type) where
  subscribers : List κ
  /-- Every queue that was made, with what is in it. -/
  queues : Dict κ (List ε)
  /-- The event a publisher is handing out, and the queues it has not given it to yet. -/
  sending : Dict τ (ε × List κ)

inductive Action (τ κ ε : Type) where
  | subscribe (q : κ)
  | unsubscribe (q : κ)
  /-- The snapshot of a set lists it in any order. -/
  | snapshot (t : τ) (e : ε) (order : List κ)
  | put (t : τ)
  | finish (t : τ)
  | get (q : κ)

namespace Bus

def start : Bus τ κ ε := ⟨[], Table.empty, Table.empty⟩

variable (s : Bus τ κ ε)

def queue (q : κ) : List ε := (s.queues.lookup q).getD []

def step : Action τ κ ε → Option (Bus τ κ ε)
  | .subscribe q =>
    if s.queues.lookup q = none then
      some { s with subscribers := q :: s.subscribers, queues := s.queues.insert q [] }
    else none
  | .unsubscribe q => some { s with subscribers := s.subscribers.filter (· ≠ q) }
  | .snapshot t e order =>
    if s.sending.lookup t = none ∧ order.Perm s.subscribers then
      some { s with sending := s.sending.insert t (e, order) }
    else none
  | .put t =>
    match s.sending.lookup t with
    | some (e, q :: rest) =>
      some { s with
        queues := s.queues.insert q (s.queue q ++ [e])
        sending := s.sending.insert t (e, rest) }
    | _ => none
  | .finish t =>
    match s.sending.lookup t with
    | some (_, []) => some { s with sending := Table.erase s.sending t }
    | _ => none
  | .get q =>
    match s.queue q with
    | _ :: es => some { s with queues := s.queues.insert q es }
    | [] => none

/-- What each action does when it can happen. -/
inductive Moves : Action τ κ ε → Bus τ κ ε → Prop where
  | subscribe (q : κ) (hnew : s.queues.lookup q = none) :
    Moves (.subscribe q)
      { s with subscribers := q :: s.subscribers, queues := s.queues.insert q [] }
  | unsubscribe (q : κ) :
    Moves (.unsubscribe q) { s with subscribers := s.subscribers.filter (· ≠ q) }
  | snapshot (t : τ) (e : ε) (order : List κ) (hfree : s.sending.lookup t = none)
    (hperm : order.Perm s.subscribers) :
    Moves (.snapshot t e order) { s with sending := s.sending.insert t (e, order) }
  | put (t : τ) (e : ε) (q : κ) (rest : List κ) (hsend : s.sending.lookup t = some (e, q :: rest)) :
    Moves (.put t) { s with
      queues := s.queues.insert q (s.queue q ++ [e])
      sending := s.sending.insert t (e, rest) }
  | finish (t : τ) (e : ε) (hsend : s.sending.lookup t = some (e, [])) :
    Moves (.finish t) { s with sending := Table.erase s.sending t }
  | get (q : κ) (e : ε) (es : List ε) (hqueue : s.queue q = e :: es) :
    Moves (.get q) { s with queues := s.queues.insert q es }

theorem moves_of_step {s s' : Bus τ κ ε} {a : Action τ κ ε} (hs : s.step a = some s') :
    s.Moves a s' := by
  cases a with
  | subscribe q =>
    simp only [step, Option.ite_none_right_eq_some, Option.some.injEq] at hs
    obtain ⟨hnew, rfl⟩ := hs
    exact .subscribe q hnew
  | unsubscribe q =>
    obtain rfl := Option.some.inj hs
    exact .unsubscribe q
  | snapshot t e order =>
    simp only [step, Option.ite_none_right_eq_some, Option.some.injEq] at hs
    obtain ⟨⟨hfree, hperm⟩, rfl⟩ := hs
    exact .snapshot t e order hfree hperm
  | put t =>
    simp only [step] at hs
    split at hs
    · rename_i e q rest hsend
      obtain rfl := Option.some.inj hs
      exact .put t e q rest hsend
    · cases hs
  | finish t =>
    simp only [step] at hs
    split at hs
    · rename_i e hsend
      obtain rfl := Option.some.inj hs
      exact .finish t e hsend
    · cases hs
  | get q =>
    simp only [step] at hs
    split at hs
    · rename_i e es hqueue
      obtain rfl := Option.some.inj hs
      exact .get q e es hqueue
    · cases hs

/-! ## What a run gives a queue -/

/-- What a publisher has in hand for a queue. -/
def owed (t : τ) (q : κ) : List ε :=
  match s.sending.lookup t with
  | some (e, rest) => if q ∈ rest then [e] else []
  | none => []

/-- The event a step puts into the queue, with its publisher. -/
def given (q : κ) : Action τ κ ε → List (τ × ε)
  | .put t =>
    match s.sending.lookup t with
    | some (e, q' :: _) => if q' = q then [(t, e)] else []
    | _ => []
  | _ => []

/-- The event a step takes out of the queue. -/
def taken (q : κ) : Action τ κ ε → List ε
  | .get q' => if q' = q then (s.queue q).take 1 else []
  | _ => []

/-- The event a publisher takes a snapshot for that lists the queue. -/
def addressed (t : τ) (q : κ) : Action τ κ ε → List ε
  | .snapshot t' e _ => if t' = t ∧ q ∈ s.subscribers then [e] else []
  | _ => []

end Bus

/-- What each step of a run contributes, in order. -/
def along {β : Type} (f : Bus τ κ ε → Action τ κ ε → List β) :
    Bus τ κ ε → List (Action τ κ ε) → List β
  | _, [] => []
  | s, a :: as => f s a ++ ((s.step a).map fun s' => along f s' as).getD []

/-- What a publisher starts to hand out in a list of actions. -/
def publishedBy (t : τ) (as : List (Action τ κ ε)) : List ε :=
  as.filterMap fun
    | .snapshot t' e _ => if t' = t then some e else none
    | _ => none

/-- Each queue is listed once, and a queue that is listed anywhere was made. -/
structure Sound (s : Bus τ κ ε) : Prop where
  nodup : s.subscribers.Nodup
  made : ∀ q ∈ s.subscribers, s.queues.lookup q ≠ none
  sendingNodup : ∀ t e rest, s.sending.lookup t = some (e, rest) → rest.Nodup
  sendingMade : ∀ t e rest, s.sending.lookup t = some (e, rest) →
    ∀ q ∈ rest, s.queues.lookup q ≠ none

section Runs

variable {s s' : Bus τ κ ε} {as bs : List (Action τ κ ε)} {a : Action τ κ ε} {t : τ} {q : κ}
  {β : Type} {f : Bus τ κ ε → Action τ κ ε → List β}

@[simp] theorem along_nil : along f s [] = [] := rfl

theorem along_cons (h : s.step a = some s') : along f s (a :: as) = f s a ++ along f s' as := by
  simp [along, h]

@[simp] theorem along_singleton : along f s [a] = f s a := by
  cases h : s.step a <;> simp [along, h]

theorem along_append (h : Runs.exec Bus.step s as = some s') :
    along f s (as ++ bs) = along f s as ++ along f s' bs := by
  induction as generalizing s with
  | nil =>
    obtain rfl := Option.some.inj h
    rfl
  | cons a as ih =>
    obtain ⟨u, hu, h⟩ := Runs.exec_cons.mp h
    rw [List.cons_append, along_cons hu, along_cons hu, ih h, List.append_assoc]

theorem sound_start : Sound (Bus.start : Bus τ κ ε) where
  nodup := List.nodup_nil
  made := by simp [Bus.start]
  sendingNodup := by simp [Bus.start]
  sendingMade := by simp [Bus.start]

theorem lookup_insert_ne_none_iff {d : Dict κ (List ε)} {q q' : κ} {es : List ε} :
    (d.insert q' es).lookup q ≠ none ↔ q' = q ∨ d.lookup q ≠ none := by
  rw [lookup_insert]
  by_cases heq : q' = q
  · simp [heq]
  · simp [heq]

theorem lookup_insert_ne_none {d : Dict κ (List ε)} {q q' : κ} {es : List ε}
    (h : d.lookup q ≠ none) : (d.insert q' es).lookup q ≠ none :=
  lookup_insert_ne_none_iff.mpr (Or.inr h)

theorem Sound.step (h : Sound s) (hs : s.step a = some s') : Sound s' := by
  cases Bus.moves_of_step hs with
  | subscribe q hnew =>
    refine ⟨List.nodup_cons.mpr ⟨fun hq => h.made q hq hnew, h.nodup⟩, ?_, h.sendingNodup, ?_⟩
    · intro q' hq'
      rcases List.mem_cons.mp hq' with rfl | hq'
      · simp
      · exact lookup_insert_ne_none (h.made q' hq')
    · intro t e rest ht q' hq'
      exact lookup_insert_ne_none (h.sendingMade t e rest ht q' hq')
  | unsubscribe q =>
    exact ⟨h.nodup.filter _, fun q' hq' => h.made q' (List.mem_of_mem_filter hq'),
      h.sendingNodup, h.sendingMade⟩
  | snapshot t e order hfree hperm =>
    refine ⟨h.nodup, h.made, ?_, ?_⟩
    · intro t' e' rest ht'
      rcases lookup_insert_cases ht' with ⟨-, heq⟩ | ht'
      · cases heq
        exact hperm.nodup_iff.mpr h.nodup
      · exact h.sendingNodup t' e' rest ht'
    · intro t' e' rest ht' q hq
      rcases lookup_insert_cases ht' with ⟨-, heq⟩ | ht'
      · cases heq
        exact h.made q (hperm.mem_iff.mp hq)
      · exact h.sendingMade t' e' rest ht' q hq
  | put t e q rest hsend =>
    refine ⟨h.nodup, fun q' hq' => lookup_insert_ne_none (h.made q' hq'), ?_, ?_⟩
    · intro t' e' rest' ht'
      rcases lookup_insert_cases ht' with ⟨-, heq⟩ | ht'
      · cases heq
        exact (List.nodup_cons.mp (h.sendingNodup t e _ hsend)).2
      · exact h.sendingNodup t' e' rest' ht'
    · intro t' e' rest' ht' q' hq'
      rcases lookup_insert_cases ht' with ⟨-, heq⟩ | ht'
      · cases heq
        exact lookup_insert_ne_none (h.sendingMade t e _ hsend q' (List.mem_cons_of_mem q hq'))
      · exact lookup_insert_ne_none (h.sendingMade t' e' rest' ht' q' hq')
  | finish t e hsend =>
    refine ⟨h.nodup, h.made, ?_, ?_⟩
    · exact fun t' e' rest ht' => h.sendingNodup t' e' rest (lookup_erase_eq_some ht').2
    · exact fun t' e' rest ht' => h.sendingMade t' e' rest (lookup_erase_eq_some ht').2
  | get q e es hqueue =>
    exact ⟨h.nodup, fun q' hq' => lookup_insert_ne_none (h.made q' hq'), h.sendingNodup,
      fun t e rest ht q' hq' => lookup_insert_ne_none (h.sendingMade t e rest ht q' hq')⟩

theorem Sound.exec (h : Sound s) (hr : Runs.exec Bus.step s as = some s') : Sound s' :=
  Runs.inv_of_exec (fun _ _ _ h hs => h.step hs) h hr

/-! ## Nothing lost, doubled or reordered -/

omit [DecidableEq τ] in
theorem queue_insert (s : Bus τ κ ε) (q q' : κ) (es : List ε) :
    Bus.queue { s with queues := s.queues.insert q' es } q =
      if q' = q then es else s.queue q := by
  rw [Bus.queue, lookup_insert]
  split
  · rfl
  · rfl

/-- A step puts an event at the end of a queue or takes one from its front. -/
theorem queue_step (hs : s.step a = some s') :
    s.taken q a ++ s'.queue q = s.queue q ++ (s.given q a).map Prod.snd := by
  cases Bus.moves_of_step hs with
  | subscribe q' hnew =>
    have hq := queue_insert { s with subscribers := q' :: s.subscribers } q q' []
    simp only [Bus.taken, Bus.given, List.nil_append, List.map_nil, List.append_nil]
    rw [hq]
    split
    · rename_i heq
      simp [Bus.queue, ← heq, hnew]
    · rfl
  | unsubscribe q' => simp [Bus.taken, Bus.given, Bus.queue]
  | snapshot t e order hfree hperm => simp [Bus.taken, Bus.given, Bus.queue]
  | put t e q' rest hsend =>
    have hq := queue_insert { s with sending := s.sending.insert t (e, rest) } q q'
      (s.queue q' ++ [e])
    simp only [Bus.taken, Bus.given, hsend, List.nil_append]
    rw [hq]
    split
    · rename_i heq
      simp [heq]
    · simp [Bus.queue]
  | finish t e hsend => simp [Bus.taken, Bus.given, Bus.queue]
  | get q' e es hqueue =>
    simp only [Bus.taken, Bus.given, List.map_nil, List.append_nil]
    rw [queue_insert]
    split
    · rename_i heq
      rw [← heq, hqueue]
      rfl
    · rfl

theorem queue_exec (hr : Runs.exec Bus.step s as = some s') :
    along (Bus.taken · q) s as ++ s'.queue q =
      s.queue q ++ (along (Bus.given · q) s as).map Prod.snd := by
  induction as generalizing s with
  | nil =>
    obtain rfl := Option.some.inj hr
    simp
  | cons a as ih =>
    obtain ⟨u, hu, hr⟩ := Runs.exec_cons.mp hr
    have hstep := queue_step hu (q := q)
    rw [along_cons hu, along_cons hu, List.append_assoc, ih hr, ← List.append_assoc, hstep,
      List.map_append, List.append_assoc]

/-- The events of one publisher in what a queue is given. -/
def ofPublisher (t : τ) (l : List (τ × ε)) : List ε :=
  (l.filter fun x => x.1 = t).map Prod.snd

theorem ofPublisher_append (t : τ) (l l' : List (τ × ε)) :
    ofPublisher t (l ++ l') = ofPublisher t l ++ ofPublisher t l' := by
  simp [ofPublisher]

/-- A step gives the queue what its publisher owes it, and a snapshot that lists the queue makes
its publisher owe it one more. -/
theorem owed_step (h : Sound s) (hs : s.step a = some s') :
    ofPublisher t (s.given q a) ++ s'.owed t q = s.owed t q ++ s.addressed t q a := by
  cases Bus.moves_of_step hs with
  | subscribe q' hnew => simp [Bus.given, Bus.addressed, ofPublisher, Bus.owed]
  | unsubscribe q' => simp [Bus.given, Bus.addressed, ofPublisher, Bus.owed]
  | snapshot t' e order hfree hperm =>
    by_cases ht : t' = t
    · subst ht
      simp [Bus.given, Bus.addressed, ofPublisher, Bus.owed, hfree, hperm.mem_iff]
    · have hlook := lookup_insert_of_ne ht (d := s.sending) (v := (e, order))
      simp [Bus.given, Bus.addressed, ofPublisher, Bus.owed, hlook, ht]
  | put t' e q' rest hsend =>
    by_cases ht : t' = t
    · subst ht
      have hnot := (List.nodup_cons.mp (h.sendingNodup t' e _ hsend)).1
      by_cases hq : q' = q
      · subst hq
        simp [Bus.given, Bus.addressed, ofPublisher, Bus.owed, hsend, hnot]
      · simp [Bus.given, Bus.addressed, ofPublisher, Bus.owed, hsend, hq, Ne.symm hq]
    · have hlook := lookup_insert_of_ne ht (d := s.sending) (v := (e, rest))
      by_cases hq : q' = q
      · simp [Bus.given, Bus.addressed, ofPublisher, Bus.owed, hsend, hq, hlook, ht]
      · simp [Bus.given, Bus.addressed, ofPublisher, Bus.owed, hsend, hq, hlook]
  | finish t' e hsend =>
    by_cases ht : t' = t
    · subst ht
      simp [Bus.given, Bus.addressed, ofPublisher, Bus.owed, hsend]
    · simp [Bus.given, Bus.addressed, ofPublisher, Bus.owed, lookup_erase_of_ne ht]
  | get q' e es hqueue => simp [Bus.given, Bus.addressed, ofPublisher, Bus.owed]

/-- In a run a queue is given, of each publisher's events, those addressed to it, each once and in
order; at most the last is still in the publisher's hand. -/
theorem owed_exec (h : Sound s) (hr : Runs.exec Bus.step s as = some s') :
    ofPublisher t (along (Bus.given · q) s as) ++ s'.owed t q =
      s.owed t q ++ along (Bus.addressed · t q) s as := by
  induction as generalizing s with
  | nil =>
    obtain rfl := Option.some.inj hr
    simp [ofPublisher]
  | cons a as ih =>
    obtain ⟨u, hu, hr⟩ := Runs.exec_cons.mp hr
    have hstep := owed_step h hu (t := t) (q := q)
    rw [along_cons hu, along_cons hu, ofPublisher_append, List.append_assoc,
      ih (h.step hu) hr, ← List.append_assoc, hstep, List.append_assoc]

/-! ## While a queue is subscribed -/

theorem mem_subscribers_step (hs : s.step a = some s') :
    q ∈ s'.subscribers ↔ a = .subscribe q ∨ q ∈ s.subscribers ∧ a ≠ .unsubscribe q := by
  cases Bus.moves_of_step hs with
  | subscribe q' hnew =>
    by_cases heq : q' = q
    · simp [heq]
    · simp [heq, Ne.symm heq]
  | unsubscribe q' =>
    by_cases heq : q' = q
    · simp [heq]
    · simp [heq, Ne.symm heq]
  | snapshot t e order hfree hperm => simp
  | put t e q' rest hsend => simp
  | finish t e hsend => simp
  | get q' e es hqueue => simp

theorem made_step (h : Sound s) (hs : s.step a = some s') :
    s'.queues.lookup q ≠ none ↔ a = .subscribe q ∨ s.queues.lookup q ≠ none := by
  cases Bus.moves_of_step hs with
  | subscribe q' hnew =>
    rw [lookup_insert_ne_none_iff]
    simp
  | unsubscribe q' => simp
  | snapshot t e order hfree hperm => simp
  | put t e q' rest hsend =>
    have hmade := h.sendingMade t e _ hsend q' List.mem_cons_self
    rw [lookup_insert_ne_none_iff]
    constructor
    · rintro (rfl | hq)
      · exact Or.inr hmade
      · exact Or.inr hq
    · rintro (heq | hq)
      · cases heq
      · exact Or.inr hq
  | finish t e hsend => simp
  | get q' e es hqueue =>
    have hmade : s.queues.lookup q' ≠ none := by
      intro hnone
      simp [Bus.queue, hnone] at hqueue
    rw [lookup_insert_ne_none_iff]
    constructor
    · rintro (rfl | hq)
      · exact Or.inr hmade
      · exact Or.inr hq
    · rintro (heq | hq)
      · cases heq
      · exact Or.inr hq

theorem ne_subscribe (hs : s.step a = some s') (hq : s.queues.lookup q ≠ none) :
    a ≠ .subscribe q := by
  rintro rfl
  cases Bus.moves_of_step hs with
  | subscribe _ hnew => exact hq hnew

theorem addressed_of_mem (t : τ) (h : q ∈ s.subscribers) :
    s.addressed t q a = publishedBy t [a] := by
  cases a with
  | snapshot t' e order =>
    by_cases ht : t' = t
    · simp [Bus.addressed, publishedBy, ht, h]
    · simp [Bus.addressed, publishedBy, ht]
  | _ => rfl

theorem addressed_of_not_mem (t : τ) (h : q ∉ s.subscribers) : s.addressed t q a = [] := by
  cases a with
  | snapshot t' e order => simp [Bus.addressed, h]
  | _ => rfl

omit [DecidableEq κ] in
theorem publishedBy_cons (t : τ) (a : Action τ κ ε) (as : List (Action τ κ ε)) :
    publishedBy t (a :: as) = publishedBy t [a] ++ publishedBy t as := by
  rw [← List.singleton_append, publishedBy, List.filterMap_append]
  rfl

theorem queue_of_subscribe (hs : s.step (.subscribe q) = some s') : s'.queue q = [] := by
  cases Bus.moves_of_step hs with
  | subscribe _ hnew => simp [Bus.queue]

theorem owed_of_subscribe (h : Sound s) (hs : s.step (.subscribe q) = some s') :
    s'.owed t q = [] := by
  cases Bus.moves_of_step hs with
  | subscribe _ hnew =>
    simp only [Bus.owed]
    split
    · rename_i e rest hsend
      exact if_neg fun hq => h.sendingMade t e rest hsend q hq hnew
    · rfl

/-- Every event published while the queue is subscribed is addressed to it. -/
theorem addressed_of_subscribed (h : Sound s) (hq : q ∈ s.subscribers)
    (hstay : .unsubscribe q ∉ as) (hr : Runs.exec Bus.step s as = some s') :
    along (Bus.addressed · t q) s as = publishedBy t as := by
  induction as generalizing s with
  | nil => rfl
  | cons a as ih =>
    obtain ⟨u, hu, hr⟩ := Runs.exec_cons.mp hr
    rw [List.mem_cons, not_or] at hstay
    have hq' := (mem_subscribers_step hu).mpr (Or.inr ⟨hq, Ne.symm hstay.1⟩)
    rw [along_cons hu, ih (h.step hu) hq' hstay.2 hr, addressed_of_mem t hq,
      publishedBy_cons t a as]

theorem addressed_of_unsubscribed (h : Sound s) (hmade : s.queues.lookup q ≠ none)
    (hq : q ∉ s.subscribers) (hr : Runs.exec Bus.step s as = some s') :
    along (Bus.addressed · t q) s as = [] := by
  induction as generalizing s with
  | nil => rfl
  | cons a as ih =>
    obtain ⟨u, hu, hr⟩ := Runs.exec_cons.mp hr
    have hmade' := (made_step h hu).mpr (Or.inr hmade)
    have hq' : q ∉ u.subscribers := by
      rw [mem_subscribers_step hu]
      rintro (ha | ⟨hmem, -⟩)
      · exact ne_subscribe hu hmade ha
      · exact hq hmem
    rw [along_cons hu, ih (h.step hu) hmade' hq' hr, addressed_of_not_mem t hq, List.append_nil]

end Runs

end MbTools.Fanout
