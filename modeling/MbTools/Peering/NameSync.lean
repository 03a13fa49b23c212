import Mathlib.Logic.Function.Basic
import MbTools.Lib.Exchange
import MbTools.Lib.Runs
import MbTools.Peering.Names

/-! # Two name registries

Two registries tell each other the names they set and clear, and swap all their
rows whenever the link is up again. Every event and every row is taken as it
is, whatever the receiver has and whenever it was written.
-/

namespace MbTools

open Store Peering Exchange Function

/-- A write of a name, by the time and the pair it left; a clear leaves none. -/
structure Written where
  time : ℕ
  pair : Option (ℤ × ℤ)
  deriving DecidableEq, Repr

/-- Two registries and the link between them. -/
structure NameSync where
  store : Side → Store
  /-- The events of writes that are not yet published. -/
  due : Side → List Event
  /-- The events a side has published and the other has not received. -/
  wire : Side → List Event
  /-- The requests for a snapshot of a side that it has not answered. -/
  asked : Side → ℕ
  /-- The answers of a side that are not yet applied. -/
  replies : Side → List SnapshotReply
  up : Bool
  /-- Of all the writes of a name the one with the latest time. -/
  last : String → Written

namespace NameSync

inductive Action where
  | set (x : Side) (now : ℕ) (name : String) (channel group : ℤ)
  | clear (x : Side) (now : ℕ) (name : String)
  | publish (x : Side) (i : ℕ)
  | deliver (x : Side) (now : ℕ)
  | disconnect (kept : Side → ℕ)
  | connect
  | resync (x : Side)
  | answer (x : Side)
  | apply (x : Side) (i now : ℕ)
  | fail (x : Side) (i : ℕ)

/-- A side has written; its event is published after it, in no order with its other events. -/
def wrote (w : NameSync) (x : Side) (now : ℕ) (n : String) (v : Option (ℤ × ℤ)) (s : Store)
    (e : Event) : NameSync :=
  { w with
    store := update w.store x s
    due := update w.due x (w.due x ++ [e])
    last := if (w.last n).time ≤ now then update w.last n ⟨now, v⟩ else w.last }

/-- The sender's host is `host x`. An event published while the link is down is lost, and so may be
the last ones before it went down; a snapshot that fails is asked for again. -/
def step (host : Side → String) (w : NameSync) : Action → Option NameSync
  | .set x now name channel group =>
    match Naming.validate name, (w.store x).set now name channel group with
    | .ok n, .ok s =>
      some (w.wrote x now n (some (channel, group)) s
        (nameSetPayload ⟨n, channel, group, sourceRegistry, now⟩))
    | _, _ => some w
  | .clear x now name =>
    match Naming.validate name, (w.store x).clear name with
    | .ok n, .ok s => some (w.wrote x now n none s (nameClearPayload name))
    | _, _ => some w
  | .publish x i =>
    ((w.due x)[i]?).map fun e =>
      { w with
        due := update w.due x ((w.due x).eraseIdx i)
        wire := if w.up then update w.wire x (w.wire x ++ [e]) else w.wire }
  | .deliver x now =>
    match w.wire x with
    | [] => none
    | e :: es =>
      some { w with
        store := update w.store x.other (applyInput (host x) (w.store x.other) (.event now e))
        wire := update w.wire x es }
  | .disconnect kept =>
    if w.up then some { w with up := false, wire := fun x => (w.wire x).take (kept x) } else none
  | .connect =>
    if w.up then none else some { w with up := true, asked := fun x => w.asked x + 1 }
  | .resync x => some { w with asked := update w.asked x (w.asked x + 1) }
  | .answer x =>
    if w.asked x = 0 then none
    else some { w with
      asked := update w.asked x (w.asked x - 1)
      replies := update w.replies x (w.replies x ++ [snapshotReply (w.store x)]) }
  | .apply x i now =>
    ((w.replies x)[i]?).map fun r =>
      { w with
        store := update w.store x.other (applyInput (host x) (w.store x.other) (.snapshot now r))
        replies := update w.replies x ((w.replies x).eraseIdx i) }
  | .fail x i =>
    ((w.replies x)[i]?).map fun _ =>
      { w with
        asked := update w.asked x (w.asked x + 1)
        replies := update w.replies x ((w.replies x).eraseIdx i) }

def written (e : Entry) : Written := ⟨e.updated, some (e.channel, e.group)⟩

/-- The row of the two that was written later. -/
def laterOf (here there : Option Entry) : Written :=
  match here, there with
  | none, none => ⟨0, none⟩
  | some e, none => written e
  | none, some e => written e
  | some e, some e' => if e'.updated ≤ e.updated then written e else written e'

/-- Two registries that have not met. -/
def start (here there : Store) : NameSync where
  store
    | .here => here
    | .there => there
  due _ := []
  wire _ := []
  asked _ := 0
  replies _ := []
  up := false
  last n := laterOf (here.nameRegistry.get? n) (there.nameRegistry.get? n)

/-- The link is up and nothing is under way. -/
def Settled (w : NameSync) : Prop :=
  w.up = true ∧ ∀ x, w.due x = [] ∧ w.wire x = [] ∧ w.asked x = 0 ∧ w.replies x = []

/-- What comes to a side is not put over the last write of the name, or says the same. -/
def KeepsLast (w : NameSync) (x : Side) (n : String) (v : Option (ℤ × ℤ)) : Prop :=
  (w.store x).pairOf n = (w.last n).pair → v = (w.last n).pair

instance (w : NameSync) : Decidable w.Settled :=
  inferInstanceAs (Decidable (_ ∧ ∀ x, w.due x = [] ∧ _))

instance (w : NameSync) (x : Side) (n : String) (v : Option (ℤ × ℤ)) :
    Decidable (w.KeepsLast x n v) := inferInstanceAs (Decidable (_ → _))

/-- Nothing is put over a later write of its name: no event, no row of a snapshot, and no write of
a side whose clock is behind. -/
def Orderly (w : NameSync) : Action → Prop
  | .set x now name channel group => ∀ n ∈ (Naming.validate name).toOption,
      (w.last n).time ≤ now ∨ w.KeepsLast x n (some (channel, group))
  | .clear x now name => ∀ n ∈ (Naming.validate name).toOption,
      (w.last n).time ≤ now ∨ w.KeepsLast x n none
  | .deliver x _ => ∀ e ∈ (w.wire x).head?, ∀ q ∈ assigned e, w.KeepsLast x.other q.1 q.2
  | .apply x i _ => ∀ r ∈ (w.replies x)[i]?, ∀ d ∈ r.names, ∀ q ∈ rowOf d,
      w.KeepsLast x.other q.1 (some q.2)
  | _ => True

instance (w : NameSync) : (a : Action) → Decidable (Orderly w a)
  | .set _ _ name _ _ =>
    inferInstanceAs (Decidable (∀ n ∈ (Naming.validate name).toOption, _ ∨ _))
  | .clear _ _ name =>
    inferInstanceAs (Decidable (∀ n ∈ (Naming.validate name).toOption, _ ∨ _))
  | .deliver x _ => inferInstanceAs (Decidable (∀ e ∈ (w.wire x).head?, ∀ q ∈ assigned e, _))
  | .apply x i _ =>
    inferInstanceAs (Decidable (∀ r ∈ (w.replies x)[i]?, ∀ d ∈ r.names, ∀ q ∈ rowOf d, _))
  | .publish .. | .disconnect _ | .connect | .resync _ | .answer _ | .fail .. =>
    inferInstanceAs (Decidable True)

/-- What concerns one name. -/
def view (w : NameSync) (n : String) : View (ℤ × ℤ) where
  last := (w.last n).pair
  value x := (w.store x).pairOf n
  up := w.up = true
  events x := {v | ∃ e, (e ∈ w.due x ∨ e ∈ w.wire x) ∧ assigned e = some (n, v)}
  asked x := 0 < w.asked x
  replies x := {v | ∃ r ∈ w.replies x, told r n = v}

section Effects

variable {s s' : Store} {e : Event} {r : SnapshotReply} {host : String} {now : ℕ} {n m : String}
  {v : Option (ℤ × ℤ)}

theorem namesValid_of_pairOf (h : s.NamesValid) (hv : v ≠ none → Naming.validate m = .ok m)
    (hp : ∀ k, s'.pairOf k = if m = k then v else s.pairOf k) : s'.NamesValid := by
  intro k hk
  rw [hp] at hk
  split at hk
  · rename_i hm
    exact hm ▸ hv hk
  · exact h k hk

theorem namesValid_event (h : s.NamesValid) (host : String) (now : ℕ) (e : Event) :
    (applyInput host s (.event now e)).NamesValid := by
  have hp := pairOf_recvEvent s now host e
  cases hq : assigned e with
  | none =>
    rw [hq] at hp
    intro k hk
    rw [applyInput, hp] at hk
    exact h k hk
  | some q =>
    rw [hq] at hp
    exact namesValid_of_pairOf h (fun _ => valid_of_assigned hq) hp

theorem namesValid_snapshot (h : s.NamesValid) (host : String) (now : ℕ) (r : SnapshotReply) :
    (applyInput host s (.snapshot now r)).NamesValid := by
  intro k hk
  rw [applyInput, pairOf_applySnapshot] at hk
  cases ht : told r k with
  | none =>
    rw [ht, Option.none_or] at hk
    exact h k hk
  | some p =>
    obtain ⟨d, -, hd⟩ := exists_of_told ht
    exact valid_of_rowOf hd

end Effects

section Lists

variable {β : Type} {g : Side → List β} {x z : Side} {l : List β} {a b : β} {i : ℕ}

theorem mem_update (h : a ∈ g x → a ∈ l) (ha : a ∈ g z) : a ∈ update g x l z := by
  by_cases hz : z = x
  · subst hz
    rw [update_self]
    exact h ha
  · rwa [update_of_ne hz]

theorem mem_eraseIdx_of_ne (h : l[i]? = some b) (hab : a ≠ b) (ha : a ∈ l) : a ∈ l.eraseIdx i := by
  obtain ⟨j, hj⟩ := List.mem_iff_getElem?.mp ha
  refine List.mem_eraseIdx_iff_getElem?.mpr ⟨j, fun hji => hab ?_, hj⟩
  rw [hji, h] at hj
  exact (Option.some.inj hj).symm

end Lists

/-- The names of both sides are well formed, and every name is repairable. -/
structure Synced (w : NameSync) : Prop where
  valid : ∀ x, (w.store x).NamesValid
  names : ∀ n, Repairable (w.view n)

section Steps

variable {w w' : NameSync} {x y z : Side} {n m : String} {v : Option (ℤ × ℤ)} {s : Store}
  {e : Event} {now : ℕ} {host : Side → String} {a : Action}

theorem valid_update (h : ∀ x, (w.store x).NamesValid) (hs : s.NamesValid) (z : Side) :
    (update w.store x s z).NamesValid := by
  by_cases hz : z = x
  · subst hz
    rwa [update_self]
  · rw [update_of_ne hz]
    exact h z

theorem value_update (x : Side) (s : Store) (n : String) (z : Side) :
    (update w.store x s z).pairOf n = if z = x then s.pairOf n else (w.store z).pairOf n := by
  by_cases hz : z = x
  · subst hz
    rw [update_self, if_pos rfl]
  · rw [update_of_ne hz, if_neg hz]

/-- A write of one side, the last one or one that changes nothing last. -/
theorem repairable_wrote (h : Repairable (w.view n)) (he : assigned e = some (m, v))
    (hp : ∀ k, s.pairOf k = if m = k then v else (w.store x).pairOf k)
    (hok : (w.last m).time ≤ now ∨ w.KeepsLast x m v) :
    Repairable ((w.wrote x now m v s e).view n) := by
  have hevents : ∀ z u, u ∈ (w.view n).events z →
      u ∈ ((w.wrote x now m v s e).view n).events z := by
    rintro z u ⟨e', (he' | he'), hu⟩
    · exact ⟨e', Or.inl (mem_update (fun h => List.mem_append_left _ h) he'), hu⟩
    · exact ⟨e', Or.inr he', hu⟩
  have hvalue : ∀ z, ((w.wrote x now m v s e).view n).value z =
      if z = x then s.pairOf n else (w.view n).value z := value_update x s n
  by_cases hm : m = n
  · subst hm
    have hx : ((w.wrote x now m v s e).view m).value x = v := by
      rw [hvalue, if_pos rfl, hp, if_pos rfl]
    by_cases htime : (w.last m).time ≤ now
    · have hlast : ((w.wrote x now m v s e).view m).last = v := by
        simp [view, wrote, htime]
      refine Repairable.of_write (hx.trans hlast.symm) ?_
      rw [hlast]
      refine ⟨e, Or.inl ?_, he⟩
      change e ∈ update w.due x (w.due x ++ [e]) x
      rw [update_self]
      exact List.mem_append_right _ (List.mem_singleton_self e)
    · have hlast : ((w.wrote x now m v s e).view m).last = (w.view m).last := by
        simp [view, wrote, htime]
      refine h.take hlast hx ?_ (hok.resolve_left htime) fun y _ _ hw => ?_
      · rw [hvalue, if_neg (Side.other_ne x)]
      · exact hw.mono hlast id (hevents _ _) (fun _ => id) (fun _ => id) fun _ _ => id
  · have hlast : ((w.wrote x now m v s e).view n).last = (w.view n).last := by
      simp only [view, wrote]
      split
      · rw [update_of_ne (Ne.symm hm)]
      · rfl
    refine h.adds hlast ?_ id hevents (fun _ => id) fun _ _ => id
    ext1 z
    rw [hvalue]
    split
    · rename_i hz
      rw [hp, if_neg hm, hz]
      rfl
    · rfl

/-- A publication moves an event on, or loses it while the link is down. -/
theorem repairable_publish {i : ℕ} (h : Repairable (w.view n)) (hi : (w.due x)[i]? = some e) :
    Repairable (NameSync.view { w with
      due := update w.due x ((w.due x).eraseIdx i)
      wire := if w.up then update w.wire x (w.wire x ++ [e]) else w.wire } n) := by
  by_cases hup : w.up = true
  · refine h.adds rfl rfl id ?_ (fun _ => id) fun _ _ => id
    rintro y u ⟨e', he', hu⟩
    rw [if_pos hup]
    rcases he' with (he' | he')
    · by_cases hee : e' = e
      · subst hee
        refine ⟨e', ?_, hu⟩
        dsimp only
        by_cases hx : y = x
        · subst hx
          rw [update_self, update_self]
          exact Or.inr (List.mem_append_right _ (List.mem_singleton_self e'))
        · rw [update_of_ne hx]
          exact Or.inl he'
      · exact ⟨e', Or.inl (mem_update (mem_eraseIdx_of_ne hi hee) he'), hu⟩
    · exact ⟨e', Or.inr (mem_update (fun h => List.mem_append_left _ h) he'), hu⟩
  · exact h.frame rfl rfl fun _ _ _ => .down hup

theorem repairable_deliver {es : List Event} (h : Repairable (w.view n)) (hw : w.wire x = e :: es)
    (host : String) (now : ℕ) (hok : ∀ q ∈ assigned e, w.KeepsLast x.other q.1 q.2) :
    Repairable (NameSync.view { w with
      store := update w.store x.other (applyInput host (w.store x.other) (.event now e))
      wire := update w.wire x es } n) := by
  have hpair : (applyInput host (w.store x.other) (.event now e)).pairOf n = _ :=
    pairOf_recvEvent (w.store x.other) now host e n
  -- every other event is still on its way
  have hevents : ∀ y u, (y = x → assigned e ≠ some (n, u)) → u ∈ (w.view n).events y →
      ∃ e', (e' ∈ w.due y ∨ e' ∈ update w.wire x es y) ∧ assigned e' = some (n, u) := by
    rintro y u hne ⟨e', (he' | he'), hu⟩
    · exact ⟨e', Or.inl he', hu⟩
    · refine ⟨e', Or.inr ?_, hu⟩
      by_cases hy : y = x
      · subst hy
        rw [update_self]
        rw [hw] at he'
        refine (List.mem_cons.mp he').resolve_left fun hee => hne rfl ?_
        rw [← hee, hu]
      · rwa [update_of_ne hy]
  by_cases hq : ∃ v, assigned e = some (n, v)
  · obtain ⟨v, hv⟩ := hq
    rw [hv, Option.elim_some, if_pos rfl] at hpair
    refine h.receive (x := x) (v := v) rfl id (fun y u hne => hevents y u fun hyx he => ?_)
      (fun _ => id) (fun _ _ => id) ?_ ?_ (hok (n, v) hv)
    · rw [hv] at he
      cases he
      exact hne hyx rfl
    · exact (value_update x.other _ n x.other).trans ((if_pos rfl).trans hpair)
    · exact (value_update x.other _ n x).trans (if_neg (Side.ne_other x))
  · have hkeep : (applyInput host (w.store x.other) (.event now e)).pairOf n =
        (w.store x.other).pairOf n := by
      rw [hpair]
      cases hq' : assigned e with
      | none => rfl
      | some q =>
        rw [Option.elim_some, if_neg]
        rintro rfl
        exact hq ⟨q.2, hq'⟩
    refine h.adds rfl ?_ id (fun y u => hevents y u fun _ he => hq ⟨u, he⟩) (fun _ => id)
      fun _ _ => id
    ext1 z
    refine (value_update x.other _ n z).trans ?_
    rw [hkeep]
    split
    · rename_i hz
      rw [hz]
      rfl
    · rfl

/-- An answer is applied: its row of the name, if there is one, is taken. -/
theorem repairable_apply {r : SnapshotReply} {i : ℕ} (h : Repairable (w.view n))
    (hi : (w.replies x)[i]? = some r) (host : String) (now : ℕ)
    (hok : ∀ d ∈ r.names, ∀ q ∈ rowOf d, w.KeepsLast x.other q.1 (some q.2)) :
    Repairable (NameSync.view { w with
      store := update w.store x.other (applyInput host (w.store x.other) (.snapshot now r))
      replies := update w.replies x ((w.replies x).eraseIdx i) } n) := by
  refine h.adopt (x := x) (u := told r n) rfl id (fun _ _ => id) (fun _ => id) ?_ ?_ ?_ ?_
  · -- every answer that says something else is still on its way
    rintro y u hne ⟨r', hr', hu⟩
    refine ⟨r', ?_, hu⟩
    by_cases hy : y = x
    · subst hy
      refine mem_update (mem_eraseIdx_of_ne hi fun hrr => hne rfl ?_) hr'
      rw [← hu, hrr]
    · change r' ∈ update w.replies x _ y
      rwa [update_of_ne hy]
  · refine (value_update x.other _ n x.other).trans ((if_pos rfl).trans ?_)
    exact pairOf_applySnapshot (w.store x.other) now host r n
  · exact (value_update x.other _ n x).trans (if_neg (Side.ne_other x))
  · intro hne
    obtain ⟨p, hp⟩ := Option.ne_none_iff_exists'.mp hne
    obtain ⟨d, hd, hq⟩ := exists_of_told hp
    rw [hp]
    exact hok d hd (n, p) hq

theorem repairable_answer (h : Repairable (w.view n)) (hv : (w.store x).NamesValid) :
    Repairable (NameSync.view { w with
      asked := update w.asked x (w.asked x - 1)
      replies := update w.replies x (w.replies x ++ [snapshotReply (w.store x)]) } n) := by
  refine h.answer (x := x) rfl rfl id (fun _ _ => id) ?_ ?_ ?_
  · intro y hy hpos
    change 0 < update w.asked x (w.asked x - 1) y
    rwa [update_of_ne hy]
  · rintro y u ⟨r, hr, hu⟩
    exact ⟨r, mem_update (fun h => List.mem_append_left _ h) hr, hu⟩
  · refine ⟨snapshotReply (w.store x), ?_, told_snapshotReply hv n⟩
    change _ ∈ update w.replies x _ x
    rw [update_self]
    exact List.mem_append_right _ (List.mem_singleton_self _)

theorem asked_succ (w : NameSync) (x y : Side) :
    (y = x ∨ 0 < w.asked y) → 0 < update w.asked x (w.asked x + 1) y := by
  intro h
  by_cases hy : y = x
  · subst hy
    rw [update_self]
    omega
  · rw [update_of_ne hy]
    exact h.resolve_left hy

theorem repairable_fail {i : ℕ} (h : Repairable (w.view n)) :
    Repairable (NameSync.view { w with
      asked := update w.asked x (w.asked x + 1)
      replies := update w.replies x ((w.replies x).eraseIdx i) } n) := by
  refine h.retry (x := x) rfl rfl id (fun _ _ => id) (fun y hpos => asked_succ w x y (Or.inr hpos))
    ?_ (asked_succ w x x (Or.inl rfl))
  rintro y u hy ⟨r, hr, hu⟩
  refine ⟨r, ?_, hu⟩
  change r ∈ update w.replies x _ y
  rwa [update_of_ne hy]

theorem repairable_resync (h : Repairable (w.view n)) :
    Repairable (NameSync.view { w with asked := update w.asked x (w.asked x + 1) } n) :=
  h.adds rfl rfl id (fun _ _ => id) (fun y hpos => asked_succ w x y (Or.inr hpos)) fun _ _ => id

theorem Synced.wrote (h : Synced w) (he : assigned e = some (m, v))
    (hp : ∀ k, s.pairOf k = if m = k then v else (w.store x).pairOf k)
    (hok : (w.last m).time ≤ now ∨ w.KeepsLast x m v) : Synced (w.wrote x now m v s e) where
  valid := valid_update h.valid
    (namesValid_of_pairOf (h.valid x) (fun _ => valid_of_assigned he) hp)
  names n := repairable_wrote (h.names n) he hp hok

theorem assigned_nameSet {channel group : ℤ} {source : String}
    (h : Naming.validate m = .ok m) :
    assigned (nameSetPayload ⟨m, channel, group, source, now⟩) =
      some (m, some (channel, group)) := by
  simp [assigned, nameSetPayload, Event.ofType, h, Except.toOption]

theorem assigned_nameClear {name : String} (h : Naming.validate name = .ok m) :
    assigned (nameClearPayload name) = some (m, none) := by
  simp [assigned, nameClearPayload, Event.ofType, h, Except.toOption]

theorem Synced.step (h : Synced w) (hok : Orderly w a) (hs : step host w a = some w') :
    Synced w' := by
  cases a with
  | set x now name channel group =>
    simp only [NameSync.step] at hs
    split at hs
    · rename_i n s hn hset
      cases hs
      exact h.wrote (assigned_nameSet (Naming.validate_idem hn)) (pairOf_set hn hset)
        (hok n (by rw [hn]; rfl))
    · cases hs
      exact h
  | clear x now name =>
    simp only [NameSync.step] at hs
    split at hs
    · rename_i n s hn hclear
      cases hs
      exact h.wrote (assigned_nameClear hn) (pairOf_clear hn hclear) (hok n (by rw [hn]; rfl))
    · cases hs
      exact h
  | publish x i =>
    obtain ⟨e, he, rfl⟩ := Option.map_eq_some_iff.mp hs
    exact ⟨h.valid, fun n => repairable_publish (h.names n) he⟩
  | deliver x now =>
    simp only [NameSync.step] at hs
    split at hs
    · cases hs
    · rename_i e es hw
      cases hs
      refine ⟨valid_update h.valid (namesValid_event (h.valid _) _ _ _), fun n => ?_⟩
      exact repairable_deliver (h.names n) hw (host x) now (hok e (by rw [hw]; rfl))
  | disconnect kept =>
    obtain ⟨-, hw⟩ := Option.ite_none_right_eq_some.mp hs
    cases hw
    exact ⟨h.valid, fun n => (h.names n).frame rfl rfl fun _ _ _ => .down nofun⟩
  | connect =>
    obtain ⟨-, hw⟩ := Option.ite_none_left_eq_some.mp hs
    cases hw
    exact ⟨h.valid, fun n => (h.names n).reconnect rfl rfl fun y => Nat.succ_pos (w.asked y)⟩
  | resync x =>
    cases hs
    exact ⟨h.valid, fun n => repairable_resync (h.names n)⟩
  | answer x =>
    obtain ⟨-, hw⟩ := Option.ite_none_left_eq_some.mp hs
    cases hw
    exact ⟨h.valid, fun n => repairable_answer (h.names n) (h.valid x)⟩
  | apply x i now =>
    obtain ⟨r, hr, rfl⟩ := Option.map_eq_some_iff.mp hs
    refine ⟨valid_update h.valid (namesValid_snapshot (h.valid _) _ _ _), fun n => ?_⟩
    exact repairable_apply (h.names n) hr (host x) now (hok r hr)
  | fail x i =>
    obtain ⟨r, -, rfl⟩ := Option.map_eq_some_iff.mp hs
    exact ⟨h.valid, fun n => repairable_fail (h.names n)⟩

/-- Before the two have met, the side with the later row has the last write. -/
theorem synced_start {here there : Store} (hh : here.NamesValid) (ht : there.NamesValid) :
    Synced (start here there) where
  valid x := by
    cases x with
    | here => exact hh
    | there => exact ht
  names n := by
    refine ⟨?_, fun y _ => .down nofun⟩
    change ∃ x : Side, (match x with | .here => here | .there => there : Store).pairOf n =
      (laterOf (here.nameRegistry.get? n) (there.nameRegistry.get? n)).pair
    unfold laterOf
    cases hh : here.nameRegistry.get? n with
    | none =>
      refine ⟨.there, ?_⟩
      cases ht : there.nameRegistry.get? n with
      | none => simp [pairOf, ht]
      | some e => simp [pairOf, ht, written]
    | some e =>
      cases ht : there.nameRegistry.get? n with
      | none => exact ⟨.here, by simp [pairOf, hh, written]⟩
      | some e' =>
        dsimp only
        split
        · exact ⟨.here, by simp [pairOf, hh, written]⟩
        · exact ⟨.there, by simp [pairOf, ht, written]⟩

end Steps

section Runs

/-- In a run in which nothing is put over a later write of its name: once the link is up and
nothing is under way, both registries have every name at the pair written last, and a name that was
cleared last is on neither. -/
theorem names_converge (host : Side → String) (here there : Store) (hh : here.NamesValid)
    (ht : there.NamesValid) (as : List Action) (w : NameSync)
    (hm : Runs.Meets (step host) Orderly (start here there) as)
    (hr : Runs.exec (step host) (start here there) as = some w) (hw : w.Settled) (n : String) :
    (w.store .here).pairOf n = (w.store .there).pairOf n ∧
      (∀ x, (w.store x).pairOf n = (w.last n).pair) ∧
      ((w.last n).pair = none → ∀ x, (w.store x).pairOf n = none) := by
  have h : Synced w := Runs.inv_of_meets (fun _ _ _ h hok hs => Synced.step h hok hs)
    (synced_start hh ht) hm hr
  obtain ⟨hup, hnone⟩ := hw
  have hlast : ∀ x, (w.store x).pairOf n = (w.last n).pair := by
    refine (h.names n).settled hup (fun x => ?_) (fun x => ?_) fun x => ?_
    · obtain ⟨hdue, hwire, -, -⟩ := hnone x
      simp [view, hdue, hwire]
    · simp [view, (hnone x).2.2.1]
    · simp [view, (hnone x).2.2.2]
  exact ⟨(hlast .here).trans (hlast .there).symm, hlast, fun hl x => (hlast x).trans hl⟩

def hosts : Side → String
  | .here => "thor"
  | .there => "loki"

/-- Two new registries meet, and then a name is set on one of them. -/
def meetAndSet : List Action :=
  [.connect, .answer .here, .answer .there, .apply .here 0 1, .apply .there 0 1,
    .set .here 5 "vevov" 1 2, .publish .here 0, .deliver .here 6]

theorem names_converge_meetAndSet : ∃ w,
    Runs.exec (step hosts) (start Store.empty Store.empty) meetAndSet = some w ∧
      (w.store .here).pairOf "vevov" = (w.store .there).pairOf "vevov" := by
  have hrun : (Runs.exec (step hosts) (start Store.empty Store.empty) meetAndSet).any
      (fun w => w.Settled) = true := by decide
  obtain ⟨w, hw, hset⟩ := (Option.any_eq_true _ _).mp hrun
  exact ⟨w, hw, (names_converge hosts Store.empty Store.empty (fun n h => absurd rfl h)
    (fun n h => absurd rfl h) meetAndSet w (by decide) hw (of_decide_eq_true hset) "vevov").1⟩

/-- Then it is set on both, and the events cross. -/
def crossing : List Action :=
  [.connect, .answer .here, .answer .there, .apply .here 0 1, .apply .there 0 1,
    .set .here 5 "vevov" 1 2, .set .there 6 "vevov" 3 4, .publish .here 0, .publish .there 0,
    .deliver .here 7, .deliver .there 7]

theorem crossing_sets_diverge :
    ¬ ∀ (host : Side → String) (here there : Store), here.NamesValid → there.NamesValid →
      ∀ (as : List Action) (w : NameSync), Runs.exec (step host) (start here there) as = some w →
        w.Settled → ∀ n, (w.store .here).pairOf n = (w.store .there).pairOf n ∧
          (∀ x, (w.store x).pairOf n = (w.last n).pair) ∧
          ((w.last n).pair = none → ∀ x, (w.store x).pairOf n = none) := by
  intro h
  have hrun : (Runs.exec (step hosts) (start Store.empty Store.empty) crossing).any (fun w =>
      w.Settled ∧ (w.store .here).pairOf "vevov" ≠ (w.store .there).pairOf "vevov") = true := by
    decide
  obtain ⟨w, hw, hcond⟩ := (Option.any_eq_true _ _).mp hrun
  obtain ⟨hset, hne⟩ := of_decide_eq_true hcond
  exact hne (h hosts Store.empty Store.empty (fun n h => absurd rfl h) (fun n h => absurd rfl h)
    crossing w hw hset "vevov").1

end Runs

end NameSync

end MbTools
