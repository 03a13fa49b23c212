import Mathlib.Logic.Function.Basic
import MbTools.Lib.Runs
import MbTools.Peering.Names
import MbTools.Store.Resolve

/-! # Derived names and names that were set

Hosts set, clear and look up names and tell each other. What arrives is put over
the row that is there, also when it is only what some host derived. Where a pair
came from is not kept by the receiver; here it is followed beside the rows.
-/

namespace MbTools.Names

open Store Peering Function

/-- A table as the store's own methods leave it. -/
structure NamesSound (s : Store) : Prop where
  valid : s.NamesValid
  derived : ∀ n e, s.nameRegistry.get? n = some e → e.source = sourceDerived →
    (e.channel, e.group) = Naming.default n

theorem pairOf_of_get? {t : Store} {n : String} {e : Entry} (h : t.nameRegistry.get? n = some e) :
    t.pairOf n = some (e.channel, e.group) := by
  rw [pairOf, h]
  rfl

section Sound

variable {s t : Store} {name n : String} {now : ℕ} {e : Entry}

theorem namesSound_empty : NamesSound Store.empty := ⟨fun _ h => absurd rfl h, nofun⟩

/-- A row written under its name, a derived one with the default pair, keeps a table sound. -/
theorem NamesSound.put (h : NamesSound s) (hv : Naming.validate n = .ok n) (hn : e.name = n)
    (hd : e.source = sourceDerived → (e.channel, e.group) = Naming.default n) :
    NamesSound { s with nameRegistry := s.nameRegistry.put e } := by
  have hget : ∀ k, (s.nameRegistry.put e).get? k =
      if n = k then some e else s.nameRegistry.get? k := by
    intro k
    rw [Table.get?_put, hn]
  constructor
  · intro k hk
    by_cases hnk : n = k
    · exact hnk ▸ hv
    · refine h.valid k ?_
      rwa [pairOf, hget, if_neg hnk] at hk
  · intro k e' he' hsrc
    rw [hget] at he'
    split at he'
    · rename_i hnk
      cases he'
      exact hnk ▸ hd hsrc
    · exact h.derived k e' he' hsrc

theorem NamesSound.set {channel group : ℤ} (h : NamesSound s)
    (ht : s.set now name channel group = .ok t) : NamesSound t := by
  have hne : sourceRegistry ≠ sourceDerived := by decide
  obtain ⟨n, hv, rfl⟩ := set_eq_ok_iff.mp ht
  exact h.put (Naming.validate_idem hv) rfl fun hd => absurd hd hne

theorem NamesSound.clear (h : NamesSound s) (ht : s.clear name = .ok t) : NamesSound t := by
  obtain ⟨n, hv, rfl⟩ := clear_eq_ok_iff.mp ht
  constructor
  · intro k hk
    refine h.valid k fun hnone => hk ?_
    rw [pairOf_clear hv ht, hnone, ite_self]
  · intro k e he hsrc
    rw [Table.get?_erase] at he
    split at he
    · cases he
    · exact h.derived k e he hsrc

theorem NamesSound.resolve (h : NamesSound s) (ht : s.resolve now name = .ok (t, e)) :
    NamesSound t := by
  cases hv : Naming.validate name with
  | error err =>
    rw [resolve_of_invalid hv] at ht
    cases ht
  | ok n =>
    cases hrow : s.nameRegistry.get? n with
    | some e' =>
      rw [resolve_of_some hv hrow] at ht
      cases ht
      exact h
    | none =>
      rw [resolve_of_none hv hrow] at ht
      cases ht
      exact h.put (Naming.validate_idem hv) rfl fun _ => rfl

end Sound

/-- An event or a snapshot reply on its way, with the names whose pair in it was derived. -/
structure Message (ι : Type) where
  sender : ι
  receiver : ι
  body : Event ⊕ SnapshotReply
  derived : String → Bool

/-- What applying the message leaves at a name; `none` if it says nothing of it. -/
def Message.tells {ι : Type} (m : Message ι) (n : String) : Option (Option (ℤ × ℤ)) :=
  match m.body with
  | .inl e => (assigned e).bind fun q => if q.1 = n then some q.2 else none
  | .inr r => (told r n).map some

def Message.input {ι : Type} (m : Message ι) (now : ℕ) : Input :=
  match m.body with
  | .inl e => .event now e
  | .inr r => .snapshot now r

/-- The registries of a fleet and what is under way between them. -/
structure Fleet (ι : Type) where
  store : ι → Store
  /-- Whether the pair of a row was derived, here or on the host it came from. -/
  derived : ι → String → Bool
  due : List (ι × Event × Bool)
  flights : List (Message ι)

namespace Fleet

variable {ι : Type} [DecidableEq ι]

inductive Action (ι : Type) where
  | set (x : ι) (now : ℕ) (name : String) (channel group : ℤ)
  | clear (x : ι) (name : String)
  /-- `GET`, which publishes a row that it created. -/
  | lookUp (x : ι) (now : ℕ) (name : String)
  /-- The second section of `DELETE`, which always publishes. -/
  | resolve (x : ι) (now : ℕ) (name : String)
  | publish (i : ℕ) (receivers : List ι)
  | answer (sender receiver : ι)
  | deliver (i now : ℕ)
  | lose (i : ℕ)

def wrote (w : Fleet ι) (x : ι) (s : Store) (n : String) (d : Bool) : Fleet ι :=
  { w with store := update w.store x s, derived := update w.derived x (update (w.derived x) n d) }

def owe (w : Fleet ι) (x : ι) (e : Event) (d : Bool) : Fleet ι :=
  { w with due := w.due ++ [(x, e, d)] }

/-- A look at a name; a row that is there keeps where it came from. -/
def resolved (w : Fleet ι) (x : ι) (now : ℕ) (name : String) (always : Bool) : Fleet ι :=
  match Naming.validate name, (w.store x).resolve now name with
  | .ok n, .ok (s, e) =>
    let created := ((w.store x).nameRegistry.get? n).isNone
    let w := w.wrote x s n (created || w.derived x n)
    if created || always then w.owe x (nameSetPayload e) (w.derived x n) else w
  | _, _ => w

/-- What was derived of the receiver's rows once a message has been applied. -/
def derivedAfter (w : Fleet ι) (m : Message ι) (n : String) : Bool :=
  match m.tells n with
  | some (some _) => m.derived n
  | some none => false
  | none => w.derived m.receiver n

/-- The link may lose what is on it and deliver it late and in any order. -/
def step (host : ι → String) (w : Fleet ι) : Action ι → Option (Fleet ι)
  | .set x now name channel group =>
    match Naming.validate name, (w.store x).set now name channel group with
    | .ok n, .ok s =>
      some ((w.wrote x s n false).owe x
        (nameSetPayload ⟨n, channel, group, sourceRegistry, now⟩) false)
    | _, _ => some w
  | .clear x name =>
    match Naming.validate name, (w.store x).clear name with
    | .ok n, .ok s => some ((w.wrote x s n false).owe x (nameClearPayload name) false)
    | _, _ => some w
  | .lookUp x now name => some (w.resolved x now name false)
  | .resolve x now name => some (w.resolved x now name true)
  | .publish i receivers =>
    (w.due[i]?).map fun (x, e, d) =>
      { w with
        due := w.due.eraseIdx i
        flights := w.flights ++ receivers.map fun y => ⟨x, y, .inl e, fun _ => d⟩ }
  | .answer x y =>
    some { w with flights := w.flights ++ [⟨x, y, .inr (snapshotReply (w.store x)), w.derived x⟩] }
  | .deliver i now =>
    (w.flights[i]?).map fun m =>
      { w with
        store := update w.store m.receiver
          (applyInput (host m.sender) (w.store m.receiver) (m.input now))
        derived := update w.derived m.receiver (w.derivedAfter m)
        flights := w.flights.eraseIdx i }
  | .lose i => some { w with flights := w.flights.eraseIdx i }

def start (s : ι → Store) : Fleet ι where
  store := s
  derived x n := ((s x).nameRegistry.get? n).any fun e => e.source = sourceDerived
  due := []
  flights := []

/-- A derived pair that arrives leaves every row that was set with its pair. -/
def Keeps (host : ι → String) (w : Fleet ι) : Action ι → Prop
  | .deliver i now => ∀ m, w.flights[i]? = some m → ∀ n p, m.tells n = some (some p) →
      m.derived n = true → ∀ e, (w.store m.receiver).nameRegistry.get? n = some e →
        e.source = sourceRegistry →
          (applyInput (host m.sender) (w.store m.receiver) (m.input now)).pairOf n =
            some (e.channel, e.group)
  | _ => True

/-- A derived pair arrives only where no row of its name was set, or was set to its default. -/
def OnlyOverDefault (w : Fleet ι) : Action ι → Prop
  | .deliver i _ => ∀ m, w.flights[i]? = some m → ∀ n p, m.tells n = some (some p) →
      m.derived n = true → ∀ e, (w.store m.receiver).nameRegistry.get? n = some e →
        e.source = sourceRegistry → (e.channel, e.group) = Naming.default n
  | _ => True

/-- Every pair that was derived is the default of its name, wherever it is by now. -/
structure AllDefault (w : Fleet ι) : Prop where
  valid : ∀ x, (w.store x).NamesValid
  row : ∀ x n p, (w.store x).pairOf n = some p → w.derived x n = true → p = Naming.default n
  due : ∀ q ∈ w.due, q.2.2 = true → ∀ n p, assigned q.2.1 = some (n, some p) →
    p = Naming.default n
  flight : ∀ m ∈ w.flights, ∀ n p, m.tells n = some (some p) → m.derived n = true →
    p = Naming.default n

section Derived

variable {w w' : Fleet ι} {x : ι} {s : ι → Store} {t : Store} {n name : String} {d : Bool}
  {a : Action ι} {host : ι → String} {m : Message ι} {now : ℕ}

omit [DecidableEq ι] in
theorem namesValid_of_frame (h : (w.store x).NamesValid) (hv : Naming.validate n = .ok n)
    (hne : ∀ k, n ≠ k → t.pairOf k = (w.store x).pairOf k) : t.NamesValid := by
  intro k hk
  by_cases hnk : n = k
  · exact hnk ▸ hv
  · exact h k (by rwa [hne k hnk] at hk)

/-- A write of one name whose pair, if it counts as derived, is the default. -/
theorem AllDefault.wrote (h : w.AllDefault) (hv : Naming.validate n = .ok n)
    (hne : ∀ k, n ≠ k → t.pairOf k = (w.store x).pairOf k)
    (hd : d = true → ∀ p, t.pairOf n = some p → p = Naming.default n) :
    (w.wrote x t n d).AllDefault where
  valid y := by
    by_cases hy : y = x
    · subst hy
      simpa only [Fleet.wrote, update_self] using namesValid_of_frame (h.valid y) hv hne
    · simpa only [Fleet.wrote, update_of_ne hy] using h.valid y
  row y k p hp hk := by
    by_cases hy : y = x
    · subst hy
      simp only [Fleet.wrote, update_self] at hp hk
      by_cases hnk : k = n
      · subst hnk
        rw [update_self] at hk
        exact hd hk p hp
      · rw [update_of_ne hnk] at hk
        exact h.row y k p (by rwa [hne k (Ne.symm hnk)] at hp) hk
    · simp only [Fleet.wrote, update_of_ne hy] at hp hk
      exact h.row y k p hp hk
  due := h.due
  flight := h.flight

omit [DecidableEq ι] in
theorem AllDefault.owe {e : Event} (h : w.AllDefault)
    (hd : d = true → ∀ n p, assigned e = some (n, some p) → p = Naming.default n) :
    (w.owe x e d).AllDefault where
  valid := h.valid
  row := h.row
  due q hq := by
    rcases List.mem_append.mp hq with (hq | hq)
    · exact h.due q hq
    · rw [List.mem_singleton.mp hq]
      exact hd
  flight := h.flight

theorem AllDefault.wroteSet {e : Event} (h : w.AllDefault) (hv : Naming.validate n = .ok n)
    (hne : ∀ k, n ≠ k → t.pairOf k = (w.store x).pairOf k) :
    ((w.wrote x t n false).owe x e false).AllDefault :=
  (h.wrote hv hne fun hd => absurd hd Bool.false_ne_true).owe fun hd =>
    absurd hd Bool.false_ne_true

theorem assigned_nameSet_iff {e : Entry} {k : String} {p : ℤ × ℤ}
    (hv : Naming.validate e.name = .ok e.name) :
    assigned (nameSetPayload e) = some (k, some p) ↔ e.name = k ∧ (e.channel, e.group) = p := by
  simp [assigned, nameSetPayload, Event.ofType, hv, Except.toOption]

/-- A look at a name derives the default, or leaves the row as it is. -/
theorem AllDefault.resolved (h : w.AllDefault) (x : ι) (now : ℕ) (name : String) (always : Bool) :
    (w.resolved x now name always).AllDefault := by
  unfold Fleet.resolved
  cases hv : Naming.validate name with
  | error err => exact h
  | ok n =>
    have hvn := Naming.validate_idem hv
    cases hrow : (w.store x).nameRegistry.get? n with
    | none =>
      simp only [resolve_of_none hv hrow, hrow, Option.isNone_none, Bool.true_or, if_true]
      refine (h.wrote hvn (fun k hk => ?_) fun _ p hp => ?_).owe fun _ k p hp => ?_
      · rw [pairOf, pairOf, Table.get?_put_of_ne (show (Store.derived n now).name ≠ k from hk)]
      · rw [pairOf_of_get? (Table.get?_put_self _ (Store.derived n now))] at hp
        exact (Option.some.inj hp).symm
      · obtain ⟨rfl, rfl⟩ := (assigned_nameSet_iff (e := Store.derived n now) hvn).mp hp
        rfl
    | some e =>
      have hname : e.name = n := Table.key_of_get? hrow
      subst hname
      have hdef : w.derived x e.name = true → (e.channel, e.group) = Naming.default e.name :=
        h.row x e.name _ (pairOf_of_get? hrow)
      have hwrote : (w.wrote x (w.store x) e.name (w.derived x e.name)).AllDefault := by
        refine h.wrote hvn (fun _ _ => rfl) fun hd p hp => ?_
        exact h.row x e.name p hp hd
      simp only [resolve_of_some hv hrow, hrow, Option.isNone_some, Bool.false_or]
      split
      · refine hwrote.owe fun hd k p hp => ?_
        obtain ⟨rfl, rfl⟩ := (assigned_nameSet_iff hvn).mp hp
        refine hdef ?_
        simpa only [Fleet.wrote, update_self] using hd
      · exact hwrote

omit [DecidableEq ι] in
theorem pairOf_input (s : Store) (sender : String) (m : Message ι) (now : ℕ) (n : String) :
    (applyInput sender s (m.input now)).pairOf n = (m.tells n).getD (s.pairOf n) := by
  obtain ⟨x, y, body, d⟩ := m
  cases body with
  | inl e =>
    refine (pairOf_recvEvent s now sender e n).trans ?_
    simp only [Message.tells]
    cases assigned e with
    | none => rfl
    | some q =>
      simp only [Option.elim_some, Option.bind_some]
      split
      · cases q.2 <;> rfl
      · rfl
  | inr r =>
    refine (pairOf_applySnapshot s now sender r n).trans ?_
    simp only [Message.tells]
    cases told r n <;> rfl

omit [DecidableEq ι] in
theorem valid_of_tells {v : Option (ℤ × ℤ)} (h : m.tells n = some v) :
    Naming.validate n = .ok n := by
  obtain ⟨x, y, body, d⟩ := m
  cases body with
  | inl e =>
    obtain ⟨q, hq, hn⟩ := Option.bind_eq_some_iff.mp h
    split at hn
    · rename_i heq
      exact heq ▸ valid_of_assigned (v := q.2) hq
    · cases hn
  | inr r =>
    obtain ⟨p, hp, -⟩ := Option.map_eq_some_iff.mp h
    obtain ⟨row, -, hrow⟩ := exists_of_told hp
    exact valid_of_rowOf hrow

theorem AllDefault.deliver (h : w.AllDefault) {i : ℕ} (hm : w.flights[i]? = some m) (now : ℕ) :
    AllDefault { w with
      store := update w.store m.receiver
        (applyInput (host m.sender) (w.store m.receiver) (m.input now))
      derived := update w.derived m.receiver (w.derivedAfter m)
      flights := w.flights.eraseIdx i } where
  valid y := by
    by_cases hy : y = m.receiver
    · subst hy
      simp only [update_self]
      intro k hk
      rw [pairOf_input] at hk
      cases ht : m.tells k with
      | some v => exact valid_of_tells ht
      | none =>
        rw [ht] at hk
        exact h.valid m.receiver k hk
    · simpa only [update_of_ne hy] using h.valid y
  row y k p hp hk := by
    by_cases hy : y = m.receiver
    · subst hy
      simp only [update_self, derivedAfter, pairOf_input] at hp hk
      cases ht : m.tells k with
      | none =>
        rw [ht] at hp hk
        exact h.row m.receiver k p hp hk
      | some v =>
        rw [ht] at hp hk
        cases v with
        | none => cases hk
        | some q =>
          obtain rfl : q = p := Option.some.inj hp
          exact h.flight m (List.mem_of_getElem? hm) k q ht hk
    · simp only [update_of_ne hy] at hp hk
      exact h.row y k p hp hk
  due := h.due
  flight m' hm' := h.flight m' (List.mem_of_mem_eraseIdx hm')

theorem AllDefault.step (h : w.AllDefault) (hs : Fleet.step host w a = some w') :
    w'.AllDefault := by
  cases a with
  | set x now name channel group =>
    simp only [Fleet.step] at hs
    split at hs
    · rename_i n t hv ht
      cases hs
      refine h.wroteSet (Naming.validate_idem hv) fun k hk => ?_
      rw [pairOf_set hv ht, if_neg hk]
    · cases hs
      exact h
  | clear x name =>
    simp only [Fleet.step] at hs
    split at hs
    · rename_i n t hv ht
      cases hs
      refine h.wroteSet (Naming.validate_idem hv) fun k hk => ?_
      rw [pairOf_clear hv ht, if_neg hk]
    · cases hs
      exact h
  | lookUp x now name =>
    simp only [Fleet.step, Option.some.injEq] at hs
    exact hs ▸ h.resolved x now name false
  | resolve x now name =>
    simp only [Fleet.step, Option.some.injEq] at hs
    exact hs ▸ h.resolved x now name true
  | publish i receivers =>
    obtain ⟨⟨x, e, d⟩, hi, rfl⟩ := Option.map_eq_some_iff.mp hs
    have hdue := h.due _ (List.mem_of_getElem? hi)
    refine ⟨h.valid, h.row, fun q hq => h.due q (List.mem_of_mem_eraseIdx hq), ?_⟩
    intro m hm n p htell hd
    rcases List.mem_append.mp hm with (hm | hm)
    · exact h.flight m hm n p htell hd
    · obtain ⟨y, -, rfl⟩ := List.mem_map.mp hm
      obtain ⟨q, hq, hn⟩ := Option.bind_eq_some_iff.mp htell
      split at hn
      · rename_i heq
        subst heq
        exact hdue hd q.1 p (hq.trans (congrArg some (Prod.ext rfl (Option.some.inj hn))))
      · cases hn
  | answer x y =>
    cases hs
    refine ⟨h.valid, h.row, h.due, fun m hm n p htell hd => ?_⟩
    rcases List.mem_append.mp hm with (hm | hm)
    · exact h.flight m hm n p htell hd
    · rw [List.mem_singleton.mp hm] at htell hd
      obtain ⟨q, hq, hp⟩ := Option.map_eq_some_iff.mp htell
      rw [told_snapshotReply (h.valid x)] at hq
      exact h.row x n p (hq.trans hp) hd
  | deliver i now =>
    obtain ⟨m, hm, rfl⟩ := Option.map_eq_some_iff.mp hs
    exact h.deliver hm now
  | lose i =>
    cases hs
    exact ⟨h.valid, h.row, h.due, fun m hm => h.flight m (List.mem_of_mem_eraseIdx hm)⟩

omit [DecidableEq ι] in
theorem allDefault_start (hs : ∀ x, NamesSound (s x)) : (start s).AllDefault where
  valid x := (hs x).valid
  row x n p hp hd := by
    obtain ⟨e, he, hsrc⟩ := (Option.any_eq_true _ _).mp hd
    rw [← (hs x).derived n e he (of_decide_eq_true hsrc)]
    exact Option.some.inj (hp.symm.trans (pairOf_of_get? he))
  due := List.forall_mem_nil _
  flight := List.forall_mem_nil _

omit [DecidableEq ι] in
/-- A derived pair keeps the rows that were set exactly where they have the default anyway. -/
theorem keeps_iff (h : w.AllDefault) : w.Keeps host a ↔ w.OnlyOverDefault a := by
  cases a with
  | deliver i now =>
    constructor
    · intro hk m hm n p htell hd e he hsrc
      have hkeep := hk m hm n p htell hd e he hsrc
      rw [pairOf_input, htell] at hkeep
      rw [← Option.some.inj hkeep]
      exact h.flight m (List.mem_of_getElem? hm) n p htell hd
    · intro hk m hm n p htell hd e he hsrc
      rw [pairOf_input, htell, hk m hm n p htell hd e he hsrc]
      exact congrArg some (h.flight m (List.mem_of_getElem? hm) n p htell hd)
  | _ => exact Iff.rfl

/-- In a run no row that was set loses its pair to a derived one, exactly when derived pairs only
arrive where such a row has the default pair of its name. -/
theorem derived_overrides_nothing_iff (host : ι → String) (s : ι → Store)
    (hs : ∀ x, NamesSound (s x)) (as : List (Action ι)) :
    Runs.Meets (step host) (Keeps host) (start s) as ↔
      Runs.Meets (step host) OnlyOverDefault (start s) as :=
  Runs.meets_congr (fun _ _ h => keeps_iff h) (fun _ _ _ h hs => h.step hs) (allDefault_start hs)

def hosts : Bool → String
  | false => "thor"
  | true => "loki"

/-- One host sets a name to its default, and the other looks it up and tells it. -/
def setToDefault : List (Action Bool) :=
  [.set false 1 "vevov" (Naming.default "vevov").1 (Naming.default "vevov").2, .publish 0 [],
    .lookUp true 2 "vevov", .publish 0 [false], .deliver 0 3]

theorem derived_overrides_nothing_iff_setToDefault :
    Runs.Meets (step hosts) (Keeps hosts) (start fun _ => Store.empty) setToDefault ∧
      (Runs.exec (step hosts) (start fun _ => Store.empty) setToDefault).any (fun w =>
        w.flights.isEmpty && (w.store false).pairOf "vevov" = some (Naming.default "vevov")) =
        true := by
  refine ⟨(derived_overrides_nothing_iff hosts (fun _ => Store.empty) (fun _ => namesSound_empty)
    setToDefault).mpr ?_, by decide⟩
  refine ⟨trivial, fun w hw => ?_⟩
  cases hw
  refine ⟨trivial, fun w hw => ?_⟩
  cases hw
  refine ⟨trivial, fun w hw => ?_⟩
  cases hw
  refine ⟨trivial, fun w hw => ?_⟩
  cases hw
  refine ⟨fun m hm n p _ _ e he _ => ?_, fun _ _ => trivial⟩
  cases hm
  -- the receiver has one row, which is set to its default
  obtain ⟨hrow, rfl⟩ := Table.get?_eq_some_iff.mp he
  obtain rfl := List.mem_singleton.mp hrow
  rfl

/-- While the link is down one host sets a name and the other looks it up. -/
def setAndLookUp : List (Action Bool) :=
  [.set false 1 "vevov" 1 2, .publish 0 [], .lookUp true 2 "vevov", .publish 0 [false]]

theorem derived_overrides_set : ¬ ∀ (s : Bool → Store), (∀ x, NamesSound (s x)) →
    ∀ as, Runs.Meets (step hosts) (Keeps hosts) (start s) as := by
  intro h
  have hrun : (Runs.exec (step hosts) (start fun _ => Store.empty) setAndLookUp).any (fun w =>
      (w.flights.map fun m => (m.receiver, m.tells "vevov", m.derived "vevov")) =
        [(false, some (some (Naming.default "vevov")), true)] ∧
      (w.store false).nameRegistry.get? "vevov" = some ⟨"vevov", 1, 2, sourceRegistry, 1⟩ ∧
      Naming.default "vevov" ≠ (1, 2)) = true := by decide
  obtain ⟨w, hw, hend⟩ := (Option.any_eq_true _ _).mp hrun
  obtain ⟨hflight, hrow, hne⟩ := of_decide_eq_true hend
  obtain ⟨m, hm, hview⟩ := List.map_eq_singleton_iff.mp hflight
  simp only [Prod.mk.injEq] at hview
  obtain ⟨hto, htell, hd⟩ := hview
  have hmeets := h (fun _ => Store.empty) (fun _ => namesSound_empty)
    (setAndLookUp ++ [.deliver 0 3])
  have hkeep := (hmeets.right hw).head m (by rw [hm]; rfl) "vevov" _ htell hd
    ⟨"vevov", 1, 2, sourceRegistry, 1⟩ (by rw [hto]; exact hrow) rfl
  rw [pairOf_input, htell] at hkeep
  exact hne (Option.some.inj hkeep)

end Derived

end Fleet

end MbTools.Names
