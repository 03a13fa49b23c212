import Mathlib.Algebra.Group.Int.Defs
import MbTools.Lib.Json
import MbTools.Peering.Names
import MbTools.Store.Resolve

/-! # Requests about names

The three verbs of the HTTP service and the two writing ops of the local
socket. Each writes the table in a section under the shared lock and leaves
behind what its handler still has to do outside of it.
-/

namespace MbTools.Names

open Store

def channelMin : ℤ := 0

def channelMax : ℤ := 83

def groupMin : ℤ := 0

def groupMax : ℤ := 255

/-- The pairs that `!CG` takes. -/
def InRange (p : ℤ × ℤ) : Prop :=
  (channelMin ≤ p.1 ∧ p.1 ≤ channelMax) ∧ groupMin ≤ p.2 ∧ p.2 ≤ groupMax

instance (p : ℤ × ℤ) : Decidable (InRange p) := inferInstanceAs (Decidable (_ ∧ _))

/-- What is wrong with the body of a `PUT`; an overflow is not caught there. -/
inductive PairError where
  | notJson
  | notObject
  | missing
  | notWhole
  | channel (n : ℤ)
  | group (n : ℤ)
  | overflow
  deriving DecidableEq, Repr

def wholeNumber (v : Json) : Except PairError ℤ :=
  match v.toInt with
  | .ok n => .ok n
  | .error .overflowError => .error .overflow
  | .error _ => .error .notWhole

/-- `_parse_pair`; a body that is not JSON is `none`. -/
def parsePair (body : Option Json) : Except PairError (ℤ × ℤ) :=
  match body with
  | none => .error .notJson
  | some (.obj fields) =>
    if !(Json.obj fields).hasKey "channel" || !(Json.obj fields).hasKey "group" then
      .error .missing
    else do
      let channel ← wholeNumber ((Json.obj fields).get "channel")
      let group ← wholeNumber ((Json.obj fields).get "group")
      if ¬ (channelMin ≤ channel ∧ channel ≤ channelMax) then throw (.channel channel)
      if ¬ (groupMin ≤ group ∧ group ≤ groupMax) then throw (.group group)
      return (channel, group)
  | some _ => .error .notObject

/-- The integers SQLite can bind; a larger one raises `OverflowError`. -/
def Bindable (n : ℤ) : Prop := -2 ^ 63 ≤ n ∧ n < 2 ^ 63

instance (n : ℤ) : Decidable (Bindable n) := inferInstanceAs (Decidable (_ ∧ _))

/-- A request that is answered with an error, or an exception that no handler catches. -/
inductive OpError where
  | invalidRequest
  | raised
  deriving DecidableEq, Repr

/-- What a handler has still to do once its first section is over. -/
inductive Rest where
  | publishSet (e : Entry)
  | publishClear (name : String)
  /-- `DELETE` publishes its clear and then derives the name anew. -/
  | publishClearThenResolve (name : String)
  | resolve (name : String)
  deriving DecidableEq

/-- The locked section of `handle_get`: only a row that it created is published. -/
def handleGet (s : Store) (now : ℕ) (name : String) : Except Error (Store × Option Rest) := do
  let existing ← s.getName name
  let (s, e) ← s.resolve now name
  return (s, if existing.isNone then some (.publishSet e) else none)

/-- The entry of a name that was just set. -/
def setEntry (n : String) (p : ℤ × ℤ) (now : ℕ) : Entry := ⟨n, p.1, p.2, sourceRegistry, now⟩

/-- `Store.set` of a name, and the publish that is left to do. -/
def setThenPublish (s : Store) (now : ℕ) (name : String) (p : ℤ × ℤ) :
    Except OpError (Store × Option Rest) :=
  match Naming.validate name, s.set now name p.1 p.2 with
  | .ok n, .ok s' => .ok (s', some (.publishSet (setEntry n p now)))
  | _, _ => .error .invalidRequest

def handlePut (s : Store) (now : ℕ) (name : String) (body : Option Json) :
    Except OpError (Store × Option Rest) :=
  match parsePair body with
  | .error .overflow => .error .raised
  | .error _ => .error .invalidRequest
  | .ok p => setThenPublish s now name p

def handleDelete (s : Store) (name : String) : Except Error (Store × Option Rest) := do
  let s ← s.clear name
  return (s, some (.publishClearThenResolve name))

/-- The name and the integers of a `names_set`, as its handler reads them. -/
def namesSetArgs (text : Json → String) (req : Json) : Except OpError (String × ℤ × ℤ) :=
  if !(req.get "name").truthy || (req.get "channel").isNull || (req.get "group").isNull then
    .error .invalidRequest
  else
    match (req.get "channel").toInt, (req.get "group").toInt with
    | .ok channel, .ok group => .ok (Json.strOf text (req.get "name"), channel, group)
    | .error .overflowError, _ => .error .raised
    | .error _, _ => .error .invalidRequest
    | .ok _, .error .overflowError => .error .raised
    | .ok _, .error _ => .error .invalidRequest

/-- `_op_names_set`; the name is looked at before the integers are bound. -/
def opNamesSet (text : Json → String) (s : Store) (now : ℕ) (req : Json) :
    Except OpError (Store × Option Rest) :=
  match namesSetArgs text req with
  | .error e => .error e
  | .ok (name, p) =>
    if (Naming.validate name).isOk ∧ ¬ (Bindable p.1 ∧ Bindable p.2) then .error .raised
    else setThenPublish s now name p

/-- `_op_names_clear`. -/
def opNamesClear (text : Json → String) (s : Store) (req : Json) :
    Except OpError (Store × Option Rest) :=
  if !(req.get "name").truthy then .error .invalidRequest
  else
    match s.clear (Json.strOf text (req.get "name")) with
    | .ok s' => .ok (s', some (.publishClear (Json.strOf text (req.get "name"))))
    | .error _ => .error .invalidRequest

/-- A request, by what its handler reads. -/
inductive Request where
  | get (name : String)
  | put (name : String) (body : Option Json)
  | delete (name : String)
  | namesSet (req : Json)
  | namesClear (req : Json)

/-- The first section of a request: the table after it, and what is left to do. -/
def first (text : Json → String) (s : Store) (now : ℕ) (r : Request) : Store × Option Rest :=
  let done : Option (Store × Option Rest) :=
    match r with
    | .get name => (handleGet s now name).toOption
    | .put name body => (handlePut s now name body).toOption
    | .delete name => (handleDelete s name).toOption
    | .namesSet req => (opNamesSet text s now req).toOption
    | .namesClear req => (opNamesClear text s req).toOption
  done.getD (s, none)

section Requests

variable {text : Json → String} {s s' : Store} {now : ℕ} {name n : String} {rest : Option Rest}

/-- The name that what is left to do is about. -/
def Rest.about : Rest → Option String
  | .publishSet e => some e.name
  | .publishClear name => (Naming.validate name).toOption
  | .publishClearThenResolve name => (Naming.validate name).toOption
  | .resolve name => (Naming.validate name).toOption

/-- Only names that were validated are published. -/
def Rest.Valid (r : Rest) : Prop := ∃ n, r.about = some n ∧ Naming.validate n = .ok n

/-- A section about one name: it leaves every other name alone. -/
def Writes (s s' : Store) (r : Rest) : Prop :=
  ∃ n, r.about = some n ∧ Naming.validate n = .ok n ∧ ∀ k, n ≠ k → s'.pairOf k = s.pairOf k

theorem pairOf_congr {k : String} (h : s'.nameRegistry.get? k = s.nameRegistry.get? k) :
    s'.pairOf k = s.pairOf k := by
  rw [pairOf, pairOf, h]

theorem writes_of_set {p : ℤ × ℤ} (hv : Naming.validate name = .ok n)
    (h : s.set now name p.1 p.2 = .ok s') : Writes s s' (.publishSet (setEntry n p now)) := by
  refine ⟨n, rfl, Naming.validate_idem hv, fun k hk => ?_⟩
  rw [pairOf_set hv h, if_neg hk]

theorem writes_of_clear {r : Rest} (hr : r.about = (Naming.validate name).toOption)
    (h : s.clear name = .ok s') : Writes s s' r := by
  obtain ⟨n, hv, -⟩ := clear_eq_ok_iff.mp h
  refine ⟨n, by rw [hr, hv]; rfl, Naming.validate_idem hv, fun k hk => ?_⟩
  rw [pairOf_clear hv h, if_neg hk]

theorem resolve_writes (hv : Naming.validate name = .ok n) :
    ∃ s' e, s.resolve now name = .ok (s', e) ∧ Writes s s' (.publishSet e) ∧ e.name = n := by
  obtain ⟨s', e, hr, rfl, -, hne, -⟩ := @resolve_spec s now name n hv
  exact ⟨s', e, hr, ⟨e.name, rfl, Naming.validate_idem hv, fun k hk => pairOf_congr (hne k hk)⟩,
    rfl⟩

theorem handleGet_spec (h : handleGet s now name = .ok (s', rest)) :
    s' = s ∧ rest = none ∨ ∃ r, rest = some r ∧ Writes s s' r := by
  cases hv : Naming.validate name with
  | error err => simp [handleGet, getName, hv, bind, Except.bind] at h
  | ok n =>
    cases hrow : s.nameRegistry.get? n with
    | some e =>
      simp only [handleGet, getName_of_valid hv, resolve_of_some hv hrow, hrow, bind, Except.bind,
        pure, Except.pure, Except.ok.injEq, Prod.mk.injEq] at h
      exact Or.inl ⟨h.1.symm, h.2.symm⟩
    | none =>
      obtain ⟨t, e, hr, hw, -⟩ := @resolve_writes s now name n hv
      simp only [handleGet, getName_of_valid hv, hr, hrow, bind, Except.bind, pure, Except.pure,
        Except.ok.injEq, Prod.mk.injEq] at h
      obtain ⟨rfl, rfl⟩ := h
      exact Or.inr ⟨_, rfl, hw⟩

theorem setThenPublish_spec {p : ℤ × ℤ} (h : setThenPublish s now name p = .ok (s', rest)) :
    ∃ n, Naming.validate name = .ok n ∧ s.set now name p.1 p.2 = .ok s' ∧
      rest = some (.publishSet (setEntry n p now)) := by
  unfold setThenPublish at h
  split at h
  · rename_i n t hn ht
    cases h
    exact ⟨n, hn, ht, rfl⟩
  · cases h

theorem handlePut_spec {body : Option Json} (h : handlePut s now name body = .ok (s', rest)) :
    ∃ p, parsePair body = .ok p ∧ setThenPublish s now name p = .ok (s', rest) := by
  unfold handlePut at h
  split at h
  · cases h
  · cases h
  · rename_i p hp
    exact ⟨p, hp, h⟩

theorem opNamesSet_spec {req : Json} (h : opNamesSet text s now req = .ok (s', rest)) :
    ∃ name p, namesSetArgs text req = .ok (name, p) ∧ Bindable p.1 ∧ Bindable p.2 ∧
      setThenPublish s now name p = .ok (s', rest) := by
  unfold opNamesSet at h
  split at h
  · cases h
  · rename_i name p hargs
    split at h
    · cases h
    · rename_i hb
      obtain ⟨n, hn, -⟩ := setThenPublish_spec h
      have hbind : Bindable p.1 ∧ Bindable p.2 := by
        by_contra hnot
        exact hb ⟨by rw [hn]; rfl, hnot⟩
      exact ⟨name, p, hargs, hbind.1, hbind.2, h⟩

/-- A request changes nothing and has nothing left to do, or it writes one name and has to tell. -/
theorem first_spec (text : Json → String) (s : Store) (now : ℕ) (r : Request) :
    first text s now r = (s, none) ∨
      ∃ s' rest, first text s now r = (s', some rest) ∧ Writes s s' rest := by
  cases r with
  | get name =>
    cases h : handleGet s now name with
    | error err => exact Or.inl (by simp [first, h, Except.toOption])
    | ok x =>
      obtain ⟨s', rest⟩ := x
      obtain ⟨rfl, rfl⟩ | ⟨r, rfl, hw⟩ := handleGet_spec h
      · exact Or.inl (by simp [first, h, Except.toOption])
      · exact Or.inr ⟨s', r, by simp [first, h, Except.toOption], hw⟩
  | put name body =>
    cases h : handlePut s now name body with
    | error err => exact Or.inl (by simp [first, h, Except.toOption])
    | ok x =>
      obtain ⟨s', rest⟩ := x
      obtain ⟨p, -, hset⟩ := handlePut_spec h
      obtain ⟨n, hv, hs, rfl⟩ := setThenPublish_spec hset
      exact Or.inr ⟨s', _, by simp [first, h, Except.toOption], writes_of_set hv hs⟩
  | delete name =>
    have hr : (Rest.publishClearThenResolve name).about = (Naming.validate name).toOption := rfl
    cases h : s.clear name with
    | error err => exact Or.inl (by simp [first, handleDelete, h, bind, Except.bind,
        Except.toOption])
    | ok s' =>
      exact Or.inr ⟨s', .publishClearThenResolve name, by simp [first, handleDelete, h, bind,
        Except.bind, pure, Except.pure, Except.toOption], writes_of_clear hr h⟩
  | namesSet req =>
    cases h : opNamesSet text s now req with
    | error err => exact Or.inl (by simp [first, h, Except.toOption])
    | ok x =>
      obtain ⟨s', rest⟩ := x
      obtain ⟨name, p, -, -, -, hset⟩ := opNamesSet_spec h
      obtain ⟨n, hv, hs, rfl⟩ := setThenPublish_spec hset
      exact Or.inr ⟨s', _, by simp [first, h, Except.toOption], writes_of_set hv hs⟩
  | namesClear req =>
    by_cases ht : (req.get "name").truthy = true
    · have hr : (Rest.publishClear (Json.strOf text (req.get "name"))).about =
          (Naming.validate (Json.strOf text (req.get "name"))).toOption := rfl
      cases h : s.clear (Json.strOf text (req.get "name")) with
      | error err => exact Or.inl (by simp [first, opNamesClear, ht, h, Except.toOption])
      | ok s' =>
        exact Or.inr ⟨s', .publishClear (Json.strOf text (req.get "name")),
          by simp [first, opNamesClear, ht, h, Except.toOption], writes_of_clear hr h⟩
    · exact Or.inl (by simp [first, opNamesClear, ht, Except.toOption])

end Requests

end MbTools.Names
