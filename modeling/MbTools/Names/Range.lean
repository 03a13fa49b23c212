import MbTools.Lib.Runs
import MbTools.Names.Requests

/-! # The range of a pair

Every route writes the name table through the same unchecked method. Only `PUT`
looks at the range; a peer's values are not even converted, so what the columns
then hold is up to the database.
-/

namespace MbTools.Names

open Store

/-- What a column of the database can hold. -/
inductive Cell where
  | int (n : ℤ)
  | real (x : JsonFloat)
  | text (s : String)
  deriving DecidableEq

structure NameRow where
  channel : Cell
  group : Cell
  source : String
  updated : ℕ
  deriving DecidableEq

abbrev NameTable := Dict String NameRow

/-- What a value becomes in a column declared `INTEGER NOT NULL`; `affinity` tells it of a text.
No value is stored for what cannot be bound or is a null. -/
def stored (affinity : String → Cell) : Json → Option Cell
  | .null => none
  | .bool b => some (.int (if b then 1 else 0))
  | .int n => if Bindable n then some (.int n) else none
  | .float (.finite q) =>
    if q.den = 1 ∧ -2 ^ 63 < q.num ∧ q.num < 2 ^ 63 - 1 then some (.int q.num)
    else some (.real (.finite q))
  | .float (.inf negative) => some (.real (.inf negative))
  | .float .nan => none
  | .str s => some (affinity s)
  | .lone _ => none
  | .arr _ => none
  | .obj _ => none

def Cell.within (low high : ℤ) : Cell → Prop
  | .int n => low ≤ n ∧ n ≤ high
  | _ => False

/-- The row has a pair of integers that `!CG` takes. -/
def NameRow.InRange (r : NameRow) : Prop :=
  r.channel.within channelMin channelMax ∧ r.group.within groupMin groupMax

namespace NameTable

variable (affinity : String → Cell) (text : Json → String)

/-- The row that `Store.set` writes for these values, under its name. -/
def setRow (now : ℕ) (name channel group : Json) : Option (String × NameRow) :=
  match name with
  | .str s =>
    match Naming.validate s, stored affinity channel, stored affinity group with
    | .ok n, some c, some g => some (n, ⟨c, g, sourceRegistry, now⟩)
    | _, _, _ => none
  | _ => none

def write (t : NameTable) (row : Option (String × NameRow)) : NameTable :=
  match row with
  | some (n, r) => t.insert n r
  | none => t

def clear (t : NameTable) (name : Json) : NameTable :=
  match name with
  | .str s =>
    match Naming.validate s with
    | .ok n => Table.erase t n
    | .error _ => t
  | _ => t

/-- `Store.resolve`. -/
def resolve (t : NameTable) (now : ℕ) (name : String) : NameTable :=
  match Naming.validate name with
  | .ok n =>
    match t.lookup n with
    | some _ => t
    | none =>
      t.insert n ⟨.int (Naming.default n).1, .int (Naming.default n).2, sourceDerived, now⟩
  | .error _ => t

inductive Action where
  | request (now : ℕ) (r : Request)
  /-- The second section of `DELETE`. -/
  | derive (now : ℕ) (name : String)
  | event (now : ℕ) (e : Json)
  /-- The name entries of a snapshot whose devices have been applied, and how deep a name the log
  has room for. -/
  | snapshot (now room : ℕ) (names : List Json)

def request (t : NameTable) (now : ℕ) : Request → NameTable
  | .get name => t.resolve now name
  | .put name body =>
    match parsePair body with
    | .ok p => t.write (setRow affinity now (.str name) (.int p.1) (.int p.2))
    | .error _ => t
  | .delete name => t.clear (.str name)
  | .namesSet req =>
    match namesSetArgs text req with
    | .ok (name, p) => t.write (setRow affinity now (.str name) (.int p.1) (.int p.2))
    | .error _ => t
  | .namesClear req =>
    if (req.get "name").truthy then t.clear (.str (Json.strOf text (req.get "name"))) else t

/-- The row that a `name_set` event writes. -/
def eventRow (now : ℕ) (e : Json) : Option (String × NameRow) :=
  match e.get "type" with
  | .str "name_set" => setRow affinity now (e.get "name") (e.get "channel") (e.get "group")
  | _ => none

def event (t : NameTable) (now : ℕ) (e : Json) : NameTable :=
  match e.get "type" with
  | .str "name_set" => t.write (eventRow affinity now e)
  | .str "name_clear" => t.clear (e.get "name")
  | _ => t

def snapshotRow (now : ℕ) (d : Json) : Option (String × NameRow) :=
  setRow affinity now (d.get "name") (d.get "channel") (d.get "group")

/-- The loop over the entries goes on after this one: it is written, or what it raised is logged
with the `%r` of its name. -/
def GoesOn (room : ℕ) (d : Json) : Prop := d.isObject = true ∧ (d.get "name").depth ≤ room

instance (room : ℕ) (d : Json) : Decidable (GoesOn room d) := inferInstanceAs (Decidable (_ ∧ _))

/-- The entries of a snapshot, to its end or to the one that raises out of the loop. -/
def snapshot (t : NameTable) (now room : ℕ) : List Json → NameTable
  | [] => t
  | d :: names =>
    if GoesOn room d then snapshot (t.write (snapshotRow affinity now d)) now room names else t

def apply (t : NameTable) : Action → NameTable
  | .request now r => t.request affinity text now r
  | .derive now name => t.resolve now name
  | .event now e => t.event affinity now e
  | .snapshot now room names => t.snapshot affinity now room names

def step (t : NameTable) (a : Action) : Option NameTable := some (t.apply affinity text a)

/-- Every row holds a pair that `!CG` takes. -/
def AllInRange (t : NameTable) : Prop := ∀ n r, t.lookup n = some r → r.InRange

/-- The row a snapshot leaves at a name: of the entries before the first that the loop does not go
on after, the last one of that name that can be written. -/
def toldRow (now room : ℕ) (names : List Json) (n : String) : Option NameRow :=
  (names.takeWhile (GoesOn room)).foldl (fun v d =>
    ((snapshotRow affinity now d).filter fun q => q.1 = n).elim v fun q => some q.2) none

/-- The routes without a check are given pairs in range. -/
def Checked (_ : NameTable) : Action → Prop
  | .request now (.namesSet req) => ∀ name p, namesSetArgs text req = .ok (name, p) →
      ∀ q, setRow affinity now (.str name) (.int p.1) (.int p.2) = some q → InRange p
  | .event now e => ∀ q, eventRow affinity now e = some q → q.2.InRange
  | .snapshot now room names => ∀ n r, toldRow affinity now room names n = some r → r.InRange
  | _ => True

section Range

variable {affinity : String → Cell} {text : Json → String} {t u : NameTable} {now : ℕ}
  {name channel group : Json} {n : String} {q : String × NameRow} {a : Action}

theorem allInRange_insert {r : NameRow} (h : AllInRange t) :
    AllInRange (t.insert n r) ↔ r.InRange := by
  constructor
  · intro hi
    exact hi n r Dict.lookup_insert_self
  · intro hr k r' hk
    rcases Dict.lookup_insert_cases hk with (⟨-, rfl⟩ | hk)
    · exact hr
    · exact h k r' hk

theorem allInRange_write {row : Option (String × NameRow)} (h : AllInRange t) :
    AllInRange (t.write row) ↔ ∀ q, row = some q → q.2.InRange := by
  cases row with
  | none => exact iff_of_true h nofun
  | some q => simpa [write] using allInRange_insert h

theorem AllInRange.clear (h : AllInRange t) (name : Json) : AllInRange (t.clear name) := by
  unfold NameTable.clear
  split
  · split
    · intro k r hk
      rw [Dict.lookup_erase] at hk
      split at hk
      · cases hk
      · exact h k r hk
    · exact h
  · exact h

theorem derived_inRange (n : String) (now : ℕ) :
    (NameRow.mk (.int (Naming.default n).1) (.int (Naming.default n).2) sourceDerived
      now).InRange := by
  have hr := Naming.default_range n
  simp only [NameRow.InRange, Cell.within, channelMin, channelMax, groupMin, groupMax]
  omega

theorem AllInRange.resolve (h : AllInRange t) (now : ℕ) (name : String) :
    AllInRange (t.resolve now name) := by
  unfold NameTable.resolve
  split
  · rename_i n hn
    split
    · exact h
    · exact (allInRange_insert h).mpr (derived_inRange n now)
  · exact h

/-- Integers that the database can bind are stored as they are. -/
theorem setRow_int {s : String} {c g : ℤ}
    (h : setRow affinity now (.str s) (.int c) (.int g) = some q) :
    q.2 = ⟨.int c, .int g, sourceRegistry, now⟩ := by
  unfold setRow at h
  dsimp only at h
  split at h
  · rename_i n c' g' hn hc hg
    simp only [stored, Option.ite_none_right_eq_some, Option.some.injEq] at hc hg
    rw [← hc.2, ← hg.2] at h
    exact (congrArg Prod.snd (Option.some.inj h)).symm
  · cases h

theorem setRow_int_inRange {s : String} {c g : ℤ}
    (h : setRow affinity now (.str s) (.int c) (.int g) = some q) :
    q.2.InRange ↔ InRange (c, g) := by
  rw [setRow_int h]
  exact Iff.rfl

theorem parsePair_inRange {body : Option Json} {p : ℤ × ℤ} (h : parsePair body = .ok p) :
    InRange p := by
  unfold parsePair at h
  split at h
  · cases h
  · rename_i fields
    split at h
    · cases h
    · cases hc : wholeNumber ((Json.obj fields).get "channel") with
      | error e => simp [hc, bind, Except.bind] at h
      | ok c =>
        cases hg : wholeNumber ((Json.obj fields).get "group") with
        | error e => simp [hc, hg, bind, Except.bind] at h
        | ok g =>
          by_cases hcr : channelMin ≤ c ∧ c ≤ channelMax
          · by_cases hgr : groupMin ≤ g ∧ g ≤ groupMax
            · simp [hc, hg, hcr, hgr, bind, Except.bind, pure, Except.pure] at h
              exact h ▸ ⟨hcr, hgr⟩
            · simp [hc, hg, hcr, hgr, bind, Except.bind, throw, throwThe,
                MonadExceptOf.throw] at h
          · simp [hc, hg, hcr, bind, Except.bind, throw, throwThe, MonadExceptOf.throw] at h
  · cases h

/-- What a scan of the rows leaves at a name goes over what it began with. -/
theorem foldl_rows (names : List Json) (n : String) (v : Option NameRow) :
    names.foldl (fun v d => ((snapshotRow affinity now d).filter fun q => q.1 = n).elim v
      fun q => some q.2) v =
    (names.foldl (fun v d => ((snapshotRow affinity now d).filter fun q => q.1 = n).elim v
      fun q => some q.2) none).or v := by
  induction names generalizing v with
  | nil => rfl
  | cons d names ih =>
    rw [List.foldl_cons, List.foldl_cons, ih]
    conv_rhs => rw [ih]
    cases (snapshotRow affinity now d).filter fun q => q.1 = n with
    | none => simp
    | some q => simp

theorem lookup_write (t : NameTable) (row : Option (String × NameRow)) (n : String) :
    Dict.lookup (write t row) n =
      (row.filter fun q => q.1 = n).elim (t.lookup n) fun q => some q.2 := by
  cases row with
  | none => rfl
  | some q =>
    rw [write, Dict.lookup_insert]
    by_cases hq : q.1 = n <;> simp [hq, Option.filter]

theorem snapshot_eq_foldl (room : ℕ) (names : List Json) (t : NameTable) :
    t.snapshot affinity now room names = (names.takeWhile (GoesOn room)).foldl
      (fun t d => write t (snapshotRow affinity now d)) t := by
  induction names generalizing t with
  | nil => rfl
  | cons d names ih =>
    rw [snapshot, List.takeWhile_cons]
    by_cases h : GoesOn room d
    · rw [if_pos h, decide_eq_true h, ih]
      rfl
    · rw [if_neg h, decide_eq_false h]
      rfl

theorem lookup_snapshot (room : ℕ) (names : List Json) (t : NameTable) (n : String) :
    Dict.lookup (t.snapshot affinity now room names) n =
      (toldRow affinity now room names n).or (t.lookup n) := by
  rw [snapshot_eq_foldl, toldRow, ← foldl_rows]
  generalize names.takeWhile (GoesOn room) = l
  induction l generalizing t with
  | nil => rfl
  | cons d l ih => rw [List.foldl_cons, List.foldl_cons, ih, lookup_write]

theorem allInRange_namesSet_iff (h : AllInRange t) (req : Json) :
    AllInRange (t.request affinity text now (.namesSet req)) ↔
      Checked affinity text t (.request now (.namesSet req)) := by
  simp only [request, Checked]
  cases hargs : namesSetArgs text req with
  | error e => exact iff_of_true h nofun
  | ok args =>
    obtain ⟨name, p⟩ := args
    dsimp only
    rw [allInRange_write h]
    constructor
    · intro hall name' p' he q hq
      cases he
      exact (setRow_int_inRange hq).mp (hall q hq)
    · intro hall q hq
      exact (setRow_int_inRange hq).mpr (hall name p rfl q hq)

theorem allInRange_request_iff (h : AllInRange t) (r : Request) :
    AllInRange (t.request affinity text now r) ↔ Checked affinity text t (.request now r) := by
  cases r with
  | get name => exact iff_of_true (h.resolve now name) trivial
  | put name body =>
    refine iff_of_true ?_ trivial
    simp only [request]
    split
    · rename_i p hp
      refine (allInRange_write h).mpr fun q hq => ?_
      exact (setRow_int_inRange hq).mpr (parsePair_inRange hp)
    · exact h
  | delete name => exact iff_of_true (h.clear (.str name)) trivial
  | namesSet req => exact allInRange_namesSet_iff h req
  | namesClear req =>
    refine iff_of_true ?_ trivial
    simp only [request]
    split
    · exact h.clear _
    · exact h

theorem allInRange_event_iff (h : AllInRange t) (e : Json) :
    AllInRange (t.event affinity now e) ↔ ∀ q, eventRow affinity now e = some q → q.2.InRange := by
  unfold event
  split
  · exact allInRange_write h
  · rename_i hty
    exact iff_of_true (h.clear _) (by simp [eventRow, hty])
  · rename_i hset hclear
    have hnone : eventRow affinity now e = none := by
      unfold eventRow
      split
      · rename_i hty
        exact absurd hty hset
      · rfl
    exact iff_of_true h (by simp [hnone])

theorem allInRange_snapshot_iff (h : AllInRange t) (room : ℕ) (names : List Json) :
    AllInRange (t.snapshot affinity now room names) ↔
      ∀ n r, toldRow affinity now room names n = some r → r.InRange := by
  constructor
  · intro hall n r hr
    refine hall n r ?_
    rw [lookup_snapshot, hr]
    rfl
  · intro hall n r hr
    rw [lookup_snapshot] at hr
    cases ht : toldRow affinity now room names n with
    | some r' =>
      rw [ht] at hr
      exact Option.some.inj hr ▸ hall n r' ht
    | none =>
      rw [ht] at hr
      exact h n r hr

/-- One action keeps all pairs in range exactly when the routes without a check are given such. -/
theorem allInRange_apply_iff (h : AllInRange t) :
    AllInRange (t.apply affinity text a) ↔ Checked affinity text t a := by
  cases a with
  | request now r => exact allInRange_request_iff h r
  | derive now name => exact iff_of_true (h.resolve now name) trivial
  | event now e => exact allInRange_event_iff h e
  | snapshot now room names => exact allInRange_snapshot_iff h room names

theorem exec_isSome (affinity : String → Cell) (text : Json → String) (as : List Action)
    (t : NameTable) :
    ∃ u, Runs.exec (step affinity text) t as = some u := by
  induction as generalizing t with
  | nil => exact ⟨t, rfl⟩
  | cons a as ih =>
    obtain ⟨u, hu⟩ := ih (t.apply affinity text a)
    exact ⟨u, Runs.exec_cons.mpr ⟨_, rfl, hu⟩⟩

theorem allInRange_empty : AllInRange Table.empty := by
  intro n r h
  simp at h

def setByHand : Json :=
  .obj [("name", .str "vevov"), ("channel", .int 40), ("group", .str "4")]

/-- What a peer tells of a name, and once more behind an entry that is no object. -/
def toldTwice : List Json :=
  [.obj [("name", .str "zavaz"), ("channel", .int 7), ("group", .int 1)], .str "vevov",
    .obj [("name", .str "zavaz"), ("channel", .int 200), ("group", .int 1)]]

def setAndTold : List Action :=
  [.request 1 (.get "vevov"), .request 2 (.namesSet setByHand), .snapshot 3 900 toldTwice,
    .request 4 (.delete "vevov"), .derive 5 "vevov"]

end Range

section Reads

variable {affinity : String → Cell} {text : Json → String} {t : NameTable} {s s' : Store}
  {now : ℕ} {n name : String}

def rowOf (e : Entry) : NameRow := ⟨.int e.channel, .int e.group, e.source, e.updated⟩

/-- The table has the rows of the store, whose pairs are integers by their type. -/
def Reads (t : NameTable) (s : Store) : Prop :=
  ∀ n, t.lookup n = (s.nameRegistry.get? n).map rowOf

theorem Reads.put {e : Entry} (h : Reads t s) (hn : e.name = n) :
    Reads (t.insert n (rowOf e)) { s with nameRegistry := s.nameRegistry.put e } := by
  intro k
  rw [Dict.lookup_insert, Table.get?_put, hn, h k]
  split <;> rfl

theorem Reads.set {p : ℤ × ℤ} (h : Reads t s) (hc : Bindable p.1) (hg : Bindable p.2)
    (hv : Naming.validate name = .ok n) (hs : s.set now name p.1 p.2 = .ok s') :
    Reads (t.write (setRow affinity now (.str name) (.int p.1) (.int p.2))) s' := by
  obtain ⟨m, hm, rfl⟩ := set_eq_ok_iff.mp hs
  obtain rfl : n = m := Except.ok.inj (hv.symm.trans hm)
  have hrow : setRow affinity now (.str name) (.int p.1) (.int p.2) =
      some (n, rowOf ⟨n, p.1, p.2, sourceRegistry, now⟩) := by
    simp [setRow, hv, stored, hc, hg, NameTable.rowOf]
  rw [hrow]
  exact h.put rfl

theorem Reads.clear (h : Reads t s) (hs : s.clear name = .ok s') :
    Reads (t.clear (.str name)) s' := by
  obtain ⟨n, hv, rfl⟩ := clear_eq_ok_iff.mp hs
  intro k
  simp only [NameTable.clear, hv, Dict.lookup_erase, Table.get?_erase, h k]
  split <;> rfl

theorem Reads.resolve (h : Reads t s) (hv : Naming.validate name = .ok n) :
    ∃ s' e, s.resolve now name = .ok (s', e) ∧ Reads (t.resolve now name) s' := by
  cases hrow : s.nameRegistry.get? n with
  | some e =>
    refine ⟨s, e, resolve_of_some hv hrow, ?_⟩
    simpa only [NameTable.resolve, hv, h n, hrow, Option.map_some] using h
  | none =>
    refine ⟨_, _, resolve_of_none hv hrow, ?_⟩
    simp only [NameTable.resolve, hv, h n, hrow, Option.map_none]
    exact Reads.put (e := Store.derived n now) h rfl

theorem write_of_invalid {err : Error} {channel group : Json}
    (hv : Naming.validate name = .error err) :
    t.write (setRow affinity now (.str name) channel group) = t := by
  simp [setRow, hv, write]

/-- A set of integers the database can bind leaves the row that the store gets. -/
theorem Reads.setThenPublish {p : ℤ × ℤ} (h : Reads t s) (hc : Bindable p.1) (hg : Bindable p.2)
    (affinity : String → Cell) (now : ℕ) (name : String) :
    Reads (t.write (setRow affinity now (.str name) (.int p.1) (.int p.2)))
      ((setThenPublish s now name p).toOption.getD (s, none)).1 := by
  cases hv : Naming.validate name with
  | error err =>
    rw [write_of_invalid hv]
    simp only [Names.setThenPublish, hv]
    exact h
  | ok n =>
    cases hs : s.set now name p.1 p.2 with
    | error err =>
      obtain ⟨s', hs'⟩ : ∃ s', s.set now name p.1 p.2 = .ok s' :=
        ⟨_, set_eq_ok_iff.mpr ⟨n, hv, rfl⟩⟩
      rw [hs] at hs'
      cases hs'
    | ok s' =>
      simp only [Names.setThenPublish, hv, hs]
      exact h.set hc hg hv hs

theorem Reads.clearWith (h : Reads t s) (name : String) (rest : Option Rest) :
    Reads (t.clear (.str name))
      (((s.clear name).toOption.map fun s' => (s', rest)).getD (s, none)).1 := by
  cases hs : s.clear name with
  | ok s' => exact h.clear hs
  | error err =>
    cases hv : Naming.validate name with
    | error err' =>
      simp only [NameTable.clear, hv]
      exact h
    | ok n =>
      rw [clear_eq_ok_iff.mpr ⟨n, hv, rfl⟩] at hs
      cases hs

theorem write_of_not_bindable {c g : ℤ} (h : ¬ (Bindable c ∧ Bindable g)) :
    t.write (setRow affinity now (.str name) (.int c) (.int g)) = t := by
  have hnone : setRow affinity now (.str name) (.int c) (.int g) = none := by
    simp only [setRow, stored]
    split
    · rename_i c' g' hn hc hg
      simp only [Option.ite_none_right_eq_some] at hc hg
      exact absurd ⟨hc.1, hg.1⟩ h
    · rfl
  rw [hnone, write]

theorem Reads.handleGet (h : Reads t s) (affinity : String → Cell) (name : String) :
    Reads (t.request affinity text now (.get name)) (first text s now (.get name)).1 := by
  simp only [request, first, Names.handleGet]
  cases hv : Naming.validate name with
  | error err =>
    simp only [NameTable.resolve, getName, hv]
    exact h
  | ok n =>
    obtain ⟨s', e, hs, hr⟩ := @Reads.resolve t s now n name h hv
    simp only [getName_of_valid hv, hs]
    exact hr

theorem bindable_of_inRange {p : ℤ × ℤ} (h : InRange p) : Bindable p.1 ∧ Bindable p.2 := by
  simp only [InRange, channelMin, channelMax, groupMin, groupMax] at h
  unfold Bindable
  omega

theorem Reads.handlePut (h : Reads t s) (affinity : String → Cell) (name : String)
    (body : Option Json) : Reads (t.request affinity text now (.put name body))
      (first text s now (.put name body)).1 := by
  simp only [request, first, Names.handlePut]
  cases hp : parsePair body with
  | error e => cases e <;> exact h
  | ok p =>
    obtain ⟨hc, hg⟩ := bindable_of_inRange (parsePair_inRange hp)
    exact h.setThenPublish hc hg affinity now name

theorem Reads.opNamesSet (h : Reads t s) (affinity : String → Cell) (req : Json) :
    Reads (t.request affinity text now (.namesSet req)) (first text s now (.namesSet req)).1 := by
  simp only [request, first, Names.opNamesSet]
  cases hargs : namesSetArgs text req with
  | error e => exact h
  | ok args =>
    obtain ⟨name, p⟩ := args
    dsimp only
    by_cases hb : Bindable p.1 ∧ Bindable p.2
    · rw [if_neg fun hn => hn.2 hb]
      exact h.setThenPublish hb.1 hb.2 affinity now name
    · rw [write_of_not_bindable hb]
      split
      · exact h
      · rename_i hok
        cases hv : Naming.validate name with
        | ok n => exact absurd ⟨by rw [hv]; rfl, hb⟩ hok
        | error err =>
          simp only [Names.setThenPublish, hv]
          exact h

/-- Every request leaves the rows as its handler leaves those of the store. -/
theorem request_reads (affinity : String → Cell) (text : Json → String) (now : ℕ) (r : Request)
    (h : Reads t s) : Reads (t.request affinity text now r) (first text s now r).1 := by
  cases r with
  | get name => exact h.handleGet affinity name
  | put name body => exact h.handlePut affinity name body
  | delete name =>
    have hd := h.clearWith name (some (.publishClearThenResolve name))
    simp only [request, first, handleDelete]
    cases hs : s.clear name with
    | error err =>
      rw [hs] at hd
      exact hd
    | ok s' =>
      rw [hs] at hd
      exact hd
  | namesSet req => exact h.opNamesSet affinity req
  | namesClear req =>
    simp only [request, first, opNamesClear]
    by_cases ht : (req.get "name").truthy = true
    · have hd := h.clearWith (Json.strOf text (req.get "name"))
        (some (.publishClear (Json.strOf text (req.get "name"))))
      simp only [ht, if_true]
      cases hs : s.clear (Json.strOf text (req.get "name")) with
      | error err =>
        rw [hs] at hd
        exact hd
      | ok s' =>
        rw [hs] at hd
        exact hd
    · simp only [ht]
      exact h

end Reads

end NameTable

end MbTools.Names
