import MbTools.Lib.Runs
import MbTools.Lib.Table

/-! # Opening the database

Each `Store` that is opened brings the file to the schema of its version, statement by statement,
and each statement is a transaction of its own. Stores are opened at the same time, and
a process may die between any two statements.
-/

namespace MbTools.Schema

/-- A table; a row gives `none` for `NULL`. -/
structure Relation (ν : Type) where
  columns : List String
  rows : List (String → Option ν)

structure Database (ν : Type) where
  device : Option (Relation ν)
  peer : Option (Relation ν)
  nameRegistry : Option (Relation ν)

/-- The columns of `_SCHEMA`. -/
def schema : List String :=
  ["uid", "short_uid", "port", "vid_pid", "role", "common_name", "device_name", "serial_payload",
    "raw_announcement", "state", "error_note", "flash_count", "first_seen", "last_seen",
    "last_probe"]

def newDeviceColumns : List String := ["host", "remote_lock_kind", "remote_lock_display"]

def chipIdentityColumns : List String := ["chip_identity_name", "chip_identity_serial"]

def migrated : List String := newDeviceColumns ++ chipIdentityColumns

def peerSchema : List String := ["host", "endpoint", "last_seen", "reachable"]

def nameRegistrySchema : List String := ["name", "channel", "radio_group", "source", "updated"]

/-- The columns that `_row_to_record` reads. -/
def recordColumns : List String :=
  ["uid", "short_uid", "port", "vid_pid", "role", "common_name", "device_name", "serial_payload",
    "raw_announcement", "state", "error_note", "host", "remote_lock_kind", "remote_lock_display",
    "chip_identity_name", "chip_identity_serial", "flash_count", "first_seen", "last_seen",
    "last_probe"]

variable {ν : Type}

/-- `CREATE TABLE IF NOT EXISTS` -/
def createIfMissing (columns : List String) (t : Option (Relation ν)) : Option (Relation ν) :=
  some (t.getD ⟨columns, []⟩)

namespace Relation

/-- `ALTER TABLE ... ADD COLUMN`, of several columns: every row has `NULL` there. -/
def extend (t : Relation ν) (added : List String) : Relation ν where
  columns := t.columns ++ added
  rows := t.rows.map fun r c => if c ∈ added then none else r c

theorem extend_nil (t : Relation ν) : t.extend [] = t := by
  simp [extend]

theorem extend_extend (t : Relation ν) (as bs : List String) :
    (t.extend as).extend bs = t.extend (as ++ bs) := by
  simp only [extend, List.append_assoc, List.map_map, List.mem_append, mk.injEq, true_and]
  refine List.map_congr_left fun r _ => funext fun c => ?_
  by_cases ha : c ∈ as <;> by_cases hb : c ∈ bs <;> simp [ha, hb]

end Relation

/-- How far an opening has come. -/
inductive Phase where
  | connected
  | made
  /-- The columns that were missing and have not been added yet. -/
  | adding (todo : List String)
  | naming
  | opened
  | failed
  deriving DecidableEq, Repr

/-- The file and the stores that are open or being opened. -/
structure Opening (ν : Type) where
  db : Database ν
  openers : Dict ℕ Phase

inductive Action where
  | connect (i : ℕ)
  | turn (i : ℕ)
  /-- The process dies, or closes its store. -/
  | gone (i : ℕ)
  deriving DecidableEq, Repr

/-- The next statement of `__init__`, with the phase after it. -/
def turn (db : Database ν) : Phase → Option (Database ν × Phase)
  | .connected => some ({ db with device := createIfMissing schema db.device }, .made)
  | .made =>
    let existing := (db.device.map Relation.columns).getD []
    some (db, .adding (migrated.filter (· ∉ existing)))
  | .adding (c :: todo) =>
    match db.device with
    | some t =>
      if c ∈ t.columns then some (db, .failed)
      else some ({ db with device := some (t.extend [c]) }, .adding todo)
    | none => some (db, .failed)
  | .adding [] => some ({ db with peer := createIfMissing peerSchema db.peer }, .naming)
  | .naming =>
    some ({ db with nameRegistry := createIfMissing nameRegistrySchema db.nameRegistry }, .opened)
  | .opened | .failed => none

def step (s : Opening ν) : Action → Option (Opening ν)
  | .connect i =>
    match s.openers.lookup i with
    | none => some { s with openers := s.openers.insert i .connected }
    | some _ => none
  | .turn i =>
    match s.openers.lookup i with
    | some phase => (turn s.db phase).map fun x => ⟨x.1, s.openers.insert i x.2⟩
    | none => none
  | .gone i => some { s with openers := s.openers.erase i }

/-! ## What an opening does to the file -/

/-- A table is as it was, or has been made and has got more columns, with `NULL` in every row. -/
def Grows (columns more : List String) (old new : Option (Relation ν)) : Prop :=
  new = old ∨ ∃ added, (∀ c ∈ added, c ∈ more ∧ c ∉ (old.getD ⟨columns, []⟩).columns) ∧
    new = some ((old.getD ⟨columns, []⟩).extend added)

theorem Grows.refl (columns more : List String) (t : Option (Relation ν)) :
    Grows columns more t t := Or.inl rfl

theorem Grows.trans {columns more : List String} {a b c : Option (Relation ν)}
    (hab : Grows columns more a b) (hbc : Grows columns more b c) : Grows columns more a c := by
  rcases hab with rfl | ⟨as, has, rfl⟩
  · exact hbc
  · rcases hbc with rfl | ⟨bs, hbs, rfl⟩
    · exact Or.inr ⟨as, has, rfl⟩
    · refine Or.inr ⟨as ++ bs, fun c hc => ?_, by rw [Option.getD_some, Relation.extend_extend]⟩
      rcases List.mem_append.mp hc with hc | hc
      · exact has c hc
      · obtain ⟨hmore, hnot⟩ := hbs c hc
        refine ⟨hmore, fun hold => hnot ?_⟩
        exact List.mem_append_left _ hold

theorem grows_createIfMissing (columns more : List String) (t : Option (Relation ν)) :
    Grows columns more t (createIfMissing columns t) :=
  Or.inr ⟨[], by simp, by rw [Relation.extend_nil, createIfMissing]⟩

structure Grown (db db' : Database ν) : Prop where
  device : Grows schema migrated db.device db'.device
  peer : Grows peerSchema [] db.peer db'.peer
  nameRegistry : Grows nameRegistrySchema [] db.nameRegistry db'.nameRegistry

theorem Grown.refl (db : Database ν) : Grown db db :=
  ⟨Grows.refl _ _ _, Grows.refl _ _ _, Grows.refl _ _ _⟩

theorem Grown.trans {a b c : Database ν} (hab : Grown a b) (hbc : Grown b c) : Grown a c :=
  ⟨hab.device.trans hbc.device, hab.peer.trans hbc.peer, hab.nameRegistry.trans hbc.nameRegistry⟩

/-- A table with the columns. -/
def Has (columns : List String) (t : Option (Relation ν)) : Prop :=
  ∃ r, t = some r ∧ columns ⊆ r.columns

theorem Has.grows {cs columns more : List String} {a b : Option (Relation ν)}
    (h : Has cs a) (hab : Grows columns more a b) : Has cs b := by
  rcases hab with rfl | ⟨added, -, rfl⟩
  · exact h
  · obtain ⟨r, rfl, hr⟩ := h
    exact ⟨_, rfl, fun c hc => List.mem_append_left _ (hr hc)⟩

theorem has_createIfMissing {columns : List String} {t : Option (Relation ν)}
    (h : t ≠ none → Has columns t) : Has columns (createIfMissing columns t) := by
  cases t with
  | none => exact ⟨_, rfl, fun c hc => hc⟩
  | some r => exact h (by simp)

/-- A file that some version of the program has made. -/
structure Legacy (db : Database ν) : Prop where
  device : db.device ≠ none → Has schema db.device
  peer : db.peer ≠ none → Has peerSchema db.peer
  nameRegistry : db.nameRegistry ≠ none → Has nameRegistrySchema db.nameRegistry

theorem has_of_grows {columns more : List String} {a b : Option (Relation ν)}
    (h : a ≠ none → Has columns a) (hab : Grows columns more a b) : b ≠ none → Has columns b := by
  rcases hab with rfl | ⟨added, -, rfl⟩
  · exact h
  · rintro -
    cases a with
    | none => exact ⟨_, rfl, fun c hc => List.mem_append_left _ hc⟩
    | some r =>
      obtain ⟨r', hr', hsub⟩ := h (by simp)
      obtain rfl := Option.some.inj hr'
      exact ⟨_, rfl, fun c hc => List.mem_append_left _ (hsub hc)⟩

theorem Legacy.grown {db db' : Database ν} (h : Legacy db) (hg : Grown db db') : Legacy db' :=
  ⟨has_of_grows h.device hg.device, has_of_grows h.peer hg.peer,
    has_of_grows h.nameRegistry hg.nameRegistry⟩

/-- The schema of this version. -/
structure Full (db : Database ν) : Prop where
  device : Has recordColumns db.device
  peer : Has peerSchema db.peer
  nameRegistry : Has nameRegistrySchema db.nameRegistry

/-- What an opening that has come to a phase can rely on. -/
def Reached (db : Database ν) : Phase → Prop
  | .connected | .failed => True
  | .made => Has schema db.device
  | .adding todo =>
    todo ⊆ migrated ∧ Has schema db.device ∧ Has (migrated.filter (· ∉ todo)) db.device
  | .naming => Has recordColumns db.device ∧ Has peerSchema db.peer
  | .opened => Full db

theorem Reached.grown {db db' : Database ν} {p : Phase} (h : Reached db p) (hg : Grown db db') :
    Reached db' p := by
  cases p with
  | connected => trivial
  | failed => trivial
  | made => exact Has.grows h hg.device
  | adding todo => exact ⟨h.1, h.2.1.grows hg.device, h.2.2.grows hg.device⟩
  | naming => exact ⟨h.1.grows hg.device, h.2.grows hg.peer⟩
  | opened => exact ⟨h.device.grows hg.device, h.peer.grows hg.peer,
      h.nameRegistry.grows hg.nameRegistry⟩

theorem has_append {as bs : List String} {t : Option (Relation ν)} (ha : Has as t)
    (hb : Has bs t) : Has (as ++ bs) t := by
  obtain ⟨r, rfl, hr⟩ := ha
  obtain ⟨r', hr', hsub⟩ := hb
  obtain rfl := Option.some.inj hr'
  exact ⟨r, rfl, List.append_subset.mpr ⟨hr, hsub⟩⟩

theorem Has.mono {as bs : List String} {t : Option (Relation ν)} (h : Has as t) (hsub : bs ⊆ as) :
    Has bs t := by
  obtain ⟨r, rfl, hr⟩ := h
  exact ⟨r, rfl, fun c hc => hr (hsub hc)⟩

theorem turn_grown {db db' : Database ν} {p p' : Phase} (hl : Legacy db) (h : Reached db p)
    (ht : turn db p = some (db', p')) : Grown db db' ∧ Reached db' p' := by
  cases p with
  | connected =>
    cases ht
    exact ⟨⟨grows_createIfMissing _ _ _, Grows.refl _ _ _, Grows.refl _ _ _⟩,
      has_createIfMissing hl.device⟩
  | made =>
    cases ht
    refine ⟨Grown.refl _, List.filter_subset_self _, h, ?_⟩
    obtain ⟨r, hr, -⟩ := h
    refine ⟨r, hr, fun c hc => ?_⟩
    simp only [hr, Option.map_some, Option.getD_some, List.mem_filter, decide_eq_true_eq,
      not_and, not_not] at hc
    exact hc.2 hc.1
  | adding todo =>
    cases todo with
    | nil =>
      cases ht
      refine ⟨⟨Grows.refl _ _ _, grows_createIfMissing _ _ _, Grows.refl _ _ _⟩, ?_,
        has_createIfMissing hl.peer⟩
      exact (has_append h.2.1 h.2.2).mono (by decide)
    | cons c todo =>
      obtain ⟨htodo, ⟨r, hr, hschema⟩, r', hr', hsub⟩ := h
      obtain rfl := Option.some.inj (hr.symm.trans hr')
      simp only [turn, hr] at ht
      split at ht
      · cases ht
        exact ⟨Grown.refl _, trivial⟩
      · rename_i hc
        cases ht
        refine ⟨⟨Or.inr ⟨[c], ?_, by rw [hr]; rfl⟩, Grows.refl _ _ _, Grows.refl _ _ _⟩,
          fun c' hc' => htodo (List.mem_cons_of_mem _ hc'), ⟨_, rfl, ?_⟩, _, rfl, ?_⟩
        · rw [hr]
          rintro c' hc'
          obtain rfl := List.mem_singleton.mp hc'
          exact ⟨htodo List.mem_cons_self, hc⟩
        · exact fun c' hc' => List.mem_append_left _ (hschema hc')
        · intro c' hc'
          by_cases hcc : c' = c
          · subst hcc
            exact List.mem_append_right _ List.mem_cons_self
          · refine List.mem_append_left _ (hsub ?_)
            simpa [hcc] using hc'
  | naming =>
    cases ht
    exact ⟨⟨Grows.refl _ _ _, Grows.refl _ _ _, grows_createIfMissing _ _ _⟩, h.1, h.2,
      has_createIfMissing hl.nameRegistry⟩
  | opened => cases ht
  | failed => cases ht

/-! ## Every run -/

/-- What every run of openings keeps, from the file `db₀`. -/
structure Sound (db₀ : Database ν) (s : Opening ν) : Prop where
  grown : Grown db₀ s.db
  reached : ∀ i p, s.openers.lookup i = some p → Reached s.db p

variable {db₀ : Database ν} {s s' : Opening ν} {a : Action} {as : List Action}

theorem Sound.step (hl : Legacy db₀) (h : Sound db₀ s) (hs : step s a = some s') :
    Sound db₀ s' := by
  cases a with
  | connect i =>
    rw [Schema.step] at hs
    split at hs
    · cases hs
      refine ⟨h.grown, fun j p hj => ?_⟩
      rcases Dict.lookup_insert_cases hj with ⟨-, rfl⟩ | hj
      · trivial
      · exact h.reached j p hj
    · cases hs
  | turn i =>
    rw [Schema.step] at hs
    split at hs
    · rename_i phase hi
      obtain ⟨⟨db', p'⟩, ht, rfl⟩ := Option.map_eq_some_iff.mp hs
      obtain ⟨hg, hr⟩ := turn_grown (hl.grown h.grown) (h.reached i phase hi) ht
      refine ⟨h.grown.trans hg, fun j p hj => ?_⟩
      rcases Dict.lookup_insert_cases hj with ⟨-, rfl⟩ | hj
      · exact hr
      · exact (h.reached j p hj).grown hg
    · cases hs
  | gone i =>
    cases hs
    exact ⟨h.grown, fun j p hj => h.reached j p (Dict.lookup_erase_eq_some hj).2⟩

def start (db : Database ν) : Opening ν := ⟨db, Table.empty⟩

theorem sound_of_exec (hl : Legacy db₀) (hr : Runs.exec step (start db₀) as = some s) :
    Sound db₀ s :=
  Runs.inv_of_exec (fun _ _ _ => Sound.step hl) ⟨Grown.refl _, by rintro i p ⟨⟩⟩ hr

/-! ## When an opening fails -/

/-- Under way: not yet opened, and not failed. -/
def Phase.active : Phase → Bool
  | .opened | .failed => false
  | _ => true

/-- A store is opened only while no other is being opened. -/
def Alone (s : Opening ν) : Action → Prop
  | .connect _ => ∀ r ∈ s.openers.rows, r.2.active = false
  | _ => True

instance (s : Opening ν) : ∀ a, Decidable (Alone s a)
  | .connect _ => inferInstanceAs (Decidable (∀ r ∈ s.openers.rows, r.2.active = false))
  | .turn _ | .gone _ => isTrue trivial

/-- The columns an opening is about to add are not there. -/
def Clear (db : Database ν) : Phase → Prop
  | .adding todo => todo.Nodup ∧ ∃ t, db.device = some t ∧ ∀ c ∈ todo, c ∉ t.columns
  | .failed => False
  | _ => True

/-- What holds as long as no two stores are being opened at once. -/
structure Undisturbed (s : Opening ν) : Prop where
  one : ∀ i j p q, s.openers.lookup i = some p → s.openers.lookup j = some q →
    p.active = true → q.active = true → i = j
  clear : ∀ i p, s.openers.lookup i = some p → Clear s.db p

theorem turn_clear {db db' : Database ν} {p p' : Phase} (h : Clear db p) (hd : Reached db p)
    (ht : turn db p = some (db', p')) : p.active = true ∧ Clear db' p' := by
  cases p with
  | connected =>
    cases ht
    exact ⟨rfl, trivial⟩
  | made =>
    cases ht
    obtain ⟨t, ht, -⟩ := hd
    refine ⟨rfl, (by decide : migrated.Nodup).filter _, t, ht, fun c hc => ?_⟩
    simpa [ht] using (List.mem_filter.mp hc).2
  | adding todo =>
    cases todo with
    | nil =>
      cases ht
      exact ⟨rfl, trivial⟩
    | cons c todo =>
      obtain ⟨hnodup, t, hdev, hnot⟩ := h
      rw [List.nodup_cons] at hnodup
      simp only [turn, hdev, if_neg (hnot c List.mem_cons_self)] at ht
      cases ht
      refine ⟨rfl, hnodup.2, _, rfl, fun c' hc' => ?_⟩
      rw [Relation.extend, List.mem_append, List.mem_singleton]
      rintro (hold | rfl)
      · exact hnot c' (List.mem_cons_of_mem _ hc') hold
      · exact hnodup.1 hc'
  | naming =>
    cases ht
    exact ⟨rfl, trivial⟩
  | opened => cases ht
  | failed => cases ht

theorem clear_of_inactive {db db' : Database ν} {p : Phase} (h : Clear db p)
    (hp : p.active = false) : Clear db' p := by
  cases p with
  | opened => trivial
  | failed => exact h
  | connected => cases hp
  | made => cases hp
  | adding todo => cases hp
  | naming => cases hp

theorem Undisturbed.step (h : Undisturbed s) (hsound : Sound db₀ s) (hok : Alone s a)
    (hs : step s a = some s') : Undisturbed s' := by
  cases a with
  | connect i =>
    rw [Schema.step] at hs
    split at hs
    · cases hs
      have hidle : ∀ j q, s.openers.lookup j = some q → q.active = false := fun j q hj =>
        hok (j, q) (Dict.mem_rows_iff_lookup.mpr hj)
      refine ⟨fun j k p q hj hk hp hq => ?_, fun j p hj => ?_⟩
      · rcases Dict.lookup_insert_cases hj with ⟨rfl, -⟩ | hj
        · rcases Dict.lookup_insert_cases hk with ⟨rfl, -⟩ | hk
          · rfl
          · exact absurd (hq.symm.trans (hidle k q hk)) (by decide)
        · exact absurd (hp.symm.trans (hidle j p hj)) (by decide)
      · rcases Dict.lookup_insert_cases hj with ⟨-, rfl⟩ | hj
        · trivial
        · exact h.clear j p hj
    · cases hs
  | turn i =>
    rw [Schema.step] at hs
    split at hs
    · rename_i phase hi
      obtain ⟨⟨db', p'⟩, ht, rfl⟩ := Option.map_eq_some_iff.mp hs
      obtain ⟨hactive, hclear⟩ := turn_clear (h.clear i phase hi) (hsound.reached i phase hi) ht
      have hone : ∀ j q, s.openers.lookup j = some q → q.active = true → i = j :=
        fun j q hj hq => h.one i j phase q hi hj hactive hq
      refine ⟨fun j k p q hj hk hp hq => ?_, fun j p hj => ?_⟩
      · have hij : i = j := by
          rcases Dict.lookup_insert_cases hj with ⟨hij, -⟩ | hj
          · exact hij
          · exact hone j p hj hp
        have hik : i = k := by
          rcases Dict.lookup_insert_cases hk with ⟨hik, -⟩ | hk
          · exact hik
          · exact hone k q hk hq
        exact hij.symm.trans hik
      · by_cases hij : i = j
        · subst hij
          rw [Dict.lookup_insert_self] at hj
          exact Option.some.inj hj ▸ hclear
        · rw [Dict.lookup_insert_of_ne hij] at hj
          refine clear_of_inactive (h.clear j p hj) ?_
          by_contra hp
          exact hij (hone j p hj (by simpa using hp))
    · cases hs
  | gone i =>
    cases hs
    exact ⟨fun j k p q hj hk => h.one j k p q (Dict.lookup_erase_eq_some hj).2
      (Dict.lookup_erase_eq_some hk).2, fun j p hj => h.clear j p (Dict.lookup_erase_eq_some hj).2⟩

/-- A file that has the schema already is left alone. -/
structure Untouched (db₀ : Database ν) (s : Opening ν) : Prop where
  db : s.db = db₀
  phase : ∀ i p, s.openers.lookup i = some p → p ≠ .failed ∧ ∀ todo, p = .adding todo → todo = []

theorem createIfMissing_of_has {cs columns : List String} {t : Option (Relation ν)}
    (h : Has cs t) : createIfMissing columns t = t := by
  obtain ⟨r, rfl, -⟩ := h
  rfl

theorem turn_full {db' : Database ν} {p p' : Phase} (hfull : Full db₀)
    (hp : ∀ todo, p = .adding todo → todo = []) (ht : turn db₀ p = some (db', p')) :
    db' = db₀ ∧ p' ≠ .failed ∧ ∀ todo, p' = .adding todo → todo = [] := by
  cases p with
  | connected =>
    cases ht
    rw [createIfMissing_of_has hfull.device]
    exact ⟨rfl, by simp, by simp⟩
  | made =>
    cases ht
    refine ⟨rfl, by simp, fun todo htodo => ?_⟩
    obtain ⟨r, hr, hsub⟩ := hfull.device
    obtain rfl := Phase.adding.inj htodo
    rw [List.filter_eq_nil_iff]
    intro c hc
    have hmem : c ∈ recordColumns := (by decide : migrated ⊆ recordColumns) hc
    simpa [hr] using hsub hmem
  | adding todo =>
    obtain rfl := hp todo rfl
    cases ht
    rw [createIfMissing_of_has hfull.peer]
    exact ⟨rfl, by simp, by simp⟩
  | naming =>
    cases ht
    rw [createIfMissing_of_has hfull.nameRegistry]
    exact ⟨rfl, by simp, by simp⟩
  | opened => cases ht
  | failed => cases ht

theorem Untouched.step (hfull : Full db₀) (h : Untouched db₀ s) (hs : step s a = some s') :
    Untouched db₀ s' := by
  cases a with
  | connect i =>
    rw [Schema.step] at hs
    split at hs
    · cases hs
      refine ⟨h.db, fun j p hj => ?_⟩
      rcases Dict.lookup_insert_cases hj with ⟨-, rfl⟩ | hj
      · exact ⟨by simp, by simp⟩
      · exact h.phase j p hj
    · cases hs
  | turn i =>
    rw [Schema.step] at hs
    split at hs
    · rename_i phase hi
      obtain ⟨⟨db', p'⟩, ht, rfl⟩ := Option.map_eq_some_iff.mp hs
      rw [h.db] at ht
      obtain ⟨hdb, hp'⟩ := turn_full hfull (h.phase i phase hi).2 ht
      refine ⟨hdb, fun j p hj => ?_⟩
      rcases Dict.lookup_insert_cases hj with ⟨-, rfl⟩ | hj
      · exact hp'
      · exact h.phase j p hj
    · cases hs
  | gone i =>
    cases hs
    exact ⟨h.db, fun j p hj => h.phase j p (Dict.lookup_erase_eq_some hj).2⟩

/-- Whichever version made the file, and however many stores are opened on it or die on the way:
no table, column or row is lost and new columns are `NULL`; a store that has been opened has
the whole schema under it, then and later; a file that has it already is not changed and no
opening of it fails; and none fails unless two are under way at once. -/
theorem opening_migrates (hl : Legacy db₀) (hr : Runs.exec step (start db₀) as = some s) :
    Grown db₀ s.db ∧ (∀ i, s.openers.lookup i = some .opened → Full s.db) ∧
      (Full db₀ → s.db = db₀ ∧ ∀ i, s.openers.lookup i ≠ some .failed) ∧
      (Runs.Meets step Alone (start db₀) as → ∀ i, s.openers.lookup i ≠ some .failed) := by
  have hsound := sound_of_exec hl hr
  refine ⟨hsound.grown, fun i hi => hsound.reached i _ hi, fun hfull => ?_, fun hok i hi => ?_⟩
  · have huntouched : Untouched db₀ s :=
      Runs.inv_of_exec (fun _ _ _ => Untouched.step hfull) ⟨rfl, by rintro i p ⟨⟩⟩ hr
    exact ⟨huntouched.db, fun i hi => (huntouched.phase i _ hi).1 rfl⟩
  · have hstep : ∀ (t : Opening ν) (a : Action) (t' : Opening ν),
        Sound db₀ t ∧ Undisturbed t → Alone t a → step t a = some t' →
          Sound db₀ t' ∧ Undisturbed t' :=
      fun _ _ _ h hok hs => ⟨h.1.step hl hs, h.2.step h.1 hok hs⟩
    have hstart : Sound db₀ (start db₀) ∧ Undisturbed (start db₀) :=
      ⟨⟨Grown.refl _, by rintro i p ⟨⟩⟩, by rintro i j p q ⟨⟩, by rintro i p ⟨⟩⟩
    exact (Runs.inv_of_meets hstep hstart hok hr).2.clear i _ hi

/-- A file of the first version, with one row. -/
def firstVersion : Database ℕ :=
  ⟨some ⟨schema, [fun c => if c = "uid" then some 9900 else none]⟩, none, none⟩

theorem legacy_firstVersion : Legacy firstVersion :=
  ⟨fun _ => ⟨_, rfl, fun _ hc => hc⟩, fun h => absurd rfl h, fun h => absurd rfl h⟩

/-- The first process dies after the first column, the second opens the file. -/
def interrupted : List Action :=
  [.connect 1, .turn 1, .turn 1, .turn 1, .gone 1, .connect 2] ++ List.replicate 8 (.turn 2)

def reopened : Opening ℕ := (Runs.exec step (start firstVersion) interrupted).getD
  (start firstVersion)

theorem reopened_migrates : Grown firstVersion reopened.db ∧
    (∀ i, reopened.openers.lookup i = some .opened → Full reopened.db) ∧
    (Full firstVersion → reopened.db = firstVersion ∧
      ∀ i, reopened.openers.lookup i ≠ some .failed) ∧
    (Runs.Meets step Alone (start firstVersion) interrupted →
      ∀ i, reopened.openers.lookup i ≠ some .failed) :=
  opening_migrates legacy_firstVersion (by rfl)

example : reopened.openers.lookup 2 = some .opened := by rfl

end MbTools.Schema
