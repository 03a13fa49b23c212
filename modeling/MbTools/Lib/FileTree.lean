import Mathlib.Data.List.Infix
import Mathlib.Tactic.Common
import MbTools.Lib.Table

/-! # Directories and files

A tree of directories and files under POSIX paths, without links. A path is a list of names
from the root; `..` is a name that leads up, and each name but the last has to be that of a
directory.
-/

namespace MbTools.Files

abbrev Name := List Char
abbrev Path := List Name
abbrev Bytes := List UInt8

inductive Node where
  | dir
  | file (data : Bytes)
  deriving DecidableEq

inductive OSError where
  | fileNotFound
  | notADirectory
  | fileExists
  | isADirectory
  | other (errno : ℕ)
  deriving DecidableEq

def dotdot : Name := ['.', '.']

/-- A name that leads from a directory to what is in it. -/
def Plain (name : Name) : Prop := name ≠ [] ∧ name ≠ ['.'] ∧ name ≠ dotdot ∧ '/' ∉ name

instance (name : Name) : Decidable (Plain name) := inferInstanceAs (Decidable (_ ∧ _ ∧ _ ∧ _))

/-- The names in a text: no empty ones, and no `.`. -/
def parts (text : List Char) : Path := (text.splitOn '/').filter fun c => c ≠ [] ∧ c ≠ ['.']

/-- `path / text` -/
def join (path : Path) (text : List Char) : Path :=
  if text.head? = some '/' then parts text else path ++ parts text

theorem parts_of_plain {text : List Char} (h : ∀ c ∈ text.splitOn '/', Plain c) :
    parts text = text.splitOn '/' := by
  rw [parts, List.filter_eq_self]
  intro c hc
  simp [(h c hc).1, (h c hc).2.1]

/-- A text of plain names leads on from where it is joined. -/
theorem join_of_plain {text : List Char} (path : Path) (h : ∀ c ∈ text.splitOn '/', Plain c) :
    join path text = path ++ text.splitOn '/' := by
  rw [join, parts_of_plain h, if_neg]
  intro hhead
  obtain ⟨rest, rfl⟩ := List.head?_eq_some_iff.mp hhead
  have hsplit := List.splitOn_append_cons_self (a := '/') [] rest
  rw [List.nil_append] at hsplit
  exact (h [] (by rw [hsplit]; simp)).1 rfl

theorem splitOn_of_plain {name : Name} (h : Plain name) : name.splitOn '/' = [name] :=
  List.splitOn_eq_singleton h.2.2.2

theorem join_plain {name : Name} (path : Path) (h : Plain name) :
    join path name = path ++ [name] := by
  have hsplit := splitOn_of_plain h
  rw [join_of_plain path (by simpa [hsplit] using h), hsplit]

theorem dotdot_notMem {path : Path} (h : ∀ c ∈ path, Plain c) : dotdot ∉ path :=
  fun hc => (h _ hc).2.2.1 rfl

/-- What is where, and where each thing is is a directory. -/
structure Tree where
  nodes : Dict Path Node
  closed : ∀ loc, loc ≠ [] → nodes.lookup loc ≠ none → loc.dropLast ≠ [] →
    nodes.lookup loc.dropLast = some .dir
  deriving DecidableEq

namespace Tree

variable {t : Tree} {loc loc' : Path} {n : Node}

def node (t : Tree) (loc : Path) : Option Node :=
  if loc = [] then some .dir else t.nodes.lookup loc

@[simp] theorem node_nil (t : Tree) : t.node [] = some .dir := rfl

theorem dir_of_node (h : t.node loc ≠ none) : loc = [] ∨ t.node loc.dropLast = some .dir := by
  unfold node at h ⊢
  by_cases hloc : loc = []
  · exact .inl hloc
  · rw [if_neg hloc] at h
    refine .inr ?_
    split
    · rfl
    · exact t.closed loc hloc h ‹_›

theorem dir_of_append {rest : Path} (h : t.node (loc ++ rest) ≠ none) (hrest : rest ≠ []) :
    t.node loc = some .dir := by
  induction rest using List.reverseRecOn with
  | nil => exact absurd rfl hrest
  | append_singleton rest c ih =>
    have hdir : t.node (loc ++ rest) = some .dir := by
      have h := (dir_of_node h).resolve_left (by simp)
      rwa [← List.append_assoc, List.dropLast_concat] at h
    by_cases hr : rest = []
    · rwa [hr, List.append_nil] at hdir
    · exact ih (by simp [hdir]) hr

/-- Nothing but the root. -/
def bare : Tree := ⟨Table.empty, by simp⟩

theorem not_file_above {p : Path} {data : Bytes} (h : t.node loc ≠ none) (hp : p <+: loc)
    (hne : p ≠ loc) : t.node p ≠ some (.file data) := by
  obtain ⟨rest, rfl⟩ := hp
  rw [dir_of_append h fun hr => hne (by rw [hr, List.append_nil])]
  simp

/-- A thing put into a directory, where no directory is. -/
def add (t : Tree) (loc : Path) (n : Node) : Tree :=
  if h : loc ≠ [] ∧ t.node loc.dropLast = some .dir ∧ t.node loc ≠ some .dir then
    ⟨t.nodes.insert loc n, by
      intro l hl hn hp
      have hkeep : ∀ l', l' ≠ [] → t.nodes.lookup l' = some .dir →
          (t.nodes.insert loc n).lookup l' = some .dir := by
        intro l' hl' hd
        rw [Dict.lookup_insert_of_ne, hd]
        rintro rfl
        exact h.2.2 (by simp [node, hl', hd])
      refine hkeep _ hp ?_
      by_cases hll : loc = l
      · have := h.2.1
        rwa [hll, node, if_neg hp] at this
      · rw [Dict.lookup_insert_of_ne hll] at hn
        exact t.closed l hl hn hp⟩
  else t

theorem node_add (hloc : loc ≠ []) (hdir : t.node loc.dropLast = some .dir)
    (hfree : t.node loc ≠ some .dir) (l : Path) :
    (t.add loc n).node l = if l = loc then some n else t.node l := by
  rw [add, dif_pos ⟨hloc, hdir, hfree⟩]
  unfold node
  by_cases hl : l = []
  · rw [if_pos hl, if_pos hl, if_neg (hl ▸ hloc.symm)]
  · rw [if_neg hl, if_neg hl, Dict.lookup_insert]
    by_cases hll : l = loc
    · rw [if_pos hll, if_pos hll.symm]
    · rw [if_neg hll, if_neg (Ne.symm hll)]

/-- Strictly below `root`. -/
def below (root loc : Path) : Bool := root.isPrefixOf loc && root ≠ loc

theorem below_iff {root : Path} :
    below root loc = true ↔ ∃ rest, rest ≠ [] ∧ loc = root ++ rest := by
  unfold below
  rw [Bool.and_eq_true, List.isPrefixOf_iff_prefix, decide_eq_true_eq]
  constructor
  · rintro ⟨⟨rest, rfl⟩, h⟩
    exact ⟨rest, fun hr => h (by rw [hr, List.append_nil]), rfl⟩
  · rintro ⟨rest, hrest, rfl⟩
    exact ⟨⟨rest, rfl⟩, fun h => hrest (List.self_eq_append_right.mp h)⟩

theorem below_of_dropLast {root : Path} (h : below root loc.dropLast = true) :
    below root loc = true := by
  obtain ⟨rest, hrest, hr⟩ := below_iff.mp h
  have hloc : loc ≠ [] := by
    rintro rfl
    simp [hrest] at hr
  refine below_iff.mpr ⟨rest ++ [loc.getLast hloc], by simp, ?_⟩
  rw [← List.append_assoc, ← hr, List.dropLast_append_getLast hloc]

/-- The tree without what is below a place. -/
def emptied (t : Tree) (root : Path) : Tree where
  nodes := t.nodes.filterKeys fun l => !below root l
  closed := by
    intro loc hloc hn hp
    rw [Dict.lookup_filterKeys] at hn ⊢
    cases hb : below root loc with
    | true => simp [hb] at hn
    | false =>
      have hb' : below root loc.dropLast = false := by
        cases hd : below root loc.dropLast with
        | false => rfl
        | true => exact absurd (below_of_dropLast hd) (by simp [hb])
      rw [hb] at hn
      rw [hb']
      exact t.closed loc hloc hn hp

theorem node_emptied (t : Tree) (root loc : Path) :
    (t.emptied root).node loc = if below root loc = true then none else t.node loc := by
  unfold node emptied
  rw [Dict.lookup_filterKeys]
  by_cases hloc : loc = []
  · subst hloc
    cases root <;> rfl
  · simp only [if_neg hloc]
    cases below root loc <;> rfl

theorem emptied_eq {root : Path} (h : ∀ loc, below root loc = true → t.node loc = none) :
    t.emptied root = t := by
  have hrows : t.nodes.rows.filter (fun r => !below root r.1) = t.nodes.rows := by
    rw [List.filter_eq_self]
    rintro ⟨loc, n⟩ hr
    by_contra hb
    have hb' : below root loc = true := by simpa using hb
    have hloc : loc ≠ [] := by
      rintro rfl
      obtain ⟨rest, hrest, hl⟩ := below_iff.mp hb'
      simp [hrest] at hl
    have hn := h loc hb'
    rw [node, if_neg hloc, Dict.mem_rows_iff_lookup.mp hr] at hn
    cases hn
  obtain ⟨⟨rows, nodup⟩, closed⟩ := t
  unfold emptied Dict.filterKeys
  congr

/-- The files in the directory at a place. -/
def filesIn (t : Tree) (loc : Path) : List (Name × Bytes) :=
  t.nodes.rows.filterMap fun
    | (_, .dir) => none
    | (l, .file data) => if l.dropLast = loc then l.getLast?.map (·, data) else none

theorem mem_filesIn {name : Name} {data : Bytes} :
    (name, data) ∈ t.filesIn loc ↔ t.node (loc ++ [name]) = some (.file data) := by
  rw [node, if_neg (by simp), ← Dict.mem_rows_iff_lookup, filesIn, List.mem_filterMap]
  constructor
  · rintro ⟨⟨l, _ | d⟩, hmem, hsome⟩
    · cases hsome
    · dsimp only at hsome
      split at hsome
      · rename_i hl
        obtain ⟨c, hc, heq⟩ := Option.map_eq_some_iff.mp hsome
        obtain ⟨l', rfl⟩ := List.getLast?_eq_some_iff.mp hc
        rw [List.dropLast_concat] at hl
        cases heq
        exact hl ▸ hmem
      · cases hsome
  · intro hmem
    refine ⟨_, hmem, ?_⟩
    dsimp only
    rw [if_pos List.dropLast_concat, List.getLast?_concat]
    rfl

theorem nodup_filesIn : (t.filesIn loc).Nodup := by
  refine List.Nodup.filterMap ?_ (List.Nodup.of_map _ t.nodes.nodup)
  rintro ⟨l, _ | d⟩ ⟨l', _ | d'⟩ b hb hb'
  · cases hb
  · cases hb
  · cases hb'
  · dsimp only at hb hb'
    split at hb
    · split at hb'
      · rename_i hl hl'
        obtain ⟨c, hc, rfl⟩ := Option.map_eq_some_iff.mp hb
        obtain ⟨c', hc', heq⟩ := Option.map_eq_some_iff.mp hb'
        obtain ⟨l₁, rfl⟩ := List.getLast?_eq_some_iff.mp hc
        obtain ⟨l₂, rfl⟩ := List.getLast?_eq_some_iff.mp hc'
        rw [List.dropLast_concat] at hl hl'
        cases heq
        rw [hl, hl']
      · cases hb'
    · cases hb

theorem filesIn_eq_singleton {x : Name × Bytes} :
    t.filesIn loc = [x] ↔ ∀ y, y ∈ t.filesIn loc ↔ y = x := by
  constructor
  · intro h y
    rw [h, List.mem_singleton]
  · intro h
    have hperm : (t.filesIn loc).Perm [x] :=
      (List.perm_ext_iff_of_nodup nodup_filesIn (List.nodup_singleton x)).mpr fun y => by
        rw [h y, List.mem_singleton]
    exact List.perm_singleton.mp hperm

end Tree

/-! ## Following a path -/

/-- Where a name leads from a directory. -/
def enter (loc : Path) (c : Name) : Path := if c = dotdot then loc.dropLast else loc ++ [c]

namespace Tree

/-- What is at the last name need not be there. -/
def walk (t : Tree) : Path → Path → Except OSError Path
  | loc, [] => .ok loc
  | loc, c :: cs =>
    match t.node loc with
    | some .dir => t.walk (enter loc c) cs
    | some (.file _) => .error .notADirectory
    | none => .error .fileNotFound

def at? (t : Tree) (path : Path) : Option (Path × Node) :=
  match t.walk [] path with
  | .ok loc => (t.node loc).map (loc, ·)
  | .error _ => none

/-- `Path.is_dir` -/
def isDir (t : Tree) (path : Path) : Bool :=
  match t.at? path with
  | some (_, .dir) => true
  | _ => false

/-- `Path.is_file` and `Path.read_bytes` -/
def readFile (t : Tree) (path : Path) : Option Bytes :=
  match t.at? path with
  | some (_, .file data) => some data
  | _ => none

/-- The files that `Path.iterdir` lists. -/
def files (t : Tree) (path : Path) : List (Name × Bytes) :=
  match t.at? path with
  | some (loc, .dir) => t.filesIn loc
  | _ => []

/-- `Path.mkdir(parents=True, exist_ok=True)`: what is missing is made, from the top down.
`made` says that something was; the kernel is then asked step by step. -/
def mkdirs (t : Tree) (made : Bool) : Path → Path → Except OSError Unit × Tree
  | _, [] => (.ok (), t)
  | loc, c :: cs =>
    match t.node (enter loc c) with
    | some .dir => t.mkdirs made (enter loc c) cs
    | some (.file _) => (.error (if made ∨ cs = [] then .fileExists else .notADirectory), t)
    | none => (t.add (enter loc c) .dir).mkdirs true (enter loc c) cs

/-- `Path.write_bytes` -/
def write (t : Tree) (path : Path) (data : Bytes) : Except OSError Unit × Tree :=
  match t.walk [] path with
  | .error e => (.error e, t)
  | .ok loc =>
    if t.node loc = some .dir then (.error .isADirectory, t) else (.ok (), t.add loc (.file data))

variable {t : Tree} {root loc path : Path} {n : Node} {c : Name} {data : Bytes} {made : Bool}

/-! ## Paths that only lead down -/

theorem walk_eq (hpath : dotdot ∉ path) {l : Path} (h : t.walk loc path = .ok l) :
    l = loc ++ path := by
  induction path generalizing loc with
  | nil =>
    cases h
    rw [List.append_nil]
  | cons c cs ih =>
    rw [List.mem_cons, not_or] at hpath
    rw [walk] at h
    split at h
    · have := ih hpath.2 h
      rwa [enter, if_neg (Ne.symm hpath.1), List.append_assoc] at this
    · cases h
    · cases h

theorem walk_of_node (hpath : dotdot ∉ path) (h : t.node (loc ++ path) ≠ none) :
    t.walk loc path = .ok (loc ++ path) := by
  induction path generalizing loc with
  | nil => rw [walk, List.append_nil]
  | cons c cs ih =>
    rw [List.mem_cons, not_or] at hpath
    have hdir : t.node loc = some .dir := dir_of_append h (List.cons_ne_nil _ _)
    rw [List.append_cons] at h ⊢
    simp only [walk, hdir, enter, if_neg (Ne.symm hpath.1)]
    exact ih hpath.2 h

theorem walk_concat (hpath : dotdot ∉ path ++ [c]) (h : t.node path = some .dir) :
    t.walk [] (path ++ [c]) = .ok (path ++ [c]) := by
  have hsplit : ∀ loc, t.node (loc ++ path) = some .dir →
      t.walk loc (path ++ [c]) = .ok (loc ++ path ++ [c]) := by
    clear h
    induction path with
    | nil =>
      intro loc h
      rw [List.append_nil] at h
      simp only [List.nil_append, List.mem_singleton] at hpath
      simp only [List.nil_append, walk, h, enter, if_neg (Ne.symm hpath), List.append_nil]
    | cons b bs ih =>
      intro loc h
      rw [List.cons_append, List.mem_cons, not_or] at hpath
      have hne : t.node (loc ++ b :: bs) ≠ none := by simp [h]
      have hdir : t.node loc = some .dir := dir_of_append hne (List.cons_ne_nil _ _)
      rw [List.append_cons] at h
      rw [List.append_cons loc b bs]
      simp only [List.cons_append, walk, hdir, enter, if_neg (Ne.symm hpath.1)]
      exact ih hpath.2 _ h
  exact hsplit [] h

theorem at?_eq (hpath : dotdot ∉ path) : t.at? path = (t.node path).map (path, ·) := by
  unfold at?
  cases hn : t.node path with
  | some n =>
    have hw : t.walk [] path = .ok path := walk_of_node hpath (by simp [hn])
    rw [hw]
    dsimp only
    rw [hn]
  | none =>
    split
    · rename_i l hl
      rw [walk_eq hpath hl, List.nil_append, hn]
    · rfl

theorem isDir_iff (hpath : dotdot ∉ path) : t.isDir path = true ↔ t.node path = some .dir := by
  rw [isDir, at?_eq hpath]
  rcases t.node path with _ | _ | _ <;> simp

theorem readFile_iff (hpath : dotdot ∉ path) :
    t.readFile path = some data ↔ t.node path = some (.file data) := by
  rw [readFile, at?_eq hpath]
  rcases t.node path with _ | _ | _ <;> simp

theorem files_eq (hpath : dotdot ∉ path) (hdir : t.node path = some .dir) :
    t.files path = t.filesIn path := by
  rw [files, at?_eq hpath, hdir]
  rfl

/-- Making directories leaves what is there and adds directories along the path. -/
theorem node_mkdirs (hpath : dotdot ∉ path) (hdir : t.node loc = some .dir) (l : Path) :
    (t.mkdirs made loc path).2.node l = t.node l ∨
      t.node l = none ∧ (t.mkdirs made loc path).2.node l = some .dir ∧
        ∃ p, p <+: path ∧ l = loc ++ p := by
  induction path generalizing t loc made with
  | nil => exact .inl rfl
  | cons c cs ih =>
    rw [List.mem_cons, not_or] at hpath
    have henter : enter loc c = loc ++ [c] := if_neg (Ne.symm hpath.1)
    rw [mkdirs, henter]
    have hdown : ∀ {p : Path}, p <+: cs ∧ l = loc ++ [c] ++ p →
        ∃ p, p <+: c :: cs ∧ l = loc ++ p := by
      rintro p ⟨hp, rfl⟩
      exact ⟨c :: p, List.cons_prefix_cons.mpr ⟨rfl, hp⟩, (List.append_cons _ _ _).symm⟩
    split
    · rename_i hn
      obtain h | ⟨hnone, hnew, p, hp⟩ := @ih _ _ made hpath.2 hn
      · exact .inl h
      · exact .inr ⟨hnone, hnew, hdown hp⟩
    · exact .inl rfl
    · rename_i hn
      have hadd := @node_add t (loc ++ [c]) .dir (by simp)
        (by rwa [List.dropLast_concat]) (by simp [hn])
      have hself : (t.add (loc ++ [c]) .dir).node (loc ++ [c]) = some .dir := by
        rw [hadd, if_pos rfl]
      obtain h | ⟨hnone, hnew, p, hp⟩ := @ih _ _ true hpath.2 hself
      · rw [h, hadd]
        split
        · rename_i hl
          subst hl
          exact .inr ⟨hn, rfl, [c], List.cons_prefix_cons.mpr ⟨rfl, List.nil_prefix⟩, rfl⟩
        · exact .inl rfl
      · rw [hadd] at hnone
        split at hnone
        · cases hnone
        · exact .inr ⟨hnone, hnew, hdown hp⟩

/-- It succeeds when no file is in the way, and the directory is then there. -/
theorem mkdirs_ok_iff (hpath : dotdot ∉ path) (hdir : t.node loc = some .dir) :
    ((t.mkdirs made loc path).1 = .ok () ↔
      ∀ p, p <+: path → ∀ data, t.node (loc ++ p) ≠ some (.file data)) ∧
    ((t.mkdirs made loc path).1 = .ok () →
      (t.mkdirs made loc path).2.node (loc ++ path) = some .dir) := by
  induction path generalizing t loc made with
  | nil => simp [mkdirs, hdir]
  | cons c cs ih =>
    rw [List.mem_cons, not_or] at hpath
    have henter : enter loc c = loc ++ [c] := if_neg (Ne.symm hpath.1)
    have hprefixes : (∀ p, p <+: c :: cs → ∀ data, t.node (loc ++ p) ≠ some (.file data)) ↔
        ∀ p, p <+: cs → ∀ data, t.node (loc ++ [c] ++ p) ≠ some (.file data) := by
      constructor
      · intro h p hp
        rw [← List.append_cons]
        exact h _ (List.cons_prefix_cons.mpr ⟨rfl, hp⟩)
      · intro h p hp
        cases p with
        | nil => simp [hdir]
        | cons d p =>
          obtain ⟨rfl, hp'⟩ := List.cons_prefix_cons.mp hp
          rw [List.append_cons]
          exact h p hp'
    rw [mkdirs, henter, hprefixes, List.append_cons loc c cs]
    split
    · rename_i hn
      exact ih hpath.2 hn
    · rename_i d hn
      refine ⟨iff_of_false (by simp) fun h => ?_, by simp⟩
      have := h [] List.nil_prefix d
      rw [List.append_nil] at this
      exact this hn
    · rename_i hn
      have hadd := @node_add t (loc ++ [c]) .dir (by simp)
        (by rwa [List.dropLast_concat]) (by simp [hn])
      have hself : (t.add (loc ++ [c]) .dir).node (loc ++ [c]) = some .dir := by
        rw [hadd, if_pos rfl]
      refine ⟨(ih hpath.2 hself).1.trans (forall₂_congr fun p _ => ?_), (ih hpath.2 hself).2⟩
      rw [hadd]
      split
      · rename_i hp
        rw [List.append_right_eq_self.mp hp, List.append_nil, hn]
        simp
      · rfl

theorem write_concat (hpath : dotdot ∉ path ++ [c]) (hdir : t.node path = some .dir) :
    t.write (path ++ [c]) data =
      if t.node (path ++ [c]) = some .dir then (.error .isADirectory, t)
      else (.ok (), t.add (path ++ [c]) (.file data)) := by
  rw [write, walk_concat hpath hdir]

/-! ## What an emptied place changes -/

theorem node_of_emptied (h : (t.emptied root).node loc = some n) : t.node loc = some n := by
  rw [node_emptied] at h
  split at h
  · cases h
  · exact h

theorem walk_of_emptied {l : Path} (h : (t.emptied root).walk loc path = .ok l) :
    t.walk loc path = .ok l := by
  induction path generalizing loc with
  | nil => exact h
  | cons c cs ih =>
    rw [walk] at h ⊢
    split at h
    · rename_i hn
      rw [node_of_emptied hn]
      exact ih h
    · cases h
    · cases h

theorem at?_of_emptied {x : Path × Node} (h : (t.emptied root).at? path = some x) :
    t.at? path = some x := by
  unfold at? at h ⊢
  split at h
  · rename_i l hl
    rw [walk_of_emptied hl]
    obtain ⟨n, hn, rfl⟩ := Option.map_eq_some_iff.mp h
    dsimp only
    rw [node_of_emptied hn]
    rfl
  · cases h

theorem isDir_of_emptied (h : (t.emptied root).isDir path = true) : t.isDir path = true := by
  unfold isDir at h ⊢
  split at h
  · rename_i hx
    rw [at?_of_emptied hx]
  · cases h

theorem readFile_of_emptied (h : (t.emptied root).readFile path = some data) :
    t.readFile path = some data := by
  unfold readFile at h ⊢
  split at h
  · rename_i hx
    rw [at?_of_emptied hx]
    exact h
  · cases h

/-- A place that still has a file in it is not the emptied one, nor below it. -/
theorem files_of_emptied {x : Name × Bytes} (h : (t.emptied root).files path = [x]) :
    t.files path = [x] := by
  unfold files at h ⊢
  split at h
  · rename_i l hx
    rw [at?_of_emptied hx]
    dsimp only
    rw [filesIn_eq_singleton] at h ⊢
    have hroot : ¬ root <+: l := by
      rintro ⟨rest, rfl⟩
      have hmem := mem_filesIn.mp ((h x).mpr rfl)
      rw [node_emptied, if_pos (below_iff.mpr ⟨rest ++ [x.1], by simp, by simp⟩)] at hmem
      cases hmem
    have hsame : ∀ c, (t.emptied root).node (l ++ [c]) = t.node (l ++ [c]) := by
      intro c
      rw [node_emptied, if_neg]
      intro hb
      obtain ⟨rest, hrest, hr⟩ := below_iff.mp hb
      obtain rfl | ⟨rest', c', rfl⟩ := List.eq_nil_or_concat' rest
      · exact hrest rfl
      · rw [← List.append_assoc] at hr
        exact hroot ⟨rest', (List.append_inj_left' hr rfl).symm⟩
    rintro ⟨c, d⟩
    rw [← h (c, d), mem_filesIn, mem_filesIn, hsame]
  · cases h

end Tree

end MbTools.Files
