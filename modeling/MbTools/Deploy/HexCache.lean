import MbTools.Deploy.Release

/-! # The cache of hex files

A pinned call may be answered from files that earlier calls have left. The answer is the one
that an empty cache directory gives exactly when what the call comes upon there is the
release's own.
-/

namespace MbTools.Hex

open Files

/-- Where the cache directory is. -/
structure CacheDir where
  path : Path
  noUp : dotdot ∉ path

variable {releases : Releases} {cache : CacheDir} {t : Tree} {owner repo tag : Str}
  {release : Release} {chosen : Asset} {asset : Option Str} {data : Bytes}

/-! ## Places in the cache -/

def tagDir (cache : CacheDir) (owner repo tag : Str) : Path :=
  cacheDirFor cache.path owner repo tag

theorem tagDir_of_plain (ho : Plain owner) (hr : Plain repo)
    (ht : ∀ c ∈ tag.splitOn '/', Plain c) :
    tagDir cache owner repo tag = cache.path ++ owner :: repo :: tag.splitOn '/' := by
  rw [tagDir, cacheDirFor, join_plain _ ho, join_plain _ hr, join_of_plain _ ht]
  simp

theorem noUp_tagDir (ho : Plain owner) (hr : Plain repo)
    (ht : ∀ c ∈ tag.splitOn '/', Plain c) : dotdot ∉ tagDir cache owner repo tag := by
  rw [tagDir_of_plain ho hr ht, List.mem_append, not_or]
  refine ⟨cache.noUp, dotdot_notMem fun c hc => ?_⟩
  rcases List.mem_cons.mp hc with rfl | hc
  · exact ho
  · rcases List.mem_cons.mp hc with rfl | hc
    · exact hr
    · exact ht c hc

theorem below_tagDir (ho : Plain owner) (hr : Plain repo)
    (ht : ∀ c ∈ tag.splitOn '/', Plain c) :
    Tree.below cache.path (tagDir cache owner repo tag) = true := by
  rw [tagDir_of_plain ho hr ht]
  exact Tree.below_iff.mpr ⟨_, List.cons_ne_nil _ _, rfl⟩

/-- Where a release has an asset filed. -/
def assetPath (cache : CacheDir) (owner repo : Str) (release : Release) (chosen : Asset) : Path :=
  tagDir cache owner repo release.tagName ++ [chosen.name]

theorem Releases.tagDir_noUp (h : releases.byTag owner repo tag = .ok release) :
    dotdot ∉ tagDir cache owner repo release.tagName :=
  noUp_tagDir (releases.ref_plain h).1 (releases.ref_plain h).2 (releases.tag_plain h)

theorem Releases.tagDir_below (h : releases.byTag owner repo tag = .ok release) :
    Tree.below cache.path (tagDir cache owner repo release.tagName) = true :=
  below_tagDir (releases.ref_plain h).1 (releases.ref_plain h).2 (releases.tag_plain h)

theorem Releases.name_plain (h : releases.byTag owner repo tag = .ok release)
    (hs : selectAsset release.assets asset = .ok chosen) : Plain chosen.name :=
  releases.asset_plain h _ (byName_mem (selectAsset_own hs))

theorem Releases.assetPath_noUp (cache : CacheDir) (h : releases.byTag owner repo tag = .ok release)
    (hs : selectAsset release.assets asset = .ok chosen) :
    dotdot ∉ tagDir cache owner repo release.tagName ++ [chosen.name] := by
  rw [List.mem_append, not_or, List.mem_singleton]
  exact ⟨releases.tagDir_noUp h, fun he => (releases.name_plain h hs).2.2.1 he.symm⟩

/-! ## Looking a file up -/

theorem cacheLookup_some_iff {dir : Path} {name : Str} {hit : Str × Bytes}
    (hdir : dotdot ∉ dir ++ [name]) (hname : Plain name) :
    cacheLookup t dir (some name) = some hit ↔
      hit.1 = name ∧ t.node (dir ++ [name]) = some (.file hit.2) := by
  have hdir' : dotdot ∉ dir := fun h => hdir (List.mem_append_left _ h)
  obtain ⟨n, data⟩ := hit
  unfold cacheLookup
  simp only [join_plain _ hname, Tree.isDir_iff hdir']
  constructor
  · intro h
    split at h
    · obtain ⟨d, hd, heq⟩ := Option.map_eq_some_iff.mp h
      cases heq
      exact ⟨rfl, (Tree.readFile_iff hdir).mp hd⟩
    · cases h
  · rintro ⟨rfl, hnode⟩
    have hne : t.node (dir ++ [n]) ≠ none := by simp [hnode]
    rw [if_pos (Tree.dir_of_append hne (List.cons_ne_nil _ _)), (Tree.readFile_iff hdir).mpr hnode]
    rfl

theorem cacheLookup_none_iff {dir : Path} {hit : Str × Bytes} (hdir : dotdot ∉ dir) :
    cacheLookup t dir none = some hit ↔ t.node dir = some .dir ∧ t.filesIn dir = [hit] := by
  unfold cacheLookup
  simp only [Tree.isDir_iff hdir]
  constructor
  · intro h
    split at h
    · rename_i hd
      rw [Tree.files_eq hdir hd] at h
      split at h
      · cases h
        exact ⟨hd, ‹_›⟩
      · cases h
    · cases h
  · rintro ⟨hd, hf⟩
    rw [if_pos hd, Tree.files_eq hdir hd, hf]

/-- What is found with the cache emptied lies outside of it, and is found before. -/
theorem cacheLookup_of_emptied {root dir : Path} {hit : Str × Bytes}
    (h : cacheLookup (t.emptied root) dir asset = some hit) :
    cacheLookup t dir asset = some hit := by
  unfold cacheLookup at h ⊢
  split at h
  · rename_i hd
    rw [if_pos (Tree.isDir_of_emptied hd)]
    split at h
    · obtain ⟨d, hr, rfl⟩ := Option.map_eq_some_iff.mp h
      rw [Tree.readFile_of_emptied hr]
      rfl
    · split at h
      · rename_i hf
        cases h
        rw [Tree.files_of_emptied hf]
      · cases h
  · cases h

theorem cacheLookup_emptied {root dir : Path} (hdir : dotdot ∉ dir)
    (hb : Tree.below root dir = true) : cacheLookup (t.emptied root) dir asset = none := by
  unfold cacheLookup
  rw [if_neg]
  rw [Tree.isDir_iff hdir, Tree.node_emptied, if_pos hb]
  simp

/-! ## Filing -/

/-- Nothing stands where the directory and the file go. -/
def Clear (t : Tree) (dir : Path) (name : Str) : Prop :=
  (∀ p, p <+: dir → ∀ d, t.node p ≠ some (.file d)) ∧ t.node (dir ++ [name]) ≠ some .dir

theorem ne_of_isPrefix {p dir : Path} {name : Str} (h : p <+: dir) : p ≠ dir ++ [name] := by
  rintro rfl
  have := h.length_le
  rw [List.length_append, List.length_singleton] at this
  omega

/-- Directories along `dir` are made where nothing was. -/
def Prepared (dir : Path) (t t' : Tree) : Prop :=
  ∀ l, t'.node l = t.node l ∨ t.node l = none ∧ t'.node l = some .dir ∧ l <+: dir

theorem mkdirs_prepared {dir dir' : Path} (hdir : dotdot ∉ dir) (hp : dir' <+: dir) :
    Prepared dir t (t.mkdirs false [] dir').2 := by
  intro l
  have hdir' : dotdot ∉ dir' := fun h => hdir (hp.subset h)
  obtain h | ⟨hnone, hnew, p, hpre, rfl⟩ :=
    @Tree.node_mkdirs t [] _ false hdir' rfl l
  · exact .inl h
  · exact .inr ⟨hnone, hnew, hpre.trans hp⟩

theorem Prepared.node_concat {dir : Path} {t' : Tree} {name : Str} (h : Prepared dir t t') :
    t'.node (dir ++ [name]) = t.node (dir ++ [name]) :=
  (h _).resolve_right fun ⟨_, _, hp⟩ => ne_of_isPrefix hp rfl

/-- What a call leaves of the data it writes. -/
def Trouble.left (trouble : Trouble) (data : Bytes) : Bytes :=
  match trouble.writing with
  | some (k, _) => data.take k
  | none => data

/-- The call gets as far as the write. -/
def Writes (trouble : Trouble) (t : Tree) (dir : Path) (name : Str) : Prop :=
  trouble.mkdir = none ∧ trouble.opening = none ∧ Clear t dir name

theorem writeCache_of_not_writes {trouble : Trouble} {dir : Path} {name : Str}
    (hdir : dotdot ∉ dir ++ [name]) (hname : Plain name) (h : ¬ Writes trouble t dir name) :
    (∃ e, (writeCache trouble dir name data t).1 = .error e) ∧
      Prepared dir t (writeCache trouble dir name data t).2 := by
  have hdir' : dotdot ∉ dir := fun h => hdir (List.mem_append_left _ h)
  have hmade : Prepared dir t (t.mkdirs false [] dir).2 := mkdirs_prepared hdir' List.prefix_rfl
  unfold writeCache
  cases hmk : trouble.mkdir with
  | some x => exact ⟨⟨_, rfl⟩, mkdirs_prepared hdir' (List.take_prefix _ _)⟩
  | none =>
    obtain ⟨hiff, hok⟩ := @Tree.mkdirs_ok_iff t [] _ false hdir' rfl
    rcases hm : t.mkdirs false [] dir with ⟨_ | _, t'⟩
    · rw [hm] at hmade
      exact ⟨⟨_, rfl⟩, hmade⟩
    · rw [hm] at hiff hok hmade
      cases ho : trouble.opening with
      | some e => exact ⟨⟨_, rfl⟩, hmade⟩
      | none =>
        have htaken : t'.node (dir ++ [name]) = some .dir := by
          rw [hmade.node_concat]
          by_contra hn
          exact h ⟨hmk, ho, by simpa using hiff.mp rfl, hn⟩
        have hwrite : ∀ d, t'.write (join dir name) d = (.error .isADirectory, t') := by
          intro d
          rw [join_plain _ hname, Tree.write_concat hdir (hok rfl), if_pos htaken]
        dsimp only
        simp only [hwrite]
        rcases trouble.writing with _ | ⟨k, e⟩
        · exact ⟨⟨_, rfl⟩, hmade⟩
        · exact ⟨⟨_, rfl⟩, hmade⟩

theorem writeCache_of_writes {trouble : Trouble} {dir : Path} {name : Str}
    (hdir : dotdot ∉ dir ++ [name]) (hname : Plain name) (h : Writes trouble t dir name) :
    ((writeCache trouble dir name data t).1 =
      match trouble.writing with
      | some (_, e) => .error e
      | none => .ok (dir ++ [name])) ∧
    ∃ t', Prepared dir t t' ∧ ∀ l, (writeCache trouble dir name data t).2.node l =
      if l = dir ++ [name] then some (.file (trouble.left data)) else t'.node l := by
  have hdir' : dotdot ∉ dir := fun h => hdir (List.mem_append_left _ h)
  have hmade : Prepared dir t (t.mkdirs false [] dir).2 := mkdirs_prepared hdir' List.prefix_rfl
  obtain ⟨hmk, ho, hclear⟩ := h
  obtain ⟨hiff, hok⟩ := @Tree.mkdirs_ok_iff t [] _ false hdir' rfl
  have hdone : (t.mkdirs false [] dir).1 = .ok () := hiff.mpr (by simpa using hclear.1)
  rcases hm : t.mkdirs false [] dir with ⟨r, t'⟩
  rw [hm] at hmade hok hdone
  obtain rfl : r = .ok () := hdone
  have hfree : t'.node (dir ++ [name]) ≠ some .dir := by
    rw [hmade.node_concat]
    exact hclear.2
  have hwrite : ∀ d, t'.write (join dir name) d = (.ok (), t'.add (dir ++ [name]) (.file d)) := by
    intro d
    rw [join_plain _ hname, Tree.write_concat hdir (hok rfl), if_neg hfree]
  have hadd : ∀ d l, (t'.add (dir ++ [name]) (.file d)).node l =
      if l = dir ++ [name] then some (.file d) else t'.node l := fun d l =>
    Tree.node_add (by simp) (by rw [List.dropLast_concat]; exact hok rfl) hfree l
  unfold writeCache Trouble.left
  simp only [hmk, hm, ho, hwrite]
  rcases trouble.writing with _ | ⟨k, e⟩
  · exact ⟨by rw [join_plain _ hname], t', hmade, hadd _⟩
  · exact ⟨rfl, t', hmade, hadd _⟩

/-! ## One call -/

/-- The asset's name and its bytes, or the error. -/
def answer (outcome : Except Exn Result × Tree) : Except Exn (Str × Bytes) :=
  outcome.1.map fun r => (r.assetName, r.hexBytes)

variable (releases cache) in
/-- A pinned call answers as it does with nothing in the cache directory. -/
def Agrees (t : Tree) (p : Pinned) (asset : Option Str) : Prop :=
  answer (resolveHex releases cache.path noTrouble [] p.text asset t) =
    answer (resolveHex releases cache.path noTrouble [] p.text asset (t.emptied cache.path))

/-- The place of an asset holds what its address answers, or is free. -/
structure Fits (cache : CacheDir) (t : Tree) (dir : Path) (name : Str)
    (download : Except Exn Bytes) : Prop where
  whole : ∀ d, t.node (dir ++ [name]) = some (.file d) → download = .ok d
  free : ∀ d, download = .ok d → t.node (dir ++ [name]) ≠ some .dir ∧
    ∀ p, p <+: dir → Tree.below cache.path p = true → ∀ d, t.node p ≠ some (.file d)

variable (releases cache) in
/-- What the call comes upon in the cache is the release's own. -/
def Faithful (t : Tree) (p : Pinned) (asset : Option Str) : Prop :=
  let dir := tagDir cache p.owner p.repo p.tag
  match cacheLookup t dir asset with
  | some hit => releases.answer p.owner p.repo p.tag asset = .ok hit ∨
      cacheLookup (t.emptied cache.path) dir asset = some hit
  | none => ∀ release chosen, releases.byTag p.owner p.repo p.tag = .ok release →
      selectAsset release.assets asset = .ok chosen →
      Fits cache t (tagDir cache p.owner p.repo release.tagName) chosen.name
        (releases.download chosen.url)

/-- No file stands where the cache directory is or goes. -/
def Usable (cache : CacheDir) (t : Tree) : Prop :=
  ∀ p, p <+: cache.path → ∀ d, t.node p ≠ some (.file d)

theorem clear_iff (hu : Usable cache t) {dir : Path} {name : Str}
    (hb : Tree.below cache.path dir = true) :
    Clear t dir name ↔ t.node (dir ++ [name]) ≠ some .dir ∧
      ∀ p, p <+: dir → Tree.below cache.path p = true → ∀ d, t.node p ≠ some (.file d) := by
  obtain ⟨rest, -, rfl⟩ := Tree.below_iff.mp hb
  constructor
  · rintro ⟨hp, hn⟩
    exact ⟨hn, fun p h _ => hp p h⟩
  · rintro ⟨hn, hp⟩
    refine ⟨fun p h => ?_, hn⟩
    -- a prefix is one of the cache directory's path or lies below it
    obtain h' | ⟨q, rfl⟩ := List.prefix_or_prefix_of_prefix h (List.prefix_append cache.path rest)
    · exact hu p h'
    · by_cases hq : q = []
      · rw [hq, List.append_nil]
        exact hu _ List.prefix_rfl
      · exact hp _ h (Tree.below_iff.mpr ⟨q, hq, rfl⟩)

theorem Releases.answer_eq (hrel : releases.byTag owner repo tag = .ok release)
    (hsel : selectAsset release.assets asset = .ok chosen) :
    releases.answer owner repo tag asset =
      (releases.download chosen.url).map fun d => (chosen.name, d) := by
  unfold Releases.answer
  rw [hrel]
  simp only [bind, Except.bind, hsel]
  cases releases.download chosen.url <;> rfl

theorem Releases.selected_of_answer {hit : Str × Bytes}
    (hrel : releases.byTag owner repo tag = .ok release)
    (h : releases.answer owner repo tag asset = .ok hit) :
    ∃ chosen, selectAsset release.assets asset = .ok chosen ∧ chosen.name = hit.1 ∧
      releases.download chosen.url = .ok hit.2 := by
  cases hsel : selectAsset release.assets asset with
  | error e =>
    unfold Releases.answer at h
    rw [hrel] at h
    simp only [bind, Except.bind, hsel] at h
    cases h
  | ok chosen =>
    rw [releases.answer_eq hrel hsel] at h
    refine ⟨chosen, rfl, ?_⟩
    cases hdown : releases.download chosen.url with
    | error e =>
      rw [hdown] at h
      cases h
    | ok data =>
      rw [hdown] at h
      cases h
      exact ⟨rfl, rfl⟩

section

variable (hrel : releases.byTag owner repo tag = .ok release)
  (hsel : selectAsset release.assets asset = .ok chosen)

include hrel hsel

theorem resolveFresh_of_file
    (hnode : t.node (assetPath cache owner repo release chosen) = some (.file data)) :
    answer (resolveFresh releases cache.path noTrouble owner repo tag asset t) =
      .ok (chosen.name, data) := by
  have hlook : cacheLookup t (cacheDirFor cache.path owner repo release.tagName)
      (some chosen.name) = some (chosen.name, data) :=
    (cacheLookup_some_iff (releases.assetPath_noUp _ hrel hsel) (releases.name_plain hrel hsel)).mpr
      ⟨rfl, hnode⟩
  unfold resolveFresh noTrouble
  simp only [hrel, hsel, hlook]
  rfl

theorem lookup_of_no_file
    (hnode : ∀ d, t.node (assetPath cache owner repo release chosen) ≠ some (.file d)) :
    cacheLookup t (cacheDirFor cache.path owner repo release.tagName) (some chosen.name) =
      none := by
  rw [Option.eq_none_iff_forall_ne_some]
  intro hit h
  exact hnode _ ((cacheLookup_some_iff (releases.assetPath_noUp _ hrel hsel)
    (releases.name_plain hrel hsel)).mp h).2

theorem resolveFresh_of_no_file
    (hnode : ∀ d, t.node (assetPath cache owner repo release chosen) ≠ some (.file d)) :
    match releases.download chosen.url with
    | .error e =>
      answer (resolveFresh releases cache.path noTrouble owner repo tag asset t) = .error e
    | .ok data =>
      (Clear t (tagDir cache owner repo release.tagName) chosen.name →
        answer (resolveFresh releases cache.path noTrouble owner repo tag asset t) =
          .ok (chosen.name, data)) ∧
      (¬ Clear t (tagDir cache owner repo release.tagName) chosen.name →
        ∃ e, answer (resolveFresh releases cache.path noTrouble owner repo tag asset t) =
          .error (.os e)) := by
  have hlook := lookup_of_no_file hrel hsel hnode
  have hpath := releases.assetPath_noUp cache hrel hsel
  have hname := releases.name_plain hrel hsel
  have hrelease : noTrouble.release = none := rfl
  have hdownload : noTrouble.download = none := rfl
  unfold resolveFresh
  simp only [hrel, hsel, hlook, hrelease, hdownload]
  cases hdown : releases.download chosen.url with
  | error e => rfl
  | ok data =>
    constructor
    · intro hclear
      obtain ⟨hok, -⟩ := @writeCache_of_writes _ data noTrouble _ _ hpath hname
        ⟨rfl, rfl, hclear⟩
      rcases hw : writeCache noTrouble (tagDir cache owner repo release.tagName) chosen.name data t
        with ⟨r, t'⟩
      rw [hw] at hok
      obtain rfl : r = _ := hok
      rw [tagDir] at hw
      simp only [hw]
      rfl
    · intro hclear
      obtain ⟨⟨e, he⟩, -⟩ := @writeCache_of_not_writes _ data noTrouble _ _ hpath
        hname fun h => hclear h.2.2
      rcases hw : writeCache noTrouble (tagDir cache owner repo release.tagName) chosen.name data t
        with ⟨r, t'⟩
      rw [hw] at he
      obtain rfl : r = .error e := he
      rw [tagDir] at hw
      simp only [hw]
      exact ⟨e, rfl⟩

/-- A file at the asset's place is right exactly if it is the asset's download. -/
theorem answer_of_file_iff (hfile : t.node (assetPath cache owner repo release chosen) =
      some (.file data)) :
    answer (resolveFresh releases cache.path noTrouble owner repo tag asset t) =
        releases.answer owner repo tag asset ↔
      Fits cache t (tagDir cache owner repo release.tagName) chosen.name
        (releases.download chosen.url) := by
  rw [resolveFresh_of_file hrel hsel hfile, releases.answer_eq hrel hsel]
  constructor
  · intro heq
    cases hdown : releases.download chosen.url with
    | error e =>
      rw [hdown] at heq
      cases heq
    | ok data =>
      rw [hdown] at heq
      cases heq
      refine ⟨fun d' hd' => ?_, fun d' _ => ⟨fun h => ?_, fun p hp _ d'' h => ?_⟩⟩
      · rw [assetPath, hd'] at hfile
        cases hfile
        rfl
      · rw [assetPath, h] at hfile
        cases hfile
      · exact Tree.not_file_above (Option.ne_none_iff_exists'.mpr ⟨_, hfile⟩)
          (hp.trans (List.prefix_append _ _)) (ne_of_isPrefix hp) h
  · intro hfits
    rw [hfits.whole data hfile]
    rfl

/-- With no file at the asset's place the download is answered, if it can be filed there. -/
theorem answer_of_no_file_iff (hu : Usable cache t)
    (hno : ∀ d, t.node (assetPath cache owner repo release chosen) ≠ some (.file d)) :
    answer (resolveFresh releases cache.path noTrouble owner repo tag asset t) =
        releases.answer owner repo tag asset ↔
      Fits cache t (tagDir cache owner repo release.tagName) chosen.name
        (releases.download chosen.url) := by
  have hrun := resolveFresh_of_no_file hrel hsel hno
  rw [releases.answer_eq hrel hsel]
  cases hdown : releases.download chosen.url with
  | error e =>
    rw [hdown] at hrun
    dsimp only at hrun
    rw [hrun]
    exact iff_of_true rfl ⟨fun d h => absurd h (hno d), fun d h => by cases h⟩
  | ok data =>
    rw [hdown] at hrun
    obtain ⟨hdone, hfails⟩ := hrun
    rw [clear_iff hu (releases.tagDir_below hrel)] at hdone hfails
    constructor
    · intro heq
      refine ⟨fun d h => absurd h (hno d), fun d _ => ?_⟩
      by_contra hn
      obtain ⟨e, he⟩ := hfails hn
      rw [he] at heq
      cases heq
    · intro hfits
      rw [hdone (hfits.free data rfl)]
      rfl

end

/-- A call that gets to ask for the release answers the release's own exactly when what is at
the asset's place fits. -/
theorem answer_resolveFresh_iff (hu : Usable cache t) :
    answer (resolveFresh releases cache.path noTrouble owner repo tag asset t) =
      releases.answer owner repo tag asset ↔
    ∀ release chosen, releases.byTag owner repo tag = .ok release →
      selectAsset release.assets asset = .ok chosen →
      Fits cache t (tagDir cache owner repo release.tagName) chosen.name
        (releases.download chosen.url) := by
  cases hrel : releases.byTag owner repo tag with
  | error e =>
    refine iff_of_true ?_ fun _ _ h => by cases h
    unfold resolveFresh Releases.answer noTrouble
    rw [hrel]
    rfl
  | ok release =>
    cases hsel : selectAsset release.assets asset with
    | error e =>
      refine iff_of_true ?_ ?_
      · unfold resolveFresh Releases.answer noTrouble
        simp only [hrel, hsel, bind, Except.bind]
        rfl
      · rintro release' chosen ⟨⟩ h
        rw [hsel] at h
        cases h
    | ok chosen =>
      have hone : (∀ release' chosen', Except.ok release = Except.ok (ε := Exn) release' →
          selectAsset release'.assets asset = .ok chosen' →
          Fits cache t (tagDir cache owner repo release'.tagName) chosen'.name
            (releases.download chosen'.url)) ↔
          Fits cache t (tagDir cache owner repo release.tagName) chosen.name
            (releases.download chosen.url) := by
        constructor
        · exact fun h => h _ _ rfl hsel
        · rintro h release' chosen' ⟨⟩ hs
          rw [hsel] at hs
          cases hs
          exact h
      rw [hone]
      by_cases hfile : ∃ d, t.node (assetPath cache owner repo release chosen) = some (.file d)
      · obtain ⟨d, hfile⟩ := hfile
        exact answer_of_file_iff hrel hsel hfile
      · exact answer_of_no_file_iff hrel hsel hu fun d h => hfile ⟨d, h⟩

theorem answer_resolveHex (p : Pinned) :
    answer (resolveHex releases cache.path noTrouble [] p.text asset t) =
      match cacheLookup t (tagDir cache p.owner p.repo p.tag) asset with
      | some hit => .ok hit
      | none =>
        answer (resolveFresh releases cache.path noTrouble p.owner p.repo p.tag asset t) := by
  rw [resolveHex, parse_text]
  dsimp only
  rw [tagDir]
  cases cacheLookup t (cacheDirFor cache.path p.owner p.repo p.tag) asset <;> rfl

theorem Usable.emptied (hu : Usable cache t) : Usable cache (t.emptied cache.path) :=
  fun p hp d h => hu p hp d (Tree.node_of_emptied h)

theorem fits_emptied {dir : Path} {name : Str} {download : Except Exn Bytes}
    (hb : Tree.below cache.path (dir ++ [name]) = true) :
    Fits cache (t.emptied cache.path) dir name download := by
  have hnone : ∀ {l}, Tree.below cache.path l = true → (t.emptied cache.path).node l = none :=
    fun h => by rw [Tree.node_emptied, if_pos h]
  refine ⟨fun d h => ?_, fun _ _ => ⟨fun h => ?_, fun p _ hp d h => ?_⟩⟩
  · rw [hnone hb] at h
    cases h
  · rw [hnone hb] at h
    cases h
  · rw [hnone hp] at h
    cases h

theorem Releases.assetPath_below (cache : CacheDir)
    (h : releases.byTag owner repo tag = .ok release) (name : Str) :
    Tree.below cache.path (tagDir cache owner repo release.tagName ++ [name]) = true :=
  Tree.below_of_dropLast (by rw [List.dropLast_concat]; exact releases.tagDir_below h)

/-- A call answers as it does with the cache emptied exactly when what it comes upon is the
release's own. -/
theorem agrees_iff_faithful (t : Tree) (p : Pinned) (asset : Option Str) :
    Agrees releases cache t p asset ↔ Faithful releases cache t p asset := by
  unfold Agrees Faithful
  rw [answer_resolveHex, answer_resolveHex]
  dsimp only
  by_cases hu : Usable cache t
  · have hfresh : answer (resolveFresh releases cache.path noTrouble p.owner p.repo p.tag asset
        (t.emptied cache.path)) = releases.answer p.owner p.repo p.tag asset :=
      (answer_resolveFresh_iff hu.emptied).mpr fun release chosen hrel _ =>
        fits_emptied (releases.assetPath_below _ hrel _)
    rw [hfresh]
    cases hempty : cacheLookup (t.emptied cache.path) (tagDir cache p.owner p.repo p.tag) asset with
    | some hit =>
      rw [cacheLookup_of_emptied hempty]
      exact iff_of_true rfl (.inr rfl)
    | none =>
      cases hlook : cacheLookup t (tagDir cache p.owner p.repo p.tag) asset with
      | some hit =>
        dsimp only
        rw [or_iff_left (by simp), eq_comm]
      | none => exact answer_resolveFresh_iff hu
  · -- no cache directory can be made, and nothing is in it
    have hnone : ∀ l, Tree.below cache.path l = true → t.node l = none := by
      intro l hl
      unfold Usable at hu
      push Not at hu
      obtain ⟨q, hq, d, hd⟩ := hu
      obtain ⟨rest, hrest, rfl⟩ := Tree.below_iff.mp hl
      by_contra hn
      refine Tree.not_file_above hn (hq.trans (List.prefix_append _ _)) ?_ hd
      rintro rfl
      have hlen := hq.length_le
      rw [List.length_append] at hlen
      exact hrest (List.eq_nil_of_length_eq_zero (by omega))
    have hsame := Tree.emptied_eq hnone
    rw [hsame]
    refine iff_of_true rfl ?_
    cases cacheLookup t (tagDir cache p.owner p.repo p.tag) asset with
    | some hit => exact .inr rfl
    | none =>
      intro release chosen hrel _
      rw [← hsame]
      exact fits_emptied (releases.assetPath_below _ hrel _)

end MbTools.Hex
