import MbTools.Deploy.HexCache
import MbTools.Lib.Runs

/-! # Calls one after another

From an empty cache directory on, every pinned call by plain names answers as with an empty
one exactly as long as each call files its asset whole, and files what is selected without
`--asset`, or beside a file that is there.
-/

namespace MbTools.Hex

open Files

variable {releases : Releases} {cache : CacheDir} {t : Tree} {owner repo tag : Str}
  {release : Release} {chosen : Asset} {asset : Option Str} {data : Bytes}

/-! ## What a call leaves -/

structure Call where
  repoRef : Str
  asset : Option Str
  latest : Str
  trouble : Trouble

/-- What a call gets as far as filing. -/
structure Stores (releases : Releases) (cache : CacheDir) (trouble : Trouble) (t : Tree)
    (owner repo tag : Str) (asset : Option Str) (release : Release) (chosen : Asset)
    (data : Bytes) : Prop where
  found : trouble.release = none ∧ releases.byTag owner repo tag = .ok release
  selected : selectAsset release.assets asset = .ok chosen
  missing : ∀ d, t.node (assetPath cache owner repo release chosen) ≠ some (.file d)
  downloaded : trouble.download = none ∧ releases.download chosen.url = .ok data
  writes : Writes trouble t (tagDir cache owner repo release.tagName) chosen.name

/-- A call asks for the release of `tag`, its own or the latest. -/
def Asks (cache : CacheDir) (t : Tree) (c : Call) (owner repo tag : Str) : Prop :=
  ∃ pin, parseRepoRef c.repoRef = some (owner, repo, pin) ∧ tag = pin.getD c.latest ∧
    ∀ own ∈ pin, cacheLookup t (tagDir cache owner repo own) c.asset = none

variable (releases cache) in
def call (t : Tree) (c : Call) : Tree :=
  (resolveHex releases cache.path c.trouble c.latest c.repoRef c.asset t).2

variable {trouble : Trouble} {c : Call}

theorem resolveFresh_of_stores
    (h : Stores releases cache trouble t owner repo tag asset release chosen data) :
    ∃ t', Prepared (tagDir cache owner repo release.tagName) t t' ∧
      ∀ l, (resolveFresh releases cache.path trouble owner repo tag asset t).2.node l =
        if l = assetPath cache owner repo release chosen then some (.file (trouble.left data))
        else t'.node l := by
  obtain ⟨⟨hcalm, hrel⟩, hsel, hmissing, ⟨hcalm', hdown⟩, hwrites⟩ := h
  have hlook := lookup_of_no_file hrel hsel hmissing
  obtain ⟨-, t', hprep, hnode⟩ := @writeCache_of_writes _ data _ _ _
    (releases.assetPath_noUp _ hrel hsel) (releases.name_plain hrel hsel) hwrites
  refine ⟨t', hprep, fun l => ?_⟩
  rw [assetPath, ← hnode l]
  unfold resolveFresh
  simp only [hcalm, hcalm', hrel, hsel, hlook, hdown]
  rw [tagDir]
  rcases writeCache trouble (cacheDirFor cache.path owner repo release.tagName) chosen.name data t
    with ⟨_ | _, _⟩ <;> rfl

theorem resolveFresh_of_not_stores
    (h : ∀ release chosen data,
      ¬ Stores releases cache trouble t owner repo tag asset release chosen data) :
    (resolveFresh releases cache.path trouble owner repo tag asset t).2 = t ∨
      ∃ release, releases.byTag owner repo tag = .ok release ∧
        Prepared (tagDir cache owner repo release.tagName) t
          (resolveFresh releases cache.path trouble owner repo tag asset t).2 := by
  unfold resolveFresh
  cases hcalm : trouble.release with
  | some e => exact .inl rfl
  | none =>
    cases hrel : releases.byTag owner repo tag with
    | error e => exact .inl rfl
    | ok release =>
      cases hsel : selectAsset release.assets asset with
      | error e =>
        left
        dsimp only
        rw [hsel]
      | ok chosen =>
        dsimp only
        simp only [hsel]
        cases hlook : cacheLookup t (cacheDirFor cache.path owner repo release.tagName)
            (some chosen.name) with
        | some hit => exact .inl rfl
        | none =>
          cases hcalm' : trouble.download with
          | some e => exact .inl rfl
          | none =>
            cases hdown : releases.download chosen.url with
            | error e => exact .inl rfl
            | ok data =>
              have hpath := releases.assetPath_noUp cache hrel hsel
              have hname := releases.name_plain hrel hsel
              have hmissing : ∀ d, t.node (assetPath cache owner repo release chosen) ≠
                  some (.file d) := by
                intro d hd
                rw [assetPath] at hd
                have hhit := (@cacheLookup_some_iff _ _ _ (chosen.name, d) hpath hname).mpr
                  ⟨rfl, hd⟩
                rw [tagDir, hlook] at hhit
                cases hhit
              obtain ⟨-, hprep⟩ := @writeCache_of_not_writes _ data _ _ _ hpath hname fun hw =>
                h release chosen data ⟨⟨hcalm, hrel⟩, hsel, hmissing, ⟨hcalm', hdown⟩, hw⟩
              refine .inr ⟨release, rfl, ?_⟩
              rw [tagDir] at hprep ⊢
              dsimp only
              rcases hw : writeCache trouble (cacheDirFor cache.path owner repo release.tagName)
                chosen.name data t with ⟨_ | _, t'⟩
              · rw [hw] at hprep
                exact hprep
              · rw [hw] at hprep
                exact hprep

theorem call_of_asks (h : Asks cache t c owner repo tag) :
    call releases cache t c =
      (resolveFresh releases cache.path c.trouble owner repo tag c.asset t).2 := by
  obtain ⟨pin, hparse, rfl, hmiss⟩ := h
  unfold call resolveHex
  rw [hparse]
  cases pin with
  | none => rfl
  | some own =>
    have := hmiss own rfl
    rw [tagDir] at this
    dsimp only
    rw [this]
    rfl

theorem call_of_not_asks (h : ∀ owner repo tag, ¬ Asks cache t c owner repo tag) :
    call releases cache t c = t := by
  unfold call resolveHex
  cases hparse : parseRepoRef c.repoRef with
  | none => rfl
  | some x =>
    obtain ⟨owner, repo, pin⟩ := x
    cases pin with
    | none => exact absurd ⟨none, hparse, rfl, by simp⟩ (h owner repo c.latest)
    | some own =>
      cases hlook : cacheLookup t (cacheDirFor cache.path owner repo own) c.asset with
      | some hit =>
        dsimp only
        rw [hlook]
      | none =>
        refine absurd ⟨some own, hparse, rfl, ?_⟩ (h owner repo own)
        rintro own' ⟨⟩
        exact hlook

variable (releases cache) in
/-- What the call files, if it files anything, is whole, and is what is selected without
`--asset` or goes beside another file. -/
def Sound (t : Tree) (c : Call) : Prop :=
  ∀ owner repo tag release chosen data, Asks cache t c owner repo tag →
    Stores releases cache c.trouble t owner repo tag c.asset release chosen data →
    c.trouble.left data = data ∧ (selectAsset release.assets none = .ok chosen ∨
      t.filesIn (tagDir cache owner repo release.tagName) ≠ [])

/-- What a call leaves: at most directories along a release's own, or those and one file. -/
theorem call_cases (t : Tree) (c : Call) :
    (∃ owner repo tag release chosen data, Asks cache t c owner repo tag ∧
        Stores releases cache c.trouble t owner repo tag c.asset release chosen data) ∨
      call releases cache t c = t ∨
      ∃ owner repo tag release, releases.byTag owner repo tag = .ok release ∧
        Prepared (tagDir cache owner repo release.tagName) t (call releases cache t c) := by
  by_cases hasks : ∃ owner repo tag, Asks cache t c owner repo tag
  · obtain ⟨owner, repo, tag, hasks⟩ := hasks
    by_cases hstores : ∃ release chosen data,
        Stores releases cache c.trouble t owner repo tag c.asset release chosen data
    · obtain ⟨release, chosen, data, hstores⟩ := hstores
      exact .inl ⟨owner, repo, tag, release, chosen, data, hasks, hstores⟩
    · push Not at hstores
      rw [call_of_asks hasks]
      obtain h | ⟨release, hrel, h⟩ := resolveFresh_of_not_stores hstores
      · exact .inr (.inl h)
      · exact .inr (.inr ⟨owner, repo, tag, release, hrel, h⟩)
  · push Not at hasks
    exact .inr (.inl (call_of_not_asks hasks))

/-! ## What sound calls keep -/

variable (releases cache) in
/-- The cache holds what the releases have to be had: each file is an asset's own, each directory
is on the way to a release's, and a file alone in one is the asset selected there. -/
structure Kept (t : Tree) : Prop where
  root : t.node cache.path = some .dir
  file : ∀ l d, Tree.below cache.path l = true → t.node l = some (.file d) →
    ∃ owner repo release chosen, releases.byTag owner repo release.tagName = .ok release ∧
      byName release.assets chosen.name = some chosen ∧
      l = assetPath cache owner repo release chosen ∧ releases.download chosen.url = .ok d
  dir : ∀ l, Tree.below cache.path l = true → t.node l = some .dir →
    ∃ owner repo release, releases.byTag owner repo release.tagName = .ok release ∧
      l <+: tagDir cache owner repo release.tagName
  single : ∀ owner repo release file, releases.byTag owner repo release.tagName = .ok release →
    t.filesIn (tagDir cache owner repo release.tagName) = [file] →
    ∃ chosen, selectAsset release.assets none = .ok chosen ∧ chosen.name = file.1

/-- A cache directory with nothing in it. -/
def Empty (cache : CacheDir) (t : Tree) : Prop :=
  t.node cache.path = some .dir ∧ ∀ l, Tree.below cache.path l = true → t.node l = none

theorem Kept.of_empty (h : Empty cache t) : Kept releases cache t where
  root := h.1
  file l d hb hl := by
    rw [h.2 l hb] at hl
    cases hl
  dir l hb hl := by
    rw [h.2 l hb] at hl
    cases hl
  single owner repo release file hrel hf := by
    obtain ⟨name, d⟩ := file
    have hmem := Tree.mem_filesIn.mp (hf ▸ List.mem_singleton_self (name, d))
    rw [h.2 _ (releases.assetPath_below _ hrel name)] at hmem
    cases hmem

theorem splitOn_injective {a b : Str} (h : a.splitOn '/' = b.splitOn '/') : a = b := by
  rw [← @List.intercalate_splitOn _ a _ _ '/', h, List.intercalate_splitOn]

theorem tagDir_isPrefix {owner' repo' tag' : Str} {rest : Path}
    (ho : Plain owner) (hr : Plain repo) (ht : ∀ c ∈ tag.splitOn '/', Plain c)
    (ho' : Plain owner') (hr' : Plain repo') (ht' : ∀ c ∈ tag'.splitOn '/', Plain c) :
    tagDir cache owner repo tag ++ rest <+: tagDir cache owner' repo' tag' ↔
      owner = owner' ∧ repo = repo' ∧ tag.splitOn '/' ++ rest <+: tag'.splitOn '/' := by
  rw [tagDir_of_plain ho hr ht, tagDir_of_plain ho' hr' ht', List.append_assoc,
    List.prefix_append_right_inj]
  simp only [List.cons_append, List.cons_prefix_cons]

theorem tagDir_injective {owner' repo' tag' : Str}
    (ho : Plain owner) (hr : Plain repo) (ht : ∀ c ∈ tag.splitOn '/', Plain c)
    (ho' : Plain owner') (hr' : Plain repo') (ht' : ∀ c ∈ tag'.splitOn '/', Plain c)
    (h : tagDir cache owner repo tag = tagDir cache owner' repo' tag') :
    owner = owner' ∧ repo = repo' ∧ tag = tag' := by
  rw [tagDir_of_plain ho hr ht, tagDir_of_plain ho' hr' ht'] at h
  have hparts := List.append_cancel_left h
  rw [List.cons.injEq, List.cons.injEq] at hparts
  exact ⟨hparts.1, hparts.2.1, splitOn_injective hparts.2.2⟩

/-- No release's directory lies at an asset of another, nor below one. -/
theorem Releases.not_nested {owner' repo' tag' : Str} {release' : Release} {name : Str}
    (h : releases.byTag owner repo tag = .ok release)
    (h' : releases.byTag owner' repo' tag' = .ok release') :
    ¬ tagDir cache owner repo release.tagName ++ [name] <+:
      tagDir cache owner' repo' release'.tagName := by
  rw [tagDir_isPrefix (releases.ref_plain h).1 (releases.ref_plain h).2 (releases.tag_plain h)
    (releases.ref_plain h').1 (releases.ref_plain h').2 (releases.tag_plain h')]
  rintro ⟨rfl, rfl, hp⟩
  have hsame := releases.apart h h' ((List.prefix_append _ _).trans hp)
  have hlen := hp.length_le
  rw [hsame, List.length_append, List.length_singleton] at hlen
  omega

theorem Releases.eq_of_tagDir {owner' repo' tag' : Str} {release' : Release}
    (h : releases.byTag owner repo tag = .ok release)
    (h' : releases.byTag owner' repo' tag' = .ok release')
    (hdir : tagDir cache owner repo release.tagName = tagDir cache owner' repo' release'.tagName) :
    owner = owner' ∧ repo = repo' ∧ release = release' := by
  obtain ⟨rfl, rfl, htag⟩ := tagDir_injective (releases.ref_plain h).1 (releases.ref_plain h).2
    (releases.tag_plain h) (releases.ref_plain h').1 (releases.ref_plain h').2
    (releases.tag_plain h') hdir
  have hown := releases.own_tag h
  rw [htag, releases.own_tag h'] at hown
  exact ⟨rfl, rfl, (Except.ok.inj hown).symm⟩

theorem Prepared.file_iff {dir : Path} {t' : Tree} (h : Prepared dir t t') {l : Path} {d : Bytes} :
    t'.node l = some (.file d) ↔ t.node l = some (.file d) := by
  obtain he | ⟨hnone, hnew, -⟩ := h l
  · rw [he]
  · rw [hnone, hnew]
    simp

theorem filesIn_congr {t' : Tree} {dir : Path} {file : Str × Bytes}
    (h : ∀ name d, t'.node (dir ++ [name]) = some (.file d) ↔
      t.node (dir ++ [name]) = some (.file d)) :
    t'.filesIn dir = [file] ↔ t.filesIn dir = [file] := by
  simp only [Tree.filesIn_eq_singleton]
  refine forall_congr' fun y => ?_
  rw [@Tree.mem_filesIn _ _ y.1, @Tree.mem_filesIn _ _ y.1, h]

theorem Kept.of_prepared {t' : Tree} (hk : Kept releases cache t)
    (hrel : releases.byTag owner repo tag = .ok release)
    (h : Prepared (tagDir cache owner repo release.tagName) t t') : Kept releases cache t' where
  root := by
    obtain he | ⟨hnone, -, -⟩ := h cache.path
    · rw [he, hk.root]
    · rw [hk.root] at hnone
      cases hnone
  file l d hb hl := hk.file l d hb (h.file_iff.mp hl)
  dir l hb hl := by
    obtain he | ⟨-, -, hp⟩ := h l
    · exact hk.dir l hb (he ▸ hl)
    · exact ⟨owner, repo, release, releases.own_tag hrel, hp⟩
  single owner' repo' release' file hrel' hf :=
    hk.single owner' repo' release' file hrel'
      ((filesIn_congr fun _ _ => h.file_iff).mp hf)

/-- What a call that files leaves. -/
def Left (cache : CacheDir) (owner repo : Str) (release : Release) (chosen : Asset) (left : Bytes)
    (t t' : Tree) : Prop :=
  ∃ s, Prepared (tagDir cache owner repo release.tagName) t s ∧ ∀ l, t'.node l =
    if l = assetPath cache owner repo release chosen then some (.file left) else s.node l

theorem Left.node_self {left : Bytes} {t' : Tree}
    (h : Left cache owner repo release chosen left t t') :
    t'.node (tagDir cache owner repo release.tagName ++ [chosen.name]) = some (.file left) := by
  obtain ⟨s, -, hnode⟩ := h
  rw [hnode, assetPath, if_pos rfl]

theorem Left.file_iff {left : Bytes} {t' : Tree}
    (h : Left cache owner repo release chosen left t t') {l : Path} {d : Bytes}
    (hl : l ≠ assetPath cache owner repo release chosen) :
    t'.node l = some (.file d) ↔ t.node l = some (.file d) := by
  obtain ⟨s, hprep, hnode⟩ := h
  rw [hnode, if_neg hl, hprep.file_iff]

theorem Left.file_persists {left : Bytes} {t' : Tree}
    (h : Left cache owner repo release chosen left t t')
    (hmissing : ∀ d, t.node (assetPath cache owner repo release chosen) ≠ some (.file d))
    {l : Path} {d : Bytes} (hl : t.node l = some (.file d)) : t'.node l = some (.file d) :=
  (h.file_iff fun he => hmissing d (he ▸ hl)).mpr hl

/-- A whole asset, selected without `--asset` or filed beside another, keeps everything. -/
theorem Kept.of_left {t' : Tree} (hk : Kept releases cache t)
    (hrel : releases.byTag owner repo tag = .ok release)
    (hown : byName release.assets chosen.name = some chosen)
    (hdown : releases.download chosen.url = .ok data)
    (hmissing : ∀ d, t.node (assetPath cache owner repo release chosen) ≠ some (.file d))
    (hsound : selectAsset release.assets none = .ok chosen ∨
      t.filesIn (tagDir cache owner repo release.tagName) ≠ [])
    (h : Left cache owner repo release chosen data t t') : Kept releases cache t' where
  root := by
    obtain ⟨s, hprep, hnode⟩ := h
    rw [hnode, if_neg, (hk.of_prepared hrel hprep).root]
    intro he
    have hb := releases.assetPath_below cache hrel chosen.name
    rw [assetPath] at he
    rw [← he] at hb
    obtain ⟨rest, hrest, hr⟩ := Tree.below_iff.mp hb
    exact hrest (List.self_eq_append_right.mp hr)
  file l d hb hl := by
    by_cases hpath : l = assetPath cache owner repo release chosen
    · rw [hpath, assetPath, h.node_self] at hl
      cases hl
      exact ⟨owner, repo, release, chosen, releases.own_tag hrel, hown, hpath, hdown⟩
    · exact hk.file l d hb ((h.file_iff hpath).mp hl)
  dir l hb hl := by
    obtain ⟨s, hprep, hnode⟩ := h
    rw [hnode] at hl
    split at hl
    · cases hl
    · exact (hk.of_prepared hrel hprep).dir l hb hl
  single owner' repo' release' file hrel' hf := by
    by_cases hdir : tagDir cache owner' repo' release'.tagName =
        tagDir cache owner repo release.tagName
    · obtain ⟨rfl, rfl, rfl⟩ := releases.eq_of_tagDir hrel' hrel hdir
      have hall := Tree.filesIn_eq_singleton.mp hf
      have hself : (chosen.name, data) = file := (hall _).mp (Tree.mem_filesIn.mpr h.node_self)
      -- a file that was there would be there still, beside the new one
      have hnone : t.filesIn (tagDir cache owner' repo' release'.tagName) = [] := by
        rw [List.eq_nil_iff_forall_not_mem]
        rintro ⟨name, d⟩ hmem
        have hold := Tree.mem_filesIn.mp hmem
        have hsame := (hall _).mp (Tree.mem_filesIn.mpr (h.file_persists hmissing hold))
        rw [← hself] at hsame
        cases hsame
        exact hmissing _ hold
      exact ⟨chosen, hsound.resolve_right fun hne => hne hnone, by rw [← hself]⟩
    · refine hk.single owner' repo' release' file hrel'
        ((filesIn_congr fun name d => h.file_iff fun he => hdir ?_).mp hf)
      exact (List.append_inj' he rfl).1

theorem kept_of_sound (hk : Kept releases cache t) (hs : Sound releases cache t c) :
    Kept releases cache (call releases cache t c) := by
  obtain ⟨owner, repo, tag, release, chosen, data, hasks, hstores⟩ | h |
    ⟨owner, repo, tag, release, hrel, h⟩ := @call_cases releases _ t c
  · obtain ⟨hwhole, hsound⟩ := hs owner repo tag release chosen data hasks hstores
    have hleft := resolveFresh_of_stores hstores
    rw [← call_of_asks hasks, hwhole] at hleft
    exact hk.of_left hstores.found.2 (selectAsset_own hstores.selected) hstores.downloaded.2
      hstores.missing hsound hleft
  · rwa [h]
  · exact hk.of_prepared hrel h

/-! ## What further calls find -/

/-- A pinned call by plain names: no `..` and no empty part in the reference, and an asset that
is a file's name. -/
structure Named (p : Pinned) (asset : Option Str) : Prop where
  owner : Plain p.owner
  repo : Plain p.repo
  tag : ∀ c ∈ p.tag.splitOn '/', Plain c
  asset : ∀ name ∈ asset, Plain name

variable (releases cache) in
/-- Every further pinned call by plain names answers as with an empty cache. -/
def AllAgree (t : Tree) : Prop := ∀ p asset, Named p asset → Agrees releases cache t p asset

/-- The release that has filed what a named call finds is the one it asks for. -/
theorem Kept.found {p : Pinned} {name : Str} (hk : Kept releases cache t) (hn : Named p asset)
    (hnode : t.node (tagDir cache p.owner p.repo p.tag ++ [name]) = some (.file data)) :
    ∃ release chosen, releases.byTag p.owner p.repo p.tag = .ok release ∧
      p.tag = release.tagName ∧ byName release.assets name = some chosen ∧
      releases.download chosen.url = .ok data := by
  have hb : Tree.below cache.path (tagDir cache p.owner p.repo p.tag ++ [name]) = true := by
    refine Tree.below_of_dropLast ?_
    rw [List.dropLast_concat]
    exact below_tagDir hn.owner hn.repo hn.tag
  obtain ⟨owner, repo, release, chosen, hrel, hown, hpath, hdown⟩ := hk.file _ _ hb hnode
  obtain ⟨hdir, hname⟩ := List.append_inj' hpath rfl
  obtain ⟨ho, hr, ht⟩ := tagDir_injective hn.owner hn.repo hn.tag (releases.ref_plain hrel).1
    (releases.ref_plain hrel).2 (releases.tag_plain hrel) hdir
  rw [List.singleton_inj.mp hname]
  refine ⟨release, chosen, ?_, ht, hown, hdown⟩
  rwa [ho, hr, ht]

theorem Kept.fits (hk : Kept releases cache t)
    (hrel : releases.byTag owner repo tag = .ok release)
    (hsel : selectAsset release.assets asset = .ok chosen) :
    Fits cache t (tagDir cache owner repo release.tagName) chosen.name
      (releases.download chosen.url) where
  whole d hd := by
    obtain ⟨owner', repo', release', chosen', hrel', hown, hpath, hdown⟩ :=
      hk.file _ _ (releases.assetPath_below _ hrel _) hd
    obtain ⟨hdir, hname⟩ := List.append_inj' hpath rfl
    obtain ⟨rfl, rfl, rfl⟩ := releases.eq_of_tagDir hrel hrel' hdir
    rw [← List.singleton_inj.mp hname, selectAsset_own hsel] at hown
    cases hown
    exact hdown
  free d _ := by
    refine ⟨fun hd => ?_, fun p hp hb d hd => ?_⟩
    · obtain ⟨owner', repo', release', hrel', hp⟩ :=
        hk.dir _ (releases.assetPath_below _ hrel _) hd
      exact releases.not_nested hrel hrel' hp
    · obtain ⟨owner', repo', release', chosen', hrel', -, rfl, -⟩ := hk.file _ _ hb hd
      exact releases.not_nested hrel' hrel hp

theorem Kept.allAgree (hk : Kept releases cache t) : AllAgree releases cache t := by
  intro p asset hn
  have hnoUp := @noUp_tagDir cache _ _ _ hn.owner hn.repo hn.tag
  rw [agrees_iff_faithful]
  unfold Faithful
  dsimp only
  cases hlook : cacheLookup t (tagDir cache p.owner p.repo p.tag) asset with
  | none => exact fun release chosen hrel hsel => hk.fits hrel hsel
  | some hit =>
    obtain ⟨name, data⟩ := hit
    left
    cases asset with
    | some name' =>
      have hplain := hn.asset name' rfl
      have hpath : dotdot ∉ tagDir cache p.owner p.repo p.tag ++ [name'] := by
        rw [List.mem_append, not_or, List.mem_singleton]
        exact ⟨hnoUp, fun h => hplain.2.2.1 h.symm⟩
      obtain ⟨rfl, hnode⟩ := (cacheLookup_some_iff hpath hplain).mp hlook
      obtain ⟨release, chosen, hrel, -, hown, hdown⟩ := hk.found hn hnode
      rw [releases.answer_eq hrel (selectAsset_some.mpr hown), hdown, byName_name hown]
      rfl
    | none =>
      obtain ⟨-, hfiles⟩ := (cacheLookup_none_iff hnoUp).mp hlook
      have hnode := Tree.mem_filesIn.mp (hfiles ▸ List.mem_singleton_self (name, data))
      obtain ⟨release, chosen, hrel, htag, hown, hdown⟩ := hk.found hn hnode
      rw [htag] at hfiles
      obtain ⟨chosen', hsel, hname⟩ := hk.single _ _ _ _ (releases.own_tag hrel) hfiles
      have hown' := selectAsset_own hsel
      rw [hname, hown] at hown'
      cases hown'
      rw [releases.answer_eq hrel hsel, hdown, hname]
      rfl

theorem Left.filesIn_eq {left : Bytes} {t' : Tree}
    (h : Left cache owner repo release chosen left t t')
    (halone : t.filesIn (tagDir cache owner repo release.tagName) = []) :
    t'.filesIn (tagDir cache owner repo release.tagName) = [(chosen.name, left)] := by
  rw [Tree.filesIn_eq_singleton]
  rintro ⟨name, d⟩
  rw [Tree.mem_filesIn]
  by_cases hname : name = chosen.name
  · subst hname
    rw [h.node_self]
    simp [eq_comm]
  · have hpath : tagDir cache owner repo release.tagName ++ [name] ≠
        assetPath cache owner repo release chosen := fun he =>
      hname (List.singleton_inj.mp (List.append_inj' he rfl).2)
    have hold : t.node (tagDir cache owner repo release.tagName ++ [name]) ≠ some (.file d) := by
      intro hd
      have := Tree.mem_filesIn.mpr hd
      rw [halone] at this
      cases this
    rw [h.file_iff hpath]
    simp [hold, hname]

/-- Where all further calls agree, what is found in a release's directory is its answer. -/
theorem AllAgree.answer {text : Str} {pin : Option Str} {hit : Str × Bytes}
    (hall : AllAgree releases cache t) (hparse : parseRepoRef text = some (owner, repo, pin))
    (hrel : releases.byTag owner repo tag = .ok release) (hasset : ∀ name ∈ asset, Plain name)
    (hlook : cacheLookup t (tagDir cache owner repo release.tagName) asset = some hit) :
    releases.answer owner repo release.tagName asset = .ok hit := by
  have htag : release.tagName ≠ [] := by
    intro he
    exact (releases.tag_plain hrel [] (by simp [he])).1 rfl
  have hnamed : Named ⟨owner, repo, release.tagName, (parse_spelt hparse).1,
      (parse_spelt hparse).2, htag⟩ asset :=
    ⟨(releases.ref_plain hrel).1, (releases.ref_plain hrel).2, releases.tag_plain hrel, hasset⟩
  have hfaithful := (agrees_iff_faithful _ _ _).mp (hall _ _ hnamed)
  unfold Faithful at hfaithful
  dsimp only at hfaithful
  rw [hlook, cacheLookup_emptied (releases.tagDir_noUp hrel) (releases.tagDir_below hrel)]
    at hfaithful
  simpa using hfaithful

/-- After an unsound call some further call by plain names does not answer as with an empty
cache: one for the asset that is torn, or one without `--asset`. -/
theorem sound_of_allAgree (hall : AllAgree releases cache (call releases cache t c)) :
    Sound releases cache t c := by
  intro owner repo tag release chosen data hasks hstores
  have hleft := resolveFresh_of_stores hstores
  rw [← call_of_asks hasks] at hleft
  change Left cache owner repo release chosen (c.trouble.left data) t
    (call releases cache t c) at hleft
  obtain ⟨pin, hparse, -, -⟩ := hasks
  have hrel := hstores.found.2
  have hsel := hstores.selected
  have hname := releases.name_plain hrel hsel
  constructor
  · have hlook := (@cacheLookup_some_iff _ _ _ (chosen.name, c.trouble.left data)
      (releases.assetPath_noUp _ hrel hsel) hname).mpr ⟨rfl, hleft.node_self⟩
    obtain ⟨chosen', hsel', -, hdown⟩ := releases.selected_of_answer (releases.own_tag hrel)
      (hall.answer hparse hrel (by rintro name ⟨⟩; exact hname) hlook)
    rw [selectAsset_some, selectAsset_own hsel] at hsel'
    cases hsel'
    rw [hstores.downloaded.2] at hdown
    exact (Except.ok.inj hdown).symm
  · rw [or_iff_not_imp_right, not_not]
    intro halone
    have hlook := (cacheLookup_none_iff (releases.tagDir_noUp hrel)).mpr
      ⟨Tree.dir_of_append (Option.ne_none_iff_exists'.mpr ⟨_, hleft.node_self⟩)
        (List.cons_ne_nil _ _), hleft.filesIn_eq halone⟩
    obtain ⟨chosen', hsel', hname', -⟩ := releases.selected_of_answer (releases.own_tag hrel)
      (hall.answer hparse hrel (by simp) hlook)
    have hown' := selectAsset_own hsel'
    rw [hname', selectAsset_own hsel] at hown'
    cases hown'
    exact hsel'

variable (releases cache) in
def step (t : Tree) (c : Call) : Option Tree := some (call releases cache t c)

/-- A pinned call answers as with an empty cache directory exactly when what it comes upon in the
cache is the release's own. And over calls that begin with an empty one: every pinned call by
plain names, at any point between them, answers so exactly as long as each is sound. -/
theorem resolve_hex_agrees_iff (releases : Releases) (cache : CacheDir) :
    (∀ t p asset, Agrees releases cache t p asset ↔ Faithful releases cache t p asset) ∧
    ∀ t calls, Empty cache t →
      ((∀ earlier t', earlier <+: calls → Runs.exec (step releases cache) t earlier = some t' →
          AllAgree releases cache t') ↔
        Runs.Meets (step releases cache) (Sound releases cache) t calls) := by
  refine ⟨agrees_iff_faithful, fun t calls hempty => ?_⟩
  have hexec : ∃ t', Runs.exec (step releases cache) t calls = some t' := by
    clear hempty
    induction calls generalizing t with
    | nil => exact ⟨t, rfl⟩
    | cons c calls ih => exact ih (call releases cache t c)
  obtain ⟨t', hexec⟩ := hexec
  have hkept : Kept releases cache t := .of_empty hempty
  constructor
  · refine Runs.meets_of_always ?_ hexec
    rintro s c s' - ⟨⟩ hall
    exact sound_of_allAgree hall
  · rintro hm earlier s ⟨later, rfl⟩ hs
    refine Kept.allAgree (Runs.inv_of_meets ?_ hkept hm.left hs)
    rintro s c s' hk hsound ⟨⟩
    exact kept_of_sound hk hsound

/-! ## A release with two assets -/

def twoAssets : Release :=
  ⟨"v1".toList, [⟨"MICROBIT.hex".toList, "/1".toList⟩, ⟨"B.hex".toList, "/2".toList⟩]⟩

def oneRelease : Releases where
  byTag owner repo tag :=
    if owner = "o".toList ∧ repo = "r".toList ∧ tag = "v1".toList then .ok twoAssets
    else .error (.fetch "not found (404)")
  download url :=
    if url = "/1".toList then .ok [1] else if url = "/2".toList then .ok [2]
    else .error (.fetch "not found (404)")
  ref_plain {owner repo tag release} h := by
    split at h
    · rename_i hif
      rw [hif.1, hif.2.1]
      decide
    · cases h
  tag_plain {owner repo tag release} h := by
    split at h
    · cases h
      decide
    · cases h
  asset_plain {owner repo tag release} h := by
    split at h
    · cases h
      decide
    · cases h
  own_tag {owner repo tag release} h := by
    split at h
    · rename_i hif
      cases h
      exact if_pos ⟨hif.1, hif.2.1, rfl⟩
    · cases h
  apart {owner repo tag tag' release release'} h h' _ := by
    split at h
    · split at h'
      · cases h
        cases h'
        rfl
      · cases h'
    · cases h

def cacheAt : CacheDir := ⟨["cache".toList], by decide⟩

def emptyCache : Tree := Tree.bare.add ["cache".toList] .dir

def pinned : Pinned := ⟨"o".toList, "r".toList, "v1".toList, by decide, by decide, by decide⟩

theorem emptyCache_empty : Empty cacheAt emptyCache := by
  have hnode : ∀ l, emptyCache.node l =
      if l = ["cache".toList] then some .dir else Tree.bare.node l :=
    Tree.node_add (by decide) rfl (by decide)
  constructor
  · rw [hnode]
    rfl
  · intro l hl
    obtain ⟨rest, hrest, rfl⟩ := Tree.below_iff.mp hl
    rw [hnode, if_neg, Files.Tree.node, if_neg (by simp [cacheAt])]
    · rfl
    · intro he
      exact hrest (List.append_right_eq_self.mp he)

/-- Asking for `B.hex` once makes it the answer from then on. -/
theorem other_asset_served : Empty cacheAt emptyCache ∧
    ∃ t, Runs.exec (step oneRelease cacheAt) emptyCache
        [⟨pinned.text, some "B.hex".toList, [], noTrouble⟩] = some t ∧
      answer (resolveHex oneRelease cacheAt.path noTrouble [] pinned.text none t) =
        .ok ("B.hex".toList, [2]) ∧
      ¬ Agrees oneRelease cacheAt t pinned none := by
  refine ⟨emptyCache_empty, _, rfl, by decide +kernel, ?_⟩
  unfold Agrees
  decide +kernel

/-- Asked without `--asset`, the release answers from the cache as it does by itself. -/
theorem resolve_hex_agrees_default :
    AllAgree oneRelease cacheAt (call oneRelease cacheAt emptyCache
      ⟨pinned.text, none, [], noTrouble⟩) := by
  have hsound : Sound oneRelease cacheAt emptyCache ⟨pinned.text, none, [], noTrouble⟩ :=
    fun _ _ _ _ _ _ _ hstores => ⟨rfl, .inl hstores.selected⟩
  exact ((resolve_hex_agrees_iff oneRelease cacheAt).2 emptyCache
    [⟨pinned.text, none, [], noTrouble⟩] emptyCache_empty).mpr ⟨hsound, fun _ _ => trivial⟩
    [⟨pinned.text, none, [], noTrouble⟩] _ List.prefix_rfl rfl

end MbTools.Hex
