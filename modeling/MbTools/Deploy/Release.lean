import Mathlib.Data.Char
import Mathlib.Data.List.Lex
import Mathlib.Data.List.TakeWhile
import MbTools.Lib.FileTree

/-! # The hex file of a release

`resolve_hex` turns `OWNER/REPO[@TAG]` into a hex file: from the cache directory, where it
can, else from the release's assets, one of which it selects, downloads and files.
-/

namespace MbTools.Hex

open Files

abbrev Str := List Char

/-! ## References -/

/-- `str.partition` -/
def partition (sep : Char) (text : Str) : Str × Str :=
  (text.takeWhile (· ≠ sep), (text.dropWhile (· ≠ sep)).tail)

/-- `parse_repo_ref`: owner, repository and the tag of a pin. -/
def parseRepoRef (repoRef : Str) : Option (Str × Str × Option Str) :=
  let (ref, tag) := partition '@' repoRef
  let (owner, repo) := partition '/' ref
  if owner = [] ∨ repo = [] then none
  else some (owner, repo, if tag = [] then none else some tag)

/-- A reference with a tag. -/
structure Pinned where
  owner : Str
  repo : Str
  tag : Str
  owner_spelt : owner ≠ [] ∧ '/' ∉ owner ∧ '@' ∉ owner
  repo_spelt : repo ≠ [] ∧ '@' ∉ repo
  tag_spelt : tag ≠ []

def Pinned.text (p : Pinned) : Str := p.owner ++ '/' :: p.repo ++ '@' :: p.tag

theorem partition_append {sep : Char} {a : Str} (b : Str) (h : sep ∉ a) :
    partition sep (a ++ sep :: b) = (a, b) := by
  have hp : ∀ c ∈ a, (c ≠ sep) = true := fun c hc => by
    simp only [eq_iff_iff, iff_true]
    rintro rfl
    exact h hc
  unfold partition
  rw [List.takeWhile_append_of_pos (by simpa using hp), List.dropWhile_append_of_pos
    (by simpa using hp)]
  simp

theorem partition_fst {sep : Char} {a : Str} : sep ∉ (partition sep a).1 := by
  intro h
  simpa using List.mem_takeWhile_imp h

theorem parse_text (p : Pinned) : parseRepoRef p.text = some (p.owner, p.repo, some p.tag) := by
  have hat : '@' ∉ p.owner ++ '/' :: p.repo := by
    simp [p.owner_spelt.2.2, p.repo_spelt.2]
  rw [parseRepoRef, Pinned.text, partition_append _ hat]
  dsimp only
  rw [partition_append _ p.owner_spelt.2.1]
  simp [p.owner_spelt.1, p.repo_spelt.1, p.tag_spelt]

theorem parse_spelt {text owner repo : Str} {tag : Option Str}
    (h : parseRepoRef text = some (owner, repo, tag)) :
    (owner ≠ [] ∧ '/' ∉ owner ∧ '@' ∉ owner) ∧ (repo ≠ [] ∧ '@' ∉ repo) := by
  have hsub : ∀ {a : Str} {c : Char}, c ∈ (partition '/' a).1 → c ∈ a := fun hc =>
    (List.takeWhile_prefix _).subset hc
  have hsub' : ∀ {a : Str} {c : Char}, c ∈ (partition '/' a).2 → c ∈ a := fun hc =>
    (List.dropWhile_suffix _).subset (List.mem_of_mem_tail hc)
  unfold parseRepoRef at h
  dsimp only at h
  split at h
  · cases h
  · rename_i hne
    rw [not_or] at hne
    cases h
    exact ⟨⟨hne.1, partition_fst, fun hc => partition_fst (hsub hc)⟩, hne.2,
      fun hc => partition_fst (hsub' hc)⟩

theorem parse_pinned {text owner repo tag : Str}
    (h : parseRepoRef text = some (owner, repo, some tag)) :
    ∃ p : Pinned, p.owner = owner ∧ p.repo = repo ∧ p.tag = tag := by
  have htag : tag ≠ [] := by
    unfold parseRepoRef at h
    dsimp only at h
    split at h
    · cases h
    · rw [Option.some.injEq, Prod.mk.injEq, Prod.mk.injEq] at h
      rintro rfl
      have := h.2.2
      split at this
      · cases this
      · rename_i hne
        exact hne (Option.some.inj this)
  exact ⟨⟨owner, repo, tag, (parse_spelt h).1, (parse_spelt h).2, htag⟩, rfl, rfl, rfl⟩

/-! ## Assets -/

structure Asset where
  name : Str
  url : Str
  deriving DecidableEq

structure Release where
  tagName : Str
  assets : List Asset
  deriving DecidableEq

inductive Exn where
  | valueError (repoRef : Str)
  | fetch (message : String)
  | assetNotFound (asset : Str) (available : List Str)
  | noHexAsset
  | ambiguousAsset (names : List Str)
  | os (e : OSError)
  deriving DecidableEq

def preferredAssetName : Str := "MICROBIT.hex".toList

def sorted (names : List Str) : List Str := names.mergeSort fun a b => decide (a ≤ b)

/-- `by_name`: of two assets of one name the later one. -/
def byName (assets : List Asset) (name : Str) : Option Asset :=
  assets.reverse.find? fun a => a.name = name

/-- `_select_asset` -/
def selectAsset (assets : List Asset) (asset : Option Str) : Except Exn Asset :=
  match asset with
  | some name =>
    match byName assets name with
    | some chosen => .ok chosen
    | none => .error (.assetNotFound name (sorted (assets.map Asset.name).dedup))
  | none =>
    match byName assets preferredAssetName with
    | some chosen => .ok chosen
    | none =>
      match assets.filter fun a => ".hex".toList <:+ a.name with
      | [chosen] => .ok chosen
      | [] => .error .noHexAsset
      | hexAssets => .error (.ambiguousAsset (sorted (hexAssets.map Asset.name)))

theorem byName_name {assets : List Asset} {name : Str} {a : Asset}
    (h : byName assets name = some a) : a.name = name := by
  simpa using List.find?_some h

theorem byName_mem {assets : List Asset} {name : Str} {a : Asset}
    (h : byName assets name = some a) : a ∈ assets :=
  List.mem_reverse.mp (List.mem_of_find?_eq_some h)

theorem byName_unique {assets : List Asset} {a : Asset} (ha : a ∈ assets)
    (h : ∀ b ∈ assets, b.name = a.name → b = a) : byName assets a.name = some a := by
  cases hf : byName assets a.name with
  | some b => rw [h b (byName_mem hf) (byName_name hf)]
  | none =>
    have := List.find?_eq_none.mp hf a (List.mem_reverse.mpr ha)
    simp at this

/-- An asset that is selected is the one that its own name selects. -/
theorem selectAsset_own {assets : List Asset} {asset : Option Str} {a : Asset}
    (h : selectAsset assets asset = .ok a) : byName assets a.name = some a := by
  have hname : ∀ {name}, byName assets name = some a → byName assets a.name = some a := by
    intro name hn
    rwa [← byName_name hn] at hn
  unfold selectAsset at h
  split at h
  · split at h
    · cases h
      exact hname ‹_›
    · cases h
  · split at h
    · cases h
      exact hname ‹_›
    · split at h
      · rename_i hf
        cases h
        have hmem : ∀ b, b ∈ assets ∧ ".hex".toList <:+ b.name ↔ b = a := by
          intro b
          rw [← List.mem_singleton, ← hf, List.mem_filter, decide_eq_true_eq]
        obtain ⟨ha, hhex⟩ := (hmem a).mpr rfl
        exact byName_unique ha fun b hb hn => (hmem b).mp ⟨hb, hn ▸ hhex⟩
      · cases h
      · cases h

theorem selectAsset_some {assets : List Asset} {name : Str} {a : Asset} :
    selectAsset assets (some name) = .ok a ↔ byName assets name = some a := by
  unfold selectAsset
  dsimp only
  cases byName assets name <;> simp

/-! ## What there is to be had -/

/-- The releases, and what their assets' addresses answer. A release answers to its own tag; its
owner, repository and assets have plain names; no tag is a directory of another one. -/
structure Releases where
  byTag : Str → Str → Str → Except Exn Release
  download : Str → Except Exn Bytes
  ref_plain : ∀ {owner repo tag release}, byTag owner repo tag = .ok release →
    Plain owner ∧ Plain repo
  tag_plain : ∀ {owner repo tag release}, byTag owner repo tag = .ok release →
    ∀ c ∈ release.tagName.splitOn '/', Plain c
  asset_plain : ∀ {owner repo tag release}, byTag owner repo tag = .ok release →
    ∀ a ∈ release.assets, Plain a.name
  own_tag : ∀ {owner repo tag release}, byTag owner repo tag = .ok release →
    byTag owner repo release.tagName = .ok release
  apart : ∀ {owner repo tag tag' release release'}, byTag owner repo tag = .ok release →
    byTag owner repo tag' = .ok release' →
    release.tagName.splitOn '/' <+: release'.tagName.splitOn '/' →
    release.tagName = release'.tagName

/-- What a call answers that asks for everything. -/
def Releases.answer (releases : Releases) (owner repo tag : Str) (asset : Option Str) :
    Except Exn (Str × Bytes) := do
  let release ← releases.byTag owner repo tag
  let chosen ← selectAsset release.assets asset
  let data ← releases.download chosen.url
  pure (chosen.name, data)

/-! ## The cache directory -/

/-- `_cache_dir_for` -/
def cacheDirFor (cacheDir : Path) (owner repo tag : Str) : Path :=
  join (join (join cacheDir owner) repo) tag

/-- `_cache_lookup` -/
def cacheLookup (t : Tree) (tagDir : Path) (asset : Option Str) : Option (Str × Bytes) :=
  if t.isDir tagDir = true then
    match asset with
    | some name => (t.readFile (join tagDir name)).map (name, ·)
    | none =>
      match t.files tagDir with
      | [file] => some file
      | _ => none
  else none

/-- What goes wrong in a call: a request that raises, directories made only so far, a file that
is not opened, a write that stops after so many bytes. -/
structure Trouble where
  release : Option Exn
  download : Option Exn
  mkdir : Option (ℕ × OSError)
  opening : Option OSError
  writing : Option (ℕ × OSError)

def noTrouble : Trouble := ⟨none, none, none, none, none⟩

/-- `_write_cache` -/
def writeCache (trouble : Trouble) (tagDir : Path) (name : Str) (data : Bytes) (t : Tree) :
    Except OSError Path × Tree :=
  match trouble.mkdir with
  | some (k, e) => (.error e, (t.mkdirs false [] (tagDir.take k)).2)
  | none =>
    match t.mkdirs false [] tagDir with
    | (.error e, t) => (.error e, t)
    | (.ok (), t) =>
      match trouble.opening with
      | some e => (.error e, t)
      | none =>
        let path := join tagDir name
        match trouble.writing with
        | some (k, e) =>
          match t.write path (data.take k) with
          | (.error e, t) => (.error e, t)
          | (.ok (), t) => (.error e, t)
        | none =>
          match t.write path data with
          | (.error e, t) => (.error e, t)
          | (.ok (), t) => (.ok path, t)

structure Result where
  owner : Str
  repo : Str
  tag : Str
  assetName : Str
  hexPath : Path
  hexBytes : Bytes
  fromCache : Bool

section

variable (releases : Releases) (cacheDir : Path) (trouble : Trouble)

/-- `resolve_hex` from the request for the release on. -/
def resolveFresh (owner repo tag : Str) (asset : Option Str) (t : Tree) :
    Except Exn Result × Tree :=
  match trouble.release, releases.byTag owner repo tag with
  | some e, _ | none, .error e => (.error e, t)
  | none, .ok release =>
    let tagDir := cacheDirFor cacheDir owner repo release.tagName
    match selectAsset release.assets asset with
    | .error e => (.error e, t)
    | .ok chosen =>
      match cacheLookup t tagDir (some chosen.name) with
      | some (name, data) =>
        (.ok ⟨owner, repo, release.tagName, name, join tagDir name, data, true⟩, t)
      | none =>
        match trouble.download, releases.download chosen.url with
        | some e, _ | none, .error e => (.error e, t)
        | none, .ok data =>
          match writeCache trouble tagDir chosen.name data t with
          | (.error e, t) => (.error (.os e), t)
          | (.ok path, t) =>
            (.ok ⟨owner, repo, release.tagName, chosen.name, path, data, false⟩, t)

/-- `resolve_hex`; `latest` is the tag of the release that is then the latest. -/
def resolveHex (latest repoRef : Str) (asset : Option Str) (t : Tree) : Except Exn Result × Tree :=
  match parseRepoRef repoRef with
  | none => (.error (.valueError repoRef), t)
  | some (owner, repo, none) => resolveFresh releases cacheDir trouble owner repo latest asset t
  | some (owner, repo, some tag) =>
    let tagDir := cacheDirFor cacheDir owner repo tag
    match cacheLookup t tagDir asset with
    | some (name, data) => (.ok ⟨owner, repo, tag, name, join tagDir name, data, true⟩, t)
    | none => resolveFresh releases cacheDir trouble owner repo tag asset t

end

end MbTools.Hex
