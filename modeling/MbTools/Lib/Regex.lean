import Mathlib.Data.List.Basic
import Mathlib.Tactic.Common

/-! # Backtracking search for a pattern

A pattern matches at a place of a text along paths, and the first path counts: a repetition
tries its longest run first, and the first of two alternatives comes before the second. A
search takes the first place that has a path.

A byte that no part of a pattern takes bounds it: what stands behind that byte has no say.
-/

namespace MbTools.Regex

inductive Pattern where
  | empty
  | byte (p : UInt8 → Bool)
  | plus (p : UInt8 → Bool)
  | boundary
  | seq (r t : Pattern)
  | alt (r t : Pattern)
  | group (name : String) (r : Pattern)

/-- A way to match: the text that is matched, its groups, and the text behind. -/
structure Path where
  text : List UInt8
  groups : List (String × List UInt8)
  rest : List UInt8
  deriving DecidableEq

def Path.group (x : Path) (name : String) : Option (List UInt8) := x.groups.lookup name

def Path.named (name : String) (x : Path) : Path :=
  { x with groups := x.groups ++ [(name, x.text)] }

def Path.andThen (x y : Path) : Path := ⟨x.text ++ y.text, x.groups ++ y.groups, y.rest⟩

/-- The same way in a text that goes on with `more`. -/
def Path.more (more : List UInt8) (x : Path) : Path := { x with rest := x.rest ++ more }

/-- `\w` for bytes. -/
def isWord (b : UInt8) : Bool :=
  (48 ≤ b && b ≤ 57) || (65 ≤ b && b ≤ 90) || b == 95 || (97 ≤ b && b ≤ 122)

/-- The runs of a class at the start of a text, the longest one first. -/
def runs (p : UInt8 → Bool) : List UInt8 → List Path
  | [] => []
  | b :: bs =>
    if p b then (runs p bs).map (fun x => { x with text := b :: x.text }) ++ [⟨[b], [], bs⟩]
    else []

/-- The byte before what follows `text`. -/
def after (prev : Option UInt8) (text : List UInt8) : Option UInt8 := text.getLast?.or prev

/-- All ways to match at the start of a text that stands behind `prev`, best one first. -/
def paths : Pattern → Option UInt8 → List UInt8 → List Path
  | .empty, _, s => [⟨[], [], s⟩]
  | .byte _, _, [] => []
  | .byte p, _, b :: bs => if p b then [⟨[b], [], bs⟩] else []
  | .plus p, _, s => runs p s
  | .boundary, prev, s => if prev.any isWord = s.head?.any isWord then [] else [⟨[], [], s⟩]
  | .seq r t, prev, s =>
    (paths r prev s).flatMap fun x => (paths t (after prev x.text) x.rest).map x.andThen
  | .alt r t, prev, s => paths r prev s ++ paths t prev s
  | .group name r, prev, s => (paths r prev s).map (Path.named name)

/-- The match at the start of a text. -/
def first (r : Pattern) (prev : Option UInt8) (s : List UInt8) : Option Path :=
  (paths r prev s).head?

/-- `pattern.search`, from a place of the text that stands behind `prev`. -/
def search (r : Pattern) : Option UInt8 → List UInt8 → Option Path
  | prev, [] => first r prev []
  | prev, b :: bs => (first r prev (b :: bs)).or (search r (some b) bs)

def lit : List UInt8 → Pattern
  | [] => .empty
  | b :: bs => .seq (.byte (· == b)) (lit bs)

variable {r t : Pattern} {p : UInt8 → Bool} {prev : Option UInt8} {s w q : List UInt8} {x y : Path}

theorem paths_empty : paths .empty prev s = [⟨[], [], s⟩] := rfl

theorem paths_byte_nil : paths (.byte p) prev [] = [] := rfl

theorem paths_byte_cons (b : UInt8) :
    paths (.byte p) prev (b :: s) = if p b then [⟨[b], [], s⟩] else [] := rfl

theorem paths_plus : paths (.plus p) prev s = runs p s := rfl

theorem paths_boundary : paths .boundary prev s =
    if prev.any isWord = s.head?.any isWord then [] else [⟨[], [], s⟩] := rfl

theorem paths_seq : paths (.seq r t) prev s =
    (paths r prev s).flatMap fun x => (paths t (after prev x.text) x.rest).map x.andThen := rfl

theorem paths_alt : paths (.alt r t) prev s = paths r prev s ++ paths t prev s := rfl

theorem paths_group {name : String} :
    paths (.group name r) prev s = (paths r prev s).map (Path.named name) := rfl

theorem after_cons (prev : Option UInt8) (b : UInt8) (bs : List UInt8) :
    after prev (b :: bs) = after (some b) bs := by
  rw [after, after, List.getLast?_cons]
  cases bs.getLast? <;> rfl

/-! ### Ways to match -/

theorem text_of_mem_runs (h : x ∈ runs p s) :
    s = x.text ++ x.rest ∧ x.text ≠ [] ∧ ∀ b ∈ x.text, p b = true := by
  induction s generalizing x with
  | nil => cases h
  | cons b bs ih =>
    rw [runs] at h
    split at h
    next hb =>
      rcases List.mem_append.mp h with h | h
      · obtain ⟨y, hy, rfl⟩ := List.mem_map.mp h
        obtain ⟨hs, -, hall⟩ := ih hy
        refine ⟨congrArg _ hs, List.cons_ne_nil _ _, ?_⟩
        rw [List.forall_mem_cons]
        exact ⟨hb, hall⟩
      · rw [List.mem_singleton] at h
        subst h
        exact ⟨rfl, List.cons_ne_nil _ _, by simpa using hb⟩
    · cases h

/-- A way to match splits the text. -/
theorem text_of_mem_paths (h : x ∈ paths r prev s) : s = x.text ++ x.rest := by
  induction r generalizing prev s x with
  | empty => rw [List.mem_singleton.mp h]; rfl
  | byte p =>
    cases s with
    | nil => cases h
    | cons b bs =>
      rw [paths_byte_cons] at h
      split at h
      · rw [List.mem_singleton.mp h]; rfl
      · cases h
  | plus p => exact (text_of_mem_runs h).1
  | boundary =>
    rw [paths_boundary] at h
    split at h
    · cases h
    · rw [List.mem_singleton.mp h]; rfl
  | seq r t hr ht =>
    obtain ⟨y, hy, h⟩ := List.mem_flatMap.mp h
    obtain ⟨z, hz, rfl⟩ := List.mem_map.mp h
    rw [hr hy, ht hz]
    exact (List.append_assoc _ _ _).symm
  | alt r t hr ht =>
    rcases List.mem_append.mp h with h | h
    · exact hr h
    · exact ht h
  | group name r hr =>
    obtain ⟨y, hy, rfl⟩ := List.mem_map.mp h
    have hs := hr hy
    exact hs

theorem mem_paths_seq (h : x ∈ paths (.seq r t) prev s) :
    ∃ y z, y ∈ paths r prev s ∧ z ∈ paths t (after prev y.text) y.rest ∧ x = y.andThen z := by
  obtain ⟨y, hy, h⟩ := List.mem_flatMap.mp h
  obtain ⟨z, hz, rfl⟩ := List.mem_map.mp h
  exact ⟨y, z, hy, hz, rfl⟩

theorem mem_of_first (h : first r prev s = some x) : x ∈ paths r prev s :=
  List.mem_of_head? h

theorem first_seq (hx : first r prev s = some x)
    (hy : first t (after prev x.text) x.rest = some y) :
    first (.seq r t) prev s = some (x.andThen y) := by
  obtain ⟨xs, hxs⟩ := List.head?_eq_some_iff.mp hx
  obtain ⟨ys, hys⟩ := List.head?_eq_some_iff.mp hy
  rw [first, paths_seq, hxs, List.flatMap_cons, hys]
  rfl

theorem first_group (name : String) (h : first r prev s = some x) :
    first (.group name r) prev s = some (x.named name) := by
  rw [first, paths_group, List.head?_map, ← first, h]
  rfl

theorem first_alt_left (t : Pattern) (h : first r prev s = some x) :
    first (.alt r t) prev s = some x := by
  obtain ⟨xs, hxs⟩ := List.head?_eq_some_iff.mp h
  rw [first, paths_alt, hxs]
  rfl

theorem first_alt_right (hr : paths r prev s = []) (h : first t prev s = some x) :
    first (.alt r t) prev s = some x := by
  rw [first, paths_alt, hr, List.nil_append]
  exact h

theorem paths_lit (bs : List UInt8) (prev : Option UInt8) (s : List UInt8) :
    paths (lit bs) prev s = if bs <+: s then [⟨bs, [], s.drop bs.length⟩] else [] := by
  induction bs generalizing prev s with
  | nil => simp [lit, paths_empty]
  | cons b bs ih =>
    rw [lit, paths_seq]
    cases s with
    | nil => simp [paths_byte_nil]
    | cons c s =>
      by_cases hc : c = b
      · subst hc
        rw [paths_byte_cons, if_pos (beq_self_eq_true c), List.flatMap_singleton, ih]
        by_cases hp : bs <+: s
        · rw [if_pos hp, if_pos ((List.prefix_cons_inj c).mpr hp)]
          rfl
        · rw [if_neg hp, if_neg fun h => hp ((List.prefix_cons_inj c).mp h)]
          rfl
      · have hne : ¬ b :: bs <+: c :: s := fun h => hc (List.cons_prefix_cons.mp h).1.symm
        rw [paths_byte_cons, if_neg (by simpa using hc), if_neg hne]
        rfl

theorem first_lit (bs : List UInt8) (prev : Option UInt8) (s : List UInt8) :
    first (lit bs) prev (bs ++ s) = some ⟨bs, [], s⟩ := by
  rw [first, paths_lit, if_pos (List.prefix_append _ _), List.drop_left]
  rfl

theorem mem_paths_lit {bs : List UInt8} (h : x ∈ paths (lit bs) prev s) :
    x = ⟨bs, [], x.rest⟩ ∧ s = bs ++ x.rest := by
  rw [paths_lit] at h
  split at h
  next hp =>
    obtain ⟨rest, rfl⟩ := hp
    rw [List.drop_left, List.mem_singleton] at h
    subst h
    exact ⟨rfl, rfl⟩
  · cases h

/-- A repetition takes all it can. -/
theorem first_plus (prev : Option UInt8) (hne : w ≠ []) (hw : ∀ b ∈ w, p b = true)
    (hs : s.head?.any p = false) : first (.plus p) prev (w ++ s) = some ⟨w, [], s⟩ := by
  rw [first, paths_plus]
  induction w with
  | nil => exact absurd rfl hne
  | cons b w ih =>
    rw [List.forall_mem_cons] at hw
    rw [List.cons_append, runs, if_pos hw.1]
    cases w with
    | nil =>
      have hnil : runs p s = [] := by
        cases s with
        | nil => rfl
        | cons c s => rw [runs, if_neg (by simpa using hs)]
      rw [List.nil_append, hnil]
      rfl
    | cons c w =>
      rw [List.head?_append, List.head?_map, ih (List.cons_ne_nil _ _) hw.2]
      rfl

/-! ### Bytes that bound a pattern -/

/-- No part of the pattern takes this byte. -/
def Bounded (d : UInt8) : Pattern → Prop
  | .empty | .boundary => True
  | .byte p | .plus p => p d = false
  | .seq r t | .alt r t => Bounded d r ∧ Bounded d t
  | .group _ r => Bounded d r

variable {d : UInt8}

theorem bounded_lit {bs : List UInt8} (h : d ∉ bs) : Bounded d (lit bs) := by
  induction bs with
  | nil => trivial
  | cons b bs ih =>
    rw [List.mem_cons, not_or] at h
    exact ⟨beq_eq_false_iff_ne.mpr h.1, ih h.2⟩

/-- The bounding byte and what is behind it are never matched. -/
theorem not_mem_text (hr : Bounded d r) (h : x ∈ paths r prev s) : d ∉ x.text := by
  induction r generalizing prev s x with
  | empty => rw [List.mem_singleton.mp h]; exact List.not_mem_nil
  | byte p =>
    cases s with
    | nil => cases h
    | cons b bs =>
      rw [paths_byte_cons] at h
      split at h
      next hb =>
        rw [List.mem_singleton.mp h]
        rintro hd
        rw [List.mem_singleton.mp hd, Bounded] at hr
        exact Bool.noConfusion (hr.symm.trans hb)
      · cases h
  | plus p =>
    intro hd
    exact Bool.noConfusion (hr.symm.trans ((text_of_mem_runs h).2.2 d hd))
  | boundary =>
    rw [paths_boundary] at h
    split at h
    · cases h
    · rw [List.mem_singleton.mp h]; exact List.not_mem_nil
  | seq r t ihr iht =>
    obtain ⟨y, z, hy, hz, rfl⟩ := mem_paths_seq h
    intro hd
    rcases List.mem_append.mp hd with hd | hd
    · exact ihr hr.1 hy hd
    · exact iht hr.2 hz hd
  | alt r t ihr iht =>
    rcases List.mem_append.mp h with h | h
    · exact ihr hr.1 h
    · exact iht hr.2 h
  | group name r ih =>
    obtain ⟨y, hy, rfl⟩ := List.mem_map.mp h
    have hnot := ih hr hy
    exact hnot

theorem runs_more (hp : p d = false) (w q : List UInt8) :
    runs p (w ++ d :: q) = (runs p (w ++ [d])).map (Path.more q) := by
  induction w with
  | nil => simp [runs, hp]
  | cons b w ih =>
    rw [List.cons_append, List.cons_append, runs, runs, ih]
    split
    · rw [List.map_append, List.map_map, List.map_map, List.map_singleton, Path.more,
        List.append_assoc, List.singleton_append]
      rfl
    · rfl

/-- What stands behind a bounding byte has no say in the ways to match. -/
theorem paths_more (hr : Bounded d r) (prev : Option UInt8) (w q : List UInt8) :
    paths r prev (w ++ d :: q) = (paths r prev (w ++ [d])).map (Path.more q) := by
  induction r generalizing prev w with
  | empty => simp [paths_empty, Path.more]
  | byte p =>
    cases w with
    | nil => simp [paths_byte_cons, show p d = false from hr]
    | cons b w =>
      rw [List.cons_append, List.cons_append, paths_byte_cons, paths_byte_cons]
      split
      · simp [Path.more]
      · rfl
  | plus p => exact runs_more hr w q
  | boundary =>
    have hhead : (w ++ d :: q).head? = (w ++ [d]).head? := by cases w <;> rfl
    rw [paths_boundary, paths_boundary, hhead]
    split
    · rfl
    · simp [Path.more]
  | seq r t ihr iht =>
    rw [paths_seq, paths_seq, ihr hr.1, List.flatMap_map, List.map_flatMap]
    -- what the first part leaves still has the bounding byte
    refine List.flatMap_congr fun x hx => ?_
    have hs := text_of_mem_paths hx
    obtain ⟨w', hw'⟩ : ∃ w', x.rest = w' ++ [d] := by
      have hd : d ∈ x.rest := by
        have hmem : d ∈ x.text ++ x.rest := by rw [← hs]; simp
        exact (List.mem_append.mp hmem).resolve_left (not_mem_text hr.1 hx)
      have hne := List.ne_nil_of_mem hd
      refine ⟨x.rest.dropLast, ?_⟩
      have hlast : x.rest.getLast hne = d := by
        have := congrArg List.getLast? hs
        rw [List.getLast?_concat, List.getLast?_append_of_ne_nil _ hne,
          List.getLast?_eq_some_getLast hne] at this
        exact (Option.some.inj this).symm
      conv_lhs => rw [← List.dropLast_append_getLast hne, hlast]
    have hmore : (x.more q).rest = w' ++ d :: q := by
      rw [Path.more, hw', List.append_assoc, List.singleton_append]
    rw [hmore, show (x.more q).text = x.text from rfl, iht hr.2, hw', List.map_map, List.map_map]
    rfl
  | alt r t ihr iht => rw [paths_alt, paths_alt, ihr hr.1, iht hr.2, List.map_append]
  | group name r ih =>
    rw [paths_group, paths_group, ih hr, List.map_map, List.map_map]
    rfl

theorem first_more (hr : Bounded d r) (prev : Option UInt8) (w q : List UInt8) :
    first r prev (w ++ d :: q) = (first r prev (w ++ [d])).map (Path.more q) := by
  rw [first, paths_more hr, List.head?_map, first]

/-! ### Search -/

/-- What is found stands in the text, and is the match at its place. -/
theorem first_of_search (h : search r prev s = some x) :
    ∃ before, s = before ++ x.text ++ x.rest ∧
      first r (after prev before) (x.text ++ x.rest) = some x := by
  induction s generalizing prev with
  | nil =>
    have hs := text_of_mem_paths (mem_of_first h)
    rw [search] at h
    refine ⟨[], by simpa using hs, ?_⟩
    rw [← hs]
    exact h
  | cons b bs ih =>
    rw [search, Option.or_eq_some_iff] at h
    rcases h with h | ⟨-, h⟩
    · have hs := text_of_mem_paths (mem_of_first h)
      refine ⟨[], by simpa using hs, ?_⟩
      rw [← hs]
      exact h
    · obtain ⟨before, hs, hx⟩ := ih h
      refine ⟨b :: before, by rw [hs]; rfl, ?_⟩
      rwa [after_cons]

/-- A text with a match somewhere has a match. -/
theorem search_ne_none {before : List UInt8} (h : first r (after prev before) s ≠ none) :
    search r prev (before ++ s) ≠ none := by
  induction before generalizing prev with
  | nil =>
    rw [List.nil_append]
    cases s with
    | nil => exact h
    | cons b bs =>
      rw [search]
      intro hn
      exact h (Option.or_eq_none_iff.mp hn).1
  | cons b before ih =>
    rw [List.cons_append, search]
    intro hn
    rw [after_cons] at h
    exact ih h (Option.or_eq_none_iff.mp hn).2

theorem search_of_first (h : first r prev s = some x) : search r prev s = some x := by
  cases s with
  | nil => exact h
  | cons b bs => rw [search, h, Option.some_or]

/-- What is found before a bounding byte is found whatever stands behind the byte. -/
theorem search_more (hr : Bounded d r) (hend : ∀ prev, first r prev [] = none) (q : List UInt8)
    (h : search r prev (w ++ [d]) = some x) :
    search r prev (w ++ d :: q) = some (x.more q) := by
  induction w generalizing prev with
  | nil =>
    rw [List.nil_append, search, search, hend, Option.or_none] at h
    have hfirst := first_more hr prev [] q
    rw [List.nil_append, List.nil_append, h] at hfirst
    exact search_of_first hfirst
  | cons b w ih =>
    rw [List.cons_append, search, Option.or_eq_some_iff] at h
    rw [List.cons_append, search, ← List.cons_append, first_more hr, Option.or_eq_some_iff,
      List.cons_append]
    rcases h with h | ⟨hnone, h⟩
    · exact .inl (by rw [h]; rfl)
    · exact .inr ⟨by rw [hnone]; rfl, ih h⟩

end MbTools.Regex
