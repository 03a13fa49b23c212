import Mathlib.Data.Finset.Card
import MbTools.Dispatch.Ops
import MbTools.Lib.Grouping

/-! # Names that share a channel

Two reports over the whole name registry, pairs held by several names and
channels used by several groups, and the two lists of names beside each entry of
a listing. The four are computed apart and say the same.
-/

namespace MbTools.Store

open Dispatch (ListedEntry listing)

variable {s : Store} {e : Entry} {n : String} {channel group : ℤ} {pair : ℤ × ℤ}
  {ns : List String} {p : Entry → Bool}

/-- `Store._conflicts_of`. -/
def conflictsOf (entries : List Entry) : Dict (ℤ × ℤ) (List String) :=
  let seen := Dict.gather (fun e : Entry => (e.channel, e.group)) []
    (fun names e => names ++ [e.name]) entries
  seen.filterItems fun _ names => 1 < names.length

/-- `Store._channel_conflicts_of`. -/
def channelConflictsOf (entries : List Entry) : Dict ℤ (List String) :=
  let names := Dict.gather Entry.channel [] (fun names e => names ++ [e.name]) entries
  let groups := Dict.gather Entry.channel (∅ : Finset ℤ) (fun seen e => insert e.group seen) entries
  names.filterKeys fun ch => 1 < ((groups.lookup ch).getD ∅).card

def conflicts (s : Store) : Dict (ℤ × ℤ) (List String) := conflictsOf s.allNameEntries

def channelConflicts (s : Store) : Dict ℤ (List String) := channelConflictsOf s.allNameEntries

/-- The names of the rows that meet a condition, in the order of the names. -/
def namesWhere (s : Store) (p : Entry → Bool) : List String :=
  (s.allNameEntries.filter p).map Entry.name

theorem mem_namesWhere : n ∈ s.namesWhere p ↔
    ∃ e, s.nameRegistry.get? n = some e ∧ p e = true := by
  simp only [namesWhere, List.mem_map, List.mem_filter, mem_allNameEntries]
  constructor
  · rintro ⟨e, ⟨he, hp⟩, rfl⟩
    exact ⟨e, he, hp⟩
  · rintro ⟨e, he, hp⟩
    obtain rfl : e.name = n := Table.key_of_get? he
    exact ⟨e, ⟨he, hp⟩, rfl⟩

theorem namesWhere_pairwise (s : Store) (p : Entry → Bool) : (s.namesWhere p).Pairwise (· < ·) := by
  have hle : s.allNameEntries.Pairwise fun e o => e.name ≤ o.name :=
    List.pairwise_insertionSort (fun e o : Entry => e.name ≤ o.name) _
  have hne : s.allNameEntries.Pairwise fun e o => e.name ≠ o.name :=
    List.pairwise_map.mp s.nodup_allNameEntries
  rw [namesWhere, List.pairwise_map]
  refine List.Pairwise.filter p ?_
  exact (hle.and hne).imp fun h => lt_of_le_of_ne h.1 h.2

section Reports

theorem foldl_names (l : List Entry) :
    l.foldl (fun names e => names ++ [e.name]) [] = l.map Entry.name := by
  rw [List.foldl_append_eq_append, List.nil_append, ← List.flatMap_def, ← List.map_eq_flatMap]

theorem foldl_groups (l : List Entry) (acc : Finset ℤ) :
    l.foldl (fun seen e => insert e.group seen) acc = acc ∪ (l.map Entry.group).toFinset := by
  induction l generalizing acc with
  | nil => simp
  | cons e l ih =>
    rw [List.foldl_cons, ih, List.map_cons, List.toFinset_cons]
    ext g
    simp only [Finset.mem_union, Finset.mem_insert]
    tauto

theorem lookup_conflicts_eq_some_iff : s.conflicts.lookup pair = some ns ↔
    ns = s.namesWhere (fun e => (e.channel, e.group) = pair) ∧ 2 ≤ ns.length := by
  simp only [conflicts, conflictsOf, Dict.lookup_filterItems_eq_some_iff,
    Dict.lookup_gather_eq_some_iff, foldl_names, decide_eq_true_eq]
  change (_ ∧ s.namesWhere _ = ns) ∧ _ ↔ _
  constructor
  · rintro ⟨⟨-, rfl⟩, hlen⟩
    exact ⟨rfl, hlen⟩
  · rintro ⟨rfl, hlen⟩
    refine ⟨⟨fun hnil => ?_, rfl⟩, hlen⟩
    rw [namesWhere, hnil] at hlen
    exact absurd hlen (by decide)

/-- A channel is reported with all its names, when two of them are in different groups. -/
theorem lookup_channelConflicts_eq_some_iff : s.channelConflicts.lookup channel = some ns ↔
    ns = s.namesWhere (fun e => e.channel = channel) ∧
      ∃ e ∈ s.allNameEntries, ∃ o ∈ s.allNameEntries,
        e.channel = channel ∧ o.channel = channel ∧ e.group ≠ o.group := by
  have hgroups : 1 < ((Dict.lookup (Dict.gather Entry.channel (∅ : Finset ℤ)
      (fun seen e => insert e.group seen) s.allNameEntries) channel).getD ∅).card ↔
      ∃ e ∈ s.allNameEntries, ∃ o ∈ s.allNameEntries,
        e.channel = channel ∧ o.channel = channel ∧ e.group ≠ o.group := by
    rw [Dict.lookup_gather]
    split
    · rename_i hnil
      refine iff_of_false (by simp) ?_
      rintro ⟨e, he, -, -, hc, -⟩
      have hmem : e ∈ s.allNameEntries.filter (·.channel = channel) := by simp [he, hc]
      rw [hnil] at hmem
      cases hmem
    · rw [Option.getD_some, foldl_groups, Finset.one_lt_card]
      simp only [Finset.empty_union, List.mem_toFinset, List.mem_map, List.mem_filter,
        decide_eq_true_eq]
      constructor
      · rintro ⟨-, ⟨e, ⟨he, hec⟩, rfl⟩, -, ⟨o, ⟨ho, hoc⟩, rfl⟩, hne⟩
        exact ⟨e, he, o, ho, hec, hoc, hne⟩
      · rintro ⟨e, he, o, ho, hec, hoc, hne⟩
        exact ⟨_, ⟨e, ⟨he, hec⟩, rfl⟩, _, ⟨o, ⟨ho, hoc⟩, rfl⟩, hne⟩
  simp only [channelConflicts, channelConflictsOf, Dict.lookup_filterKeys, decide_eq_true_eq,
    hgroups]
  split
  · rename_i h
    rw [Dict.lookup_gather_eq_some_iff, foldl_names, and_iff_left h]
    obtain ⟨e, he, -, -, hc, -⟩ := h
    have hmem : e ∈ s.allNameEntries.filter (·.channel = channel) := by simp [he, hc]
    rw [and_iff_right (List.ne_nil_of_mem hmem), eq_comm]
    rfl
  · rename_i h
    exact iff_of_false nofun fun hn => h hn.2

end Reports

section Listing

variable {a : ListedEntry}

theorem eq_of_name_eq {o : Entry} (he : e ∈ s.allNameEntries) (ho : o ∈ s.allNameEntries)
    (h : e.name = o.name) : e = o := by
  rw [mem_allNameEntries] at he ho
  rw [← h, he, Option.some.injEq] at ho
  exact ho

theorem namesWhere_filter (p : Entry → Bool) (q : String → Bool) :
    (s.namesWhere p).filter q = s.namesWhere fun e => q e.name && p e := by
  rw [namesWhere, List.filter_map, List.filter_filter]
  rfl

theorem namesWhere_congr {q : Entry → Bool} (h : ∀ e ∈ s.allNameEntries, p e = q e) :
    s.namesWhere p = s.namesWhere q := by
  rw [namesWhere, List.filter_congr h, namesWhere]

/-- What a listing says of a row: the names on its link and those beside it on its channel. -/
theorem of_mem_listing (h : a ∈ listing s) : a.entry ∈ s.allNameEntries ∧
    a.conflict = s.namesWhere (fun o => o.name ≠ a.entry.name &&
      (o.channel, o.group) = (a.entry.channel, a.entry.group)) ∧
    a.channelConflict = s.namesWhere (fun o => o.channel = a.entry.channel &&
      o.group ≠ a.entry.group) := by
  obtain ⟨e, he, rfl⟩ := List.mem_map.mp h
  refine ⟨he, ?_, ?_⟩
  · simp only [List.filter_filter]
    refine namesWhere_congr (s := s) fun o _ => ?_
    rw [Bool.eq_iff_iff]
    simp only [Bool.and_eq_true, decide_eq_true_eq, Prod.mk.injEq]
    tauto
  · simp only [List.filter_filter]
    refine namesWhere_congr (s := s) fun o ho => ?_
    rw [Bool.eq_iff_iff]
    simp only [Bool.and_eq_true, decide_eq_true_eq]
    -- the row's own name is on no other group
    have hname : o.group ≠ e.group → o.name ≠ e.name := fun hg hn =>
      hg (congrArg Entry.group (eq_of_name_eq ho he hn))
    tauto

theorem map_entry_listing (s : Store) : (listing s).map ListedEntry.entry = s.allNameEntries := by
  rw [listing, List.map_map]
  exact List.map_id _

/-- The other names on the pair of a row are those that the report of pairs gives. -/
theorem conflict_eq_reported (h : a ∈ listing s) : a.conflict =
    ((s.conflicts.lookup (a.entry.channel, a.entry.group)).getD []).filter (· ≠ a.entry.name) := by
  obtain ⟨he, hc, -⟩ := of_mem_listing h
  have hself : a.entry.name ∈ s.namesWhere
      (fun o => (o.channel, o.group) = (a.entry.channel, a.entry.group)) :=
    mem_namesWhere.mpr ⟨a.entry, mem_allNameEntries.mp he, by simp⟩
  rw [hc, ← namesWhere_filter _ (· ≠ a.entry.name)]
  cases hr : s.conflicts.lookup (a.entry.channel, a.entry.group) with
  | some ns =>
    obtain ⟨rfl, -⟩ := lookup_conflicts_eq_some_iff.mp hr
    rfl
  | none =>
    -- a pair that is not reported has one name, the row's own
    have hlen : ¬ 2 ≤ (s.namesWhere
        (fun o => (o.channel, o.group) = (a.entry.channel, a.entry.group))).length := by
      intro hlen
      have hsome := lookup_conflicts_eq_some_iff.mpr ⟨rfl, hlen⟩
      rw [hr] at hsome
      cases hsome
    obtain ⟨n, hn⟩ : ∃ n, s.namesWhere
        (fun o => (o.channel, o.group) = (a.entry.channel, a.entry.group)) = [n] := by
      refine List.length_eq_one_iff.mp ?_
      have := List.length_pos_of_mem hself
      omega
    rw [hn, List.mem_singleton] at hself
    rw [hn, hself]
    simp

theorem mem_channelConflict_iff (h : a ∈ listing s) : n ∈ a.channelConflict ↔
    ∃ o, s.nameRegistry.get? n = some o ∧ o.channel = a.entry.channel ∧
      o.group ≠ a.entry.group := by
  rw [(of_mem_listing h).2.2, mem_namesWhere]
  simp only [Bool.and_eq_true, decide_eq_true_eq]

theorem conflict_disjoint_channelConflict (h : a ∈ listing s) :
    List.Disjoint a.conflict a.channelConflict := by
  intro n hn hn'
  rw [(of_mem_listing h).2.1, mem_namesWhere] at hn
  obtain ⟨e, he, hp⟩ := hn
  obtain ⟨o, ho, -, hg⟩ := (mem_channelConflict_iff h).mp hn'
  obtain rfl : e = o := Option.some.inj (he.symm.trans ho)
  simp only [Bool.and_eq_true, decide_eq_true_eq, Prod.mk.injEq] at hp
  exact hg hp.2.2

/-- A row with a name beside it on its channel is one of two in different groups, and of two in
different groups one is in another group than the row. -/
theorem channelConflict_ne_nil_iff (h : a ∈ listing s) : a.channelConflict ≠ [] ↔
    ∃ ns, s.channelConflicts.lookup a.entry.channel = some ns := by
  have ha := (of_mem_listing h).1
  simp only [lookup_channelConflicts_eq_some_iff, exists_eq_left]
  constructor
  · intro hne
    obtain ⟨n, hn⟩ := List.exists_mem_of_ne_nil _ hne
    obtain ⟨o, ho, hc, hg⟩ := (mem_channelConflict_iff h).mp hn
    obtain rfl : o.name = n := Table.key_of_get? ho
    exact ⟨o, mem_allNameEntries.mpr ho, a.entry, ha, hc, rfl, hg⟩
  · rintro ⟨e, he, o, ho, hec, hoc, hne⟩
    by_cases hg : e.group = a.entry.group
    · exact List.ne_nil_of_mem ((mem_channelConflict_iff h).mpr
        ⟨o, mem_allNameEntries.mp ho, hoc, fun hog => hne (hg.trans hog.symm)⟩)
    · exact List.ne_nil_of_mem ((mem_channelConflict_iff h).mpr
        ⟨e, mem_allNameEntries.mp he, hec, hg⟩)

end Listing

end MbTools.Store
