import Mathlib.Tactic.Ring
import MbTools.Names.Derived
import MbTools.Names.Requests

/-! # Which robot is on a link

The letters of a name are the digits of a number, and a number is found again from
what it leaves to 73 and to 241. So a derived link leads back to its name; a link that
was set leads back through its row.
-/

namespace MbTools

namespace Naming

def space : ℕ := 3125

def channelsInverse : ℤ := 208

/-- The letters at the first `p` places, put before what is out already. -/
def encodeLoop : ℕ → ℕ → List Char → List Char
  | 0, _, out => out
  | p + 1, n, out => encodeLoop p (n / 5) ((alphabet p).getD (n % 5) ' ' :: out)

def encode (n : ℕ) : Except Error String :=
  if n < space then .ok (String.ofList (encodeLoop 5 n []))
  else .error (.valueError (toString n))

/-- `CHANNEL_MIN <= channel <= CHANNEL_MAX` and the same for the group. -/
def Derivable (channel group : ℤ) : Prop :=
  channelMin ≤ channel ∧ channel < channelMin + channels ∧
    groupMin ≤ group ∧ group < groupMin + groups

instance (channel group : ℤ) : Decidable (Derivable channel group) :=
  inferInstanceAs (Decidable (_ ∧ _ ∧ _ ∧ _))

/-- The number below `73 * 241` that leaves `c` and `g`. -/
def solve (c g : ℤ) : ℤ := c + channels * (((g - c + groups) * channelsInverse) % groups)

def radioToName (channel group : ℤ) : Except Error String :=
  if ¬ Derivable channel group then .error (.valueError (toString (channel, group)))
  else encode (solve (channel - channelMin) (group - groupMin)).toNat

/-! ## Numbers and links -/

theorem solve_address {n : ℕ} (h : n < space) :
    solve ((address n).1 - channelMin) ((address n).2 - groupMin) = n := by
  simp only [space] at h
  simp only [solve, address, channelMin, groupMin, channels, groups, channelsInverse]
  omega

theorem derivable_address (n : ℕ) : Derivable (address n).1 (address n).2 := by
  simp only [Derivable, address, channelMin, groupMin, channels, groups]
  omega

theorem address_solve {channel group : ℤ} (h : Derivable channel group) :
    address (solve (channel - channelMin) (group - groupMin)).toNat = (channel, group) := by
  obtain ⟨c, rfl⟩ : ∃ c, channel = channelMin + c := ⟨channel - channelMin, by omega⟩
  obtain ⟨g, rfl⟩ : ∃ g, group = groupMin + g := ⟨group - groupMin, by omega⟩
  simp only [Derivable, channelMin, groupMin, channels, groups] at h
  have hc : solve c g % channels = c := by
    simp only [solve, channels, groups, channelsInverse]
    omega
  have hg : solve c g % groups = g := by
    simp only [solve, channels, groups, channelsInverse]
    -- 73 * 208 is one more than 63 * 241
    have hone : c + 73 * ((g - c + 241) * 208) = g + 241 * (1 + 63 * (g - c + 241)) := by ring
    rw [Int.add_emod, Int.mul_emod, Nat.cast_ofNat, Nat.cast_ofNat,
      Int.emod_emod_of_dvd _ (dvd_refl _), ← Int.mul_emod, ← Int.add_emod, hone]
    omega
  have hpos : 0 ≤ solve c g := by
    simp only [solve, channels, groups, channelsInverse]
    omega
  rw [add_sub_cancel_left, add_sub_cancel_left, address, Prod.mk.injEq]
  constructor
  · rw [Int.natCast_mod, Int.toNat_of_nonneg hpos, hc]
  · rw [Int.natCast_mod, Int.toNat_of_nonneg hpos, hg]

/-! ## Names and numbers -/

theorem idxOf_getD {p d : ℕ} (h : d < 5) : (alphabet p).idxOf ((alphabet p).getD d ' ') = d := by
  have hall : ∀ d < 5, consonants.idxOf (consonants.getD d ' ') = d ∧
      vowels.idxOf (vowels.getD d ' ') = d := by decide
  rw [alphabet]
  split
  · exact (hall d h).1
  · exact (hall d h).2

theorem idxOf_lt {p : ℕ} {c : Char} (h : c ∈ alphabet p) : (alphabet p).idxOf c < 5 := by
  have hlen : (alphabet p).length = 5 := by
    rw [alphabet]
    split <;> rfl
  exact hlen ▸ List.idxOf_lt_length_of_mem h

theorem getD_mem {p d : ℕ} (h : d < 5) : (alphabet p).getD d ' ' ∈ alphabet p := by
  have hall : ∀ d < 5, consonants.getD d ' ' ∈ consonants ∧ vowels.getD d ' ' ∈ vowels := by decide
  rw [alphabet]
  split
  · exact (hall d h).1
  · exact (hall d h).2

theorem getD_idxOf {p : ℕ} {c : Char} (h : c ∈ alphabet p) :
    (alphabet p).getD ((alphabet p).idxOf c) ' ' = c := by
  simp [List.getD, List.getElem?_eq_getElem (List.idxOf_lt_length_of_mem h)]

/-- The five letters of a well-formed name. -/
theorem letters_of_wellFormed {n : String} (h : wellFormed n = true) :
    ∃ a b c d e, n = String.ofList [a, b, c, d, e] ∧ a ∈ alphabet 0 ∧ b ∈ alphabet 1 ∧
      c ∈ alphabet 2 ∧ d ∈ alphabet 3 ∧ e ∈ alphabet 4 := by
  simp only [wellFormed, Bool.and_eq_true, decide_eq_true_eq] at h
  obtain ⟨a, b, c, d, e, hl⟩ : ∃ a b c d e, n.toList = [a, b, c, d, e] := by
    obtain ⟨a, t, ht⟩ := List.exists_cons_of_length_eq_add_one h.1
    have hlen : t.length = 4 := by simpa [ht] using h.1
    obtain ⟨b, c, d, e, rfl⟩ := List.length_eq_four.mp hlen
    exact ⟨a, b, c, d, e, ht⟩
  have hall := h.2
  simp only [hl, List.zipIdx_cons, List.zipIdx_nil, List.all_cons, List.all_nil, Bool.and_true,
    Bool.and_eq_true, List.contains_iff_mem] at hall
  exact ⟨a, b, c, d, e, by rw [← hl, String.ofList_toList], hall⟩

theorem wellFormed_ofList {a b c d e : Char} (ha : a ∈ alphabet 0) (hb : b ∈ alphabet 1)
    (hc : c ∈ alphabet 2) (hd : d ∈ alphabet 3) (he : e ∈ alphabet 4) :
    wellFormed (String.ofList [a, b, c, d, e]) = true := by
  simp [wellFormed, ha, hb, hc, hd, he]

theorem number_ofList (a b c d e : Char) :
    number (String.ofList [a, b, c, d, e]) =
      ((((alphabet 0).idxOf a * 5 + (alphabet 1).idxOf b) * 5 + (alphabet 2).idxOf c) * 5 +
        (alphabet 3).idxOf d) * 5 + (alphabet 4).idxOf e := by
  simp [number]

theorem encode_number {n : String} (h : wellFormed n = true) :
    number n < space ∧ encode (number n) = .ok n := by
  obtain ⟨a, b, c, d, e, rfl, ha, hb, hc, hd, he⟩ := letters_of_wellFormed h
  have hlt : number (String.ofList [a, b, c, d, e]) < space := by
    rw [number_ofList, space]
    have := idxOf_lt ha
    have := idxOf_lt hb
    have := idxOf_lt hc
    have := idxOf_lt hd
    have := idxOf_lt he
    omega
  refine ⟨hlt, ?_⟩
  rw [encode, if_pos hlt, number_ofList]
  have hstep : ∀ {p q : ℕ} {c : Char}, c ∈ alphabet p →
      (q * 5 + (alphabet p).idxOf c) / 5 = q ∧ (q * 5 + (alphabet p).idxOf c) % 5 =
        (alphabet p).idxOf c := by
    intro p q c hc
    have := idxOf_lt hc
    omega
  have hfirst : (alphabet 0).idxOf a % 5 = (alphabet 0).idxOf a := Nat.mod_eq_of_lt (idxOf_lt ha)
  simp only [encodeLoop, (hstep he).1, (hstep he).2, (hstep hd).1, (hstep hd).2, (hstep hc).1,
    (hstep hc).2, (hstep hb).1, (hstep hb).2, hfirst, getD_idxOf ha, getD_idxOf hb, getD_idxOf hc,
    getD_idxOf hd, getD_idxOf he]

theorem number_of_encode {n : ℕ} {name : String} (h : encode n = .ok name) :
    wellFormed name = true ∧ number name = n := by
  rw [encode] at h
  split at h
  · rename_i hlt
    cases h
    have hd : ∀ m, m % 5 < 5 := fun m => Nat.mod_lt m (by decide)
    simp only [encodeLoop]
    refine ⟨wellFormed_ofList (getD_mem (hd _)) (getD_mem (hd _)) (getD_mem (hd _))
      (getD_mem (hd _)) (getD_mem (hd _)), ?_⟩
    rw [number_ofList, idxOf_getD (hd _), idxOf_getD (hd _), idxOf_getD (hd _), idxOf_getD (hd _),
      idxOf_getD (hd _)]
    simp only [space] at hlt
    omega
  · cases h

/-- A well-formed name is found again from the link it derives. -/
theorem radioToName_default {n : String} (h : wellFormed n = true) :
    radioToName (default n).1 (default n).2 = .ok n := by
  obtain ⟨hlt, henc⟩ := encode_number h
  have hdef : default n = address (number n) := rfl
  rw [radioToName, if_neg (not_not_intro (hdef ▸ derivable_address _)), hdef, solve_address hlt,
    Int.toNat_natCast, henc]

theorem default_of_radioToName {channel group : ℤ} {n : String}
    (h : radioToName channel group = .ok n) :
    wellFormed n = true ∧ default n = (channel, group) := by
  rw [radioToName] at h
  split at h
  · cases h
  · rename_i hder
    obtain ⟨hwf, hnum⟩ := number_of_encode h
    refine ⟨hwf, ?_⟩
    have hdef : default n = address (number n) := rfl
    rw [hdef, hnum, address_solve (not_not.mp hder)]

end Naming

namespace Names

open Store

/-- An explicit row of a name on a link. -/
def Explicit (s : Store) (name : String) (channel group : ℤ) : Prop :=
  ∃ e ∈ s.nameRegistry.rows, e.name = name ∧ (e.channel, e.group) = (channel, group) ∧
    e.source = sourceRegistry

/-- `Store.name_for`. -/
def nameFor (s : Store) (channel group : ℤ) : Except OpError (Option String) :=
  if ¬ (Bindable channel ∧ Bindable group) then .error .raised
  else
    match s.nameRegistry.rows.find? fun e =>
        (e.channel, e.group) = (channel, group) ∧ e.source = sourceRegistry with
    | some e => .ok (some e.name)
    | none =>
      match Naming.radioToName channel group with
      | .error _ => .ok none
      | .ok name =>
        match s.nameRegistry.get? name with
        | some e => if (e.channel, e.group) ≠ (channel, group) then .ok none else .ok (some name)
        | none => .ok (some name)

inductive Call where
  | resolve (now : ℕ) (name : String)
  | set (now : ℕ) (name : String) (channel group : ℤ)
  | clear (name : String)

/-- The store after a call. One that raises leaves it as it was. -/
def called (s : Store) : Call → Store
  | .resolve now name => ((s.resolve now name).toOption.map Prod.fst).getD s
  | .set now name channel group =>
    if Bindable channel ∧ Bindable group then
      ((s.set now name channel group).toOption).getD s
    else s
  | .clear name => ((s.clear name).toOption).getD s

/-- A registry whose rows are all as `resolve` or `set` writes them. -/
structure Written (s : Store) : Prop extends NamesSound s where
  source : ∀ n e, s.nameRegistry.get? n = some e →
    e.source = sourceDerived ∨ e.source = sourceRegistry
  bindable : ∀ n e, s.nameRegistry.get? n = some e → Bindable e.channel ∧ Bindable e.group

variable {s t : Store} {name n : String} {now : ℕ} {e : Entry} {channel group : ℤ}

theorem written_empty (h : s.nameRegistry = Table.empty) : Written s where
  valid n hn := absurd (by rw [pairOf, h]; rfl) hn
  derived n e he := by
    rw [h] at he
    cases he
  source n e he := by
    rw [h] at he
    cases he
  bindable n e he := by
    rw [h] at he
    cases he

theorem bindable_default (n : String) :
    Bindable (Naming.default n).1 ∧ Bindable (Naming.default n).2 := by
  have := Naming.default_range n
  simp only [Bindable]
  omega

theorem Written.put (h : Written s) (hv : Naming.validate n = .ok n) (hn : e.name = n)
    (hsrc : e.source = sourceDerived ∧ (e.channel, e.group) = Naming.default n ∨
      e.source = sourceRegistry)
    (hb : Bindable e.channel ∧ Bindable e.group) :
    Written { s with nameRegistry := s.nameRegistry.put e } := by
  have hne : sourceRegistry ≠ sourceDerived := by decide
  have hrow : ∀ k r, (s.nameRegistry.put e).get? k = some r →
      r = e ∨ s.nameRegistry.get? k = some r := by
    intro k r hr
    rw [Table.get?_put] at hr
    split at hr
    · exact .inl (Option.some.inj hr).symm
    · exact .inr hr
  refine ⟨h.toNamesSound.put hv hn fun hd => ?_, ?_, ?_⟩
  · rcases hsrc with hsrc | hsrc
    · exact hsrc.2
    · exact absurd (hsrc.symm.trans hd) hne
  · intro k r hr
    rcases hrow k r hr with rfl | hr
    · exact hsrc.imp And.left id
    · exact h.source k r hr
  · intro k r hr
    rcases hrow k r hr with rfl | hr
    · exact hb
    · exact h.bindable k r hr

theorem Written.resolve (h : Written s) (ht : s.resolve now name = .ok (t, e)) : Written t := by
  cases hv : Naming.validate name with
  | error err =>
    rw [resolve_of_invalid hv] at ht
    cases ht
  | ok n =>
    cases hrow : s.nameRegistry.get? n with
    | some e' =>
      rw [resolve_of_some hv hrow] at ht
      cases ht
      exact h
    | none =>
      rw [resolve_of_none hv hrow] at ht
      cases ht
      exact h.put (Naming.validate_idem hv) rfl (.inl ⟨rfl, rfl⟩) (bindable_default n)

theorem Written.set (h : Written s) (hb : Bindable channel ∧ Bindable group)
    (ht : s.set now name channel group = .ok t) : Written t := by
  obtain ⟨n, hv, rfl⟩ := set_eq_ok_iff.mp ht
  exact h.put (Naming.validate_idem hv) rfl (.inr rfl) hb

theorem Written.clear (h : Written s) (ht : s.clear name = .ok t) : Written t := by
  have hsound := h.toNamesSound.clear ht
  obtain ⟨n, hv, rfl⟩ := clear_eq_ok_iff.mp ht
  have hrow : ∀ k r, (s.nameRegistry.erase n).get? k = some r → s.nameRegistry.get? k = some r := by
    intro k r hr
    rw [Table.get?_erase] at hr
    split at hr
    · cases hr
    · exact hr
  exact ⟨hsound, fun k r hr => h.source k r (hrow k r hr),
    fun k r hr => h.bindable k r (hrow k r hr)⟩

theorem Written.called (h : Written s) (c : Call) : Written (called s c) := by
  cases c with
  | resolve now name =>
    rw [Names.called]
    cases hr : s.resolve now name with
    | error e => exact h
    | ok r => exact h.resolve hr
  | set now name channel group =>
    rw [Names.called]
    split
    · rename_i hb
      cases hr : s.set now name channel group with
      | error e => exact h
      | ok t => exact h.set hb hr
    · exact h
  | clear name =>
    rw [Names.called]
    cases hr : s.clear name with
    | error e => exact h
    | ok t => exact h.clear hr

theorem written_of_calls (h : Written s) (cs : List Call) : Written (cs.foldl called s) := by
  induction cs generalizing s with
  | nil => exact h
  | cons c cs ih => exact ih (h.called c)

/-- A name that is on a link resolves to it. -/
theorem resolve_of_nameFor (h : Written s) (hn : nameFor s channel group = .ok (some n))
    (now : ℕ) : ∃ t e, s.resolve now n = .ok (t, e) ∧ (e.channel, e.group) = (channel, group) := by
  rw [nameFor] at hn
  split at hn
  · cases hn
  split at hn
  · rename_i e hfind
    cases hn
    have hpair := List.find?_some hfind
    rw [decide_eq_true_eq] at hpair
    have hrow := Table.mem_rows_iff.mp (List.mem_of_find?_eq_some hfind)
    have hv : Naming.validate e.name = .ok e.name :=
      h.valid e.name (by rw [pairOf_of_get? hrow]; exact Option.some_ne_none _)
    exact ⟨s, e, resolve_of_some hv hrow, hpair.1⟩
  split at hn
  · cases hn
  · rename_i m hradio
    obtain ⟨hwf, hdef⟩ := Naming.default_of_radioToName hradio
    have hv := Naming.validate_of_wellFormed hwf
    split at hn
    · rename_i e hrow
      split at hn
      · cases hn
      · rename_i hpair
        cases hn
        exact ⟨s, e, resolve_of_some hv hrow, not_not.mp hpair⟩
    · rename_i hrow
      cases hn
      exact ⟨_, _, resolve_of_none hv hrow, hdef⟩

/-- The name of a row is on the row's link, unless another one was set there. -/
theorem nameFor_of_row (h : Written s) (hrow : s.nameRegistry.get? n = some e) :
    nameFor s e.channel e.group = .ok (some n) ∨ ∃ m, m ≠ n ∧ Explicit s m e.channel e.group := by
  have hname := Table.key_of_get? hrow
  have hmem := (Table.get?_eq_some_iff.mp hrow).1
  rw [nameFor, if_neg (not_not_intro (h.bindable n e hrow))]
  split
  · rename_i r hfind
    have hr := List.find?_some hfind
    rw [decide_eq_true_eq] at hr
    by_cases hrn : r.name = n
    · exact .inl (hrn ▸ rfl)
    · exact .inr ⟨r.name, hrn, r, List.mem_of_find?_eq_some hfind, rfl, hr⟩
  · rename_i hnone
    have hsrc : e.source ≠ sourceRegistry := by
      intro hreg
      have := List.find?_eq_none.mp hnone e hmem
      simp [hreg] at this
    have hdef := h.derived n e hrow ((h.source n e hrow).resolve_right hsrc)
    obtain ⟨hwf, -⟩ := Naming.validate_eq_ok_iff.mp
      (h.valid n (by rw [pairOf_of_get? hrow]; nofun))
    have hradio : Naming.radioToName e.channel e.group = .ok n := by
      have := Naming.radioToName_default hwf
      rwa [← hdef] at this
    rw [hradio]
    simp [hrow]

/-- A name without a row is on the link it derives, unless another one was set there. -/
theorem nameFor_of_none (hv : Naming.validate n = .ok n) (hrow : s.nameRegistry.get? n = none) :
    nameFor s (Naming.default n).1 (Naming.default n).2 = .ok (some n) ∨
      ∃ m, m ≠ n ∧ Explicit s m (Naming.default n).1 (Naming.default n).2 := by
  rw [nameFor, if_neg (not_not_intro (bindable_default n))]
  split
  · rename_i r hfind
    have hr := List.find?_some hfind
    rw [decide_eq_true_eq] at hr
    have hmem := List.mem_of_find?_eq_some hfind
    refine .inr ⟨r.name, ?_, r, hmem, rfl, hr⟩
    rintro rfl
    rw [Table.mem_rows_iff.mp hmem] at hrow
    cases hrow
  · rw [Naming.radioToName_default (Naming.validate_eq_ok_iff.mp hv).1]
    simp [hrow]

/-- After any calls, a name on a link resolves to it, and a name that resolves to a link
is on it, before and after the look-up, unless a different name was set there. -/
theorem nameFor_inverts_resolve (s₀ : Store) (h₀ : s₀.nameRegistry = Table.empty)
    (calls : List Call) (s : Store) (hs : s = calls.foldl called s₀) :
    (∀ channel group n, nameFor s channel group = .ok (some n) → ∀ now, ∃ t e,
      s.resolve now n = .ok (t, e) ∧ (e.channel, e.group) = (channel, group)) ∧
    ∀ now name n t e, Naming.validate name = .ok n → s.resolve now name = .ok (t, e) →
      ∀ u, u = s ∨ u = t → nameFor u e.channel e.group = .ok (some n) ∨
        ∃ m, m ≠ n ∧ Explicit u m e.channel e.group := by
  have hw : Written s := hs ▸ written_of_calls (written_empty h₀) calls
  refine ⟨fun channel group n hn now => resolve_of_nameFor hw hn now, ?_⟩
  intro now name n t e hv hr u hu
  have hrow : t.nameRegistry.get? n = some e := by
    obtain ⟨t', e', hr', -, hrow, -⟩ := @resolve_spec s now _ _ hv
    rw [hr] at hr'
    cases hr'
    exact hrow
  rcases hu with rfl | rfl
  · cases hrow' : u.nameRegistry.get? n with
    | some e' =>
      rw [resolve_of_some hv hrow'] at hr
      cases hr
      exact nameFor_of_row hw hrow
    | none =>
      rw [resolve_of_none hv hrow'] at hr
      cases hr
      exact nameFor_of_none (Naming.validate_idem hv) hrow'
  · exact nameFor_of_row (hw.resolve hr) hrow

/-- Looked up, moved to the link of another name, and dropped again. -/
def movedAndCleared : List Call :=
  [.resolve 1 "zuzuz", .set 2 "vevov" 11 15, .clear "zuzuz"]

theorem nameFor_inverts_resolve_moved : ∃ t e,
    (movedAndCleared.foldl called Store.empty).resolve 3 "vevov" = .ok (t, e) ∧
      (e.channel, e.group) = (11, 15) :=
  (nameFor_inverts_resolve Store.empty rfl movedAndCleared _ rfl).1 11 15 "vevov"
    (by decide +kernel) 3

end Names

end MbTools
