import Mathlib.Data.List.Find
import MbTools.Api.Resolve

/-! # Names with a host

A device name that boards of several hosts have is an error that lists the hosts, and
a name with a host behind an `@` is looked up by both. The two look-ups fold letters
differently: the hosts are told apart by `str.lower`, the rows found by `NOCASE`.
-/

namespace MbTools

namespace Store

/-- A row with this name. -/
def Named (name : String) (r : DeviceRecord) : Prop :=
  r.deviceName.any (nocaseEq · name) = true

instance (name : String) (r : DeviceRecord) : Decidable (Named name r) :=
  inferInstanceAs (Decidable (_ = _))

def named (s : Store) (name : String) : List DeviceRecord :=
  s.listDevices.filter fun r => Named name r

/-- A host as the error shows it. -/
def shown (host : Option String) : String := host.getD "local"

def OwnedBy (host : Option String) (r : DeviceRecord) : Prop :=
  match host with
  | none => r.host = none
  | some h => r.host.any (nocaseEq · h) = true

/-- Every host that the error names leads to a row of the name, written behind the name
in any letter case; and a row that is found has the token for a uid or a name. -/
def Disambiguates (C : Casing) (s : Store) (token : String) : Prop :=
  match s.find C token with
  | .error hosts => ∀ host ∈ hosts, ∀ t h, C.Respelled token t → C.Respelled (shown host) h →
      ∃ r, s.find C (t ++ "@" ++ h) = .ok (some r) ∧ Named token r ∧ OwnedBy host r
  | .ok none => True
  | .ok (some r) => r.uid = token ∨ r.shortUid = token ∨ Named token r

/-- The hosts that boards of this name are on. -/
def hostsOf (C : Casing) (s : Store) (token : String) : List (Option String) :=
  uniqueHosts C ((s.named token).map DeviceRecord.host)

/-- The token is no uid, and boards of several hosts have it as their name. -/
def Ambiguous (C : Casing) (s : Store) (token : String) : Prop :=
  (∀ r ∈ s.listDevices, r.uid ≠ token ∧ r.shortUid ≠ token) ∧ 1 < (s.hostsOf C token).length

/-- No board of the name is on this host, no host has an `@` in its name, and neither the
name nor a host has a letter with a case that `NOCASE` does not fold. -/
structure Qualifiable (C : Casing) (s : Store) (token : String) : Prop where
  remote : none ∉ s.hostsOf C token
  noAt : ∀ h, some h ∈ s.hostsOf C token → '@' ∉ h.toList
  name : C.Folded token
  hosts : ∀ h, some h ∈ s.hostsOf C token → C.Folded h

variable {C : Casing} {s : Store} {token t h name host : String} {r : DeviceRecord}

theorem find_eq (C : Casing) (s : Store) (token : String) :
    s.find C token =
      match rpartitionAt token with
      | some (name, host) =>
        .ok (s.listDevices.find? fun r => Named name r ∧ r.host.any (nocaseEq · host))
      | none =>
        match (s.get token).or (s.listDevices.find? fun r => r.shortUid = token) with
        | some r => .ok (some r)
        | none =>
          match s.named token with
          | [] => .ok none
          | r :: rest =>
            let hosts := uniqueHosts C ((r :: rest).map DeviceRecord.host)
            if 1 < hosts.length then .error hosts else .ok (some r) := by
  have hnamed : ∀ name, (s.listDevices.filter fun r => r.deviceName.any (nocaseEq · name)) =
      s.named name := by
    intro name
    refine List.filter_congr fun r _ => ?_
    rw [Bool.eq_iff_iff, decide_eq_true_iff]
    rfl
  rw [find]
  cases rpartitionAt token with
  | some p =>
    refine congrArg Except.ok (List.find?_congr fun r _ => ?_)
    rw [Bool.eq_iff_iff, Bool.and_eq_true, decide_eq_true_iff]
    rfl
  | none =>
    cases (s.get token).or (s.listDevices.find? fun r => r.shortUid = token) with
    | some r => rfl
    | none =>
      have hrows := hnamed token
      generalize s.named token = rows at hrows ⊢
      subst hrows
      cases s.listDevices.filter fun r => r.deviceName.any (nocaseEq · token) with
      | nil => rfl
      | cons r rest => rfl

/-! ## Letter case -/

theorem nocaseEq_iff {a b : String} :
    nocaseEq a b = true ↔ a.toList.map Char.toLower = b.toList.map Char.toLower :=
  decide_eq_true_iff

theorem nocaseEq_trans {a b c : String} (h₁ : nocaseEq a b = true) (h₂ : nocaseEq b c = true) :
    nocaseEq a c = true := nocaseEq_iff.mpr ((nocaseEq_iff.mp h₁).trans (nocaseEq_iff.mp h₂))

theorem nocaseEq_symm {a b : String} (h : nocaseEq a b = true) : nocaseEq b a = true :=
  nocaseEq_iff.mpr (nocaseEq_iff.mp h).symm

theorem length_of_nocaseEq {a b : String} (h : nocaseEq a b = true) :
    a.toList.length = b.toList.length := by
  have := congrArg List.length (nocaseEq_iff.mp h)
  rwa [List.length_map, List.length_map] at this

theorem named_of_nocaseEq {a b : String} (h : nocaseEq a b = true) (hn : Named a r) :
    Named b r := by
  obtain ⟨d, hd, hda⟩ := (Option.any_eq_true _ _).mp hn
  exact (Option.any_eq_true _ _).mpr ⟨d, hd, nocaseEq_trans hda h⟩

/-- Where `NOCASE` knows the letters, it knows their spellings. -/
theorem nocaseEq_of_respelled {a b : String} (hf : C.Folded a) (h : C.Respelled a b) :
    nocaseEq a b = true := by
  rw [nocaseEq_iff]
  rw [Casing.Folded] at hf
  rw [Casing.Respelled] at h
  generalize a.toList = l, b.toList = l' at hf h
  induction h with
  | nil => rfl
  | @cons c d l l' hcd _ ih =>
    rw [List.forall_mem_cons] at hf
    rw [List.map_cons, List.map_cons, ih hf.2]
    congr 1
    rcases hcd with rfl | rfl | rfl
    · rfl
    · exact hf.1.1.symm
    · exact hf.1.2.symm

/-- If `NOCASE` knows both cases of a word, it knows those of its letters. -/
theorem folded_of_nocaseEq {a : String}
    (hu : nocaseEq a (String.ofList (a.toList.map C.upperOf)) = true)
    (hl : nocaseEq a (String.ofList (a.toList.map C.lowerOf)) = true) : C.Folded a := by
  rw [nocaseEq_iff, String.toList_ofList, List.map_map] at hu hl
  intro c hc
  exact ⟨(List.map_inj_left.mp hu c hc).symm, (List.map_inj_left.mp hl c hc).symm⟩

/-! ## The split at the `@` -/

theorem rpartitionAt_append (h : '@' ∉ host.toList) :
    rpartitionAt (name ++ "@" ++ host) = some (name, host) := by
  have hl : (name ++ "@" ++ host).toList = name.toList ++ '@' :: host.toList := by simp
  have htake : ((name.toList ++ '@' :: host.toList).reverse.takeWhile (· ≠ '@')).reverse =
      host.toList := by
    rw [List.reverse_append, List.reverse_cons, List.append_assoc, List.takeWhile_append_of_pos]
    · simp
    · intro c hc
      rw [List.mem_reverse] at hc
      exact decide_eq_true fun he => h (he ▸ hc)
  have hmem : '@' ∈ name.toList ++ '@' :: host.toList := by simp
  have hname : name.toList.length + (host.toList.length + 1) - host.toList.length - 1 =
      name.toList.length := by omega
  rw [rpartitionAt, hl, if_pos hmem, htake, List.length_append, List.length_cons]
  dsimp only
  rw [hname]
  simp

/-- Behind a host that has an `@` of its own, only a part of it is taken for the host. -/
theorem rpartitionAt_append_of_mem (h : '@' ∈ host.toList) :
    ∃ n k, rpartitionAt (name ++ "@" ++ host) = some (n, k) ∧
      k.toList.length < host.toList.length := by
  obtain ⟨y, x, hyx, hy⟩ := List.eq_append_cons_of_mem (List.mem_reverse.mpr h)
  have hhost : host.toList = x.reverse ++ '@' :: y.reverse := by
    have := congrArg List.reverse hyx
    simpa using this
  have hwhole : name ++ "@" ++ host =
      (name ++ "@" ++ String.ofList x.reverse) ++ "@" ++ String.ofList y.reverse := by
    rw [← String.toList_inj]
    simp [hhost]
  have hsplit : rpartitionAt (name ++ "@" ++ String.ofList x.reverse ++ "@" ++
      String.ofList y.reverse) = some (_, _) := rpartitionAt_append (by simpa using hy)
  refine ⟨_, _, hwhole ▸ hsplit, ?_⟩
  rw [hhost, String.toList_ofList, List.length_append, List.length_cons]
  omega

/-! ## The look-up -/

theorem mem_of_mem_uniqueHosts {hs : List (Option String)} {g : Option String}
    (h : g ∈ uniqueHosts C hs) : g ∈ hs := by
  induction hs with
  | nil => exact h
  | cons k hs ih =>
    rw [uniqueHosts, List.mem_cons] at h
    rcases h with rfl | h
    · exact List.mem_cons_self
    · exact List.mem_cons_of_mem _ (ih (List.mem_filter.mp h).1)

theorem exists_named_of_mem_hostsOf {g : Option String} (h : g ∈ s.hostsOf C token) :
    ∃ r ∈ s.listDevices, Named token r ∧ r.host = g := by
  obtain ⟨r, hr, rfl⟩ := List.mem_map.mp (mem_of_mem_uniqueHosts h)
  obtain ⟨hmem, hn⟩ := List.mem_filter.mp hr
  exact ⟨r, hmem, of_decide_eq_true hn, rfl⟩

theorem find_append (h : '@' ∉ host.toList) :
    s.find C (name ++ "@" ++ host) =
      .ok (s.listDevices.find? fun r => Named name r ∧ r.host.any (nocaseEq · host)) := by
  rw [find_eq, rpartitionAt_append h]

/-- What a look-up with a host finds is on the host behind the last `@`, so on the whole
of it if it has a host of this length. -/
theorem find_append_spec (h : s.find C (name ++ "@" ++ host) = .ok (some r)) :
    ∃ g, r.host = some g ∧ (g.toList.length = host.toList.length →
      '@' ∉ host.toList ∧ Named name r ∧ nocaseEq g host = true) := by
  have hspec : ∀ {n k : String}, rpartitionAt (name ++ "@" ++ host) = some (n, k) →
      ∃ g, r.host = some g ∧ nocaseEq g k = true ∧ Named n r := by
    intro n k hsplit
    rw [find_eq, hsplit] at h
    have hr := List.find?_some (Except.ok.inj h)
    rw [decide_eq_true_eq] at hr
    obtain ⟨g, hg, hk⟩ := (Option.any_eq_true _ _).mp hr.2
    exact ⟨g, hg, hk, hr.1⟩
  by_cases hat : '@' ∈ host.toList
  · obtain ⟨n, k, hsplit, hlt⟩ := rpartitionAt_append_of_mem hat
    obtain ⟨g, hg, hk, -⟩ := hspec hsplit
    have hlen := length_of_nocaseEq hk
    exact ⟨g, hg, fun he => by omega⟩
  · obtain ⟨g, hg, hk, hn⟩ := hspec (rpartitionAt_append hat)
    exact ⟨g, hg, fun _ => ⟨hat, hn, hk⟩⟩

theorem rpartitionAt_bare (h : '@' ∉ token.toList) : rpartitionAt token = none := if_neg h

theorem find_of_ambiguous (h : '@' ∉ token.toList) (ha : s.Ambiguous C token) :
    s.find C token = .error (s.hostsOf C token) := by
  have hget : s.get token = none := by
    rw [Option.eq_none_iff_forall_ne_some]
    intro r hr
    have huid := uid_of_get hr
    exact (ha.1 r (mem_listDevices_iff.mpr (by rwa [huid]))).1 huid
  have hshort : s.listDevices.find? (fun r => r.shortUid = token) = none :=
    List.find?_eq_none.mpr fun r hr => by simpa using (ha.1 r hr).2
  rw [find_eq, rpartitionAt_bare h, hget, hshort]
  have hlong := ha.2
  rw [hostsOf] at hlong ⊢
  cases hm : s.named token with
  | nil =>
    rw [hm] at hlong
    cases hlong
  | cons r rest =>
    rw [hm] at hlong
    exact if_pos hlong

theorem find_of_not_ambiguous (h : '@' ∉ token.toList) (ha : ¬ s.Ambiguous C token) :
    ∃ o, s.find C token = .ok o ∧
      ∀ r, o = some r → r.uid = token ∨ r.shortUid = token ∨ Named token r := by
  rw [find_eq, rpartitionAt_bare h]
  dsimp only
  split
  · rename_i r hr
    refine ⟨some r, rfl, ?_⟩
    rintro _ ⟨⟩
    rcases Option.or_eq_some_iff.mp hr with hg | ⟨-, hg⟩
    · exact .inl (uid_of_get hg)
    · exact .inr (.inl (by simpa using List.find?_some hg))
  · rename_i hnone
    obtain ⟨hget, hshort⟩ := Option.or_eq_none_iff.mp hnone
    split
    · exact ⟨none, rfl, by simp⟩
    · rename_i r rest hm
      split
      · rename_i hlong
        refine absurd ⟨fun r hr => ⟨?_, ?_⟩, ?_⟩ ha
        · rintro rfl
          rw [mem_listDevices_iff.mp hr] at hget
          cases hget
        · simpa using List.find?_eq_none.mp hshort r hr
        · rwa [hostsOf, hm]
      · refine ⟨some r, rfl, ?_⟩
        rintro _ ⟨⟩
        have hmem : r ∈ s.named token := hm ▸ List.mem_cons_self
        exact .inr (.inr (of_decide_eq_true (List.mem_filter.mp hmem).2))

/-! ## Where the hosts of the error lead -/

theorem resolves_of_qualifiable {g : Option String} (hq : s.Qualifiable C token)
    (hg : g ∈ s.hostsOf C token) (ht : C.Respelled token t) (hh : C.Respelled (shown g) h) :
    ∃ r, s.find C (t ++ "@" ++ h) = .ok (some r) ∧ Named token r ∧ OwnedBy g r := by
  cases g with
  | none => exact absurd hg hq.remote
  | some k =>
    have hname := nocaseEq_of_respelled hq.name ht
    have hhost := nocaseEq_of_respelled (hq.hosts k hg) hh
    have hat : '@' ∉ h.toList := by
      intro hmem
      have hlow : '@' ∈ k.toList.map Char.toLower := by
        rw [nocaseEq_iff.mp hhost]
        exact List.mem_map.mpr ⟨'@', hmem, rfl⟩
      obtain ⟨c, hc, hlower⟩ := List.mem_map.mp hlow
      exact hq.noAt k hg (Casing.toLower_eq_at hlower ▸ hc)
    obtain ⟨r₀, hr₀, hn₀, hrh₀⟩ := exists_named_of_mem_hostsOf hg
    obtain ⟨r, hr⟩ : ∃ r, (s.listDevices.find? fun r =>
        Named t r ∧ r.host.any (nocaseEq · h)) = some r := by
      rw [← Option.isSome_iff_exists, List.find?_isSome]
      refine ⟨r₀, hr₀, decide_eq_true ⟨named_of_nocaseEq hname hn₀, ?_⟩⟩
      rw [hrh₀]
      exact hhost
    have hfound := List.find?_some hr
    rw [decide_eq_true_eq] at hfound
    refine ⟨r, by rw [find_append hat, hr], named_of_nocaseEq (nocaseEq_symm hname) hfound.1, ?_⟩
    obtain ⟨f, hf, hfh⟩ := (Option.any_eq_true _ _).mp hfound.2
    exact (Option.any_eq_true _ _).mpr ⟨f, hf, nocaseEq_trans hfh (nocaseEq_symm hhost)⟩

theorem host_of_find {k : String} (hr : s.find C (t ++ "@" ++ h) = .ok (some r))
    (hlen : h.toList.length = k.toList.length) (ho : OwnedBy (some k) r) :
    '@' ∉ h.toList ∧ Named t r ∧ nocaseEq k h = true := by
  obtain ⟨g, hg, hspec⟩ := find_append_spec hr
  obtain ⟨f, hf, hfk⟩ := (Option.any_eq_true _ _).mp ho
  obtain rfl : g = f := Option.some.inj (hg.symm.trans hf)
  obtain ⟨hat, hn, hgh⟩ := hspec ((length_of_nocaseEq hfk).trans hlen.symm)
  exact ⟨hat, hn, nocaseEq_trans (nocaseEq_symm hfk) hgh⟩

theorem qualifiable_of_resolves (hne : s.hostsOf C token ≠ [])
    (hall : ∀ g ∈ s.hostsOf C token, ∀ t h, C.Respelled token t → C.Respelled (shown g) h →
      ∃ r, s.find C (t ++ "@" ++ h) = .ok (some r) ∧ Named token r ∧ OwnedBy g r) :
    s.Qualifiable C token := by
  have hlen : ∀ (f : Char → Char) (k : String),
      (String.ofList (k.toList.map f)).toList.length = k.toList.length := by simp
  have hremote : none ∉ s.hostsOf C token := by
    intro hg
    obtain ⟨r, hr, -, ho⟩ :=
      hall none hg token _ (Casing.respelled_refl _) (Casing.respelled_refl _)
    obtain ⟨g, hg, -⟩ := find_append_spec hr
    rw [OwnedBy, hg] at ho
    cases ho
  have hhost : ∀ k, some k ∈ s.hostsOf C token → ∀ h, C.Respelled k h →
      h.toList.length = k.toList.length → '@' ∉ h.toList ∧ nocaseEq k h = true := by
    intro k hk h hh hl
    obtain ⟨r, hr, -, ho⟩ := hall (some k) hk token h (Casing.respelled_refl _) hh
    obtain ⟨hat, -, hkh⟩ := host_of_find hr hl ho
    exact ⟨hat, hkh⟩
  have hname : ∀ t, C.Respelled token t → nocaseEq token t = true := by
    intro t ht
    obtain ⟨g, hg⟩ := List.exists_mem_of_ne_nil _ hne
    cases g with
    | none => exact absurd hg hremote
    | some k =>
      obtain ⟨r, hr, hn, ho⟩ := hall (some k) hg t k ht (Casing.respelled_refl _)
      obtain ⟨-, hnt, -⟩ := host_of_find hr rfl ho
      obtain ⟨d, hd, hdt⟩ := (Option.any_eq_true _ _).mp hn
      obtain ⟨d', hd', hdt'⟩ := (Option.any_eq_true _ _).mp hnt
      obtain rfl : d = d' := Option.some.inj (hd.symm.trans hd')
      exact nocaseEq_trans (nocaseEq_symm hdt) hdt'
  constructor
  · exact hremote
  · exact fun k hk => (hhost k hk k (Casing.respelled_refl _) rfl).1
  · exact folded_of_nocaseEq (hname _ (Casing.respelled_map (.inl rfl) _))
      (hname _ (Casing.respelled_map (.inr rfl) _))
  · intro k hk
    exact folded_of_nocaseEq (hhost k hk _ (Casing.respelled_map (.inl rfl) _) (hlen _ _)).2
      (hhost k hk _ (Casing.respelled_map (.inr rfl) _) (hlen _ _)).2

/-- Two boards of one name on these hosts. -/
def twoBoards (host host' : Option String) : Store :=
  { Store.empty with
    device := (Table.empty.put
      { DeviceRecord.new 1 "9900a" host none none with deviceName := some "zavaz" }).put
      { DeviceRecord.new 2 "9900b" host' none none with deviceName := some "zavaz" } }

end Store

end MbTools
