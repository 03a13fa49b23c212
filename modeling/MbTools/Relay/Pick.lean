import MbTools.Api.Requests
import MbTools.Api.System
import Mathlib.Data.List.Sort

/-! # Picking a free relay

`mbrelay connect` picks its relay from the registry's list: which entry it takes, and
when that is one the list shows as free.
-/

namespace MbTools.Relay

open Api (DeviceEntry deviceDict)

/-- Is the device of this row a peer's? -/
def hosted (d : DeviceEntry) : Bool := d.record.host.isSome

/-- What `_find_free_relay` asks of an entry. -/
def candidate (C : Casing) (host : Option String) (d : DeviceEntry) : Bool :=
  Api.System.isRelayRole C d.record.role && d.lock.isNone &&
    (host.isNone || d.record.host = host)

/-- `_find_free_relay`, on the devices listed; the sort is stable. -/
def findFreeRelay (C : Casing) (devices : List DeviceEntry) (host : Option String) :
    Option DeviceEntry :=
  ((devices.filter (candidate C host)).insertionSort fun d e => hosted d → hosted e).head?

/-- The devices that the local registry lists. -/
def listed (s : Store) (locks : LockManager) : List DeviceEntry :=
  (Api.listVisibleDevices .socket s).map (deviceDict s locks)

/-! ## What is free -/

/-- `_is_locked`: the lock of a local row, or what a peer says of its own. -/
def isLocked (d : DeviceEntry) : Bool :=
  match d.record.host with
  | none => d.lock.isSome
  | some _ => (Api.field d.record.remoteLockKind).isSome

/-- `_state_cell` -/
def stateCell (d : DeviceEntry) : String :=
  if hosted d && !d.peerReachable then "peer unreachable"
  else if d.record.state = .disconnected then "gone"
  else if isLocked d then "locked"
  else if d.record.state = .attachedNoAnnounce then "no-answer"
  else if d.record.state = .connectedNoFirmware then "no-firmware"
  else "free"

/-- A relay that could be connected to, within the scope of the request. -/
structure Free (C : Casing) (host : Option String) (d : DeviceEntry) : Prop where
  relay : Api.System.isRelayRole C d.record.role = true
  scope : host = none ∨ d.record.host = host
  attached : d.record.state ≠ .disconnected
  unlocked : isLocked d = false
  reachable : hosted d = true → d.peerReachable = true

instance (C : Casing) (host : Option String) (d : DeviceEntry) : Decidable (Free C host d) :=
  decidable_of_iff
    (Api.System.isRelayRole C d.record.role = true ∧ (host = none ∨ d.record.host = host) ∧
      d.record.state ≠ .disconnected ∧ isLocked d = false ∧
      (hosted d = true → d.peerReachable = true))
    ⟨fun ⟨h₁, h₂, h₃, h₄, h₅⟩ => ⟨h₁, h₂, h₃, h₄, h₅⟩,
      fun ⟨h₁, h₂, h₃, h₄, h₅⟩ => ⟨h₁, h₂, h₃, h₄, h₅⟩⟩

/-- The table shows a free relay as none of the three states that rule it out. -/
theorem free_iff_stateCell {C : Casing} {host : Option String} {d : DeviceEntry} :
    Free C host d ↔ Api.System.isRelayRole C d.record.role = true ∧
      (host = none ∨ d.record.host = host) ∧
      stateCell d ∉ ["peer unreachable", "gone", "locked"] := by
  constructor
  · rintro ⟨hrelay, hscope, hattached, hunlocked, hreachable⟩
    refine ⟨hrelay, hscope, ?_⟩
    have hpeer : ¬ (hosted d && !d.peerReachable) = true := by
      intro h
      simp only [Bool.and_eq_true, Bool.not_eq_true'] at h
      rw [hreachable h.1] at h
      exact absurd h.2 (by simp)
    rw [stateCell, if_neg hpeer, if_neg hattached, if_neg (by simp [hunlocked])]
    split
    · decide
    · split
      · decide
      · decide
  · rintro ⟨hrelay, hscope, hcell⟩
    by_cases hpeer : (hosted d && !d.peerReachable) = true
    · rw [stateCell, if_pos hpeer] at hcell
      exact absurd (by decide) hcell
    · rw [stateCell, if_neg hpeer] at hcell
      by_cases hgone : d.record.state = .disconnected
      · rw [if_pos hgone] at hcell
        exact absurd (by decide) hcell
      · rw [if_neg hgone] at hcell
        by_cases hlocked : isLocked d = true
        · rw [if_pos hlocked] at hcell
          exact absurd (by decide) hcell
        · refine ⟨hrelay, hscope, hgone, by simpa using hlocked, fun hh => ?_⟩
          simpa [hh] using hpeer

/-! ## The choice -/

/-- The choice is a free relay, a local one if any is and no host is given; and there is none
only if no relay is free. -/
structure Picks (C : Casing) (devices : List DeviceEntry) (host : Option String)
    (choice : Option DeviceEntry) : Prop where
  sound : ∀ d, choice = some d → d ∈ devices ∧ Free C host d
  prefers : ∀ d, choice = some d → host = none → hosted d = true →
    ∀ e ∈ devices, Free C host e → hosted e = true
  complete : choice = none → ∀ d ∈ devices, ¬ Free C host d

/-- Does `e` come before `d` when the local devices of the list are put first? -/
def Ahead (devices : List DeviceEntry) (e d : DeviceEntry) : Prop :=
  (hosted e = false ∧ hosted d = true) ∨
    (hosted e = hosted d ∧ ∃ xs ys, devices = xs ++ d :: ys ∧ d ∉ xs ∧ e ∈ xs)

section Sorting

variable {α : Type*} {flag p : α → Bool} {a b : α} {xs ys : List α}

theorem orderedInsert_flag (hx : ∀ x ∈ xs, flag x = false) (hy : ∀ y ∈ ys, flag y = true) :
    (xs ++ ys).orderedInsert (fun a b => flag a → flag b) a =
      if flag a then xs ++ a :: ys else a :: (xs ++ ys) := by
  induction xs with
  | nil =>
    cases ys with
    | nil => simp
    | cons y ys => simp [hy y List.mem_cons_self]
  | cons x xs ih =>
    rw [List.forall_mem_cons] at hx
    by_cases ha : flag a = true
    · simp [ha, hx.1, ih hx.2]
    · simp [ha]

theorem insertionSort_flag (flag : α → Bool) (l : List α) :
    l.insertionSort (fun a b => flag a → flag b) =
      l.filter (fun a => !flag a) ++ l.filter flag := by
  induction l with
  | nil => rfl
  | cons a l ih =>
    rw [List.insertionSort_cons, ih, orderedInsert_flag (by simp) (by simp)]
    by_cases ha : flag a = true
    · simp [ha]
    · simp [ha]

theorem eq_false_of_find? (h : (xs ++ a :: ys).find? p = some a) (ha : a ∉ xs) :
    ∀ x ∈ xs, p x = false := by
  intro x hx
  by_contra hp
  rw [List.find?_append] at h
  cases hfind : xs.find? p with
  | none => exact hp (by simpa using List.find?_eq_none.mp hfind x hx)
  | some y =>
    rw [hfind, Option.some_or, Option.some.injEq] at h
    exact ha (h ▸ List.mem_of_find?_eq_some hfind)

theorem ahead_of_find? {l : List α} (h : l.find? p = some a) (hb : b ∈ l) (hp : p b = true)
    (hne : b ≠ a) : ∃ xs ys, l = xs ++ b :: ys ∧ b ∉ xs ∧ a ∈ xs := by
  obtain ⟨-, xs, ys, rfl, hxs⟩ := List.find?_eq_some_iff_append.mp h
  have hbxs : b ∉ xs := fun hmem => absurd hp (by simpa using hxs b hmem)
  have hbys : b ∈ ys := by simpa [hbxs, hne] using hb
  obtain ⟨us, vs, rfl, hus⟩ := List.eq_append_cons_of_mem hbys
  exact ⟨xs ++ a :: us, vs, by simp, by simp [hbxs, hne, hus], by simp⟩

end Sorting

variable {C : Casing} {host : Option String} {devices : List DeviceEntry} {d e : DeviceEntry}

theorem findFreeRelay_eq (C : Casing) (devices : List DeviceEntry) (host : Option String) :
    findFreeRelay C devices host = (devices.find? fun d => candidate C host d && !hosted d).or
      (devices.find? fun d => candidate C host d && hosted d) := by
  rw [findFreeRelay, insertionSort_flag, List.head?_append, List.filter_filter,
    List.filter_filter, List.head?_filter, List.head?_filter]
  simp only [Bool.and_comm]

theorem findFreeRelay_none (h : findFreeRelay C devices host = none) :
    ∀ d ∈ devices, candidate C host d = false := by
  rw [findFreeRelay_eq, Option.or_eq_none_iff] at h
  intro d hd
  by_contra hc
  cases hh : hosted d with
  | false => exact absurd (List.find?_eq_none.mp h.1 d hd) (by simp [hc, hh])
  | true => exact absurd (List.find?_eq_none.mp h.2 d hd) (by simp [hc, hh])

/-- The relay picked is the first candidate, with the local ones put first. -/
theorem findFreeRelay_some (h : findFreeRelay C devices host = some d) :
    d ∈ devices ∧ candidate C host d = true ∧
      (∀ e ∈ devices, candidate C host e = true → ¬ Ahead devices e d) ∧
      (∀ e ∈ devices, candidate C host e = true → e ≠ d → Ahead devices d e) := by
  rw [findFreeRelay_eq] at h
  cases hlocal : devices.find? fun d => candidate C host d && !hosted d with
  | some c =>
    rw [hlocal, Option.some_or, Option.some.injEq] at h
    subst h
    have hc := List.find?_some hlocal
    simp only [Bool.and_eq_true, Bool.not_eq_true'] at hc
    refine ⟨List.mem_of_find?_eq_some hlocal, hc.1, ?_, ?_⟩
    · rintro e - hcand (⟨-, hhosted⟩ | ⟨heq, xs, ys, rfl, hnot, hmem⟩)
      · rw [hc.2] at hhosted
        cases hhosted
      · have := eq_false_of_find? hlocal hnot e hmem
        simp [hcand, heq, hc.2] at this
    · intro e he hcand hne
      cases hh : hosted e with
      | true => exact Or.inl ⟨hc.2, hh⟩
      | false => exact Or.inr ⟨hc.2.trans hh.symm,
          ahead_of_find? hlocal he (by simp [hcand, hh]) hne⟩
  | none =>
    rw [hlocal, Option.none_or] at h
    have hd := List.find?_some h
    simp only [Bool.and_eq_true] at hd
    have hhosted : ∀ e ∈ devices, candidate C host e = true → hosted e = true := by
      intro e he hcand
      simpa [hcand] using List.find?_eq_none.mp hlocal e he
    refine ⟨List.mem_of_find?_eq_some h, hd.1, ?_, ?_⟩
    · rintro e he hcand (⟨hh, -⟩ | ⟨-, xs, ys, rfl, hnot, hmem⟩)
      · rw [hhosted e he hcand] at hh
        cases hh
      · have := eq_false_of_find? h hnot e hmem
        simp [hcand, hhosted e he hcand] at this
    · intro e he hcand hne
      have hh := hhosted e he hcand
      exact Or.inr ⟨hd.2.trans hh.symm, ahead_of_find? h he (by simp [hcand, hh]) hne⟩

section Listed

variable {s : Store} {locks : LockManager}

theorem lock_of_hosted (hd : d ∈ listed s locks) (hh : hosted d = true) : d.lock = none := by
  obtain ⟨r, -, rfl⟩ := List.mem_map.mp hd
  unfold hosted at hh
  unfold deviceDict at hh ⊢
  cases hhost : r.host with
  | none => simp [hhost] at hh
  | some host => rfl

theorem candidate_of_free (hd : d ∈ listed s locks) (hf : Free C host d) :
    candidate C host d = true := by
  have hlock : d.lock = none := by
    cases hh : hosted d with
    | true => exact lock_of_hosted hd hh
    | false =>
      have hhost : d.record.host = none := by simpa [hosted] using hh
      have hunlocked := hf.unlocked
      rw [isLocked, hhost] at hunlocked
      simpa using hunlocked
  have hscope : (host.isNone || decide (d.record.host = host)) = true := by
    rcases hf.scope with rfl | hscope
    · rfl
    · simp [hscope]
  simp [candidate, hf.relay, hlock, hscope]

/-- The choice is right exactly when every entry that passes the filter without being free
comes after a free one, with the local entries put first. -/
theorem findFreeRelay_picks_iff (C : Casing) (s : Store) (locks : LockManager)
    (host : Option String) : Picks C (listed s locks) host (findFreeRelay C (listed s locks) host) ↔
      ∀ d ∈ listed s locks, candidate C host d = true → ¬ Free C host d →
        ∃ e ∈ listed s locks, Free C host e ∧ Ahead (listed s locks) e d := by
  constructor
  · intro h d hd hcand hfree
    cases hpick : findFreeRelay C (listed s locks) host with
    | none => exact absurd hcand (by simp [findFreeRelay_none hpick d hd])
    | some c =>
      obtain ⟨hc, hcfree⟩ := h.sound c hpick
      have hne : d ≠ c := fun heq => hfree (heq ▸ hcfree)
      exact ⟨c, hc, hcfree, (findFreeRelay_some hpick).2.2.2 d hd hcand hne⟩
  · intro h
    refine ⟨?_, ?_, ?_⟩
    · intro c hpick
      obtain ⟨hc, hcand, hfirst, -⟩ := findFreeRelay_some hpick
      refine ⟨hc, ?_⟩
      by_contra hfree
      obtain ⟨e, he, hefree, hahead⟩ := h c hc hcand hfree
      exact hfirst e he (candidate_of_free he hefree) hahead
    · intro c hpick _ hhosted e he hefree
      obtain ⟨-, -, hfirst, -⟩ := findFreeRelay_some hpick
      by_contra hlocal
      exact hfirst e he (candidate_of_free he hefree)
        (Or.inl ⟨by simpa using hlocal, hhosted⟩)
    · intro hpick d hd hfree
      have := findFreeRelay_none hpick d hd
      rw [candidate_of_free hd hfree] at this
      cases this

end Listed

/-- A relay that was unplugged, and a free one of a peer. -/
def benchStore : Store :=
  let unplugged := { DeviceRecord.new 1 "9900a" none (some "/dev/ttyACM0") none with
    role := some "RADIOBRIDGE", state := .disconnected }
  let remote := { DeviceRecord.new 1 "9900b" (some "torture") none none with
    role := some "RADIOBRIDGE", state := .connected }
  { (Store.empty.writeRow unplugged).writeRow remote with
    peer := Table.empty.put ⟨"torture", "torture:7443", 1, true⟩ }

theorem findFreeRelay_picks_unplugged : ¬ ∀ C s locks host,
    Picks C (listed s locks) host (findFreeRelay C (listed s locks) host) := by
  intro h
  have hpick : (findFreeRelay .ascii (listed benchStore Table.empty) none).any
      (fun d => d.record.state = .disconnected) = true := by
    decide +kernel
  obtain ⟨d, hd, hstate⟩ := (Option.any_eq_true _ _).mp hpick
  exact ((h .ascii benchStore Table.empty none).sound d hd).2.attached (of_decide_eq_true hstate)

end MbTools.Relay
