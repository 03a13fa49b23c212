import MbTools.Peering.Effects
import MbTools.Peering.Listing

/-! # Names on the wire

What an event or a snapshot row says about a name, and what applying it leaves
at every name. Both go through `Store.set` and `Store.clear` and take no notice
of the row that is there.
-/

namespace MbTools.Peering

open Store

variable {s s' : Store} {now : ℕ} {host n : String} {e : Event} {d : NameDict}
  {v : Option (ℤ × ℤ)}

/-- `name_set_payload`. -/
def nameSetPayload (e : Entry) : Event :=
  { Event.ofType .nameSet with name := e.name, channel := e.channel, group := e.group }

/-- `name_clear_payload`. -/
def nameClearPayload (name : String) : Event := { Event.ofType .nameClear with name := name }

/-- The name an event is about and what it leaves there. -/
def assigned (e : Event) : Option (String × Option (ℤ × ℤ)) :=
  match e.type with
  | some .nameSet =>
    match e.name, e.channel, e.group with
    | some name, some channel, some group =>
      (Naming.validate name).toOption.map fun n => (n, some (channel, group))
    | _, _, _ => none
  | some .nameClear =>
    e.name.bind fun name => (Naming.validate name).toOption.map fun n => (n, none)
  | _ => none

/-- The name of a snapshot row and its pair. -/
def rowOf (d : NameDict) : Option (String × (ℤ × ℤ)) :=
  match d.name, d.channel, d.group with
  | some name, some channel, some group =>
    (Naming.validate name).toOption.map fun n => (n, (channel, group))
  | _, _, _ => none

/-- What is at a name once a row has been applied. -/
def afterRow (n : String) (v : Option (ℤ × ℤ)) (d : NameDict) : Option (ℤ × ℤ) :=
  match rowOf d with
  | some (m, p) => if m = n then some p else v
  | none => v

/-- What a snapshot says about a name. -/
def told (reply : SnapshotReply) (n : String) : Option (ℤ × ℤ) :=
  reply.names.foldl (afterRow n) none

section Events

theorem toOption_eq_some_iff {ε β : Type} {x : Except ε β} {b : β} :
    x.toOption = some b ↔ x = .ok b := by cases x <;> simp [Except.toOption]

theorem pairOf_caught_set (s : Store) (now : ℕ) (name : String) (channel group : ℤ) (n : String) :
    (caught s (s.set now name channel group)).pairOf n =
      (Naming.validate name).toOption.elim (s.pairOf n) fun m =>
        if m = n then some (channel, group) else s.pairOf n := by
  cases hv : Naming.validate name with
  | error err =>
    cases hs : s.set now name channel group with
    | error err' => rfl
    | ok s' =>
      obtain ⟨m, hm, -⟩ := set_eq_ok_iff.mp hs
      rw [hv] at hm
      cases hm
  | ok m =>
    have hs : s.set now name channel group = .ok { s with
        nameRegistry := s.nameRegistry.put ⟨m, channel, group, sourceRegistry, now⟩ } :=
      set_eq_ok_iff.mpr ⟨m, hv, rfl⟩
    rw [hs]
    exact pairOf_set hv hs n

theorem pairOf_caught_clear (s : Store) (name n : String) :
    (caught s (s.clear name)).pairOf n =
      (Naming.validate name).toOption.elim (s.pairOf n) fun m =>
        if m = n then none else s.pairOf n := by
  cases hv : Naming.validate name with
  | error err =>
    cases hs : s.clear name with
    | error err' => rfl
    | ok s' =>
      obtain ⟨m, hm, -⟩ := clear_eq_ok_iff.mp hs
      rw [hv] at hm
      cases hm
  | ok m =>
    have hs : s.clear name = .ok { s with nameRegistry := s.nameRegistry.erase m } :=
      clear_eq_ok_iff.mpr ⟨m, hv, rfl⟩
    rw [hs]
    exact pairOf_clear hv hs n

/-- An event is taken as it is: what it says replaces whatever the name had. -/
theorem pairOf_recvEvent (s : Store) (now : ℕ) (host : String) (e : Event) (n : String) :
    (recvEvent s now host e).pairOf n =
      (assigned e).elim (s.pairOf n) fun q => if q.1 = n then q.2 else s.pairOf n := by
  by_cases hset : e.type = some .nameSet
  · rw [recvEvent_eq_caught]
    simp only [applyEventBody, assigned, hset]
    cases e.name with
    | none => rfl
    | some name =>
      cases e.channel with
      | none => rfl
      | some channel =>
        cases e.group with
        | none => rfl
        | some group =>
          dsimp only
          rw [pairOf_caught_set]
          cases (Naming.validate name).toOption with
          | none => rfl
          | some m => rfl
  · by_cases hclear : e.type = some .nameClear
    · rw [recvEvent_eq_caught]
      simp only [applyEventBody, assigned, hclear]
      cases e.name with
      | none => rfl
      | some name =>
        dsimp only [Option.bind_some]
        rw [pairOf_caught_clear]
        cases (Naming.validate name).toOption with
        | none => rfl
        | some m => rfl
    · have hrest := congrArg Prod.snd (@rest_recvEvent s now host e hset hclear)
      have hnone : assigned e = none := by
        unfold assigned
        split
        · rename_i ht
          exact absurd ht hset
        · rename_i ht
          exact absurd ht hclear
        · rfl
      rw [hnone, pairOf]
      exact congrArg (fun t => (Table.get? t n).map fun e : Entry => (e.channel, e.group)) hrest

theorem valid_of_assigned {m : String} (h : assigned e = some (m, v)) :
    Naming.validate m = .ok m := by
  unfold assigned at h
  split at h
  · split at h
    · obtain ⟨n, hn, he⟩ := Option.map_eq_some_iff.mp h
      cases he
      exact Naming.validate_idem (toOption_eq_some_iff.mp hn)
    · cases h
  · obtain ⟨name, -, h⟩ := Option.bind_eq_some_iff.mp h
    obtain ⟨n, hn, he⟩ := Option.map_eq_some_iff.mp h
    cases he
    exact Naming.validate_idem (toOption_eq_some_iff.mp hn)
  · cases h

end Events

section Snapshots

theorem pairOf_applySnapshotName (s : Store) (now : ℕ) (d : NameDict) (n : String) :
    (caught s (applySnapshotName s now d)).pairOf n = afterRow n (s.pairOf n) d := by
  unfold applySnapshotName afterRow rowOf
  cases d.name with
  | none => rfl
  | some name =>
    cases d.channel with
    | none => rfl
    | some channel =>
      cases d.group with
      | none => rfl
      | some group =>
        dsimp only
        rw [pairOf_caught_set]
        cases (Naming.validate name).toOption with
        | none => rfl
        | some m => rfl

theorem pairOf_foldl_names (names : List NameDict) (s : Store) (now : ℕ) (n : String) :
    (names.foldl (fun t d => caught t (applySnapshotName t now d)) s).pairOf n =
      names.foldl (afterRow n) (s.pairOf n) := by
  induction names generalizing s with
  | nil => rfl
  | cons d names ih => rw [List.foldl_cons, List.foldl_cons, ih, pairOf_applySnapshotName]

theorem foldl_afterRow (names : List NameDict) (n : String) (v : Option (ℤ × ℤ)) :
    names.foldl (afterRow n) v = (names.foldl (afterRow n) none).or v := by
  induction names generalizing v with
  | nil => rfl
  | cons d names ih =>
    rw [List.foldl_cons, List.foldl_cons, ih (afterRow n v d), ih (afterRow n none d)]
    unfold afterRow
    cases rowOf d with
    | none => rw [Option.or_none]
    | some q =>
      dsimp only
      split
      · rw [Option.or_assoc, Option.some_or]
      · rw [Option.or_none]

theorem pairOf_applySnapshot (s : Store) (now : ℕ) (host : String) (reply : SnapshotReply)
    (n : String) : (applySnapshot s now host reply).pairOf n = (told reply n).or (s.pairOf n) := by
  have hrest := congrArg Prod.snd (rest_devices s now host reply)
  have hpair : ∀ t : Store, t.nameRegistry = s.nameRegistry → t.pairOf n = s.pairOf n := by
    intro t ht
    rw [pairOf, ht, pairOf]
  rw [applySnapshot, pairOf_foldl_names, hpair _ hrest, foldl_afterRow, told]

theorem exists_of_told {reply : SnapshotReply} {p : ℤ × ℤ} (h : told reply n = some p) :
    ∃ d ∈ reply.names, rowOf d = some (n, p) := by
  revert h
  refine Pass.foldl_inv (P := fun v => v = some p → ∃ d ∈ reply.names, rowOf d = some (n, p))
    (fun v d hd hv h => ?_) nofun
  unfold afterRow at h
  split at h
  · rename_i m q hq
    split at h
    · rename_i hm
      cases h
      exact ⟨d, hd, hm ▸ hq⟩
    · exact hv h
  · exact hv h

theorem valid_of_rowOf {m : String} {p : ℤ × ℤ} (h : rowOf d = some (m, p)) :
    Naming.validate m = .ok m := by
  unfold rowOf at h
  split at h
  · obtain ⟨n, hn, he⟩ := Option.map_eq_some_iff.mp h
    cases he
    exact Naming.validate_idem (toOption_eq_some_iff.mp hn)
  · cases h

theorem foldl_entries (n : String) {l : List Entry} (hn : (l.map Entry.name).Nodup)
    (hv : ∀ e ∈ l, Naming.validate e.name = .ok e.name) :
    (l.map fun e => (⟨some e.name, some e.channel, some e.group⟩ : NameDict)).foldl (afterRow n)
      none = (l.find? fun e => e.name = n).map fun e => (e.channel, e.group) := by
  induction l with
  | nil => rfl
  | cons e l ih =>
    rw [List.map_cons, List.nodup_cons] at hn
    have hrow : afterRow n none ⟨some e.name, some e.channel, some e.group⟩ =
        if e.name = n then some (e.channel, e.group) else none := by
      simp [afterRow, rowOf, hv e List.mem_cons_self, Except.toOption]
    rw [List.map_cons, List.foldl_cons, foldl_afterRow, hrow,
      ih hn.2 fun e he => hv e (List.mem_cons_of_mem _ he), List.find?_cons]
    by_cases he : e.name = n
    · have hnone : l.find? (fun e => e.name = n) = none := by
        refine List.find?_eq_none.mpr fun q hq hqn => hn.1 ?_
        rw [he, ← of_decide_eq_true hqn]
        exact List.mem_map_of_mem hq
      simp [he, hnone]
    · simp [he]

theorem told_snapshotReply (h : s.NamesValid) (n : String) :
    told (snapshotReply s) n = s.pairOf n := by
  have hvalid : ∀ e ∈ s.allNameEntries, Naming.validate e.name = .ok e.name := by
    intro e he
    apply h
    rw [pairOf, mem_allNameEntries.mp he]
    exact Option.some_ne_none _
  rw [told, pairOf, ← find?_allNameEntries]
  exact foldl_entries n s.nodup_allNameEntries hvalid

end Snapshots

end MbTools.Peering
