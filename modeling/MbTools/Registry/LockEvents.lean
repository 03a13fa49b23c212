import MbTools.Registry.Locks
import MbTools.Lib.Journal
import MbTools.Lib.Runs

/-! # The lock table's callbacks

Every grant and every release of a lock is told to the display callback, and a
released flash lock to the flash-release callback too. The calls are logged
here with the table as it stood at each of them.
-/

namespace MbTools

/-- A call of `flash_release_callback` or `lock_display_callback`, with its arguments. -/
inductive Callback where
  | flashRelease (uid : String)
  | lockDisplay (uid : String) (kind : Option LockKind) (display label : Option String)
      (since : Option ℕ)
  deriving DecidableEq, Repr

def HolderRef.describe (holder : HolderRef) : String :=
  match holder.origin with
  | .local => "pid " ++ (holder.pid.map toString).getD "None"
  | .remote => "session " ++ holder.ref ++ " on " ++ holder.host.getD "None"

/-- The lock table beside the calls its callbacks got. -/
structure LockTable where
  locks : LockManager
  fired : List (Callback × LockManager)

namespace LockTable

def empty : LockTable := ⟨Table.empty, []⟩

def fire (t : LockTable) (c : Callback) : LockTable := { t with fired := t.fired ++ [(c, t.locks)] }

/-- `LockManager.acquire`. -/
def acquire (t : LockTable) (now : ℕ) (uid : String) (kind : LockKind) (holder : HolderRef)
    (label : Option String) : Except LockStatus LockTable := do
  let locks ← t.locks.acquire now uid kind holder label
  return { t with locks }.fire (.lockDisplay uid kind holder.describe label now)

/-- `LockManager._release`: drop the entry, then tell the callbacks. -/
def releaseHeld (t : LockTable) (uid : String) (st : LockStatus) : LockTable :=
  let t := { t with locks := t.locks.erase uid }
  let t := if st.kind = .flash then t.fire (.flashRelease uid) else t
  t.fire (.lockDisplay uid none none none none)

def release (t : LockTable) (uid : String) (holder : HolderRef) : LockTable × Bool :=
  match t.locks.status uid with
  | none => (t, false)
  | some current =>
    if current.holder = holder then (t.releaseHeld uid current, true) else (t, false)

def forceRelease (t : LockTable) (uid : String) : LockTable × Option LockStatus :=
  match t.locks.status uid with
  | none => (t, none)
  | some current => (t.releaseHeld uid current, some current)

/-- The loop of `LockManager.sweep`; a uid without an entry would raise. -/
def releaseAll (t : LockTable) : List String → Option LockTable
  | [] => some t
  | uid :: uids => (t.locks.status uid).bind fun st => releaseAll (t.releaseHeld uid st) uids

def sweep (t : LockTable) (isAlive : HolderRef → Bool) : Option (LockTable × List String) :=
  let deadUids := (t.locks.stale isAlive).map Prod.fst
  (t.releaseAll deadUids).map fun t => (t, deadUids)

/-- A call of one of the four methods that change the table. -/
inductive Call where
  | acquire (now : ℕ) (uid : String) (kind : LockKind) (holder : HolderRef)
      (label : Option String)
  | release (uid : String) (holder : HolderRef)
  | forceRelease (uid : String)
  | sweep (isAlive : HolderRef → Bool)

/-- The table after a call; a refused `acquire` raises and leaves the table it found. -/
def call (t : LockTable) : Call → Option LockTable
  | .acquire now uid kind holder label =>
    match t.acquire now uid kind holder label with
    | .ok t' => some t'
    | .error _ => some t
  | .release uid holder => some (t.release uid holder).1
  | .forceRelease uid => some (t.forceRelease uid).1
  | .sweep isAlive => (t.sweep isAlive).map Prod.fst

/-- The calls that find nothing to grant or release. -/
def Refused (t : LockTable) : Call → Prop
  | .acquire _ uid _ _ _ => t.locks.status uid ≠ none
  | .release uid holder => ∀ st, t.locks.status uid = some st → st.holder ≠ holder
  | .forceRelease uid => t.locks.status uid = none
  | .sweep _ => False

end LockTable

/-- What a display shows of a lock: its kind, label and since. -/
abbrev Shown := LockKind × Option String × ℕ

def LockManager.shown (m : LockManager) (uid : String) : Option Shown :=
  (m.status uid).map fun st => (st.kind, st.label, st.since)

/-- The change of the display that a callback asks for. -/
def Callback.change : Callback → Option (String × Option Shown)
  | .flashRelease _ => none
  | .lockDisplay uid kind _ label since =>
    some (uid, kind.bind fun k => since.map fun s => (k, label, s))

namespace LockTable

/-- The display of a subscriber that followed the calls from an empty table on. -/
def replay (l : List (Callback × LockManager)) : String → Option Shown :=
  Journal.replay (fun _ => none) (l.filterMap fun e => e.1.change)

def flashCalls (t : LockTable) (u : String) : ℕ := t.fired.countP fun e => e.1 = .flashRelease u

/-- The flash locks on a uid that going from one table to the other removed. -/
def removedFlash (u : String) (m m' : LockManager) : ℕ :=
  if (m.status u).any (·.kind = .flash) ∧ m'.status u = none then 1 else 0

/-- The flash locks on a uid that the calls of a run removed. -/
def flashRemovals (u : String) : LockTable → List Call → ℕ
  | _, [] => 0
  | t, c :: cs =>
    match t.call c with
    | none => 0
    | some t' => removedFlash u t.locks t'.locks + flashRemovals u t' cs

/-- The displays agree with the table, now and whenever one was called. -/
structure Faithful (t : LockTable) : Prop where
  now : replay t.fired = t.locks.shown
  atCall : ∀ l uid kind display label since m,
    l ++ [(.lockDisplay uid kind display label since, m)] <+: t.fired →
      replay (l ++ [(.lockDisplay uid kind display label since, m)]) = m.shown

section Callbacks

variable {t t' : LockTable} {u uid : String} {st : LockStatus} {holder : HolderRef}

theorem Faithful.empty : LockTable.empty.Faithful where
  now := rfl
  atCall l uid kind display label since m h := absurd (List.prefix_nil.mp h) (by simp)

theorem replay_fire_flash (l : List (Callback × LockManager)) (m : LockManager) :
    replay (l ++ [(.flashRelease uid, m)]) = replay l := by
  simp [replay, Callback.change]

theorem replay_display (l : List (Callback × LockManager)) (m : LockManager)
    (kind : Option LockKind) (display label : Option String) (since : Option ℕ) :
    replay (l ++ [(.lockDisplay uid kind display label since, m)]) =
      Journal.change (replay l) (uid, kind.bind fun k => since.map fun s => (k, label, s)) := by
  rw [replay, List.filterMap_append]
  exact Journal.replay_concat

/-- One display call that tells what the table shows keeps the displays in agreement. -/
theorem faithful_display {l : List (Callback × LockManager)} {kind : Option LockKind}
    {display label : Option String} {since : Option ℕ} {m : LockManager}
    (hold : ∀ l' uid kind display label since m',
      l' ++ [(.lockDisplay uid kind display label since, m')] <+: l →
        replay (l' ++ [(.lockDisplay uid kind display label since, m')]) = m'.shown)
    (hm : replay (l ++ [(.lockDisplay uid kind display label since, m)]) = m.shown) :
    Faithful ⟨m, l ++ [(.lockDisplay uid kind display label since, m)]⟩ where
  now := hm
  atCall l' uid' kind' display' label' since' m' h := by
    rcases List.prefix_concat_iff.mp h with (h | h)
    · have hlast := (List.append_inj' h rfl).2
      obtain ⟨-, rfl⟩ := Prod.mk.inj (List.singleton_inj.mp hlast)
      rw [h]
      exact hm
    · exact hold l' uid' kind' display' label' since' m' h

theorem Faithful.acquire {now : ℕ} {kind : LockKind} {label : Option String} (h : t.Faithful)
    (hok : t.acquire now uid kind holder label = .ok t') : t'.Faithful := by
  unfold LockTable.acquire at hok
  cases hl : t.locks.acquire now uid kind holder label with
  | error st => simp [hl, bind, Except.bind] at hok
  | ok m =>
    simp only [hl, bind, Except.bind, pure, Except.pure, Except.ok.injEq] at hok
    obtain ⟨-, rfl⟩ := LockManager.acquire_eq_ok_iff.mp hl
    subst hok
    refine faithful_display h.atCall ?_
    rw [replay_display, h.now]
    funext k
    simp only [Journal.change, LockManager.shown, LockManager.status_insert]
    split <;> rfl

theorem Faithful.releaseHeld (h : t.Faithful) : (t.releaseHeld uid st).Faithful := by
  have herase : ∀ l, replay l = t.locks.shown →
      replay (l ++ [(.lockDisplay uid none none none none, t.locks.erase uid)]) =
        LockManager.shown (t.locks.erase uid) := by
    intro l hl
    rw [replay_display, hl]
    funext k
    simp only [Journal.change, LockManager.shown, LockManager.status_erase]
    split <;> rfl
  unfold LockTable.releaseHeld
  split
  · -- the flash callback comes first, and no display changes with it
    refine faithful_display ?_ (herase _ ((replay_fire_flash t.fired _).trans h.now))
    intro l' uid' kind display label since m' hp
    rcases List.prefix_concat_iff.mp hp with (hp | hp)
    · have hlast := (List.append_inj' hp rfl).2
      exact absurd (congrArg Prod.fst (List.singleton_inj.mp hlast)) nofun
    · exact h.atCall l' uid' kind display label since m' hp
  · exact faithful_display h.atCall (herase _ h.now)

/-- What the callbacks and the table have of one uid. -/
def facet (t : LockTable) (u : String) : Option LockStatus × ℕ :=
  (t.locks.status u, t.flashCalls u)

/-- The facet of a uid after its lock, if any, was released. -/
def droppedFacet (f : Option LockStatus × ℕ) : Option LockStatus × ℕ :=
  (none, f.2 + if f.1.any (·.kind = .flash) then 1 else 0)

theorem flashCalls_fire (t : LockTable) (c : Callback) (u : String) :
    (t.fire c).flashCalls u = t.flashCalls u + if c = .flashRelease u then 1 else 0 := by
  simp [flashCalls, fire, List.countP_append, List.countP_singleton]

theorem releaseHeld_locks (t : LockTable) (uid : String) (st : LockStatus) :
    (t.releaseHeld uid st).locks = t.locks.erase uid := by
  unfold releaseHeld
  split <;> rfl

/-- With its callbacks left out, a release is the lock manager's. -/
theorem release_locks (t : LockTable) (uid : String) (holder : HolderRef) :
    (t.release uid holder).1.locks = (t.locks.release uid holder).1 := by
  unfold release LockManager.release
  cases t.locks.status uid with
  | none => rfl
  | some current =>
    simp only
    split
    · exact releaseHeld_locks t uid current
    · rfl

theorem forceRelease_locks (t : LockTable) (uid : String) :
    (t.forceRelease uid).1.locks = (t.locks.forceRelease uid).1 := by
  unfold forceRelease LockManager.forceRelease
  cases t.locks.status uid with
  | none => rfl
  | some current => exact releaseHeld_locks t uid current

theorem releaseHeld_of_ne (h : uid ≠ u) : (t.releaseHeld uid st).facet u = t.facet u := by
  have hs : LockManager.status (t.locks.erase uid) u = t.locks.status u := by
    rw [LockManager.status_erase, if_neg h]
  have hc : Callback.flashRelease uid ≠ .flashRelease u :=
    fun he => h (Callback.flashRelease.inj he)
  unfold releaseHeld
  split
  · refine Prod.ext hs ?_
    simp only [facet, flashCalls_fire, if_neg hc, reduceCtorEq, if_false, Nat.add_zero]
    rfl
  · refine Prod.ext hs ?_
    simp only [facet, flashCalls_fire, reduceCtorEq, if_false, Nat.add_zero]
    rfl

theorem releaseHeld_self (h : t.locks.status uid = some st) :
    (t.releaseHeld uid st).facet uid = droppedFacet (t.facet uid) := by
  have hs : LockManager.status (t.locks.erase uid) uid = none := by
    rw [LockManager.status_erase, if_pos rfl]
  unfold releaseHeld
  split
  · rename_i hk
    refine Prod.ext hs ?_
    simp only [facet, droppedFacet, h, Option.any_some, hk, decide_true, flashCalls_fire, if_true,
      reduceCtorEq, if_false, Nat.add_zero]
    rfl
  · rename_i hk
    refine Prod.ext hs ?_
    simp only [facet, droppedFacet, h, Option.any_some, hk, decide_false, Bool.false_eq_true,
      flashCalls_fire, reduceCtorEq, if_false, Nat.add_zero]
    rfl

/-- The loop of a sweep releases the locks of its uids and touches no other. -/
theorem releaseAll_spec {uids : List String} (hn : uids.Nodup)
    (hheld : ∀ k ∈ uids, t.locks.status k ≠ none) :
    ∃ t', t.releaseAll uids = some t' ∧ (t.Faithful → t'.Faithful) ∧
      ∀ u, t'.facet u = if u ∈ uids then droppedFacet (t.facet u) else t.facet u := by
  induction uids generalizing t with
  | nil => exact ⟨t, rfl, id, fun u => (if_neg List.not_mem_nil).symm⟩
  | cons uid uids ih =>
    rw [List.nodup_cons] at hn
    obtain ⟨st, hst⟩ := Option.ne_none_iff_exists'.mp (hheld uid List.mem_cons_self)
    have hrest : ∀ k ∈ uids, (t.releaseHeld uid st).locks.status k ≠ none := by
      intro k hk
      have hne : uid ≠ k := fun he => hn.1 (he ▸ hk)
      have hs : (t.releaseHeld uid st).locks.status k = t.locks.status k :=
        congrArg Prod.fst (releaseHeld_of_ne hne)
      rw [hs]
      exact hheld k (List.mem_cons_of_mem uid hk)
    obtain ⟨t', ht', hf, hu⟩ := ih hn.2 hrest
    refine ⟨t', by rw [releaseAll, hst]; exact ht', fun h => hf h.releaseHeld, fun u => ?_⟩
    rw [hu u]
    by_cases he : uid = u
    · subst he
      rw [if_neg hn.1, if_pos List.mem_cons_self, releaseHeld_self hst]
    · have hmem : u ∈ uids ↔ u ∈ uid :: uids := by
        rw [List.mem_cons, or_iff_right fun h => he h.symm]
      rw [releaseHeld_of_ne he]
      exact if_congr hmem rfl rfl

theorem mem_staleUids_iff {isAlive : HolderRef → Bool} :
    u ∈ (t.locks.stale isAlive).map Prod.fst ↔
      (t.locks.status u).any (fun st => !isAlive st.holder) = true := by
  simp only [List.mem_map, LockManager.stale, List.mem_filter, Prod.exists, exists_and_right,
    exists_eq_right, Option.any_eq_true]
  constructor
  · rintro ⟨st, hr, hd⟩
    exact ⟨st, Dict.mem_rows_iff_lookup.mp hr, hd⟩
  · rintro ⟨st, hs, hd⟩
    exact ⟨st, Dict.mem_rows_iff_lookup.mpr hs, hd⟩

/-- A sweep never raises, and drops the locks whose holder is dead. -/
theorem sweep_spec (t : LockTable) (isAlive : HolderRef → Bool) :
    ∃ t', t.call (.sweep isAlive) = some t' ∧ (t.Faithful → t'.Faithful) ∧
      ∀ u, t'.facet u =
        if (t.locks.status u).any (fun st => !isAlive st.holder) then droppedFacet (t.facet u)
        else t.facet u := by
  have hn : ((t.locks.stale isAlive).map Prod.fst).Nodup :=
    t.locks.nodup.sublist (List.filter_sublist.map _)
  have hheld : ∀ k ∈ (t.locks.stale isAlive).map Prod.fst, t.locks.status k ≠ none := by
    intro k hk hnone
    have hany := mem_staleUids_iff.mp hk
    rw [hnone] at hany
    cases hany
  obtain ⟨t', ht', hf, hu⟩ := releaseAll_spec hn hheld
  refine ⟨t', ?_, hf, fun u => ?_⟩
  · simp [call, sweep, ht']
  · rw [hu u]
    exact if_congr mem_staleUids_iff rfl rfl

/-- What the callbacks count of a call is what the table lost by it. -/
theorem flashCalls_eq_of_dropped (h : t'.facet u = droppedFacet (t.facet u)) :
    t'.flashCalls u = t.flashCalls u + removedFlash u t.locks t'.locks := by
  have hs : t'.locks.status u = none := congrArg Prod.fst h
  have hc : t'.flashCalls u = _ := congrArg Prod.snd h
  rw [hc]
  exact congrArg (t.flashCalls u + ·) (if_congr (and_iff_left hs).symm rfl rfl)

theorem flashCalls_eq_of_facet (h : t'.facet u = t.facet u) :
    t'.flashCalls u = t.flashCalls u + removedFlash u t.locks t'.locks := by
  have hs : t'.locks.status u = t.locks.status u := congrArg Prod.fst h
  have hc : t'.flashCalls u = t.flashCalls u := congrArg Prod.snd h
  rw [hc, removedFlash, hs]
  cases t.locks.status u <;> simp

theorem flashCalls_releaseHeld (h : t.locks.status uid = some st) (u : String) :
    (t.releaseHeld uid st).flashCalls u =
      t.flashCalls u + removedFlash u t.locks (t.releaseHeld uid st).locks := by
  by_cases hu : uid = u
  · subst hu
    exact flashCalls_eq_of_dropped (releaseHeld_self h)
  · exact flashCalls_eq_of_facet (releaseHeld_of_ne hu)

theorem flashCalls_acquire {now : ℕ} {kind : LockKind} {label : Option String}
    (hok : t.acquire now uid kind holder label = .ok t') (u : String) :
    t'.flashCalls u = t.flashCalls u + removedFlash u t.locks t'.locks := by
  unfold acquire at hok
  cases hl : t.locks.acquire now uid kind holder label with
  | error st => simp [hl, bind, Except.bind] at hok
  | ok m =>
    simp only [hl, bind, Except.bind, pure, Except.pure, Except.ok.injEq] at hok
    obtain ⟨hfree, rfl⟩ := LockManager.acquire_eq_ok_iff.mp hl
    subst hok
    have hkept : removedFlash u t.locks (t.locks.insert uid ⟨kind, holder, label, now⟩) = 0 := by
      rw [removedFlash, LockManager.status_insert]
      by_cases hu : uid = u
      · rw [if_pos hu]
        exact if_neg fun h => nomatch h.2
      · rw [if_neg hu]
        exact if_neg fun h => by simp [h.2] at h
    rw [flashCalls_fire, if_neg nofun]
    exact congrArg (t.flashCalls u + ·) hkept.symm

theorem removedFlash_self (u : String) (m : LockManager) : removedFlash u m m = 0 := by
  rw [removedFlash]
  cases m.status u <;> simp

/-- Every call keeps the displays in agreement and counts the flash locks it removes. -/
theorem call_spec (t : LockTable) (c : Call) :
    ∃ t', t.call c = some t' ∧ (t.Faithful → t'.Faithful) ∧
      ∀ u, t'.flashCalls u = t.flashCalls u + removedFlash u t.locks t'.locks := by
  have hsame : (t.Faithful → t.Faithful) ∧
      ∀ u, t.flashCalls u = t.flashCalls u + removedFlash u t.locks t.locks :=
    ⟨id, fun u => by rw [removedFlash_self, Nat.add_zero]⟩
  cases c with
  | acquire now uid kind holder label =>
    cases h : t.acquire now uid kind holder label with
    | error st => exact ⟨t, by simp only [call, h], hsame⟩
    | ok t' => exact ⟨t', by simp only [call, h], fun hf => hf.acquire h, flashCalls_acquire h⟩
  | release uid holder =>
    refine ⟨(t.release uid holder).1, rfl, ?_⟩
    cases h : t.locks.status uid with
    | none => simpa only [release, h] using hsame
    | some current =>
      simp only [release, h]
      split
      · exact ⟨Faithful.releaseHeld, flashCalls_releaseHeld h⟩
      · exact hsame
  | forceRelease uid =>
    refine ⟨(t.forceRelease uid).1, rfl, ?_⟩
    cases h : t.locks.status uid with
    | none => simpa only [forceRelease, h] using hsame
    | some current =>
      simp only [forceRelease, h]
      exact ⟨Faithful.releaseHeld, flashCalls_releaseHeld h⟩
  | sweep isAlive =>
    obtain ⟨t', ht', hf, hu⟩ := sweep_spec t isAlive
    refine ⟨t', ht', hf, fun u => ?_⟩
    have hfacet := hu u
    split at hfacet
    · exact flashCalls_eq_of_dropped hfacet
    · exact flashCalls_eq_of_facet hfacet

theorem call_of_refused {c : Call} (h : t.Refused c) : t.call c = some t := by
  cases c with
  | acquire now uid kind holder label =>
    obtain ⟨st, hst⟩ := Option.ne_none_iff_exists'.mp h
    simp [call, acquire, LockManager.acquire, hst, bind, Except.bind]
  | release uid holder =>
    cases hs : t.locks.status uid with
    | none => simp [call, release, hs]
    | some st => simp [call, release, hs, h st hs]
  | forceRelease uid => simp [call, forceRelease, show t.locks.status uid = none from h]
  | sweep isAlive => exact h.elim

theorem status_of_acquire {now : ℕ} {kind : LockKind} {label : Option String}
    (h : t.locks.status uid = none) :
    ∃ t', t.call (.acquire now uid kind holder label) = some t' ∧ ∀ u,
      t'.locks.status u = if uid = u then some ⟨kind, holder, label, now⟩
        else t.locks.status u := by
  have hgrant : t.locks.acquire now uid kind holder label =
      .ok (t.locks.insert uid ⟨kind, holder, label, now⟩) :=
    LockManager.acquire_eq_ok_iff.mpr ⟨h, rfl⟩
  have hcall : t.call (.acquire now uid kind holder label) =
      some (({ t with locks := t.locks.insert uid ⟨kind, holder, label, now⟩ } : LockTable).fire
        (.lockDisplay uid kind holder.describe label now)) := by
    simp only [call, acquire, hgrant, bind, Except.bind, pure, Except.pure]
  exact ⟨_, hcall, fun u => LockManager.status_insert _ _ _ _⟩

/-- The holder's release and a forced one both remove the lock. -/
theorem status_of_release (h : t.locks.status uid = some st) :
    ∀ c ∈ [Call.release uid st.holder, .forceRelease uid], ∃ t', t.call c = some t' ∧ ∀ u,
      t'.locks.status u = if uid = u then none else t.locks.status u := by
  have hgone (u : String) : (t.releaseHeld uid st).locks.status u =
      if uid = u then none else t.locks.status u := by
    rw [releaseHeld_locks, LockManager.status_erase]
  rw [List.forall_mem_cons, List.forall_mem_singleton]
  exact ⟨⟨_, by simp only [call, release, h, if_true], hgone⟩,
    ⟨_, by simp only [call, forceRelease, h], hgone⟩⟩

/-- Over a run, the flash callbacks grow by the flash locks removed. -/
theorem exec_spec (cs : List Call) (hf : t.Faithful) :
    ∃ t', Runs.exec call t cs = some t' ∧ t'.Faithful ∧
      ∀ u, t'.flashCalls u = t.flashCalls u + flashRemovals u t cs := by
  induction cs generalizing t with
  | nil => exact ⟨t, rfl, hf, fun u => rfl⟩
  | cons c cs ih =>
    obtain ⟨s, hs, hsf, hsc⟩ := call_spec t c
    obtain ⟨t', ht', hf', hc'⟩ := ih (hsf hf)
    refine ⟨t', Runs.exec_cons.mpr ⟨s, hs, ht'⟩, hf', fun u => ?_⟩
    rw [hc' u, hsc u, flashRemovals, hs, Nat.add_assoc]

/-- The table holds at most one lock a uid. A granted `acquire` enters its lock and a release
removes it, refused calls change nothing and tell nothing, a sweep drops the locks of dead holders
and no other, and the two callbacks agree with the table throughout. -/
theorem lockTable_agrees_with_callbacks (cs : List Call) :
    ∃ t, Runs.exec call LockTable.empty cs = some t ∧
      (∀ uid st st', (uid, st) ∈ t.locks.rows → (uid, st') ∈ t.locks.rows → st = st') ∧
      (∀ now uid kind holder label, t.locks.status uid = none →
        ∃ t', t.call (.acquire now uid kind holder label) = some t' ∧ ∀ u,
          t'.locks.status u = if uid = u then some ⟨kind, holder, label, now⟩
            else t.locks.status u) ∧
      (∀ uid st, t.locks.status uid = some st →
        ∀ c ∈ [Call.release uid st.holder, .forceRelease uid], ∃ t', t.call c = some t' ∧ ∀ u,
          t'.locks.status u = if uid = u then none else t.locks.status u) ∧
      (∀ c, t.Refused c → t.call c = some t) ∧
      (∀ isAlive, ∃ t', t.call (.sweep isAlive) = some t' ∧ ∀ uid,
        t'.locks.status uid = (t.locks.status uid).filter fun st => isAlive st.holder) ∧
      replay t.fired = t.locks.shown ∧
      (∀ l uid kind display label since m,
        l ++ [(.lockDisplay uid kind display label since, m)] <+: t.fired →
          replay (l ++ [(.lockDisplay uid kind display label since, m)]) = m.shown) ∧
      ∀ uid, t.flashCalls uid = flashRemovals uid LockTable.empty cs := by
  obtain ⟨t, ht, hf, hc⟩ := exec_spec cs Faithful.empty
  refine ⟨t, ht, ?_, fun _ _ _ _ _ h => status_of_acquire h, fun _ _ h => status_of_release h,
    fun c h => call_of_refused h, fun isAlive => ?_, hf.now, hf.atCall, ?_⟩
  · intro uid st st' h h'
    rw [Dict.mem_rows_iff_lookup] at h h'
    exact Option.some.inj (h.symm.trans h')
  · obtain ⟨t', ht', -, hu⟩ := sweep_spec t isAlive
    refine ⟨t', ht', fun uid => ?_⟩
    have hs : t'.locks.status uid = _ := congrArg Prod.fst (hu uid)
    rw [hs]
    cases hst : t.locks.status uid with
    | none => simp [facet, hst]
    | some st =>
      cases ha : isAlive st.holder <;> simp [facet, droppedFacet, hst, ha, Option.filter]
  · intro uid
    rw [hc uid]
    exact Nat.zero_add _

end Callbacks

end LockTable

end MbTools
