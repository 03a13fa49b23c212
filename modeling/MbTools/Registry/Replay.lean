import MbTools.Registry.Arrival
import MbTools.Registry.Service

/-! # Replaying the daemon's events

A subscriber that knows the attached boards once and then follows the daemon's
events keeps a view of each board: its port and state. Events of one uid touch
the view of no other, so the view is replayed uid by uid.
-/

namespace MbTools.Replay

open Store DeviceRecord Daemon
open Arrival (GivesUp lockedBlock_isOk_iff)

/-- The view of one uid: the port and state of an attached board. -/
abbrev Track := Option (Option String × State)

/-- The view the store itself gives. -/
def trackOf (s : Store) (u : String) : Track :=
  (s.get u).bind fun r => if r.IsLocal then some (r.port, r.state) else none

/-- An attach of a shown board, and a detach of one that is not shown, is out of turn. -/
def replayEvent (u : String) (t : Track) (e : Peering.Event) : Option Track :=
  if e.uid = some u then
    match e.type with
    | some .attach => if t = none then some (some (e.port, .attachedUnprobed)) else none
    | some .detach => if t = none then none else some none
    | some .identity => some (t.map fun x => (x.1, e.state.getD x.2))
    | _ => some t
  else some t

/-- The payloads of the daemon's callbacks, in order. -/
def payloads (l : List (EventType × DeviceRecord)) : List Peering.Event :=
  l.filterMap fun x => Peering.daemonEventPayload x.1 x.2

def replay (u : String) (t : Track) (l : List (EventType × DeviceRecord)) : Option Track :=
  (payloads l).foldlM (replayEvent u) t

/-- The cycles whose events tell all they do to the attached boards. -/
structure Faithful (d : Daemon) (c : Cycle) : Prop where
  /-- No local board is given up on. -/
  quiet : ∀ u, GivesUp d c u → ∀ r, d.store.get u = some r → r.host = none → r.isVirtual = true
  /-- A cycle that raises has nothing to announce. -/
  whole : ∀ u, GivesUp d c u → d.store.get u = none →
    ∀ k, ¬ NewlyClaimed d c k ∧ ¬ Detached d c k
  /-- A board taken over with its row attached was never probed, or is probed at once. -/
  fresh : ∀ u, NewlyClaimed d c u → ∀ r, d.store.get u = some r →
    r.state = .disconnected ∨ r.state = .attachedUnprobed ∨
      ((r.lastProbe = 0 ∨ (d.flashPending.lookup u).isSome) ∧ d.locks.status u = none)

section Track

variable {s : Store} {u : String} {r : DeviceRecord} {t t' : Track}
  {l l' : List (EventType × DeviceRecord)}

theorem trackOf_eq_none_iff : trackOf s u = none ↔ ¬ Attached s u := by
  unfold trackOf Attached
  cases h : s.get u with
  | none => simp
  | some r => simp

theorem trackOf_of_local (hr : s.get u = some r) (hl : r.IsLocal) :
    trackOf s u = some (r.port, r.state) := by
  simp [trackOf, hr, hl]

theorem trackOf_congr {s' : Store} (h : s'.get u = s.get u) : trackOf s' u = trackOf s u := by
  unfold trackOf
  rw [h]

@[simp] theorem replay_nil : replay u t [] = some t := rfl

theorem replay_append :
    replay u t (l ++ l') = (replay u t l).bind fun t' => replay u t' l' := by
  unfold replay payloads
  rw [List.filterMap_append, List.foldlM_append]
  rfl

theorem replay_trans (h : replay u t l = some t') : replay u t (l ++ l') = replay u t' l' := by
  rw [replay_append, h]
  rfl

theorem replay_of_ne (h : ∀ x ∈ l, x.2.uid ≠ u) : replay u t l = some t := by
  induction l with
  | nil => rfl
  | cons x l ih =>
    have hrest := ih fun y hy => h y (List.mem_cons_of_mem x hy)
    have huid : ∀ e, Peering.daemonEventPayload x.1 x.2 = some e → e.uid = some x.2.uid := by
      intro e he
      unfold Peering.daemonEventPayload at he
      split at he
      · cases he
      · split at he <;> (cases he; rfl)
    unfold replay payloads at hrest ⊢
    rw [List.filterMap_cons]
    split
    · exact hrest
    · rename_i e he
      have hne : e.uid ≠ some u := by
        rw [huid e he]
        exact fun hc => h x List.mem_cons_self (Option.some.inj hc)
      rw [List.foldlM_cons, replayEvent, if_neg hne]
      exact hrest

theorem replay_attach (hu : r.uid = u) (hd : r.state ≠ .disconnected) :
    replay u none [(.attach, r)] = some (some (r.port, .attachedUnprobed)) := by
  simp [replay, payloads, Peering.daemonEventPayload, hd, replayEvent, hu, Peering.Event.ofType]

theorem replay_detach (hu : r.uid = u) (ht : t ≠ none) :
    replay u t [(.detach, r)] = some none := by
  simp [replay, payloads, Peering.daemonEventPayload, replayEvent, hu, ht, Peering.Event.ofType]

theorem replay_identity (hu : r.uid = u) (hd : r.state ≠ .disconnected) :
    replay u t [(.identity, r)] = some (t.map fun x => (x.1, r.state)) := by
  simp [replay, payloads, Peering.daemonEventPayload, hd, replayEvent, hu, Peering.Event.ofType]

theorem replay_identity_none {l : List DeviceRecord} :
    replay u none (l.map (EventType.identity, ·)) = some none := by
  induction l with
  | nil => rfl
  | cons r l ih =>
    have hone : replay u none [(.identity, r)] = some none := by
      by_cases hu : r.uid = u
      · by_cases hd : r.state = .disconnected
        · simp [replay, payloads, Peering.daemonEventPayload, hd]
        · rw [replay_identity hu hd]
          rfl
      · exact replay_of_ne (by simpa using hu)
    rw [List.map_cons, ← List.singleton_append, replay_trans hone]
    exact ih

theorem replay_filter : replay u t (l.filter fun x => x.2.uid = u) = replay u t l := by
  induction l generalizing t with
  | nil => rfl
  | cons x l ih =>
    by_cases hu : x.2.uid = u
    · rw [List.filter_cons_of_pos (by simpa using hu), ← List.singleton_append,
        ← List.singleton_append (l := l), replay_append, replay_append]
      congr 1
      funext t'
      exact ih
    · rw [List.filter_cons_of_neg (by simpa using hu), ih, ← List.singleton_append (l := l),
        replay_trans (replay_of_ne (by simpa using hu))]

theorem replay_map_filter {ty : EventType} {l : List DeviceRecord} :
    replay u t ((l.filter fun r => r.uid = u).map (ty, ·)) = replay u t (l.map (ty, ·)) := by
  rw [← replay_filter (l := l.map (ty, ·)), List.filter_map]
  rfl

end Track

section Passes

variable {d : Daemon} {c : Cycle} {u : String} {r : DeviceRecord}

theorem filter_recordOf_of_ne {uid : String} (h : uid ≠ u) :
    (d.recordOf uid).filter (fun r => r.uid = u) = [] := by
  rw [List.filter_eq_nil_iff]
  intro r hr
  rw [recordOf, Option.mem_toList] at hr
  rw [decide_eq_true_eq, uid_of_get hr]
  exact h

theorem filter_recordOf_self : (d.recordOf u).filter (fun r => r.uid = u) = d.recordOf u := by
  rw [List.filter_eq_self]
  intro r hr
  rw [recordOf, Option.mem_toList] at hr
  rw [decide_eq_true_eq, uid_of_get hr]

/-- The records one uid has in a pass, beside its row. -/
def announced (u : String) (s : Store) (l : List DeviceRecord) :
    Option DeviceRecord × List DeviceRecord :=
  (s.get u, l.filter fun r => r.uid = u)

/-- A turn of the attach loop passes a uid by, or attaches and announces it. -/
theorem attachTurn_cases (prev : List String) (c : Cycle)
    (p : Daemon × List DeviceRecord × List String) (x : String × PortInfo) :
    ((x.1 ∈ prev ∨ c.claim x.1 = none) ∧ attachTurn prev c p x = p) ∨
      ∃ handle, ¬ (x.1 ∈ prev ∨ c.claim x.1 = none) ∧ attachTurn prev c p x =
        (p.1.attachOne c.wall x.1 x.2 handle,
          p.2.1 ++ (p.1.attachOne c.wall x.1 x.2 handle).recordOf x.1, p.2.2 ++ [x.1]) := by
  unfold attachTurn
  by_cases hp : x.1 ∈ prev
  · exact Or.inl ⟨Or.inl hp, if_pos hp⟩
  · rw [if_neg hp]
    cases hc : c.claim x.1 with
    | none => exact Or.inl ⟨Or.inr rfl, rfl⟩
    | some handle => exact Or.inr ⟨handle, by simp [hp], rfl⟩

/-- The attach pass announces a newly claimed uid once, with the row it wrote. -/
theorem attached_records (d : Daemon) (c : Cycle) (u : String) :
    (d.attachPass d.previouslyAttached c).2.1.filter (fun r => r.uid = u) =
      if NewlyClaimed d c u then
        ((d.attachPass d.previouslyAttached c).1.store.get u).toList else [] := by
  have hframe : ∀ (p : Daemon × List DeviceRecord × List String) (x : String × PortInfo)
      (k : String), x.1 ≠ k →
      announced k (attachTurn d.previouslyAttached c p x).1.store
        (attachTurn d.previouslyAttached c p x).2.1 = announced k p.1.store p.2.1 := by
    intro p x k hk
    have hrow := @attachTurn_frame c d.previouslyAttached p x k hk
    rcases attachTurn_cases d.previouslyAttached c p x with (⟨-, he⟩ | ⟨handle, -, he⟩)
    · rw [he]
    · simp only [announced]
      rw [hrow, he]
      simp only
      rw [List.filter_append, filter_recordOf_of_ne hk, List.append_nil]
  by_cases hs : u ∈ c.scan.keys
  · obtain ⟨info, hinfo⟩ := mem_scan_keys_iff.mp hs
    have hown : ∀ (p : Daemon × List DeviceRecord × List String) (x : String × PortInfo),
        announced x.1 (attachTurn d.previouslyAttached c p x).1.store
          (attachTurn d.previouslyAttached c p x).2.1 =
        if x.1 ∈ d.previouslyAttached ∨ c.claim x.1 = none then announced x.1 p.1.store p.2.1
        else
          (some (attachedRow c.wall x.1 x.2 (p.1.store.get x.1)),
            (announced x.1 p.1.store p.2.1).2 ++
              [attachedRow c.wall x.1 x.2 (p.1.store.get x.1)]) := by
      intro p x
      rcases attachTurn_cases d.previouslyAttached c p x with (⟨hp, he⟩ | ⟨handle, hp, he⟩)
      · rw [he, if_pos hp]
      · rw [he, if_neg hp]
        simp only [announced]
        rw [List.filter_append, filter_recordOf_self, recordOf, attachOne_get, if_pos rfl]
        rfl
    have hpass := Pass.foldl_own
      (fun (p : Daemon × List DeviceRecord × List String) k => announced k p.1.store p.2.1)
      (fun (x : String × PortInfo) (o : Option DeviceRecord × List DeviceRecord) =>
        if x.1 ∈ d.previouslyAttached ∨ c.claim x.1 = none then o
        else (some (attachedRow c.wall x.1 x.2 o.1), o.2 ++ [attachedRow c.wall x.1 x.2 o.1]))
      hframe hown (s := (d, [], d.previouslyAttached.filter (· ∈ c.scan.keys)))
      c.scan.nodup (Dict.mem_rows_iff_lookup.mpr hinfo)
    have hboth : announced u (d.attachPass d.previouslyAttached c).1.store
        (d.attachPass d.previouslyAttached c).2.1 =
        if u ∈ d.previouslyAttached ∨ c.claim u = none then announced u d.store []
        else (some (attachedRow c.wall u info (d.store.get u)),
          [attachedRow c.wall u info (d.store.get u)]) := by
      refine hpass.trans ?_
      simp [announced]
    have hrow := congrArg Prod.fst hboth
    have hrec := congrArg Prod.snd hboth
    simp only [announced] at hrow hrec
    rw [hrec, hrow]
    by_cases hn : u ∈ d.previouslyAttached ∨ c.claim u = none
    · have hno : ¬ NewlyClaimed d c u := fun ⟨_, hp, hc⟩ => hn.elim hp hc
      simp [hn, hno]
    · have hyes : NewlyClaimed d c u := ⟨hs, fun hp => hn (Or.inl hp), fun hc => hn (Or.inr hc)⟩
      simp [hn, hyes]
  · have hpass : announced u (d.attachPass d.previouslyAttached c).1.store
        (d.attachPass d.previouslyAttached c).2.1 = announced u d.store [] :=
      Pass.foldl_frame
        (fun (p : Daemon × List DeviceRecord × List String) k => announced k p.1.store p.2.1)
        hframe fun x hx he => hs (he ▸ List.mem_map_of_mem hx)
    have hno : ¬ NewlyClaimed d c u := fun h => hs h.1
    rw [if_neg hno]
    exact congrArg Prod.snd hpass

/-- The detach pass announces a uid it detaches once, with the row it wrote. -/
theorem detached_records (d : Daemon) (prev : List String) (c : Cycle) (u : String)
    (hn : prev.Nodup) :
    (d.detachPass prev c).2.filter (fun r => r.uid = u) =
      if u ∈ prev ∧ u ∉ c.scan.keys then ((d.detachPass prev c).1.store.get u).toList else [] := by
  have hframe : ∀ (p : Daemon × List DeviceRecord) (uid k : String), uid ≠ k →
      announced k (detachTurn c p uid).1.store (detachTurn c p uid).2 =
        announced k p.1.store p.2 := by
    intro p uid k hk
    simp only [announced, detachTurn]
    rw [detachOne_get, if_neg hk, List.filter_append, filter_recordOf_of_ne hk, List.append_nil]
  have hown : ∀ (p : Daemon × List DeviceRecord) (uid : String),
      announced uid (detachTurn c p uid).1.store (detachTurn c p uid).2 =
        ((announced uid p.1.store p.2).1.map (·.gone c.wall),
          (announced uid p.1.store p.2).2 ++
            ((announced uid p.1.store p.2).1.map (·.gone c.wall)).toList) := by
    intro p uid
    simp only [announced, detachTurn]
    rw [List.filter_append, filter_recordOf_self, recordOf, detachOne_get, if_pos rfl]
  have hmem : u ∈ prev.filter (· ∉ c.scan.keys) ↔ u ∈ prev ∧ u ∉ c.scan.keys := by simp
  split
  · rename_i hu
    have hnodup : ((prev.filter (· ∉ c.scan.keys)).map fun uid => uid).Nodup := by
      simpa using hn.filter _
    have hpass := Pass.foldl_own
      (fun (p : Daemon × List DeviceRecord) k => announced k p.1.store p.2)
      (fun _ (o : Option DeviceRecord × List DeviceRecord) =>
        (o.1.map (·.gone c.wall), o.2 ++ (o.1.map (·.gone c.wall)).toList))
      hframe hown (s := (d, [])) hnodup (hmem.mpr hu)
    have hrow := congrArg Prod.fst hpass
    have hrec := congrArg Prod.snd hpass
    simp only [announced, List.filter_nil, List.nil_append] at hrow hrec
    unfold detachPass
    rw [hrec, hrow]
  · rename_i hu
    have hpass := Pass.foldl_frame
      (fun (p : Daemon × List DeviceRecord) k => announced k p.1.store p.2) hframe
      (s := (d, [])) (l := prev.filter (· ∉ c.scan.keys)) (k := u)
      fun uid hx he => hu (hmem.mp (he ▸ hx))
    exact congrArg Prod.snd hpass

theorem giveUpLoop_records {l : List (String × ℕ)} {d d' : Daemon} {t timedOut : List DeviceRecord}
    (h : giveUpLoop c l d t = (d', .ok timedOut)) :
    ∀ r ∈ timedOut, r ∈ t ∨ r.uid ∉ c.scan.keys := by
  induction l generalizing d t with
  | nil =>
    cases h
    exact fun r hr => Or.inl hr
  | cons x l ih =>
    obtain ⟨uid, deadline⟩ := x
    unfold giveUpLoop at h
    split at h
    · rename_i hx
      split at h
      · cases h
      · rename_i d₁ hd
        intro r hr
        rcases ih h r hr with (hmem | hs)
        · rcases List.mem_append.mp hmem with (hmem | hmem)
          · exact Or.inl hmem
          · rw [recordOf, Option.mem_toList] at hmem
            rw [uid_of_get hmem]
            exact Or.inr hx.1
        · exact Or.inr hs
    · exact ih h

end Passes

section Cycle

variable {d d₁ : Daemon} {c : Cycle} {u : String} {timedOut : List DeviceRecord}

/-- The view after the attach and detach events of a cycle. -/
def shownAfterDiff (d : Daemon) (c : Cycle) (u : String) : Track :=
  if NewlyClaimed d c u then
    ((d.diff c).1.store.get u).map fun r => (r.port, .attachedUnprobed)
  else if Detached d c u then none
  else trackOf d.store u

theorem diff_attached : (d.diff c).2.1 = (d.attachPass d.previouslyAttached c).2.1 := rfl

theorem diff_detached : (d.diff c).2.2.2 =
    ((d.attachPass d.previouslyAttached c).1.detachPass d.previouslyAttached c).2 := rfl

theorem trackOf_of_detached (h : Detached d c u) : trackOf d.store u ≠ none := by
  obtain ⟨r, hr, hl⟩ := mem_previouslyAttached_iff.mp h.1
  rw [trackOf_of_local hr hl]
  simp

theorem trackOf_of_newlyClaimed (h : NewlyClaimed d c u) : trackOf d.store u = none := by
  rw [trackOf_eq_none_iff]
  exact fun ⟨r, hr, hl⟩ => h.2.1 (mem_previouslyAttached_iff.mpr ⟨r, hr, hl⟩)

/-- The attach and detach events alternate, and replay to the view after the diff. -/
theorem replay_diff (d : Daemon) (c : Cycle) (u : String) :
    replay u (trackOf d.store u)
        ((d.diff c).2.1.map (EventType.attach, ·) ++ (d.diff c).2.2.2.map (EventType.detach, ·)) =
      some (shownAfterDiff d c u) := by
  have hatt := attached_records d c u
  have hdet := detached_records (d.attachPass d.previouslyAttached c).1 d.previouslyAttached c u
    d.previouslyAttached_nodup
  rw [← diff_attached] at hatt
  rw [← diff_detached] at hdet
  rw [replay_append, ← replay_map_filter, hatt]
  unfold shownAfterDiff
  by_cases hn : NewlyClaimed d c u
  · obtain ⟨info, -, hrow, hrow'⟩ := get_diff_of_newlyClaimed hn
    have hlocal : (attachedRow c.wall u info (d.store.get u)).IsLocal := attachedRow_spec.1
    have hno : ¬ (u ∈ d.previouslyAttached ∧ u ∉ c.scan.keys) := fun hc => hn.2.1 hc.1
    rw [if_pos hn, if_pos hn, hrow, hrow', trackOf_of_newlyClaimed hn]
    have hone := replay_attach (u := u) (uid_of_get hrow) hlocal.2.1
    refine Option.bind_eq_some_iff.mpr ⟨_, hone, ?_⟩
    rw [← replay_map_filter, hdet, if_neg hno]
    rfl
  · rw [if_neg hn, if_neg hn]
    simp only [List.map_nil, replay_nil, Option.bind_some]
    rw [← replay_map_filter, hdet]
    by_cases hd : Detached d c u
    · obtain ⟨r, hr, -⟩ := mem_previouslyAttached_iff.mp hd.1
      have hgone : (d.diff c).1.store.get u = some (r.gone c.wall) := by
        rw [get_diff_of_detached hd, hr]
        rfl
      have hstore : ((d.attachPass d.previouslyAttached c).1.detachPass
          d.previouslyAttached c).1.store.get u = some (r.gone c.wall) := hgone
      rw [if_pos hd, if_pos ⟨hd.1, hd.2⟩, hstore]
      exact replay_detach (uid_of_get hstore) (trackOf_of_detached hd)
    · rw [if_neg hd, if_neg fun hc => hd ⟨hc.1, hc.2⟩]
      rfl

/-- The store after the diff shows a newly claimed board in the state of its row, and every
other uid as the events do. -/
theorem trackOf_diff (d : Daemon) (c : Cycle) (u : String) (hn : ¬ NewlyClaimed d c u) :
    trackOf (d.diff c).1.store u = shownAfterDiff d c u := by
  unfold shownAfterDiff
  rw [if_neg hn]
  by_cases hd : Detached d c u
  · rw [if_pos hd, trackOf_eq_none_iff]
    rintro hatt
    exact hd.2 (diff_attached_iff.mp hatt).1
  · rw [if_neg hd]
    exact trackOf_congr (get_diff_of_not hn hd)

theorem shownAfterDiff_of_absent (hs : u ∉ c.scan.keys) : shownAfterDiff d c u = none := by
  unfold shownAfterDiff
  rw [if_neg fun hn : NewlyClaimed d c u => hs hn.1]
  split
  · rfl
  · rename_i hd
    rw [trackOf_eq_none_iff]
    exact fun ⟨r, hr, hl⟩ => hd ⟨mem_previouslyAttached_iff.mpr ⟨r, hr, hl⟩, hs⟩

theorem replay_timedOut (hg : d.lockedBlock c = (d₁, .ok timedOut)) :
    replay u (shownAfterDiff d c u) (timedOut.map (EventType.identity, ·)) =
      some (shownAfterDiff d c u) := by
  by_cases hs : u ∈ c.scan.keys
  · refine replay_of_ne fun x hx => ?_
    obtain ⟨r, hr, rfl⟩ := List.mem_map.mp hx
    rcases giveUpLoop_records hg r hr with (hmem | habs)
    · cases hmem
    · rintro rfl
      exact habs hs
  · rw [shownAfterDiff_of_absent hs]
    exact replay_identity_none

/-- A give-up pass that gives up on no local board changes the view of none. -/
theorem trackOf_lockedBlock (hf : Faithful d c) (u : String) :
    trackOf (d.lockedBlock c).1.store u = trackOf (d.diff c).1.store u := by
  rcases giveUpLoop_cases (d.diff c).1.flashPending.rows (d.diff c).1 [] u with
    (hs | ⟨hexp, r, q, hr, hq, hh, hv, -⟩)
  · exact trackOf_congr hs
  · have hgu : GivesUp d c u := expired_iff.mp hexp
    have hnot : r.host = none → r.isVirtual = true := by
      intro hn
      by_contra hvirt
      rw [Bool.not_eq_true] at hvirt
      obtain ⟨r₀, hr₀, hh₀, hv₀⟩ := (diff_local_iff hgu.1).mp ⟨r, hr, hn, hvirt⟩
      rw [hf.quiet u hgu r₀ hr₀ hh₀] at hv₀
      cases hv₀
    have hquiet : ∀ x : DeviceRecord, x.host = r.host → x.isVirtual = r.isVirtual →
        ¬ x.IsLocal := by
      rintro x hxh hxv ⟨hn, -, hx⟩
      rw [hxv, hnot (hxh.symm.trans hn)] at hx
      cases hx
    have hbefore : trackOf (d.diff c).1.store u = none := by
      rw [trackOf_eq_none_iff]
      rintro ⟨x, hx, hl⟩
      obtain rfl : r = x := Option.some.inj (hr.symm.trans hx)
      exact hquiet r rfl rfl hl
    rw [hbefore, trackOf_eq_none_iff]
    rintro ⟨x, hx, hl⟩
    obtain rfl : q = x := Option.some.inj (hq.symm.trans hx)
    exact hquiet q hh hv hl

end Cycle

section Probes

variable {d d' : Daemon} {c : Cycle} {u uid : String} {t₀ t : Track}
  {log : List (EventType × DeviceRecord)}

/-- The view is the store's, but for the state of a board that is still to be probed. -/
def Pending (d : Daemon) (l : List String) (u : String) (t : Track) : Prop :=
  t = trackOf d.store u ∨ (u ∈ l ∧ d.probeEligible u = .ok true ∧
    t.map Prod.fst = (trackOf d.store u).map Prod.fst)

theorem trackOf_probeWrite {wall : ℕ} {result : Option ProbeResult} {chip : Option (String × ℕ)}
    (hu : Attached d.store u) (hw : d.probeWrite wall u result chip = .ok d')
    (ht : t.map Prod.fst = (trackOf d.store u).map Prod.fst) :
    replay u t ((d'.recordOf u).map (EventType.identity, ·)) = some (trackOf d'.store u) := by
  obtain ⟨r, hr, hl⟩ := hu
  obtain ⟨q, hq, hnew, -⟩ := probeWrite_spec hw
  obtain rfl : r = q := Option.some.inj (hr.symm.trans hq)
  obtain ⟨-, hh, hport, hv, hst, -⟩ :=
    outcomeRow_spec wall (d.flashPending.lookup u).isSome result chip r
  have hlocal : (outcomeRow wall (d.flashPending.lookup u).isSome result chip r).IsLocal :=
    ⟨hh.trans hl.1, hst, hv.trans hl.2.2⟩
  rw [trackOf_of_local hr hl, Option.map_some] at ht
  obtain ⟨x, rfl, hx⟩ := Option.map_eq_some_iff.mp ht
  rw [recordOf, hnew, trackOf_of_local hnew hlocal]
  have hone := replay_identity (t := some x) (uid_of_get hnew) hst
  refine hone.trans ?_
  rw [Option.map_some, hx, hport]

theorem trackOf_probeWrite_of_ne {wall : ℕ} {result : Option ProbeResult}
    {chip : Option (String × ℕ)} (hne : uid ≠ u)
    (hw : d.probeWrite wall uid result chip = .ok d') :
    trackOf d'.store u = trackOf d.store u ∧ d'.probeEligible u = d.probeEligible u := by
  obtain ⟨-, -, -, hother, hp, hlocks, -⟩ := probeWrite_spec hw
  refine ⟨trackOf_congr (hother u hne), ?_⟩
  unfold probeEligible needsProbe
  rw [hother u hne, hp, Dict.lookup_erase_of_ne hne, hlocks]

theorem replay_probeLoop (l : List String) (d : Daemon) (records : List DeviceRecord)
    (hl : ∀ uid ∈ l, Attached d.store uid)
    (hr : replay u t₀ (log ++ records.map (EventType.identity, ·)) = some t)
    (ht : Pending d l u t) :
    replay u t₀ (log ++ (probeLoop c l d records).2.1.map (EventType.identity, ·)) =
      some (trackOf (probeLoop c l d records).1.store u) := by
  induction l generalizing d records t with
  | nil =>
    rcases ht with (rfl | ⟨hmem, -⟩)
    · exact hr
    · cases hmem
  | cons uid l ih =>
    obtain ⟨r, hrow, hlocal⟩ := hl uid List.mem_cons_self
    unfold probeLoop
    rcases maybeProbe_of_get c hrow with (⟨helig, he⟩ | ⟨helig, chip, d', hw, he⟩)
    · rw [he]
      refine ih (t := t) d (records ++ []) (fun k hk => hl k (List.mem_cons_of_mem uid hk)) ?_ ?_
      · rwa [List.append_nil]
      · rcases ht with (rfl | ⟨hmem, hdue, hport⟩)
        · exact Or.inl rfl
        · have hne : u ≠ uid := by
            rintro rfl
            rw [helig] at hdue
            cases hdue
          exact Or.inr ⟨(List.mem_cons.mp hmem).resolve_left hne, hdue, hport⟩
    · rw [he]
      have hrest : ∀ k ∈ l, Attached d'.store k := fun k hk =>
        (probeWrite_attached_iff ⟨r, hrow, hlocal⟩ hw).mpr (hl k (List.mem_cons_of_mem uid hk))
      by_cases hu : uid = u
      · subst hu
        have hshown : t.map Prod.fst = (trackOf d.store uid).map Prod.fst := by
          rcases ht with (rfl | ⟨-, -, hport⟩)
          · rfl
          · exact hport
        refine ih (t := trackOf d'.store uid) d' _ hrest ?_ (Or.inl rfl)
        rw [List.map_append, ← List.append_assoc, replay_trans hr]
        exact trackOf_probeWrite ⟨r, hrow, hlocal⟩ hw hshown
      · obtain ⟨htrack, hdue⟩ := trackOf_probeWrite_of_ne hu hw
        refine ih (t := t) d' _ hrest ?_ ?_
        · rw [List.map_append, ← List.append_assoc, replay_trans hr]
          refine replay_of_ne fun x hx => ?_
          obtain ⟨q, hq, rfl⟩ := List.mem_map.mp hx
          rw [recordOf, Option.mem_toList] at hq
          rwa [uid_of_get hq]
        · rcases ht with (rfl | ⟨hmem, helig', hport⟩)
          · exact Or.inl htrack.symm
          · refine Or.inr ⟨(List.mem_cons.mp hmem).resolve_left fun hc => hu hc.symm, ?_, ?_⟩
            · rwa [hdue]
            · rwa [htrack]

end Probes

section Runs

variable {d : Daemon} {c : Cycle} {u : String}

/-- A claimed board that does not come up unprobed had an attached row, and kept its state. -/
theorem attachedRow_kept {info : PortInfo} {prev : Option DeviceRecord}
    (h : (attachedRow c.wall u info prev).state ≠ .attachedUnprobed) :
    ∃ r, prev = some r ∧ r.state ≠ .disconnected ∧
      (attachedRow c.wall u info prev).state = r.state ∧
        (attachedRow c.wall u info prev).lastProbe = r.lastProbe := by
  cases prev with
  | none => exact absurd rfl h
  | some r =>
    by_cases hd : r.state = .disconnected
    · simp [attachedRow, upserted, hd, reattached] at h
    · exact ⟨r, rfl, hd, by simp [attachedRow, upserted, hd, refreshed],
        by simp [attachedRow, upserted, hd, refreshed]⟩

theorem probeEligible_lockedBlock {d₁ : Daemon} {res : Except Error (List DeviceRecord)}
    {r q : DeviceRecord} (hg : d.lockedBlock c = (d₁, res)) (hs : u ∈ c.scan.keys)
    (hrow : (d.diff c).1.store.get u = some q) (hprobe : q.lastProbe = r.lastProbe)
    (hdue : r.lastProbe = 0 ∨ (d.flashPending.lookup u).isSome) (hfree : d.locks.status u = none) :
    d₁.probeEligible u = .ok true := by
  have hexp : ¬ Expired c (d.diff c).1.flashPending.rows u := fun he => he.1 hs
  obtain ⟨hget, hpend⟩ := giveUpLoop_of_not_expired (d := (d.diff c).1) (t := []) hexp
  have hlocks := giveUpLoop_locks (c := c) (d.diff c).1.flashPending.rows (d.diff c).1 []
  have hg' : giveUpLoop c (d.diff c).1.flashPending.rows (d.diff c).1 [] = (d₁, res) := hg
  rw [hg'] at hget hpend hlocks
  simp only at hget hpend hlocks
  have hstatus : d₁.locks.status u = none := by
    rw [hlocks, diff_locks, if_neg fun hc => hc.2 hs]
    exact hfree
  have hpending : d₁.flashPending.lookup u = d.flashPending.lookup u := by
    rw [hpend, diff_pending, pendingAfterDiff, if_neg fun hc => hc.2 hs]
  rw [probeEligible_of_get (hget.trans hrow), hstatus, hpending, hprobe]
  rcases hdue with (h | h)
  · simp [h]
  · simp [h]

/-- After the give-up pass the view of a newly claimed board lags at most until its probe. -/
theorem pending_lockedBlock {d₁ : Daemon} {timedOut : List DeviceRecord} (hf : Faithful d c)
    (hg : d.lockedBlock c = (d₁, .ok timedOut)) :
    Pending d₁ (d.diff c).2.2.1 u (shownAfterDiff d c u) := by
  have htrack : trackOf d₁.store u = trackOf (d.diff c).1.store u := by
    have h := trackOf_lockedBlock hf u
    rwa [hg] at h
  by_cases hn : NewlyClaimed d c u
  · obtain ⟨info, hinfo, -, hrow⟩ := get_diff_of_newlyClaimed hn
    have hlocal : (attachedRow c.wall u info (d.store.get u)).IsLocal := attachedRow_spec.1
    have hshown : shownAfterDiff d c u =
        some ((attachedRow c.wall u info (d.store.get u)).port, .attachedUnprobed) := by
      unfold shownAfterDiff
      rw [if_pos hn, hrow]
      rfl
    by_cases hst : (attachedRow c.wall u info (d.store.get u)).state = .attachedUnprobed
    · refine Or.inl ?_
      rw [hshown, htrack, trackOf_of_local hrow hlocal, hst]
    · -- the row was attached, so it kept its state, and the board is probed in this cycle
      obtain ⟨r, hr, hnd, hstate, hprobe⟩ := attachedRow_kept hst
      have hdue := ((hf.fresh u hn r hr).resolve_left hnd).resolve_left (hstate ▸ hst)
      refine Or.inr ⟨mem_diff_owned_iff.mpr ⟨hn.1, Or.inr hn.2.2⟩, ?_, ?_⟩
      · exact probeEligible_lockedBlock hg hn.1 hrow hprobe hdue.1 hdue.2
      · rw [hshown, htrack, trackOf_of_local hrow hlocal]
        rfl
  · exact Or.inl ((trackOf_diff d c u hn).symm.trans htrack.symm)

/-- The events of a cycle that is faithful, returning or raising, replay to the store it
leaves. -/
theorem replay_runOnce (hf : Faithful d c) (u : String) :
    replay u (trackOf d.store u) (d.runOnce c).events =
      some (trackOf (d.runOnce c).daemon.store u) := by
  unfold runOnce
  cases hg : d.lockedBlock c with
  | mk d₁ res =>
    have htrack : trackOf d₁.store u = trackOf (d.diff c).1.store u := by
      have h := trackOf_lockedBlock hf u
      rwa [hg] at h
    cases res with
    | error e =>
      -- the cycle raised on a missing row, so it attached and detached nothing
      obtain ⟨k, hk, hnone⟩ : ∃ k, GivesUp d c k ∧ d.store.get k = none := by
        by_contra hno
        have hok : (d.lockedBlock c).2.toOption.isSome := by
          refine lockedBlock_isOk_iff.mpr fun k hk => ?_
          rw [Option.isSome_iff_ne_none]
          exact fun hnone => hno ⟨k, hk, hnone⟩
        rw [hg] at hok
        cases hok
      obtain ⟨hn, hd⟩ := hf.whole k hk hnone u
      simp only [replay_nil, Option.some.injEq]
      rw [htrack, trackOf_diff d c u hn, shownAfterDiff, if_neg hn, if_neg hd]
    | ok timedOut =>
      have howned : ∀ uid ∈ (d.diff c).2.2.1, Attached d₁.store uid := fun uid hu =>
        (giveUp_attached_iff hg).mpr (Or.inl (mem_diff_owned_iff.mp hu))
      have hbefore : replay u (trackOf d.store u)
          (((d.diff c).2.1.map (EventType.attach, ·) ++
            (d.diff c).2.2.2.map (EventType.detach, ·) ++
            timedOut.map (EventType.identity, ·)) ++
            ([] : List DeviceRecord).map (EventType.identity, ·)) =
          some (shownAfterDiff d c u) := by
        rw [List.map_nil, List.append_nil, replay_trans (replay_diff d c u)]
        exact replay_timedOut hg
      exact replay_probeLoop _ d₁ [] howned hbefore (pending_lockedBlock hf hg)

theorem trackOf_apply (o : Op) (u : String) : trackOf (d.apply o).store u = trackOf d.store u := by
  by_cases hu : Attached d.store u
  · obtain ⟨r, hr, hl⟩ := hu
    obtain ⟨q, hq, hql, hport, hstate, -⟩ := apply_local o hr hl
    rw [trackOf_of_local hr hl, trackOf_of_local hq hql, hport, hstate]
  · rw [trackOf_eq_none_iff.mpr hu, trackOf_eq_none_iff]
    exact fun h => hu (attached_of_apply h)

/-- A running daemon and the events it fired since the subscription. -/
structure Watched where
  daemon : Daemon
  fired : List (EventType × DeviceRecord)

inductive Action where
  | cycle (c : Cycle)
  | op (o : Op)

def step (w : Watched) : Action → Option Watched
  | .cycle c => some ⟨(w.daemon.runOnce c).daemon, w.fired ++ (w.daemon.runOnce c).events⟩
  | .op o => some { w with daemon := w.daemon.apply o }

def FaithfulStep (w : Watched) : Action → Prop
  | .cycle c => Faithful w.daemon c
  | .op _ => True

/-- In a run of faithful cycles the attach and detach events of each uid alternate, and all events
together replay to exactly the attached boards of the store with their ports and states. -/
theorem events_replay (d : Daemon) (as : List Action) (w : Watched)
    (hm : Runs.Meets step FaithfulStep ⟨d, []⟩ as)
    (hr : Runs.exec step ⟨d, []⟩ as = some w) (u : String) :
    replay u (trackOf d.store u) w.fired = some (trackOf w.daemon.store u) := by
  have hstep : ∀ (v : Watched) (a : Action) (v' : Watched),
      replay u (trackOf d.store u) v.fired = some (trackOf v.daemon.store u) →
      FaithfulStep v a → step v a = some v' →
      replay u (trackOf d.store u) v'.fired = some (trackOf v'.daemon.store u) := by
    intro v a v' hv hok hs
    cases a with
    | cycle c =>
      cases hs
      simp only
      rw [replay_trans hv]
      exact replay_runOnce hok u
    | op o =>
      cases hs
      simp only
      rw [trackOf_apply]
      exact hv
  have hrun := Runs.inv_of_meets hstep (by rfl) hm hr
  exact hrun

/-- A board that was flashed leaves, is given up on, and comes back. -/
def returned : List Action :=
  [.cycle .oneBoard,
    .op (.lock .socket 21 ⟨some "9900a", some "flash", none⟩ ⟨.local, "412", some 412, none⟩),
    .op (.release 22 "9900a" ⟨.local, "412", some 412, none⟩),
    .cycle { Cycle.noBoard with now := 40 }, .cycle { Cycle.oneBoard with now := 42 }]

/-- Its return fires no attach: subscribers do not see it, and the store has it attached. -/
theorem events_do_not_replay :
    ¬ ∀ (d : Daemon) (as : List Action) (w : Watched), Runs.exec step ⟨d, []⟩ as = some w →
      ∀ u, replay u (trackOf d.store u) w.fired = some (trackOf w.daemon.store u) := by
  intro h
  have hrun : (Runs.exec step ⟨blank, []⟩ returned).any (fun w =>
      replay "9900a" (trackOf blank.store "9900a") w.fired ≠
        some (trackOf w.daemon.store "9900a")) = true := by decide
  obtain ⟨w, hw, hne⟩ := (Option.any_eq_true _ _).mp hrun
  exact of_decide_eq_true hne (h blank returned w hw "9900a")

/-- With no flash pending and no lock held, a cycle that takes over no attached row is
faithful. -/
theorem faithful_of_quiet (hp : d.flashPending = Table.empty) (hl : d.locks = Table.empty)
    (hfresh : ∀ u ∈ c.scan.keys, ∀ r, d.store.get u = some r → r.state = .disconnected) :
    Faithful d c := by
  have hno : ∀ u, ¬ GivesUp d c u := by
    rintro u ⟨-, deadline, hdl, -⟩
    unfold pendingAfterDiff at hdl
    rw [hp, hl] at hdl
    split at hdl <;> cases hdl
  exact ⟨fun u hu => absurd hu (hno u), fun u hu => absurd hu (hno u),
    fun u hu r hr => Or.inl (hfresh u hu.1 r hr)⟩

/-- A board that comes and goes, with no flash in between, is followed. -/
theorem events_replay_comeAndGo : ∃ w,
    Runs.exec step ⟨blank, []⟩ [.cycle .oneBoard, .cycle .noBoard] = some w ∧
      replay "9900a" (trackOf blank.store "9900a") w.fired =
        some (trackOf w.daemon.store "9900a") := by
  refine ⟨_, rfl, events_replay blank [.cycle .oneBoard, .cycle .noBoard] _ ?_ rfl "9900a"⟩
  refine ⟨faithful_of_quiet rfl rfl fun u _ r hr => (by cases hr), fun w hw => ?_⟩
  cases hw
  refine ⟨faithful_of_quiet (by decide) (by decide) fun u hu => ?_, fun _ _ => trivial⟩
  cases hu

end Runs

end MbTools.Replay
