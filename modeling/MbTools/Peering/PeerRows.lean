import MbTools.Api.Rescan
import MbTools.Lib.Runs
import MbTools.Peering.Effects
import MbTools.Peering.Ownership

/-! # Device rows and peer rows

Discovery records a peer's row before it connects. From then on the peer's link
writes device rows tagged with the peer, and updates the peer's row in place,
while a rescan deletes the rows of unreachable peers.
-/

namespace MbTools.PeerRows

open Store DeviceRecord Peering

structure Hub where
  store : Store
  /-- `_peer_links`. -/
  links : List String
  /-- The peers whose snapshot passed the test of the dropped flag, and whose callback is due. -/
  due : List String
  /-- The peers whose row a rescan removed since they were last discovered. -/
  removed : List String

inductive Action where
  | discover (now : ℕ) (host endpoint : String)
  | event (now : ℕ) (host : String) (e : Event)
  | snapshot (now : ℕ) (host : String) (reply : SnapshotReply) (dropped : Bool)
  | reachable (host : String)
  | unreachable (host : String)
  | rescan (locks : LockManager)

def step (w : Hub) : Action → Option Hub
  | .discover now host endpoint =>
    some { w with
      store := w.store.recordPeerSeen now host endpoint
      links := host :: w.links
      removed := w.removed.filter (· ≠ host) }
  | .event now host e =>
    if host ∈ w.links then some { w with store := applyInput host w.store (.event now e) } else none
  | .snapshot now host reply dropped =>
    if host ∈ w.links then
      some { w with
        store := applyInput host w.store (.snapshot now reply)
        due := if dropped then w.due else host :: w.due }
    else none
  | .reachable host =>
    if host ∈ w.due then
      some { w with store := marked w.store host true, due := w.due.erase host }
    else none
  | .unreachable host =>
    if host ∈ w.links then some { w with store := marked w.store host false } else none
  | .rescan locks =>
    some { w with
      store := (Api.opRescan w.store locks true false).store
      removed := w.store.candidatesForPurge.unreachablePeers ++ w.removed }

def start : Hub := ⟨Store.empty, [], [], []⟩

/-- The input attributes the uid to its sender: the row is not a board attached here. -/
def Takes (s : Store) (u : String) (i : Input) : Prop :=
  (match i with
    | .event _ e => e.type = some .attach ∧ e.uid = some u
    | .snapshot _ reply => ∃ d ∈ reply.devices, d.uid = some u) ∧
  ¬ ∃ r, s.get u = some r ∧ r.host = none ∧ r.state ≠ .disconnected

/-- No rescan skips a locked board of a peer whose row it removes, and a peer whose row was
removed is discovered again before it attributes a board or is marked reachable. -/
def Paired (w : Hub) : Action → Prop
  | .event now host e => host ∈ w.removed → ∀ u, ¬ Takes w.store u (.event now e)
  | .snapshot now host reply _ => host ∈ w.removed → ∀ u, ¬ Takes w.store u (.snapshot now reply)
  | .reachable host => host ∉ w.removed
  | .rescan locks => ∀ u r host, w.store.get u = some r → r.host = some host →
      Api.RemovedPeer w.store host → locks.status u = none
  | _ => True

section Rows

variable {s : Store} {now : ℕ} {host owner u : String} {r : DeviceRecord} {i : Input}

theorem layered_owner {d : DeviceDict} (h : (layered r now d).host = some owner) :
    r.host = some owner := by rwa [layered_host] at h

theorem upserted_owner {port vidPid : Option String} {prev : Option DeviceRecord}
    (h : (upserted now u (some host) port vidPid prev).host = some owner) :
    owner = host ∨ ∃ q, prev = some q ∧ q.host = some owner := by
  unfold upserted at h
  split at h
  · exact Or.inl (Option.some.inj h).symm
  · rename_i q
    split at h
    · exact Or.inr ⟨q, rfl, h⟩
    · split at h
      · exact Or.inl (Option.some.inj h).symm
      · exact Or.inl (Option.some.inj h).symm

/-- A row a peer's input leaves is its owner's before it, or the sender takes it. -/
theorem owner_applyInput (h : (applyInput host s i).get u = some r) (hh : r.host = some owner) :
    (∃ q, s.get u = some q ∧ q.host = some owner) ∨ (owner = host ∧ Takes s u i) := by
  by_cases hlocal : ∃ q, s.get u = some q ∧ q.host = none ∧ q.state ≠ .disconnected
  · obtain ⟨q, hq, hn, hd⟩ := hlocal
    rw [applyInput_local i hq hn hd, Option.some.injEq] at h
    rw [← h, hn] at hh
    cases hh
  · refine get_applyInput_inv (P := fun row => ∀ r, row = some r → r.host = some owner →
      (∃ q, s.get u = some q ∧ q.host = some owner) ∨ (owner = host ∧ Takes s u i)) i
      ?_ ?_ ?_ ?_ r h hh
    · rintro now e rfl hu prev hprev r hr hh
      unfold eventRow at hr
      split at hr
      · rename_i ht
        obtain rfl := Option.some.inj hr
        rcases upserted_owner hh with (ho | ⟨q, hq, hqo⟩)
        · exact Or.inr ⟨ho, ⟨ht, hu⟩, hlocal⟩
        · exact hprev q hq hqo
      · obtain ⟨q, hq, rfl⟩ := Option.map_eq_some_iff.mp hr
        refine hprev q hq ?_
        split at hh
        · rwa [reported_host] at hh
        · exact hh
    · rintro now reply rfl d hd hu prev hprev r hr hh
      obtain rfl := Option.some.inj hr
      have hup : (upserted now u (some host) d.port d.vidPid prev).host = some owner := by
        simp only [snapshotRow] at hh
        split at hh
        · exact layered_owner hh
        · exact hh
      rcases upserted_owner hup with (ho | ⟨q, hq, hqo⟩)
      · exact Or.inr ⟨ho, ⟨d, hd, hu⟩, hlocal⟩
      · exact hprev q hq hqo
    · intro now seen prev hprev r hr hh
      obtain ⟨q, hq, rfl⟩ := Option.map_eq_some_iff.mp hr
      refine hprev q hq ?_
      unfold absentRow at hh
      split at hh
      · exact hh
      · exact hh
    · exact fun r hr hh => Or.inl ⟨r, hr, hh⟩

end Rows

/-- Every linked peer has a row or lost it to a rescan, and the owner of every row is a peer with
a row. -/
structure Intact (w : Hub) : Prop where
  linked : ∀ host ∈ w.links, host ∈ w.removed ∨ (w.store.getPeer host).isSome = true
  due : ∀ host ∈ w.due, host ∈ w.links
  owned : ∀ u r host, w.store.get u = some r → r.host = some host →
    (w.store.getPeer host).isSome = true

theorem intact_start : Intact start where
  linked _ h := by cases h
  due _ h := by cases h
  owned _ _ _ h := by cases h

section Steps

variable {w w' : Hub} {a : Action} {host : String} {s : Store}

/-- An input of a linked peer that takes a board only if the peer has its row. -/
theorem Intact.input {i : Input} (h : Intact w) (hl : host ∈ w.links)
    (hok : host ∈ w.removed → ∀ u, ¬ Takes w.store u i) :
    Intact { w with store := applyInput host w.store i } where
  linked := by
    simp only [getPeer_applyInput]
    exact h.linked
  due := h.due
  owned u r owner hr ho := by
    rw [getPeer_applyInput]
    rcases owner_applyInput hr ho with (⟨q, hq, hqo⟩ | ⟨rfl, ht⟩)
    · exact h.owned u q owner hq hqo
    · exact (h.linked owner hl).resolve_left fun hrem => hok hrem u ht

theorem Intact.mark (h : Intact w) (host : String) (reachable : Bool) :
    Intact { w with store := marked w.store host reachable } where
  linked k hk := by
    rw [getPeer_marked_isSome]
    exact h.linked k hk
  due := h.due
  owned u r k hr hh := by
    rw [get_marked] at hr
    rw [getPeer_marked_isSome]
    exact h.owned u r k hr hh

theorem getPeer_opRescan_of_not (s : Store) (locks : LockManager) (h : ¬ Api.RemovedPeer s host) :
    (Api.opRescan s locks true false).store.getPeer host = s.getPeer host :=
  (@Api.opRescan_getPeer s locks true host).2 h

theorem Intact.rescan {locks : LockManager} (h : Intact w) (hok : Paired w (.rescan locks)) :
    Intact { w with
      store := (Api.opRescan w.store locks true false).store
      removed := w.store.candidatesForPurge.unreachablePeers ++ w.removed } where
  linked k hk := by
    by_cases hrem : Api.RemovedPeer w.store k
    · exact Or.inl (List.mem_append_left _ (mem_unreachablePeers_iff.mpr hrem))
    · rw [getPeer_opRescan_of_not w.store locks hrem]
      exact (h.linked k hk).imp_left (List.mem_append_right _)
  due := h.due
  owned u r k hr hh := by
    by_cases hgone : Api.Removed w.store locks u
    · rw [(@Api.opRescan_get w.store locks true u).1 hgone] at hr
      cases hr
    · rw [(@Api.opRescan_get w.store locks true u).2 hgone] at hr
      rw [getPeer_opRescan_of_not w.store locks]
      · exact h.owned u r k hr hh
      · -- the board of a removed peer is stale and not locked, so it went too
        rintro ⟨p, hp, hd⟩
        exact hgone ⟨⟨r, hr, .unreachablePeer k p hh hp hd⟩, hok u r k hr hh ⟨p, hp, hd⟩⟩

theorem Intact.discover (h : Intact w) (now : ℕ) (host endpoint : String) :
    Intact { w with
      store := w.store.recordPeerSeen now host endpoint
      links := host :: w.links
      removed := w.removed.filter (· ≠ host) } where
  linked k hk := by
    rw [getPeer_recordPeerSeen]
    by_cases hkh : host = k
    · rw [if_pos hkh]
      exact Or.inr rfl
    · rw [if_neg hkh]
      have hkl : k ∈ w.links := (List.mem_cons.mp hk).resolve_left (Ne.symm hkh)
      refine (h.linked k hkl).imp_left fun hrem => List.mem_filter.mpr ⟨hrem, ?_⟩
      rw [decide_eq_true_eq]
      exact Ne.symm hkh
  due k hk := List.mem_cons_of_mem host (h.due k hk)
  owned u r k hr hh := by
    rw [getPeer_recordPeerSeen]
    split
    · rfl
    · exact h.owned u r k hr hh

theorem Intact.step (h : Intact w) (hok : Paired w a) (hs : step w a = some w') : Intact w' := by
  cases a with
  | discover now host endpoint =>
    cases hs
    exact h.discover now host endpoint
  | event now host e =>
    obtain ⟨hl, hw⟩ := Option.ite_none_right_eq_some.mp hs
    cases hw
    exact h.input hl hok
  | snapshot now host reply dropped =>
    obtain ⟨hl, hw⟩ := Option.ite_none_right_eq_some.mp hs
    cases hw
    refine { h.input hl hok with due := fun k hk => ?_ }
    dsimp only at hk
    split at hk
    · exact h.due k hk
    · rcases List.mem_cons.mp hk with (rfl | hk)
      · exact hl
      · exact h.due k hk
  | reachable host =>
    obtain ⟨-, hw⟩ := Option.ite_none_right_eq_some.mp hs
    cases hw
    exact { h.mark host true with due := fun k hk => h.due k (List.mem_of_mem_erase hk) }
  | unreachable host =>
    obtain ⟨-, hw⟩ := Option.ite_none_right_eq_some.mp hs
    cases hw
    exact h.mark host false
  | rescan locks =>
    cases hs
    exact h.rescan hok

end Steps

section Runs

/-- In a run in which no rescan skips a locked board of a peer whose row it removes, and no peer
whose row was removed attributes a board or is marked reachable before it is discovered again: the
owner of every device row has a row, a board of an unreachable owner is a candidate of the next
rescan, and a peer whose snapshot was just applied over a live link is reachable. -/
theorem peer_rows_intact (as : List Action) (w : Hub) (hm : Runs.Meets step Paired start as)
    (hr : Runs.exec step start as = some w) :
    (∀ u r host, w.store.get u = some r → r.host = some host →
      ∃ p, w.store.getPeer host = some p ∧
        (p.reachable = false → u ∈ w.store.candidatesForPurge.unreachablePeerOwned)) ∧
    ∀ host, as.getLast? = some (.reachable host) →
      ∃ p, w.store.getPeer host = some p ∧ p.reachable = true := by
  have hinv : ∀ {bs v}, Runs.Meets step Paired start bs → Runs.exec step start bs = some v →
      Intact v := fun hm hr =>
    Runs.inv_of_meets (fun _ _ _ h hok hs => Intact.step h hok hs) intact_start hm hr
  refine ⟨fun u r host hu hh => ?_, fun host hlast => ?_⟩
  · obtain ⟨p, hp⟩ := Option.isSome_iff_exists.mp ((hinv hm hr).owned u r host hu hh)
    refine ⟨p, hp, fun hd => mem_group_iff.mpr ⟨r, hu, ?_⟩⟩
    exact peerUnreachable_iff.mpr ⟨host, p, hh, hp, hd⟩
  · obtain ⟨bs, rfl⟩ := List.getLast?_eq_some_iff.mp hlast
    obtain ⟨v, hv, hs⟩ := Runs.exec_concat.mp hr
    have hv' := hinv hm.left hv
    obtain ⟨hdue, hw⟩ := Option.ite_none_right_eq_some.mp hs
    cases hw
    have hrow := (hv'.linked host (hv'.due host hdue)).resolve_left (hm.right hv).head
    obtain ⟨p, hp⟩ := Option.isSome_iff_exists.mp hrow
    refine ⟨{ p with reachable := true }, ?_, rfl⟩
    rw [getPeer_marked, if_pos rfl, hp]
    rfl

theorem meets_of_no_rescan {as : List Action} {w : Hub} (hn : ∀ locks, .rescan locks ∉ as)
    (h : w.removed = []) : Runs.Meets step Paired w as := by
  refine Runs.meets_of_inv (P := fun w => w.removed = []) ?_ ?_ h
  · intro v a ha hv
    cases a with
    | rescan locks => exact absurd ha (hn locks)
    | discover => trivial
    | unreachable => trivial
    | _ => simp [Paired, hv]
  · intro v a v' ha hv hs
    cases a with
    | rescan locks => exact absurd ha (hn locks)
    | discover =>
      cases hs
      simp [hv]
    | _ =>
      obtain ⟨-, hw⟩ := Option.ite_none_right_eq_some.mp hs
      cases hw
      exact hv

/-- A peer that answers its first snapshot request. -/
def answered : List Action :=
  [.discover 1 "loki" "10.0.0.7:7440",
    .snapshot 2 "loki" ⟨[⟨some "9900a", some "/dev/ttyACM4", some "0d28:0204", none,
      ⟨none, none, none, none, none⟩⟩], []⟩ false,
    .reachable "loki"]

theorem peer_rows_intact_answered : ∃ w, Runs.exec step start answered = some w ∧
    ∃ p, w.store.getPeer "loki" = some p ∧ p.reachable = true :=
  ⟨_, rfl, (peer_rows_intact answered _ (meets_of_no_rescan (by simp [answered]) rfl) rfl).2
    "loki" rfl⟩

/-- A peer's board is locked here, the peer drops off the network, and a client rescans. -/
def lockedAndGone : List Action :=
  [.discover 1 "loki" "10.0.0.7:7440",
    .event 2 "loki" { Event.ofType .attach with
      uid := some "9900a", port := some "/dev/ttyACM4", vidPid := some "0d28:0204" },
    .unreachable "loki",
    .rescan (Dict.insert Table.empty "9900a" ⟨.serial, ⟨.local, "42", some 42, none⟩, none, 3⟩)]

/-- The rescan removes the peer's row and skips the locked board's. -/
theorem locked_row_orphaned :
    ¬ ∀ (as : List Action) (w : Hub), Runs.exec step start as = some w →
      (∀ u r host, w.store.get u = some r → r.host = some host →
        ∃ p, w.store.getPeer host = some p ∧
          (p.reachable = false → u ∈ w.store.candidatesForPurge.unreachablePeerOwned)) ∧
      ∀ host, as.getLast? = some (.reachable host) →
        ∃ p, w.store.getPeer host = some p ∧ p.reachable = true := by
  intro h
  have hrun : (Runs.exec step start lockedAndGone).any (fun w =>
      w.store.getPeer "loki" = none ∧ (w.store.get "9900a").any (·.host = some "loki")) =
        true := by decide
  obtain ⟨w, hw, hcond⟩ := (Option.any_eq_true _ _).mp hrun
  obtain ⟨hp, hrow⟩ := of_decide_eq_true hcond
  obtain ⟨r, hr, hh⟩ := (Option.any_eq_true _ _).mp hrow
  obtain ⟨p, hp', -⟩ := (h lockedAndGone w hw).1 "9900a" r "loki" hr (of_decide_eq_true hh)
  rw [hp] at hp'
  cases hp'

end Runs

end MbTools.PeerRows
