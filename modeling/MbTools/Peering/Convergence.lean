import MbTools.Peering.Link

/-! # Convergence of the replica

While a uid is claimed by nobody else, each event moves the peer to what the
owner had just after the write it is about, or leaves it where it was. A
snapshot may move it anywhere the owner has been since the last event applied.
So a peer that has applied everything lists what the owner has attached, unless
a later snapshot was overtaken by the events.
-/

namespace MbTools.Peering

open Store Daemon Replica Runs

variable {host k : String} {l l' : Link} {a : Action} {as : List Action} {n : ℕ}

namespace Link

/-- Each uid is listed as the owner had it at some moment since the last event applied. -/
def Timely (l : Link) (r : SnapshotReply) : Prop :=
  ∀ k, ∃ n, l.applied ≤ n ∧ n ≤ l.log.length ∧ (Listed r k ↔ l.ownAt n k)

structure WellFormed (l : Link) : Prop where
  lengths : l.past.length = l.log.length
  told : ∀ n o, l.log[n]? = some o →
    ∃ uid e, o = some e ∧ Tells (l.ownAt n) (l.ownAt (n + 1)) uid e
  published : l.published ≤ l.log.length
  applied : l.applied ≤ l.published
  replies : ∀ q r, l.slot q = some r → ∃ o, r = snapshotReply o
  unsubscribed : l.subscribed = false →
    l.initial = none ∧ l.resync = none ∧ l.receiving = false ∧ l.synced = false
  /-- The first reply is applied before any event, so it is never late. -/
  gated : ∀ r, l.initial = some r → l.receiving = false ∧ l.Timely r

theorem ownAt_length (hl : l.past.length = l.log.length) :
    l.ownAt l.log.length k ↔ Attached l.owner k := by
  simp [ownAt, ← hl]

section Wrote

variable {type : EventType} {uid : String} {s : Store}

theorem ownAt_wrote (h : n ≤ l.past.length) : (l.wrote type uid s).ownAt n = l.ownAt n := by
  unfold ownAt wrote
  rw [List.getElem?_append_left (by simpa [Nat.lt_succ_iff] using h)]

theorem ownAt_wrote_last (hl : l.past.length = l.log.length) :
    (l.wrote type uid s).ownAt (l.log.length + 1) = Attached s := by
  funext k
  simp [ownAt, wrote, ← hl]

theorem Timely.wrote {r : SnapshotReply} (h : l.Timely r) (hl : l.past.length = l.log.length) :
    (l.wrote type uid s).Timely r := by
  intro k
  obtain ⟨n, hn, hw, hk⟩ := h k
  refine ⟨n, hn, ?_, ?_⟩
  · simp only [Link.wrote, List.length_append]
    omega
  · rwa [ownAt_wrote (by omega)]

theorem WellFormed.wrote (h : l.WellFormed)
    (ht : ∃ e, (s.get uid).bind (publishDaemonEvent type) = some e ∧
      Tells (Attached l.owner) (Attached s) uid e) : (l.wrote type uid s).WellFormed where
  lengths := by simp [Link.wrote, h.lengths]
  told := by
    intro n o ho
    rcases Nat.lt_or_ge n l.log.length with (hn | hn)
    · have hold : l.log[n]? = some o := by
        rwa [Link.wrote, List.getElem?_append_left hn] at ho
      rw [ownAt_wrote (by have := h.lengths; omega), ownAt_wrote (by have := h.lengths; omega)]
      exact h.told n o hold
    · have hlast : n = l.log.length := by
        have hlt := (List.getElem?_eq_some_iff.mp ho).1
        simp only [Link.wrote, List.length_append, List.length_singleton] at hlt
        omega
      subst hlast
      obtain ⟨e, he, ht⟩ := ht
      refine ⟨uid, e, ?_, ?_⟩
      · simp [Link.wrote, he] at ho
        exact ho.symm
      · have hown : l.ownAt l.log.length = Attached l.owner :=
          funext fun k => propext (ownAt_length h.lengths)
        rw [ownAt_wrote h.lengths.ge, ownAt_wrote_last h.lengths, hown]
        exact ht
  published := h.published.trans (by simp [Link.wrote])
  applied := h.applied
  replies := fun q r hq => h.replies q r (by cases q <;> exact hq)
  unsubscribed := h.unsubscribed
  gated := fun r hr => ⟨(h.gated r hr).1, (h.gated r hr).2.wrote h.lengths⟩

end Wrote

theorem tried_eq_some_iff {type : EventType} {uid : String} {x : Except Error Store} :
    l.tried type uid x = some l' ↔ ∃ s, x = .ok s ∧ l' = l.wrote type uid s := by
  cases x <;> simp [tried, eq_comm]

/-- What a step can do, with the guards it has passed. -/
inductive Step (host : String) (l : Link) : Action → Link → Prop
  /-- A write of the owner's, whose event says what it did. -/
  | wrote {a : Action} {type : EventType} {uid : String} {s : Store}
      (ht : ∃ e, (s.get uid).bind (publishDaemonEvent type) = some e ∧
        Tells (Attached l.owner) (Attached s) uid e) : Step host l a (l.wrote type uid s)
  | publish (hlt : l.published < l.log.length) :
      Step host l .publish { l with published := l.published + 1 }
  | subscribe (hsub : l.subscribed = false) :
      Step host l .subscribe { l with subscribed := true, applied := l.published }
  | fetch {q : Request} (hmay : l.mayFetch q = true) : Step host l (.fetch q) (l.fetched q)
  | apply {q : Request} {now : ℕ} {r : SnapshotReply} (hr : l.slot q = some r) :
      Step host l (.apply q now)
        ({ l with peer := applySnapshot l.peer now host r, synced := true }.closed q)
  | fail {q : Request} (hsub : l.subscribed = true) : Step host l (.fail q) (l.closed q)
  | recv {now : ℕ} {o : Option Event} (hreceiving : l.receiving = true)
      (hlt : l.applied < l.published) (ho : l.log[l.applied]? = some o) :
      Step host l (.recv now) (l.consumed host now o)
  | lose {n : ℕ} (hreceiving : l.receiving = true) (hle : l.applied + n ≤ l.published) :
      Step host l (.lose n) { l with applied := l.applied + n, synced := false }
  | peerWrite {w : Write} : Step host l (.peerWrite w) { l with peer := l.peer.write w }

theorem step_cases (hs : step host l a = some l') : Step host l a l' := by
  cases a with
  | attach wall uid port vid pid =>
    cases hs
    exact .wrote (tells_attach l.owner wall uid port vid pid)
  | detach wall uid =>
    simp only [step, Option.ite_none_right_eq_some, tried_eq_some_iff] at hs
    obtain ⟨hat, s, hs, rfl⟩ := hs
    exact .wrote (tells_detach hs hat)
  | probe wall uid result =>
    simp only [step, Option.ite_none_right_eq_some, tried_eq_some_iff] at hs
    obtain ⟨hat, s, hs, rfl⟩ := hs
    exact .wrote
      (tells_identity (fun r => r.probed_uid wall result) (fun r => probed_isLocal result) hs hat)
  | knownBlank wall uid =>
    simp only [step, Option.ite_none_right_eq_some, tried_eq_some_iff] at hs
    obtain ⟨hat, s, hs, rfl⟩ := hs
    exact .wrote
      (tells_identity (fun r => r.knownBlank_uid wall) (fun r => knownBlank_isLocal) hs hat)
  | publish =>
    simp only [step, Option.ite_none_right_eq_some, Option.some.injEq] at hs
    obtain ⟨hlt, rfl⟩ := hs
    exact .publish hlt
  | subscribe =>
    simp only [step, Option.ite_none_left_eq_some, Option.some.injEq] at hs
    obtain ⟨hsub, rfl⟩ := hs
    exact .subscribe (by simpa using hsub)
  | fetch q =>
    simp only [step, Option.ite_none_right_eq_some, Option.some.injEq] at hs
    obtain ⟨hmay, rfl⟩ := hs
    exact .fetch hmay
  | apply q now =>
    obtain ⟨r, hr, rfl⟩ := Option.map_eq_some_iff.mp hs
    exact .apply hr
  | fail q =>
    simp only [step, Option.ite_none_right_eq_some, Option.some.injEq] at hs
    obtain ⟨hsub, rfl⟩ := hs
    exact .fail hsub
  | recv now =>
    simp only [step, Option.ite_none_right_eq_some, Option.map_eq_some_iff] at hs
    obtain ⟨⟨hreceiving, hlt⟩, o, ho, rfl⟩ := hs
    exact .recv hreceiving hlt ho
  | lose n =>
    simp only [step, Option.ite_none_right_eq_some, Option.some.injEq] at hs
    obtain ⟨⟨hreceiving, hle⟩, rfl⟩ := hs
    exact .lose hreceiving hle
  | peerWrite w =>
    cases hs
    exact .peerWrite

theorem WellFormed.timely_now (h : l.WellFormed) : l.Timely (snapshotReply l.owner) := fun _ =>
  ⟨l.log.length, h.applied.trans h.published, le_rfl,
    mem_snapshotPayload_uids_iff.trans (ownAt_length h.lengths).symm⟩

theorem WellFormed.subscribed_of_slot {q : Request} {r : SnapshotReply} (h : l.WellFormed)
    (hr : l.slot q = some r) : l.subscribed = true := by
  rw [← Bool.not_eq_false]
  intro hf
  obtain ⟨hi, hq, -⟩ := h.unsubscribed hf
  cases q with
  | initial => cases hi.symm.trans hr
  | resync => cases hq.symm.trans hr

theorem WellFormed.fetched {q : Request} (h : l.WellFormed) (hmay : l.mayFetch q = true) :
    (l.fetched q).WellFormed := by
  cases q with
  | initial =>
    simp only [mayFetch, Bool.and_eq_true, Bool.not_eq_true'] at hmay
    exact { h with
      replies := by
        rintro (_ | _) r hq
        · exact ⟨l.owner, (Option.some.inj hq).symm⟩
        · exact h.replies .resync r hq
      unsubscribed := fun hf => absurd (hmay.1.1.symm.trans hf) (by simp)
      gated := fun r hr => by
        rw [← Option.some.inj hr]
        exact ⟨hmay.1.2, h.timely_now⟩ }
  | resync =>
    simp only [mayFetch, Bool.and_eq_true] at hmay
    exact { h with
      replies := by
        rintro (_ | _) r hq
        · exact h.replies .initial r hq
        · exact ⟨l.owner, (Option.some.inj hq).symm⟩
      unsubscribed := fun hf => absurd (hmay.1.symm.trans hf) (by simp) }

theorem WellFormed.closed (h : l.WellFormed) (hsub : l.subscribed = true) (q : Request) :
    (l.closed q).WellFormed := by
  have hf : ∀ {p : Prop}, l.subscribed = false → p :=
    fun hf => absurd (hsub.symm.trans hf) (by simp)
  cases q with
  | initial =>
    exact { h with
      replies := by
        rintro (_ | _) r hq
        · cases hq
        · exact h.replies .resync r hq
      unsubscribed := hf
      gated := nofun }
  | resync =>
    exact { h with
      replies := by
        rintro (_ | _) r hq
        · exact h.replies .initial r hq
        · cases hq
      unsubscribed := hf }

theorem WellFormed.peer (h : l.WellFormed) (peer : Store) {synced : Bool}
    (hsub : l.subscribed = true ∨ synced = l.synced) :
    ({ l with peer, synced } : Link).WellFormed :=
  { h with
    replies := fun q r hq => h.replies q r (by cases q <;> exact hq)
    unsubscribed := by
      intro hf
      rcases hsub with (hsub | rfl)
      · exact absurd (hsub.symm.trans hf) (by simp)
      · exact h.unsubscribed hf }

theorem WellFormed.advance (h : l.WellFormed) (hreceiving : l.receiving = true)
    (hle : l.applied + n ≤ l.published) {synced : Bool} :
    ({ l with applied := l.applied + n, synced } : Link).WellFormed :=
  { h with
    applied := hle
    replies := fun q r hq => h.replies q r (by cases q <;> exact hq)
    unsubscribed := fun hf => absurd (hreceiving.symm.trans (h.unsubscribed hf).2.2.1) (by simp)
    gated := fun r hr => absurd (hreceiving.symm.trans (h.gated r hr).1) (by simp) }

theorem WellFormed.step (h : l.WellFormed) (hs : step host l a = some l') : l'.WellFormed := by
  cases step_cases hs with
  | wrote ht => exact h.wrote ht
  | publish hlt =>
    exact { h with
      published := hlt
      applied := h.applied.trans (Nat.le_succ l.published)
      replies := fun q r hq => h.replies q r (by cases q <;> exact hq) }
  | subscribe hsub =>
    have hnone := h.unsubscribed hsub
    exact { h with
      applied := le_rfl
      replies := fun q r hq => h.replies q r (by cases q <;> exact hq)
      unsubscribed := nofun
      gated := fun r hr => absurd (hnone.1.symm.trans hr) (by simp) }
  | fetch hmay => exact h.fetched hmay
  | apply hr =>
    rename_i q now r
    have hsub := h.subscribed_of_slot hr
    have hp :
        ({ l with peer := applySnapshot l.peer now host r, synced := true } : Link).WellFormed :=
      h.peer _ (Or.inl hsub)
    exact hp.closed hsub q
  | fail hsub => exact h.closed hsub _
  | recv hreceiving hlt ho =>
    rename_i o
    cases o with
    | none => exact h.advance hreceiving hlt
    | some e => exact (h.advance hreceiving hlt).peer _ (Or.inr rfl)
  | lose hreceiving hle => exact h.advance hreceiving hle
  | peerWrite => exact h.peer _ (Or.inr rfl)

theorem WellFormed.start (owner peer : Store) : (Link.start owner peer).WellFormed where
  lengths := rfl
  told := fun n o ho => by cases ho
  published := le_rfl
  applied := le_rfl
  replies := fun q r hq => by cases q <;> cases hq
  unsubscribed := fun _ => ⟨rfl, rfl, rfl, rfl⟩
  gated := fun r hr => by cases hr

/-- The peer follows the owner at one uid, once a snapshot was applied. -/
structure Follows (host k : String) (l : Link) : Prop where
  wellFormed : l.WellFormed
  unclaimed : Unclaimed l.peer k
  follows : l.synced = true → FollowsAt l.ownAt (Lists l.peer host) l.applied l.log.length k

/-- A later reply is timely when it is applied. -/
def ResyncTimely (l : Link) (a : Action) : Prop :=
  ∀ now r, a = .apply .resync now → l.resync = some r → l.Timely r

/-- What else is written at the peer does not touch the uid. -/
def Undisturbed (k : String) (l : Link) (a : Action) : Prop :=
  ∀ w, a = .peerWrite w → (l.peer.write w).get k = l.peer.get k

theorem Follows.applied (now : ℕ) {r : SnapshotReply} {q : Request} (h : Follows host k l)
    (hr : l.slot q = some r) (ht : l.Timely r) :
    Unclaimed (applySnapshot l.peer now host r) k ∧
      FollowsAt l.ownAt (Lists (applySnapshot l.peer now host r) host) l.applied l.log.length
        k := by
  obtain ⟨o, rfl⟩ := h.wellFormed.replies q r hr
  obtain ⟨n, hn, hw, hk⟩ := ht k
  exact ⟨applySnapshot_unclaimed h.unclaimed,
    .of_moment hn hw ((applySnapshot_lists h.unclaimed).trans hk)⟩

theorem Follows.consumed (now : ℕ) {e : Event} (h : Follows host k l)
    (he : l.log[l.applied]? = some (some e)) :
    Unclaimed (recvEvent l.peer now host e) k ∧
      (l.synced = true →
        FollowsAt l.ownAt (Lists (recvEvent l.peer now host e) host) (l.applied + 1)
          l.log.length k) := by
  obtain ⟨uid, e', he', ht⟩ := h.wellFormed.told l.applied _ he
  cases he'
  have hlt := (List.getElem?_eq_some_iff.mp he).1
  refine ⟨ht.recv_unclaimed h.unclaimed, fun hs => ?_⟩
  by_cases hk : k = uid
  · subst hk
    rcases ht.recv_lists now host h.unclaimed with (hv | ⟨hown, hv⟩)
    · exact .consume hlt hv
    · exact (h.follows hs).skip hlt hown hv
  · exact (h.follows hs).skip hlt (ht.frame k hk) (Lists.of_get_eq (ht.recv_of_ne hk))

theorem Follows.wrote {type : EventType} {uid : String} {s : Store} (h : Follows host k l)
    (hw : (l.wrote type uid s).WellFormed) : Follows host k (l.wrote type uid s) where
  wellFormed := hw
  unclaimed := h.unclaimed
  follows := fun hs => (h.follows hs).write (by simp [Link.wrote]) fun n hn => by
    rw [ownAt_wrote (by have := h.wellFormed.lengths; omega)]

/-- One step, when later replies are timely and nobody else writes the uid. -/
theorem Follows.step (h : Follows host k l) (hok : ResyncTimely l a ∧ Undisturbed k l a)
    (hs : step host l a = some l') : Follows host k l' := by
  have hwf := h.wellFormed.step hs
  cases step_cases hs with
  | wrote ht => exact h.wrote hwf
  | publish hlt => exact ⟨hwf, h.unclaimed, h.follows⟩
  | subscribe hsub =>
    have hnone := h.wellFormed.unsubscribed hsub
    exact ⟨hwf, h.unclaimed, fun hsync => absurd (hsync.symm.trans hnone.2.2.2) (by simp)⟩
  | fetch hmay =>
    rename_i q
    cases q <;> exact ⟨hwf, h.unclaimed, h.follows⟩
  | apply hr =>
    rename_i q now r
    cases q with
    | initial =>
      have happ := h.applied now hr (h.wellFormed.gated r hr).2
      exact ⟨hwf, happ.1, fun _ => happ.2⟩
    | resync =>
      have happ := h.applied now hr (hok.1 now r rfl hr)
      exact ⟨hwf, happ.1, fun _ => happ.2⟩
  | fail hsub =>
    rename_i q
    cases q <;> exact ⟨hwf, h.unclaimed, h.follows⟩
  | recv hreceiving hlt ho =>
    rename_i now o
    obtain ⟨uid, e, rfl, -⟩ := h.wellFormed.told l.applied o ho
    have hc := h.consumed now ho
    exact ⟨hwf, hc.1, hc.2⟩
  | lose hreceiving hle => exact ⟨hwf, h.unclaimed, fun hsync => by cases hsync⟩
  | peerWrite =>
    rename_i w
    have hget := hok.2 w rfl
    refine ⟨hwf, h.unclaimed.of_get_eq hget, fun hsync => ?_⟩
    obtain ⟨n, hn, hw, hk⟩ := h.follows hsync
    exact ⟨n, hn, hw, (Lists.of_get_eq hget).trans hk⟩

theorem Follows.start {owner peer : Store} (h : Unclaimed peer k) :
    Follows host k (Link.start owner peer) :=
  ⟨WellFormed.start owner peer, h, fun hs => by cases hs⟩

/-- Once it has applied a snapshot and every event, the peer lists what the owner has attached,
provided no later reply was applied against the owner's history. -/
theorem replica_converges (host : String) (owner peer : Store) (as : List Action) (l : Link)
    (hr : exec (step host) (start owner peer) as = some l)
    (hm : Meets (step host) ResyncTimely (start owner peer) as)
    (hsync : l.synced = true) (hall : l.applied = l.log.length) (k : String)
    (hk : Unclaimed peer k) (hq : Meets (step host) (Undisturbed k) (start owner peer) as) :
    Lists l.peer host k ↔ Attached l.owner k := by
  have hf : Follows host k l :=
    inv_of_meets (fun _ _ _ ht hok hs => ht.step hok hs) (Follows.start hk) (hm.and hq) hr
  have hv := hf.follows hsync
  rw [hall] at hv
  exact hv.converged.trans (ownAt_length hf.wellFormed.lengths)

/-- A board comes while a peer follows. -/
def join : List Action :=
  [.subscribe, .fetch .initial, .apply .initial 1, .attach 2 "9900a" "/dev/ttyACM0" 0x0d28 0x0204,
    .publish, .recv 3]

/-- A snapshot is forced and applied at once. -/
theorem replica_converges_resync :
    ∃ l, exec (step "loki") (start Store.empty Store.empty)
        ((join ++ [.fetch .resync]) ++ [.apply .resync 4]) = some l ∧
      (Lists l.peer "loki" "9900a" ↔ Attached l.owner "9900a") := by
  have hend : (exec (step "loki") (start Store.empty Store.empty)
      ((join ++ [.fetch .resync]) ++ [.apply .resync 4])).any
        (fun l => l.synced && l.applied = l.log.length) = true := by decide
  have hfetched : (exec (step "loki") (start Store.empty Store.empty)
      (join ++ [.fetch .resync])).all
        (fun l => l.resync = some (snapshotReply l.owner)) = true := by decide
  obtain ⟨l, hl, hl'⟩ := (Option.any_eq_true _ _).mp hend
  rw [Bool.and_eq_true, decide_eq_true_iff] at hl'
  refine ⟨l, hl, replica_converges "loki" _ _ _ l hl ?_ hl'.1 hl'.2 "9900a" ?_ ?_⟩
  · refine .append (meets_of_forall ?_) fun t ht => ⟨?_, fun _ _ => trivial⟩
    · rintro a ha _ now r rfl -
      simp [join] at ha
    · rintro now r - hr
      rw [ht, Option.all_some, decide_eq_true_iff] at hfetched
      cases hr.symm.trans hfetched
      exact (inv_of_exec (fun _ _ _ h hs => h.step hs) (WellFormed.start _ _) ht).timely_now
  · rintro r hr -
    cases hr
  · refine meets_of_forall ?_
    rintro a ha _ w rfl
    simp [join] at ha

/-- A forced snapshot that sees the board, and is applied after its detach event. -/
def overtaken : List Action :=
  join ++ [.fetch .resync, .detach 4 "9900a", .publish, .recv 5, .apply .resync 6]

/-- Everything is applied, nothing is on its way, and nobody else wrote: the peer still lists a
board the owner has not. -/
theorem replica_diverges : ¬ ∀ (host : String) (owner peer : Store) (as : List Action) (l : Link),
    exec (step host) (start owner peer) as = some l → l.synced = true →
    l.applied = l.log.length → l.initial = none → l.resync = none → ∀ k, Unclaimed peer k →
    Meets (step host) (Undisturbed k) (start owner peer) as →
    (Lists l.peer host k ↔ Attached l.owner k) := by
  intro hall
  have hend : (exec (step "loki") (start Store.empty Store.empty) overtaken).any (fun l =>
      l.synced && l.applied = l.log.length && l.initial = none && l.resync = none &&
        Lists l.peer "loki" "9900a" && !decide (Attached l.owner "9900a")) = true := by decide
  obtain ⟨l, hl, hl'⟩ := (Option.any_eq_true _ _).mp hend
  simp only [Bool.and_eq_true, decide_eq_true_iff, Bool.not_eq_true', decide_eq_false_iff_not]
    at hl'
  obtain ⟨⟨⟨⟨⟨hsync, happ⟩, hinit⟩, hres⟩, hlists⟩, hnot⟩ := hl'
  refine hnot ((hall "loki" _ _ overtaken l hl hsync happ hinit hres "9900a" ?_ ?_).mp hlists)
  · rintro r hr -
    cases hr
  · refine meets_of_forall ?_
    rintro a ha _ w rfl
    simp [overtaken, join] at ha

end Link

end MbTools.Peering
