import MbTools.Registry.Replay
import MbTools.Virtual.Outlets

/-! # Virtual boards stay on the local socket

Nothing that goes to a peer carries the uid of a registered virtual board: rows
of such boards are left out of snapshots and of what is published. The remote
port resolves no such board, so a response carries the uid only as an echo of
what the client has sent. The feed of a remote `watch` is the bus itself, and
the bus has the events of virtual boards too.
-/

namespace MbTools.Virtual

open Store Api Peering

section Outlets

variable {C : Casing} {s : Store} {d : Daemon} {holder : HolderRef} {token n : String}
  {e : ApiError} {a : ExposedAction} {r : DeviceRecord} {uid : String} {m m' : LockManager}
  {w : Exposed}
  {x : BusEvent}

/-! ## Responses -/

/-- The token that the request has resolved, if it gets as far. -/
def asks : ExposedAction → Option String
  | .board (.act (.lock _ _ req)) =>
    ((field req.kind).bind LockKind.ofString?).bind fun _ => field req.uid
  | .board (.act (.unlock _ _ uid)) => field uid
  | .board (.act (.flash _ uid hexPath)) => (field hexPath).bind fun _ => field uid
  | .board (.act (.stream _ uid _)) => field uid
  | .find _ token => field token
  | .markFlashed _ token => field token
  | _ => none

theorem errorUid_of_resolveVisible {server : Server}
    (h : resolveVisible server C s token = .error e) :
    errorUid e = some token := by
  unfold resolveVisible at h
  split at h
  · cases h
    rfl
  · cases h
    rfl
  · split at h <;> cases h
    rfl

theorem visible_of_resolveVisible (h : resolveVisible .tcp C s token = .ok r) :
    s.get r.uid = some r ∧ r.isVirtual = false := by
  have hv := (resolveVisible_eq_ok_iff.mp h).2
  simp only [deviceVisible, Bool.and_eq_true, Bool.not_eq_true'] at hv
  exact ⟨get_of_resolveVisible h, hv.2⟩

/-- A request for what the port does not show is answered with the error that says so. -/
theorem remoteResponse_of_unresolved (ha : asks a = some token)
    (hr : resolveVisible .tcp d.casing d.store token = .error e) :
    remoteResponse d holder a = some (.error e) := by
  unfold asks at ha
  split at ha
  · rename_i i now req
    obtain ⟨kind, hkind, htoken⟩ := Option.bind_eq_some_iff.mp ha
    obtain ⟨k, hk, hkind⟩ := Option.bind_eq_some_iff.mp hkind
    simp only [remoteResponse, opLock, htoken, hk, hkind, hr]
  · simp only [remoteResponse, opUnlock, ha, hr]
  · obtain ⟨hexPath, hh, htoken⟩ := Option.bind_eq_some_iff.mp ha
    simp only [remoteResponse, opFlashPrecheck, hh, htoken, hr]
  · simp only [remoteResponse, opStreamPrecheck, ha, hr]
  · simp only [remoteResponse, ha, answerFind, hr]
  · simp only [remoteResponse, ha, answerMarkFlashed, hr]
  · cases ha

/-- What a response may name: a token that was asked for in vain, or the uid of a row that is no
virtual board's. -/
def Named (d : Daemon) (a : ExposedAction) (n : String) : Prop :=
  (asks a = some n ∧ ∃ e, resolveVisible .tcp d.casing d.store n = .error e) ∨
    ∃ r, d.store.get n = some r ∧ r.isVirtual = false

theorem Named.of_unresolved (ha : asks a = some token)
    (hr : resolveVisible .tcp d.casing d.store token = .error e) (hn : errorUid e = some n) :
    Named d a n := by
  rw [errorUid_of_resolveVisible hr] at hn
  obtain rfl := Option.some.inj hn
  exact Or.inl ⟨ha, e, hr⟩

theorem Named.of_visible (hr : resolveVisible .tcp d.casing d.store token = .ok r) :
    Named d a r.uid :=
  Or.inr ⟨r, visible_of_resolveVisible hr⟩

theorem errorUid_of_detachedError (h : detachedError r = some e) : errorUid e = some r.uid := by
  unfold detachedError at h
  split at h <;> cases h
  rfl

theorem named_of_opLock {i now : ℕ} {req : LockRequest}
    (h : opLock .tcp d now req holder = .error e) (hn : errorUid e = some n) :
    Named d (.board (.act (.lock i now req))) n := by
  unfold opLock at h
  split at h
  · rename_i token kind ht hk
    split at h
    · cases h
      cases hn
    · rename_i k hkind
      split at h
      · rename_i hr
        cases h
        refine Named.of_unresolved ?_ hr hn
        simp only [asks, hk, Option.bind_some, hkind, ht]
      · rename_i r hr
        split at h
        · rename_i hd
          cases h
          rw [errorUid_of_detachedError hd] at hn
          exact Option.some.inj hn ▸ Named.of_visible hr
        · split at h <;> cases h
          exact Option.some.inj hn ▸ Named.of_visible hr
  · cases h
    cases hn

theorem named_of_opUnlock {i now : ℕ} {x : Option String}
    (h : opUnlock .tcp d now x holder = .error e) (hn : errorUid e = some n) :
    Named d (.board (.act (.unlock i now x))) n := by
  unfold opUnlock at h
  split at h
  · cases h
    cases hn
  · rename_i token ht
    split at h <;> cases h
    rename_i hr
    exact Named.of_unresolved ht hr hn

theorem named_of_opFlashPrecheck {i : ℕ} {x hexPath : Option String}
    (h : opFlashPrecheck .tcp d x hexPath holder = .error e) (hn : errorUid e = some n) :
    Named d (.board (.act (.flash i x hexPath))) n := by
  unfold opFlashPrecheck at h
  split at h
  · rename_i token hex ht hh
    split at h
    · rename_i hr
      cases h
      refine Named.of_unresolved ?_ hr hn
      simp only [asks, hh, Option.bind_some, ht]
    · rename_i r hr
      split at h
      · cases h
        exact Option.some.inj hn ▸ Named.of_visible hr
      · dsimp only at h
        split at h
        · split at h <;> cases h
          rename_i hd
          rw [errorUid_of_detachedError hd] at hn
          exact Option.some.inj hn ▸ Named.of_visible hr
        · cases h
          exact Option.some.inj hn ▸ Named.of_visible hr
  · cases h
    cases hn

theorem named_of_opStreamPrecheck {i : ℕ} {x : Option String} {dialed : Bool}
    (h : opStreamPrecheck .tcp d x holder = .error e) (hn : errorUid e = some n) :
    Named d (.board (.act (.stream i x dialed))) n := by
  unfold opStreamPrecheck at h
  split at h
  · cases h
    cases hn
  · rename_i token ht
    split at h
    · rename_i hr
      cases h
      exact Named.of_unresolved ht hr hn
    · rename_i r hr
      split at h
      · cases h
        exact Option.some.inj hn ▸ Named.of_visible hr
      · split at h
        · split at h
          · cases h
            cases hn
          · split at h <;> cases h
            rename_i hd
            rw [errorUid_of_detachedError hd] at hn
            exact Option.some.inj hn ▸ Named.of_visible hr
        · cases h
          exact Option.some.inj hn ▸ Named.of_visible hr

theorem named_of_answerFind {i : ℕ} {x : Option String} (hx : field x = some token)
    (hn : n ∈ responseUids (answerFind .tcp d token)) : Named d (.find i x) n := by
  unfold answerFind at hn
  split at hn
  · rename_i hr
    exact Named.of_unresolved hx hr (Option.mem_toList.mp hn)
  · rename_i r hr
    rw [responseUids, deviceDict_record, List.mem_singleton] at hn
    exact hn ▸ Named.of_visible hr

theorem named_of_answerMarkFlashed {i : ℕ} {x : Option String} (hx : field x = some token)
    (hn : n ∈ responseUids (answerMarkFlashed .tcp d token holder).1) :
    Named d (.markFlashed i x) n := by
  unfold answerMarkFlashed at hn
  split at hn
  · rename_i hr
    exact Named.of_unresolved hx hr (Option.mem_toList.mp hn)
  · rename_i r hr
    split at hn
    · exact List.mem_singleton.mp hn ▸ Named.of_visible hr
    · split at hn
      · split at hn <;> cases hn
      · exact List.mem_singleton.mp hn ▸ Named.of_visible hr

theorem named_of_response {response : Response} (hr : remoteResponse d holder a = some response)
    (hn : n ∈ responseUids response) : Named d a n := by
  unfold remoteResponse at hr
  split at hr
  · split at hr <;> cases hr
    · rename_i hop
      exact named_of_opLock hop (Option.mem_toList.mp hn)
    · cases hn
  · split at hr <;> cases hr
    · rename_i hop
      exact named_of_opUnlock hop (Option.mem_toList.mp hn)
    · cases hn
  · split at hr <;> cases hr
    rename_i hop
    exact named_of_opFlashPrecheck hop (Option.mem_toList.mp hn)
  · split at hr <;> cases hr
    · rename_i hop
      exact named_of_opStreamPrecheck hop (Option.mem_toList.mp hn)
    · cases hn
  · cases hr
    obtain ⟨y, hy, rfl⟩ := List.mem_map.mp hn
    obtain ⟨q, hq, rfl⟩ := List.mem_map.mp hy
    obtain ⟨hget, -, -, hv⟩ := mem_snapshotLocalDevices_iff.mp hq
    exact Or.inr ⟨q, by rwa [deviceDict_record], hv⟩
  · split at hr <;> cases hr
    · cases hn
    · rename_i hx
      exact named_of_answerFind hx hn
  · split at hr <;> cases hr
    · cases hn
    · rename_i hx
      exact named_of_answerMarkFlashed hx hn
  · cases hr
    cases hn
  · cases hr

/-! ## Events -/

theorem mem_lockChanges_iff {lock : Option LockStatus} :
    (uid, lock) ∈ lockChanges m m' ↔ m.status uid ≠ m'.status uid ∧ lock = m'.status uid := by
  have hkey : ∀ {l : LockManager}, l.status uid ≠ none → uid ∈ l.keys := by
    intro l hl
    obtain ⟨st, hst⟩ := Option.ne_none_iff_exists'.mp hl
    exact List.mem_map_of_mem (Dict.mem_rows_iff_lookup.mpr hst)
  unfold lockChanges
  simp only [List.mem_map, List.mem_filter, List.mem_dedup, List.mem_append, decide_eq_true_eq,
    Prod.mk.injEq]
  constructor
  · rintro ⟨k, ⟨-, hne⟩, rfl, rfl⟩
    exact ⟨hne, rfl⟩
  · rintro ⟨hne, rfl⟩
    refine ⟨uid, ⟨?_, hne⟩, rfl, rfl⟩
    by_cases hm : m.status uid = none
    · exact Or.inr (hkey fun hm' => hne (hm.trans hm'.symm))
    · exact Or.inl (hkey hm)

theorem mem_tells_iff {y : Message} : y ∈ w.tells x ↔
    (x.toPeers = true ∧ y = .published x) ∨
      x.onBus = true ∧ ∃ i ∈ w.watchers, y = .watched i x := by
  unfold Exposed.tells
  rw [List.mem_append]
  refine or_congr ?_ ?_
  · split
    · rename_i h
      simp [h]
    · rename_i h
      simp [h]
  · split
    · rename_i h
      simp [h, eq_comm]
    · rename_i h
      simp [h]

/-- The record of an event with a virtual uid is a virtual board's. -/
def BusEvent.Honest : BusEvent → Prop
  | .device _ r => isVirtualUid r.uid = true → r.isVirtual = true
  | _ => True

/-- What is published is about no virtual uid. -/
theorem not_virtual_of_toPeers (hx : x.Honest) (hp : x.toPeers = true) (hu : x.uid = some uid) :
    isVirtualUid uid = false := by
  cases x with
  | device type r =>
    obtain rfl := Option.some.inj hu
    simp only [BusEvent.toPeers, publishDaemonEvent] at hp
    split at hp
    · cases hp
    · rename_i hv
      exact Bool.eq_false_iff.mpr fun h => hv (hx h)
  | lockState k lock =>
    obtain rfl := Option.some.inj hu
    simpa [BusEvent.toPeers] using hp
  | deviceRemoved => cases hp
  | _ => cases hu

theorem honest_of_get {type : EventType} (hs : s.Reserved) (hr : s.get uid = some r) :
    (BusEvent.device type r).Honest := by
  intro hu
  obtain rfl := uid_of_get hr
  exact hs r.uid r hr hu

theorem honest_of_real {type : EventType} (h : isVirtualUid r.uid = false) :
    (BusEvent.device type r).Honest := fun hu => by cases h.symm.trans hu

/-- The give-up loop announces rows it has just written. -/
theorem giveUpLoop_honest {c : Cycle} {l : List (String × ℕ)} {d d' : Daemon}
    {t timedOut : List DeviceRecord} (h : Daemon.giveUpLoop c l d t = (d', .ok timedOut))
    (hd : d.store.Reserved) (ht : ∀ r ∈ t, (BusEvent.device .identity r).Honest) :
    ∀ r ∈ timedOut, (BusEvent.device .identity r).Honest := by
  induction l generalizing d t with
  | nil =>
    cases h
    exact ht
  | cons q l ih =>
    obtain ⟨k, deadline⟩ := q
    unfold Daemon.giveUpLoop at h
    split at h
    · split at h
      · cases h
      · rename_i d₁ hgive
        have hwrite : d₁.store = d.store.write (.knownBlank c.wall k) := by
          unfold Daemon.giveUpOne at hgive
          cases hb : d.store.applyKnownBlank c.wall k with
          | error e =>
            rw [hb] at hgive
            cases hgive
          | ok s =>
            rw [hb] at hgive
            cases hgive
            rw [Store.write, hb]
            rfl
        have hd₁ : d₁.store.Reserved := hwrite ▸ (write_keeps rfl).reserved hd
        refine ih h hd₁ fun r hr => ?_
        rcases List.mem_append.mp hr with (hr | hr)
        · exact ht r hr
        · exact honest_of_get hd₁ (Option.mem_toList.mp hr)
    · exact ih h hd ht

/-- The daemon announces what it scans and what it had attached, and neither is virtual. -/
theorem cycleEvents_honest {c : Cycle} (hd : d.store.Reserved)
    (hc : ∀ uid ∈ c.scan.keys, isVirtualUid uid = false) : ∀ x ∈ cycleEvents d c, x.Honest := by
  intro x hx
  unfold cycleEvents at hx
  split at hx
  · cases hx
  rename_i timedOut hgive
  have hmem : ∀ {l : List DeviceRecord} {r : DeviceRecord}, r ∈ l →
      l.filter (fun q => q.uid = r.uid) ≠ [] := by
    intro l r hr hnil
    exact List.filter_eq_nil_iff.mp hnil r hr (by simp)
  rcases List.mem_append.mp hx with (hx | hx)
  · rcases List.mem_append.mp hx with (hx | hx)
    · obtain ⟨r, hr, rfl⟩ := List.mem_map.mp hx
      have hne := hmem hr
      rw [Replay.diff_attached, Replay.attached_records] at hne
      split at hne
      · rename_i hnew
        exact honest_of_real (hc r.uid hnew.1)
      · exact absurd rfl hne
    · obtain ⟨r, hr, rfl⟩ := List.mem_map.mp hx
      have hne := hmem hr
      rw [Replay.diff_detached, Replay.detached_records _ _ _ _ d.previouslyAttached_nodup] at hne
      split at hne
      · rename_i hprev
        obtain ⟨q, hq, -, -, hv⟩ := Daemon.mem_previouslyAttached_iff.mp hprev.1
        refine honest_of_real (Bool.eq_false_iff.mpr fun hu => ?_)
        cases hv.symm.trans (hd r.uid q hq hu)
      · exact absurd rfl hne
  · obtain ⟨r, hr, rfl⟩ := List.mem_map.mp hx
    exact giveUpLoop_honest (Prod.ext rfl hgive) ((Daemon.diff_keeps hc).reserved hd)
      (fun q hq => by cases hq) r hr

end Outlets

section Runs

variable {C : Casing} {w w' : Exposed} {a : ExposedAction} {b b' : Boards} {x : BoardAction}
  {n : String} {store : Store}

theorem Boards.reserved_step (hk : b.Kept) (hb : b.sys.daemon.store.Reserved)
    (hs : b.step x = some b') : b'.sys.daemon.store.Reserved := by
  cases x with
  | act a =>
    obtain ⟨-, hp, sys, hsys, rfl⟩ := act_step hs
    exact (System.store_keeps hsys hp).reserved hb
  | register i now request =>
    rcases register_step hs with (rfl | ⟨c, reg, -, -, -, -, rfl⟩)
    · exact hb
    · exact hb.upsertVirtual now reg.uid reg.name reg.role reg.serial
  | ack i written =>
    obtain ⟨reg, -, rfl⟩ := ack_step hs
    exact hb
  | detach i now =>
    obtain ⟨reg, hd, rfl⟩ := detach_step hs
    obtain ⟨-, hlive⟩ := hk.serves i reg (by rw [Serves, hd]; rfl)
    have hv := (hk.rows reg.uid).mpr ⟨_, reg, hlive, rfl⟩
    rw [detachVirtual_of_live hlive]
    refine hb.of_sub fun k => ?_
    simp only [System.takeAway_store]
    rw [get_removeVirtual hv]
    split
    · exact Or.inl rfl
    · exact Or.inr rfl

/-- What a section leaves to be told was read from the store before or after it. -/
theorem sectionEvents_honest (hb : b.sys.daemon.store.Reserved)
    (hb' : b'.sys.daemon.store.Reserved) (hs : b.step x = some b') :
    ∀ e ∈ sectionEvents b b' x, e.Honest := by
  intro e he
  unfold sectionEvents at he
  split at he
  · obtain ⟨-, hp, -⟩ := Boards.act_step hs
    refine cycleEvents_honest hb (fun uid hu => ?_) e he
    simpa using List.all_eq_true.mp hp uid hu
  · obtain ⟨r, hr, rfl⟩ := List.mem_map.mp he
    exact honest_of_get hb' (Option.mem_toList.mp hr)
  · obtain ⟨r, hr, rfl⟩ := List.mem_map.mp he
    exact honest_of_get hb' (Option.mem_toList.mp hr)
  · rcases List.mem_append.mp he with (he | he)
    · obtain ⟨uid, -, rfl⟩ := List.mem_map.mp he
      exact trivial
    · obtain ⟨host, -, rfl⟩ := List.mem_map.mp he
      exact trivial
  · split at he
    · cases he
    · rename_i i now request _ reg t hop
      have ht : t.sys.daemon.store = b'.sys.daemon.store := by
        simp only [Boards.step] at hs
        split at hs
        · cases hs
        · split at hs
          · rw [hop] at hs
            rw [← Option.some.inj hs]
          · cases hs
      obtain ⟨r, hr, he⟩ := List.mem_flatMap.mp he
      rw [ht] at hr
      rcases List.mem_cons.mp he with (rfl | he)
      · exact honest_of_get hb' (Option.mem_toList.mp hr)
      · obtain rfl := List.mem_singleton.mp he
        exact honest_of_get hb' (Option.mem_toList.mp hr)
  · split at he
    · split at he
      · obtain ⟨r, hr, rfl⟩ := List.mem_map.mp he
        exact fun _ => (Option.filter_eq_some_iff.mp (Option.mem_toList.mp hr)).2
      · cases he
    · cases he
  · cases he

namespace Exposed

/-- What the outlets rest on: virtual uids are virtual boards', in the store and in the events
still to be told. -/
structure Sound (w : Exposed) : Prop where
  kept : w.boards.Kept
  reserved : w.boards.sys.daemon.store.Reserved
  honest : ∀ e ∈ w.pending, e.Honest

theorem answerMarkFlashed_daemon (d : Daemon) (token : String) (holder : HolderRef) :
    (answerMarkFlashed .tcp d token holder).2 = d ∨
      ∃ uid, (answerMarkFlashed .tcp d token holder).2 =
        { d with store := d.store.write (.flashCount uid) } := by
  unfold answerMarkFlashed
  split
  · exact Or.inl rfl
  · rename_i r hr
    split
    · exact Or.inl rfl
    · split
      · split
        · rename_i s hs
          refine Or.inr ⟨r.uid, ?_⟩
          rw [Store.write, hs]
          rfl
        · exact Or.inl rfl
      · exact Or.inl rfl

theorem Sound.start (hs : store.Reserved) : (start C store).Sound := by
  refine ⟨Boards.Kept.start C store, ?_, fun e he => by cases he⟩
  exact hs.of_sub (get_sweepVirtual_cases store)

theorem Sound.step (hw : w.Sound) (hs : w.step a = some w') : w'.Sound := by
  cases a with
  | board x =>
    simp only [Exposed.step] at hs
    split at hs
    · obtain ⟨b, hb, rfl⟩ := Option.map_eq_some_iff.mp hs
      have hres := Boards.reserved_step hw.kept hw.reserved hb
      refine ⟨hw.kept.step hb, hres, fun e he => ?_⟩
      rcases List.mem_append.mp he with (he | he)
      · exact hw.honest e he
      · exact sectionEvents_honest hw.reserved hres hb e he
    · cases hs
  | list i =>
    obtain ⟨c, -, rfl⟩ := Option.map_eq_some_iff.mp hs
    exact hw
  | find i token =>
    obtain ⟨c, -, rfl⟩ := Option.map_eq_some_iff.mp hs
    exact hw
  | markFlashed i token =>
    obtain ⟨c, -, rfl⟩ := Option.map_eq_some_iff.mp hs
    split
    · exact hw
    · rename_i token _
      rcases answerMarkFlashed_daemon w.boards.sys.daemon token c.holder with (he | ⟨uid, he⟩)
      · simp only [he]
        exact hw
      · simp only [he]
        have hb : w.boards.step (.act (.write (.flashCount uid))) = some { w.boards with
            sys := w.boards.sys.setDaemon { w.boards.sys.daemon with
              store := w.boards.sys.daemon.store.write (.flashCount uid) } } := rfl
        exact ⟨hw.kept.step hb, Boards.reserved_step hw.kept hw.reserved hb, hw.honest⟩
  | watch i =>
    obtain ⟨c, -, rfl⟩ := Option.map_eq_some_iff.mp hs
    exact ⟨hw.kept, hw.reserved, hw.honest⟩
  | publish n =>
    simp only [Exposed.step] at hs
    split at hs <;> cases hs
    exact ⟨hw.kept, hw.reserved, fun e he => hw.honest e (List.mem_of_mem_eraseIdx he)⟩
  | tell e =>
    simp only [Exposed.step] at hs
    split at hs <;> cases hs
    rename_i hnone
    refine ⟨hw.kept, hw.reserved, fun y hy => ?_⟩
    rcases List.mem_append.mp hy with (hy | hy)
    · exact hw.honest y hy
    · obtain rfl := List.mem_singleton.mp hy
      cases y with
      | device => cases hnone
      | _ => exact trivial
  | snapshot =>
    obtain rfl := Option.some.inj hs
    exact hw

/-! ## When a uid is carried -/

/-- A remote client asks for the uid, which its port does not resolve. -/
def echoes (w : Exposed) (a : ExposedAction) (n : String) : Bool :=
  asks a = some n && ((client a).bind w.boards.sys.conns.lookup).any (·.server = .tcp) &&
    !(resolveVisible .tcp w.boards.sys.daemon.casing w.boards.sys.daemon.store n).isOk

/-- The bus has an event about the uid: one that is told now, or a change of its lock. -/
def announces (w : Exposed) (a : ExposedAction) (n : String) : Bool :=
  match a with
  | .board x => (w.boards.step x).any fun b =>
    w.boards.sys.daemon.locks.status n ≠ b.sys.daemon.locks.status n
  | .publish k => w.pending[k]?.any fun e => e.uid = some n && e.onBus
  | _ => false

/-- A remote connection watches while the bus has an event about the uid. -/
def overhears (w : Exposed) (a : ExposedAction) (n : String) : Bool :=
  !w.watchers.isEmpty && w.announces a n

theorem echoes_iff : w.echoes a n = true ↔ asks a = some n ∧
    (∃ i c, client a = some i ∧ w.boards.sys.conns.lookup i = some c ∧ c.server = .tcp) ∧
      ∃ e, resolveVisible .tcp w.boards.sys.daemon.casing w.boards.sys.daemon.store n =
        .error e := by
  have hconn : ((client a).bind w.boards.sys.conns.lookup).any (·.server = .tcp) = true ↔
      ∃ i c, client a = some i ∧ w.boards.sys.conns.lookup i = some c ∧ c.server = .tcp := by
    cases hi : client a with
    | none => simp
    | some i => simp [Option.any_eq_true]
  have hopen (answer : Except ApiError DeviceRecord) :
      (!answer.isOk) = true ↔ ∃ e, answer = .error e := by
    cases answer <;> simp [Except.isOk, Except.toBool]
  unfold echoes
  rw [Bool.and_eq_true, Bool.and_eq_true, decide_eq_true_iff, hconn, hopen, and_assoc]

theorem carried_response_iff (hw : w.Sound) (hn : isVirtualUid n = true) :
    (∃ m ∈ w.responses a, n ∈ m.uids) ↔ w.echoes a n = true := by
  rw [echoes_iff]
  constructor
  · rintro ⟨m, hm, hnm⟩
    unfold responses at hm
    split at hm
    · cases hm
    rename_i i hi
    split at hm
    · cases hm
    rename_i c hc
    split at hm
    · rename_i hserver
      obtain ⟨response, hresponse, rfl⟩ := List.mem_map.mp hm
      rcases named_of_response (Option.mem_toList.mp hresponse) hnm with (⟨hask, he⟩ | ⟨r, hr, hv⟩)
      · exact ⟨hask, ⟨i, c, hi, hc, hserver⟩, he⟩
      · cases hv.symm.trans (hw.reserved n r hr hn)
    · cases hm
  · rintro ⟨hask, ⟨i, c, hi, hc, hserver⟩, e, he⟩
    refine ⟨.response i (.error e), ?_, ?_⟩
    · simp only [responses, hi, hc, if_pos hserver, remoteResponse_of_unresolved hask he]
      exact List.mem_singleton_self _
    · exact Option.mem_toList.mpr (errorUid_of_resolveVisible he)

theorem events_honest (hw : w.Sound) : ∀ e ∈ w.events a, e.Honest := by
  intro e he
  unfold events at he
  split at he
  · split at he
    · cases he
    · obtain ⟨p, -, rfl⟩ := List.mem_map.mp he
      exact trivial
  · exact hw.honest e (List.mem_of_getElem? (Option.mem_toList.mp he))
  · cases he

theorem announces_iff : w.announces a n = true ↔
    ∃ e ∈ w.events a, e.uid = some n ∧ e.onBus = true := by
  cases a with
  | board x =>
    simp only [announces, events]
    cases hs : w.boards.step x with
    | none => simp
    | some b =>
      simp only [Option.any_some, decide_eq_true_eq]
      constructor
      · intro hne
        exact ⟨_, List.mem_map_of_mem (mem_lockChanges_iff.mpr ⟨hne, rfl⟩), rfl, rfl⟩
      · rintro ⟨e, he, hu, -⟩
        obtain ⟨⟨uid, lock⟩, hp, rfl⟩ := List.mem_map.mp he
        obtain rfl := Option.some.inj hu
        exact (mem_lockChanges_iff.mp hp).1
  | publish k => simp [announces, events, Option.any_eq_true]
  | _ => simp [announces, events]

/-- A peer is sent no event with a virtual uid, so it is only the watchers that hear of it. -/
theorem carried_event_iff (hw : w.Sound) (hn : isVirtualUid n = true) :
    (∃ m ∈ (w.events a).flatMap w.tells, n ∈ m.uids) ↔ w.overhears a n = true := by
  have hover : w.overhears a n = true ↔ w.watchers ≠ [] ∧ w.announces a n = true := by
    simp [overhears]
  rw [hover, announces_iff]
  constructor
  · rintro ⟨m, hm, hnm⟩
    obtain ⟨e, he, hm⟩ := List.mem_flatMap.mp hm
    rcases mem_tells_iff.mp hm with (⟨hp, rfl⟩ | ⟨hbus, i, hi, rfl⟩)
    · have hreal := not_virtual_of_toPeers (events_honest hw e he) hp (Option.mem_toList.mp hnm)
      cases hreal.symm.trans hn
    · exact ⟨List.ne_nil_of_mem hi, e, he, Option.mem_toList.mp hnm, hbus⟩
  · rintro ⟨hne, e, he, hu, hbus⟩
    obtain ⟨i, hi⟩ := List.exists_mem_of_ne_nil w.watchers hne
    refine ⟨.watched i e, List.mem_flatMap.mpr ⟨e, he, ?_⟩, Option.mem_toList.mpr hu⟩
    exact mem_tells_iff.mpr (Or.inr ⟨hbus, i, hi, rfl⟩)

theorem not_carried_reply (hw : w.Sound) (hn : isVirtualUid n = true) {m : Message}
    (hm : m ∈ w.replies a) : n ∉ m.uids := by
  unfold replies at hm
  split at hm
  · obtain rfl := List.mem_singleton.mp hm
    intro hnm
    obtain ⟨dict, hd, hu⟩ := List.mem_filterMap.mp hnm
    obtain ⟨r, hr, rfl⟩ := List.mem_map.mp hd
    obtain rfl := Option.some.inj hu
    obtain ⟨hget, -, -, hv⟩ := mem_snapshotLocalDevices_iff.mp hr
    cases hv.symm.trans (hw.reserved r.uid r hget hn)
  · cases hm

theorem not_carried_to_peers (hw : w.Sound) (hn : isVirtualUid n = true) {m : Message}
    (hm : m ∈ w.sends a) (hp : m.isForPeers = true) : n ∉ m.uids := by
  rcases List.mem_append.mp hm with (hm | hm)
  · rcases List.mem_append.mp hm with (hm | hm)
    · unfold responses at hm
      split at hm
      · cases hm
      split at hm
      · cases hm
      split at hm
      · obtain ⟨response, -, rfl⟩ := List.mem_map.mp hm
        cases hp
      · cases hm
    · exact not_carried_reply hw hn hm
  · obtain ⟨e, he, hm⟩ := List.mem_flatMap.mp hm
    rcases mem_tells_iff.mp hm with (⟨hpeers, rfl⟩ | ⟨-, i, -, rfl⟩)
    · intro hnm
      have hreal := not_virtual_of_toPeers (events_honest hw e he) hpeers (Option.mem_toList.mp hnm)
      cases hreal.symm.trans hn
    · cases hp

/-- Nothing that the action sends carries the uid of a board registered so far. -/
def Confined (w : Exposed) (a : ExposedAction) : Prop :=
  ∀ m ∈ w.sends a, ∀ reg ∈ w.boards.made, reg.uid ∉ m.uids

instance (w : Exposed) (a : ExposedAction) : Decidable (w.Confined a) :=
  inferInstanceAs (Decidable (∀ m ∈ w.sends a, ∀ reg ∈ w.boards.made, reg.uid ∉ m.uids))

/-- No remote client hears of a registered board, or asks for one and is answered with its uid. -/
def Unheard (w : Exposed) (a : ExposedAction) : Prop :=
  ∀ reg ∈ w.boards.made, w.overhears a reg.uid = false ∧ w.echoes a reg.uid = false

instance (w : Exposed) (a : ExposedAction) : Decidable (w.Unheard a) :=
  inferInstanceAs (Decidable (∀ reg ∈ w.boards.made,
    w.overhears a reg.uid = false ∧ w.echoes a reg.uid = false))

theorem confined_iff (hw : w.Sound) : w.Confined a ↔ w.Unheard a := by
  have huid : ∀ reg : VirtualRegistration, isVirtualUid reg.uid = true := Boards.isVirtualUid_uid
  constructor
  · intro h reg hreg
    constructor
    · rw [Bool.eq_false_iff]
      intro hover
      obtain ⟨m, hm, hu⟩ := (carried_event_iff hw (huid reg)).mpr hover
      exact h m (List.mem_append_right _ hm) reg hreg hu
    · rw [Bool.eq_false_iff]
      intro hecho
      obtain ⟨m, hm, hu⟩ := (carried_response_iff hw (huid reg)).mpr hecho
      exact h m (List.mem_append_left _ (List.mem_append_left _ hm)) reg hreg hu
  · intro h m hm reg hreg hu
    obtain ⟨hover, hecho⟩ := h reg hreg
    rcases List.mem_append.mp hm with (hm | hm)
    · rcases List.mem_append.mp hm with (hm | hm)
      · cases hecho.symm.trans ((carried_response_iff hw (huid reg)).mp ⟨m, hm, hu⟩)
      · exact not_carried_reply hw (huid reg) hm hu
    · cases hover.symm.trans ((carried_event_iff hw (huid reg)).mp ⟨m, hm, hu⟩)

/-- The stores that a registry can find: a new one, or what the run of an earlier one has left. -/
inductive Persisted : Store → Prop
  | empty : Persisted Store.empty
  | left {C : Casing} {store : Store} {as : List ExposedAction} {w : Exposed} (h : Persisted store)
      (hr : Runs.exec Exposed.step (start C store) as = some w) :
      Persisted w.boards.sys.daemon.store

theorem sound_of_exec {as : List ExposedAction} (hs : store.Reserved)
    (hr : Runs.exec Exposed.step (start C store) as = some w) : w.Sound :=
  Runs.inv_of_exec (fun _ _ _ hw h => hw.step h) (Sound.start hs) hr

theorem Persisted.reserved (h : Persisted store) : store.Reserved := by
  induction h with
  | empty => exact Reserved.empty
  | left _ hr ih => exact (sound_of_exec ih hr).reserved

/-- In every run nothing that goes to a peer carries the uid of a registered board; and nothing at
all does exactly in the runs in which no remote client hears or asks of one. -/
theorem confined_to_local_socket (C : Casing) (store : Store) (hstore : Persisted store)
    (as : List ExposedAction) :
    Runs.Meets Exposed.step (fun w a => ∀ m ∈ w.sends a, m.isForPeers = true →
      ∀ reg ∈ w.boards.made, reg.uid ∉ m.uids) (start C store) as ∧
    (Runs.Meets Exposed.step Confined (start C store) as ↔
      Runs.Meets Exposed.step Unheard (start C store) as) := by
  have hstart : (start C store).Sound := Sound.start hstore.reserved
  constructor
  · refine Runs.meets_of_inv ?_ (fun w a w' _ hw hs => Sound.step hw hs) hstart
    intro w a _ hw m hm hp reg _
    exact not_carried_to_peers hw (Boards.isVirtualUid_uid reg) hm hp
  · exact Runs.meets_congr (fun w a hw => confined_iff hw) (fun w a w' hw hs => hw.step hs) hstart

/-- A simulator registers a board and locks it; a remote client lists and finds what there is. -/
def simulated : List ExposedAction :=
  [.board (.act (.cycle .oneBoard)), .board (.act (.connect 1 .tcp System.laptop)),
    .board (.act (.connect 2 .socket Boards.simulator)), .board (.register 2 5 (.ok Boards.bob)),
    .publish 0, .publish 0, .publish 0, .board (.ack 2 true), .snapshot, .list 1,
    .find 1 (some "9900a"), .board (.act (.lock 1 6 ⟨some "9900a", some "serial", none⟩)),
    .board (.act (.connect 3 .socket ⟨.local, "42", some 42, none⟩)),
    .board (.act (.lock 3 6 ⟨some "sim-bob", some "serial", none⟩)), .board (.detach 2 7),
    .publish 0]

theorem confined_simulated :
    (Runs.exec Exposed.step (start .ascii Store.empty) simulated).isSome = true ∧
      Runs.Meets Exposed.step Confined (start .ascii Store.empty) simulated := by
  have hm : Runs.Meets Exposed.step Unheard (start .ascii Store.empty) simulated := by decide
  exact ⟨by decide, (confined_to_local_socket .ascii Store.empty .empty simulated).2.mpr hm⟩

/-- A remote client watches while a simulator registers its board. -/
def watched : List ExposedAction :=
  [.board (.act (.connect 1 .tcp System.laptop)), .watch 1,
    .board (.act (.connect 2 .socket Boards.simulator)), .board (.register 2 5 (.ok Boards.bob)),
    .publish 0]

/-- The attach event of the board is written on the remote connection. -/
theorem not_confined : ¬ ∀ (C : Casing) (store : Store) (as : List ExposedAction) (w : Exposed),
    Persisted store → Runs.exec Exposed.step (start C store) as = some w →
      Runs.Meets Exposed.step Confined (start C store) as := by
  have hrun : (Runs.exec Exposed.step (start .ascii Store.empty) watched).isSome = true := by decide
  obtain ⟨w, hw⟩ := Option.isSome_iff_exists.mp hrun
  have hleak : ¬ Runs.Meets Exposed.step Confined (start .ascii Store.empty) watched := by decide
  exact fun hall => hleak (hall .ascii Store.empty watched w .empty hw)

end Exposed

end Runs

end MbTools.Virtual
