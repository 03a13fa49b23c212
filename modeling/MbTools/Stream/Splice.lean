import MbTools.Lib.Pump
import MbTools.Lib.Runs
import MbTools.Registry.Locks
import MbTools.Stream.LineMode

/-! # The splice of a virtual board's stream

Once an endpoint has accepted a stream its connection and the client's are spliced: one thread
copies what the client sends, another what the endpoint sends, and the first to end shuts down the
socket the other one reads. The thread of the client's connection then closes the endpoint and
gives the lock back.
-/

namespace MbTools.Stream

open Chunks Lines Runs

/-- Where the thread of the connection is in `_handle_virtual_stream`. -/
inductive SpliceStage where
  | pumping
  | joining
  | closing
  | releasing
  | done
  deriving DecidableEq, Repr

structure Splice where
  /-- From the client to the endpoint, on the connection's own thread. -/
  up : Pump UInt8
  /-- `_pump_endpoint_to_client`. -/
  down : Pump UInt8
  stage : SpliceStage
  readerGone : Bool
  connShut : Bool
  /-- Another thread has shut down the client's connection. -/
  forced : Bool
  locks : LockManager
  acquiredUids : List String

inductive SpliceAction where
  | up (m : Pump.Move)
  | down (m : Pump.Move)
  /-- The end of the reader: it shuts down the client's connection. -/
  | hangUp
  /-- The loop is over: the endpoint's socket is shut down. -/
  | shutEndpoint
  | join
  | timeOut
  | close
  | release
  /-- A `force_unlock` shuts down the client's connection. -/
  | force
  /-- Another thread leaves the lock table so. -/
  | table (locks : LockManager)

/-- A step of one of the two threads. -/
def SpliceAction.isThreads : SpliceAction → Bool
  | .force => false
  | .table _ => false
  | _ => true

namespace Splice

/-- The splice of what `virtualStreamOpen` hands on. -/
def start (ep : LineBuffer) (client : Source UInt8) (locks : LockManager)
    (acquiredUids : List String) : Splice where
  up := .start [] client
  down := .start ep.buf ep.sock
  stage := .pumping
  readerGone := false
  connShut := false
  forced := false
  locks := locks
  acquiredUids := acquiredUids

/-- The endpoint's socket is closed. -/
def endpointClosed (s : Splice) : Bool := s.stage = .releasing ∨ s.stage = .done

/-- May the connection's thread make this move? A `recv` is cut by a shutdown. -/
def upMay (s : Splice) : Pump.Move → Bool
  | .cut => s.connShut
  | _ => true

/-- May the reader make this move? Nothing is read off a closed socket or written to one that is
shut down. -/
def downMay (s : Splice) : Pump.Move → Bool
  | .recv => !s.endpointClosed
  | .cut => s.stage ≠ .pumping
  | .write => !s.connShut
  | .fail _ => true

variable (uid : String) (holder : HolderRef)

def step (s : Splice) : SpliceAction → Option Splice
  | .up m =>
    if s.stage = .pumping ∧ s.upMay m then (s.up.move 65535 m).map ({ s with up := · }) else none
  | .down m =>
    if s.downMay m then (s.down.move 65535 m).map ({ s with down := · }) else none
  | .hangUp =>
    if s.down.ended ∧ !s.readerGone then some { s with readerGone := true, connShut := true }
    else none
  | .shutEndpoint =>
    if s.stage = .pumping ∧ s.up.ended then some { s with stage := .joining } else none
  | .join => if s.stage = .joining ∧ s.readerGone then some { s with stage := .closing } else none
  | .timeOut => if s.stage = .joining then some { s with stage := .closing } else none
  | .close => if s.stage = .closing then some { s with stage := .releasing } else none
  | .release =>
    if s.stage = .releasing then
      some { s with
        stage := .done
        locks := (s.locks.release uid holder).1
        acquiredUids := s.acquiredUids.filter (· ≠ uid) }
    else none
  | .force => some { s with forced := true, connShut := true }
  | .table locks => some { s with locks }

/-- This holder has no lock on the board. -/
def Unheld (locks : LockManager) : Prop :=
  ∀ st, locks.status uid = some st → st.holder ≠ holder

/-- What holds of a splice whose client sends `client` and whose endpoint sends `rest` behind the
line that accepts the stream. -/
structure Kept (client rest : List UInt8) (s : Splice) : Prop where
  up : s.up.Sound client
  down : s.down.Sound rest
  ended : s.stage ≠ .pumping → s.up.ended = true
  reader : s.readerGone = true → s.down.ended = true
  shut : s.connShut = true → s.forced = true ∨ s.readerGone = true
  /-- A loop is cut short by the end of the other, and only one of them is. -/
  downCut : s.down.phase = .ended .cut → s.stage ≠ .pumping
  upCut : s.up.phase = .ended .cut →
    s.forced = true ∨ s.down.ended = true ∧ s.down.phase ≠ .ended .cut
  released : s.stage = .done → uid ∉ s.acquiredUids

/-- How many steps the two threads have still to take at most. -/
def rank (s : Splice) : ℕ :=
  s.up.rank + s.down.rank + (if s.readerGone then 0 else 1) +
    match s.stage with
    | .pumping => 4
    | .joining => 3
    | .closing => 2
    | .releasing => 1
    | .done => 0

/-- What one step does. -/
inductive Turn (uid : String) (holder : HolderRef) (s : Splice) : SpliceAction → Splice → Prop where
  | up {m : Pump.Move} {p : Pump UInt8} : s.stage = .pumping → s.upMay m = true →
      s.up.move 65535 m = some p → Turn uid holder s (.up m) { s with up := p }
  | down {m : Pump.Move} {p : Pump UInt8} : s.downMay m = true →
      s.down.move 65535 m = some p → Turn uid holder s (.down m) { s with down := p }
  | hangUp : s.down.ended = true → s.readerGone = false →
      Turn uid holder s .hangUp { s with readerGone := true, connShut := true }
  /-- The connection's thread goes on behind its loop. -/
  | advance {a : SpliceAction} {next : SpliceStage} : a.isThreads = true →
      (s.stage = .pumping → s.up.ended = true) → s.endpointClosed = false →
      next ≠ .pumping → next ≠ .done → ({ s with stage := next } : Splice).rank < s.rank →
      Turn uid holder s a { s with stage := next }
  | release : s.stage = .releasing → Turn uid holder s .release
      { s with
        stage := .done
        locks := (s.locks.release uid holder).1
        acquiredUids := s.acquiredUids.filter (· ≠ uid) }
  | force : Turn uid holder s .force { s with forced := true, connShut := true }
  | table {locks : LockManager} : Turn uid holder s (.table locks) { s with locks }

section Steps

variable {uid : String} {holder : HolderRef} {s s' t : Splice} {a : SpliceAction}
  {as bs : List SpliceAction} {m : Pump.Move} {client rest : List UInt8}

theorem turn_of_step (h : s.step uid holder a = some s') : Turn uid holder s a s' := by
  cases a with
  | up m =>
    simp only [step, Option.ite_none_right_eq_some, Option.map_eq_some_iff] at h
    obtain ⟨⟨hstage, hmay⟩, p, hp, rfl⟩ := h
    exact .up hstage hmay hp
  | down m =>
    simp only [step, Option.ite_none_right_eq_some, Option.map_eq_some_iff] at h
    obtain ⟨hmay, p, hp, rfl⟩ := h
    exact .down hmay hp
  | hangUp =>
    simp only [step, Option.ite_none_right_eq_some, Bool.not_eq_true'] at h
    obtain ⟨⟨hends, hgone⟩, ⟨⟩⟩ := h
    exact .hangUp hends hgone
  | shutEndpoint =>
    simp only [step, Option.ite_none_right_eq_some] at h
    obtain ⟨⟨hstage, hends⟩, ⟨⟩⟩ := h
    exact .advance rfl (fun _ => hends) (by simp [endpointClosed, hstage]) nofun nofun
      (by simp [rank, hstage])
  | join =>
    simp only [step, Option.ite_none_right_eq_some] at h
    obtain ⟨⟨hstage, -⟩, ⟨⟩⟩ := h
    exact .advance rfl (by simp [hstage]) (by simp [endpointClosed, hstage]) nofun nofun
      (by simp [rank, hstage])
  | timeOut =>
    simp only [step, Option.ite_none_right_eq_some] at h
    obtain ⟨hstage, ⟨⟩⟩ := h
    exact .advance rfl (by simp [hstage]) (by simp [endpointClosed, hstage]) nofun nofun
      (by simp [rank, hstage])
  | close =>
    simp only [step, Option.ite_none_right_eq_some] at h
    obtain ⟨hstage, ⟨⟩⟩ := h
    exact .advance rfl (by simp [hstage]) (by simp [endpointClosed, hstage]) nofun nofun
      (by simp [rank, hstage])
  | release =>
    simp only [step, Option.ite_none_right_eq_some] at h
    obtain ⟨hstage, ⟨⟩⟩ := h
    exact .release hstage
  | force =>
    obtain rfl := Option.some.inj h
    exact .force
  | table locks =>
    obtain rfl := Option.some.inj h
    exact .table

theorem kept_start (ep : LineBuffer) (source : Source UInt8) (locks : LockManager)
    (acquiredUids : List String) :
    Kept uid source.items ep.items (start ep source locks acquiredUids) where
  up := Pump.sound_start [] source
  down := Pump.sound_start ep.buf ep.sock
  ended := fun h => absurd rfl h
  reader := nofun
  shut := nofun
  downCut := fun h => by
    have ho : (Pump.start ep.buf ep.sock).ended = true := Pump.ended_eq_true_iff.mpr ⟨.cut, h⟩
    simp at ho
  upCut := nofun
  released := nofun

theorem Kept.step (hk : Kept uid client rest s)
    (h : s.step uid holder a = some s') : Kept uid client rest s' := by
  cases turn_of_step h with
  | @up m p hstage hmay hp =>
    refine { hk with up := hk.up.move hp, ended := fun hne => absurd hstage hne, upCut := ?_ }
    intro hcut
    by_cases hm : m = .cut
    · subst hm
      refine (hk.shut hmay).imp_right fun hgone => ⟨hk.reader hgone, fun hc => ?_⟩
      exact hk.downCut hc hstage
    · exact absurd hcut (Pump.phase_ne_cut hm hp)
  | @down m p hmay hp =>
    have hgoes : s.down.ended = false := Pump.not_ended_of_move hp
    refine { hk with down := hk.down.move hp, reader := ?_, downCut := ?_, upCut := ?_ }
    · intro hgone
      exact absurd (hk.reader hgone) (by simp [hgoes])
    · intro hcut
      by_cases hm : m = .cut
      · subst hm
        simpa [downMay] using hmay
      · exact absurd hcut (Pump.phase_ne_cut hm hp)
    · intro hcut
      refine (hk.upCut hcut).imp_right fun ⟨hends, _⟩ => ?_
      exact absurd hends (by simp [hgoes])
  | hangUp hends => exact { hk with reader := fun _ => hends, shut := fun _ => .inr rfl }
  | @advance _ next _ hends _ hpump hdone =>
    refine { hk with
      ended := fun _ => ?_, downCut := fun _ => hpump, released := fun hd => absurd hd hdone }
    by_cases hstage : s.stage = .pumping
    · exact hends hstage
    · exact hk.ended hstage
  | release hstage =>
    exact { hk with
      ended := fun _ => hk.ended (by simp [hstage])
      downCut := fun _ => nofun
      released := fun _ => by simp }
  | force => exact { hk with shut := fun _ => .inl rfl, upCut := fun _ => .inl rfl }
  | table => exact { hk with }

theorem kept_of_run (hk : Kept uid client rest s)
    (hr : exec (step uid holder) s as = some s') : Kept uid client rest s' :=
  inv_of_exec (fun _ _ _ => Kept.step) hk hr

theorem rank_of_threads (ha : a.isThreads = true) (h : s.step uid holder a = some s') :
    s'.rank < s.rank := by
  cases turn_of_step h with
  | up _ _ hp =>
    have := Pump.rank_move hp
    simp only [rank]
    omega
  | down _ hp =>
    have := Pump.rank_move hp
    simp only [rank]
    omega
  | hangUp _ hgone => simp [rank, hgone]
  | advance _ _ _ _ _ hrank => exact hrank
  | release hstage => simp [rank, hstage]
  | force => cases ha
  | table => cases ha

theorem rank_of_others (ha : a.isThreads = false) (h : s.step uid holder a = some s') :
    s'.rank = s.rank := by
  cases turn_of_step h with
  | force => rfl
  | table => rfl
  | advance hthreads => simp [hthreads] at ha
  | up _ _ _ => cases ha
  | down _ _ => cases ha
  | hangUp _ _ => cases ha
  | release _ => cases ha

/-- Whatever the other threads do, the two take a step at most as often as their rank says. -/
theorem countP_add_rank (hr : exec (step uid holder) s as = some s') :
    as.countP SpliceAction.isThreads + s'.rank ≤ s.rank := by
  induction as generalizing s with
  | nil =>
    obtain rfl := Option.some.inj hr
    simp
  | cons a as ih =>
    obtain ⟨t, ht, hr⟩ := exec_cons.mp hr
    have hrun := ih hr
    cases ha : a.isThreads with
    | true =>
      have hlt := rank_of_threads ha ht
      rw [List.countP_cons_of_pos ha]
      omega
    | false =>
      have heq := rank_of_others ha ht
      rw [List.countP_cons_of_neg (by simp [ha])]
      omega

/-- While one of the two threads is not over, one of them can go on. -/
theorem exists_threads_step (h : ¬ (s.stage = .done ∧ s.readerGone = true)) :
    ∃ a, a.isThreads = true ∧ (s.step uid holder a).isSome = true := by
  cases hstage : s.stage with
  | pumping =>
    cases ho : s.up.ended with
    | true => exact ⟨.shutEndpoint, rfl, by simp [step, hstage, ho]⟩
    | false =>
      rcases Pump.exists_move (n := 65535) ho with ⟨p, hp⟩ | ⟨⟨p, hp⟩, -⟩
      · exact ⟨.up .recv, rfl, by simp [step, hstage, upMay, hp]⟩
      · exact ⟨.up .write, rfl, by simp [step, hstage, upMay, hp]⟩
  | joining => exact ⟨.timeOut, rfl, by simp [step, hstage]⟩
  | closing => exact ⟨.close, rfl, by simp [step, hstage]⟩
  | releasing => exact ⟨.release, rfl, by simp [step, hstage]⟩
  | done =>
    have hgone : s.readerGone = false := by
      by_contra hg
      exact h ⟨hstage, by simpa using hg⟩
    cases ho : s.down.ended with
    | true => exact ⟨.hangUp, rfl, by simp [step, hgone, ho]⟩
    | false =>
      rcases Pump.exists_move (n := 65535) ho with ⟨p, hp⟩ | ⟨-, hfail⟩
      · -- the endpoint's socket is closed: the `recv` raises
        obtain ⟨hread, -⟩ := Pump.move_recv hp
        have hcut := (Pump.move_cut_eq_some_iff (n := 65535)).mpr ⟨hread, rfl⟩
        exact ⟨.down .cut, rfl, by simp [step, hstage, downMay, hcut]⟩
      · obtain ⟨p, hp⟩ := hfail 0
        exact ⟨.down (.fail 0), rfl, by simp [step, downMay, hp]⟩

/-- What is left of a splice once the endpoint's socket is closed. -/
structure Spent (s s' : Splice) : Prop where
  closed : s'.endpointClosed = true
  up : s'.up = s.up
  down : s'.down.out ++ s'.down.held <+: s.down.out ++ s.down.held

theorem Spent.step (hs : Spent t s) (h : s.step uid holder a = some s') : Spent t s' := by
  cases turn_of_step h with
  | up hstage _ _ =>
    have hclosed := hs.closed
    simp [endpointClosed, hstage] at hclosed
  | @down m p hmay hp =>
    have hm : m ≠ .recv := by
      rintro rfl
      simp [downMay, hs.closed] at hmay
    exact ⟨hs.closed, hs.up, (Pump.prefix_of_move hm hp).trans hs.down⟩
  | advance _ _ hopen _ _ _ =>
    rw [hs.closed] at hopen
    cases hopen
  | release _ => exact ⟨rfl, hs.up, hs.down⟩
  | hangUp _ _ => exact ⟨hs.closed, hs.up, hs.down⟩
  | force => exact ⟨hs.closed, hs.up, hs.down⟩
  | table => exact ⟨hs.closed, hs.up, hs.down⟩

theorem status_of_step {st : Option LockStatus}
    (ht : ∀ locks : LockManager, a = .table locks → locks.status uid = st)
    (hs : s.stage ≠ .done → s.locks.status uid = st) (h : s.step uid holder a = some s')
    (hd : s'.stage ≠ .done) : s'.locks.status uid = st := by
  cases turn_of_step h with
  | up _ _ _ => exact hs hd
  | down _ _ => exact hs hd
  | hangUp _ _ => exact hs hd
  | advance _ _ hopen _ _ _ =>
    refine hs fun hstage => ?_
    simp [endpointClosed, hstage] at hopen
  | release _ => exact absurd rfl hd
  | force => exact hs hd
  | table => exact ht _ rfl

/-- Only the release makes an end of it, and it leaves the holder without a lock on the board. -/
theorem released_of_step (h : s.step uid holder a = some s') (hs : s.stage ≠ .done)
    (hd : s'.stage = .done) : a = .release ∧ Unheld uid holder s'.locks := by
  cases turn_of_step h with
  | release _ =>
    refine ⟨rfl, fun st hst => ?_⟩
    rw [LockManager.release_status_self, Option.filter_eq_some_iff] at hst
    simpa using hst.2
  | advance _ _ _ _ hdone => exact absurd hd hdone
  | up _ _ _ => exact absurd hd hs
  | down _ _ => exact absurd hd hs
  | hangUp _ _ => exact absurd hd hs
  | force => exact absurd hd hs
  | table => exact absurd hd hs

/-- The board is given back. -/
structure Gone (uid : String) (holder : HolderRef) (s : Splice) : Prop where
  done : s.stage = .done
  unheld : Unheld uid holder s.locks

theorem Gone.step (hs : Gone uid holder s)
    (ht : ∀ locks : LockManager, a = .table locks → Unheld uid holder locks)
    (h : s.step uid holder a = some s') : Gone uid holder s' := by
  cases turn_of_step h with
  | up _ _ _ => exact ⟨hs.done, hs.unheld⟩
  | down _ _ => exact ⟨hs.done, hs.unheld⟩
  | hangUp _ _ => exact ⟨hs.done, hs.unheld⟩
  | advance _ _ hopen _ _ _ => simp [endpointClosed, hs.done] at hopen
  | release hstage =>
    rw [hs.done] at hstage
    cases hstage
  | force => exact ⟨hs.done, hs.unheld⟩
  | table => exact ⟨hs.done, ht _ rfl⟩

/-- Behind the release the holder has no lock but what another thread leaves it. -/
theorem unheld_of_run (hr : exec (step uid holder) s as = some s') (hs : s.stage ≠ .done)
    (hd : s'.stage = .done) : ∃ before after, as = before ++ .release :: after ∧
      ((∀ table, .table table ∈ after → Unheld uid holder table) →
        Unheld uid holder s'.locks) := by
  induction as generalizing s with
  | nil =>
    obtain rfl := Option.some.inj hr
    exact absurd hd hs
  | cons a as ih =>
    obtain ⟨t, ht, hrest⟩ := exec_cons.mp hr
    by_cases hdone : t.stage = .done
    · obtain ⟨rfl, hfree⟩ := released_of_step ht hs hdone
      refine ⟨[], as, rfl, fun htables => ?_⟩
      have hmeets : Meets (step uid holder) (fun _ a => ∀ table : LockManager,
          a = .table table → Unheld uid holder table) t as :=
        meets_of_forall fun a ha _ table he => htables table (he ▸ ha)
      have hgone : Gone uid holder s' :=
        inv_of_meets (fun _ _ _ hs ht h => hs.step ht h) ⟨hdone, hfree⟩ hmeets hrest
      exact hgone.unheld
    · obtain ⟨before, after, rfl, hfree⟩ := ih hrest hdone
      exact ⟨a :: before, after, rfl, hfree⟩

end Steps

/-- In any order of the two threads' steps the endpoint is given the first of what the client sends,
and the client the first of what the endpoint sends behind the line that accepts the stream; who
closes its connection while both loops run has been heard to the end. When the session is over it
was forced, or a socket failed, or one of the two sides closed. -/
theorem splice_carries_both_ways (uid : String) (holder : HolderRef)
    {loads : List UInt8 → Virtual.Loaded} {errors : EndpointErrors} {sock : Source UInt8}
    {ep : LineBuffer} (h : virtualStreamOpen loads errors sock = .ok (none, ep))
    (client : Source UInt8) (locks : LockManager) (acquiredUids : List String)
    {as : List SpliceAction} {s : Splice}
    (hr : exec (step uid holder) (start ep client locks acquiredUids) as = some s) :
    ∃ lockAck streamAck rest, sock.items = lockAck ++ newline :: (streamAck ++ newline :: rest) ∧
      newline ∉ lockAck ∧ newline ∉ streamAck ∧
      s.up.out <+: client.items ∧ (s.up.phase = .ended .closed → s.up.out = client.items) ∧
      s.down.out <+: rest ∧ (s.down.phase = .ended .closed → s.down.out = rest) ∧
      (s.stage = .done → s.forced = true ∨ s.up.phase = .ended .failed ∨
        s.down.phase = .ended .failed ∨ s.up.out = client.items ∨ s.down.out = rest) := by
  obtain ⟨lockAck, streamAck, hi, h1, h2⟩ := virtualStreamOpen_items h
  have hk : Kept uid client.items ep.items s :=
    kept_of_run (kept_start ep client locks acquiredUids) hr
  refine ⟨lockAck, streamAck, ep.items, hi, h1, h2, hk.up.prefix_all, hk.up.closed,
    hk.down.prefix_all, hk.down.closed, fun hdone => ?_⟩
  obtain ⟨how, hup⟩ := Pump.ended_eq_true_iff.mp (hk.ended (by simp [hdone]))
  cases how with
  | closed => exact .inr (.inr (.inr (.inl (hk.up.closed hup))))
  | failed => exact .inr (.inl hup)
  | cut =>
    -- then the reader has ended before, and not by a cut
    rcases hk.upCut hup with hforced | ⟨hover, hne⟩
    · exact .inl hforced
    · obtain ⟨how, hdown⟩ := Pump.ended_eq_true_iff.mp hover
      cases how with
      | closed => exact .inr (.inr (.inr (.inr (hk.down.closed hdown))))
      | failed => exact .inr (.inr (.inl hdown))
      | cut => exact absurd hdown hne

/-- Raw bytes that come with the second ack. -/
def acked : LineBuffer := ⟨[7, 8], ⟨[(9, [])], false, 6, [(0, 65536)]⟩⟩

/-- The endpoint closes; what the client has sent by then is still carried. -/
def endpointHangsUp : List SpliceAction :=
  [.down .write, .down .recv, .down .write, .down .recv, .hangUp, .up .recv, .up .write, .up .cut,
    .shutEndpoint, .join, .close, .release]

theorem splice_carries_both_ways_acked : ∃ s, exec (step "u" ⟨.local, "7", some 7, none⟩)
      (start acked (.closing [(1, [2])]) Table.empty ["u"]) endpointHangsUp = some s ∧
    ∃ lockAck streamAck rest, [0x31, 10, 0x32, 10, 7, 8, 9] =
        lockAck ++ newline :: (streamAck ++ newline :: rest) ∧
      newline ∉ lockAck ∧ newline ∉ streamAck ∧
      s.up.out <+: [1, 2] ∧ (s.up.phase = .ended .closed → s.up.out = [1, 2]) ∧
      s.down.out <+: rest ∧ (s.down.phase = .ended .closed → s.down.out = rest) ∧
      (s.stage = .done → s.forced = true ∨ s.up.phase = .ended .failed ∨
        s.down.phase = .ended .failed ∨ s.up.out = [1, 2] ∨ s.down.out = rest) :=
  have hopen : virtualStreamOpen (fun _ => .value (.obj [("ok", .bool true)])) ⟨"", fun _ => none⟩
      (.closing [(0x31, [10, 0x32, 10, 7, 8]), (9, [])]) = .ok (none, acked) := rfl
  have ⟨s, hs⟩ : ∃ s, exec (step "u" ⟨.local, "7", some 7, none⟩)
      (start acked (.closing [(1, [2])]) Table.empty ["u"]) endpointHangsUp = some s := ⟨_, rfl⟩
  ⟨s, hs, splice_carries_both_ways "u" ⟨.local, "7", some 7, none⟩ hopen _ _ _ hs⟩

def lockedBoard : LockManager :=
  Dict.insert Table.empty "u" ⟨.serial, ⟨.local, "7", some 7, none⟩, none, 0⟩

/-- The reader is late: the connection's thread gives the board back without it. -/
def readerIsLate : List SpliceAction :=
  [.up .recv, .up .write, .up .recv, .shutEndpoint, .timeOut, .close, .release]

end Splice

end MbTools.Stream
