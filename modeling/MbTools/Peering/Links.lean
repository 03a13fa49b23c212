import MbTools.Lib.Runs
import MbTools.Lib.Table

/-! # The links of peer discovery

`connect_peer` takes the link of a host out of a table, stops it, puts a new one in and
starts that, each under its own turn of the table's lock or under none, from any number of
threads; `stop` takes the whole table and stops what it took.
-/

namespace MbTools

/-- A link that is `failed` has its `_started` flag set, but its start opened no socket. -/
inductive LinkState where
  | idle
  | failed
  | live
  deriving DecidableEq, Repr

/-- A `_PeerLink` -/
structure HostLink where
  host : String
  state : LinkState
  deriving DecidableEq, Repr

/-- The `_started` flag. -/
def HostLink.started (l : HostLink) : Bool := l.state != .idle

/-- `_PeerLink.stop`: nothing on a link that is not started. -/
def HostLink.stop (l : HostLink) : HostLink :=
  if l.started then { l with state := .idle } else l

/-- How far a call of `connect_peer` has come. -/
inductive ConnectPhase where
  | asked
  | popped (existing : Option ℕ)
  | cleared
  | registered (link : ℕ)
  deriving DecidableEq, Repr

structure ConnectCall where
  host : String
  phase : ConnectPhase
  deriving DecidableEq, Repr

/-- How far `PeerDiscovery.stop` has come, with the links it has taken and not yet stopped. -/
inductive StopPhase where
  | running
  | stopping (rest : List ℕ)
  | returned
  deriving DecidableEq, Repr

def StopPhase.rest : StopPhase → List ℕ
  | .stopping rest => rest
  | _ => []

/-- A link is the number of its making. -/
structure PeerDiscovery where
  links : Dict ℕ HostLink
  made : ℕ
  /-- `_peer_links` -/
  table : Dict String ℕ
  /-- The calls under way, by thread. -/
  calls : Dict ℕ ConnectCall
  stop : StopPhase
  deriving DecidableEq, Repr

namespace PeerDiscovery

inductive Action where
  | call (thread : ℕ) (host : String)
  | pop (thread : ℕ)
  | stopExisting (thread : ℕ)
  | register (thread : ℕ)
  /-- `opens`: the context gives the link its first socket. -/
  | start (thread : ℕ) (opens : Bool)
  | take
  | stopNext
  | ret
  deriving DecidableEq, Repr

def stopLink (d : PeerDiscovery) (i : ℕ) : Dict ℕ HostLink :=
  match d.links.lookup i with
  | some l => d.links.insert i l.stop
  | none => d.links

def stopExisting (d : PeerDiscovery) : Option ℕ → Dict ℕ HostLink
  | some i => d.stopLink i
  | none => d.links

/-- One turn of a thread; `waits` says that `term` waits for the sockets still open in the context,
and no context opens one once it is over. -/
def step (waits : Bool) (d : PeerDiscovery) : Action → Option PeerDiscovery
  | .call c host =>
    match d.calls.lookup c with
    | none => some { d with calls := d.calls.insert c ⟨host, .asked⟩ }
    | some _ => none
  | .pop c =>
    match d.calls.lookup c with
    | some ⟨host, .asked⟩ => some { d with
        table := d.table.erase host
        calls := d.calls.insert c ⟨host, .popped (d.table.lookup host)⟩ }
    | _ => none
  | .stopExisting c =>
    match d.calls.lookup c with
    | some ⟨host, .popped existing⟩ => some { d with
        links := d.stopExisting existing
        calls := d.calls.insert c ⟨host, .cleared⟩ }
    | _ => none
  | .register c =>
    match d.calls.lookup c with
    | some ⟨host, .cleared⟩ => some { d with
        links := d.links.insert d.made ⟨host, .idle⟩
        made := d.made + 1
        table := d.table.insert host d.made
        calls := d.calls.insert c ⟨host, .registered d.made⟩ }
    | _ => none
  | .start c opens =>
    match d.calls.lookup c with
    | some ⟨host, .registered i⟩ =>
      let state := if opens && d.stop ≠ .returned then LinkState.live else .failed
      some { d with links := d.links.insert i ⟨host, state⟩, calls := d.calls.erase c }
    | _ => none
  | .take =>
    if d.stop = .running then
      some { d with table := Table.empty, stop := .stopping (d.table.rows.map Prod.snd) }
    else none
  | .stopNext =>
    match d.stop with
    | .stopping (i :: rest) => some { d with links := d.stopLink i, stop := .stopping rest }
    | _ => none
  | .ret =>
    if d.stop = .stopping [] ∧ (waits → ∀ r ∈ d.links.rows, r.2.state ≠ .live) then
      some { d with stop := .returned }
    else none

/-- Discovery as `start` leaves it. -/
def started : PeerDiscovery := ⟨Table.empty, 0, Table.empty, Table.empty, .running⟩

/-! ## Where a link is -/

/-- The link is started and not stopped. -/
def Live (d : PeerDiscovery) (host : String) (i : ℕ) : Prop :=
  d.links.lookup i = some ⟨host, .live⟩

/-- Some call has come this far. -/
def At (d : PeerDiscovery) (p : ConnectPhase) : Prop := ∃ r ∈ d.calls.rows, r.2.phase = p

/-- The link was taken out of the table and is still to be stopped, by a call or by the stop. -/
def Taken (d : PeerDiscovery) (i : ℕ) : Prop := d.At (.popped (some i)) ∨ i ∈ d.stop.rest

/-- Some call still has to start the link. -/
def Pending (d : PeerDiscovery) (i : ℕ) : Prop := d.At (.registered i)

instance (d : PeerDiscovery) (host : String) (i : ℕ) : Decidable (d.Live host i) :=
  inferInstanceAs (Decidable (_ = _))

instance (d : PeerDiscovery) (p : ConnectPhase) : Decidable (d.At p) :=
  inferInstanceAs (Decidable (∃ r ∈ d.calls.rows, r.2.phase = p))

instance (d : PeerDiscovery) (i : ℕ) : Decidable (d.Taken i) :=
  inferInstanceAs (Decidable (_ ∨ _))

instance (d : PeerDiscovery) (i : ℕ) : Decidable (d.Pending i) :=
  inferInstanceAs (Decidable (d.At _))

/-- The order of turns in which no link gets lost: a call registers its link over no other one, what
is stopped is not still to be started, a link starts when no other one of its host waits to be
stopped, and `stop` returns when no live link was registered behind its back. -/
def InTurn (waits : Bool) (d : PeerDiscovery) : Action → Prop
  | .register c =>
    match d.calls.lookup c with
    | some ⟨host, .cleared⟩ => d.stop = .returned ∨ d.table.lookup host = none
    | _ => True
  | .stopExisting c =>
    match d.calls.lookup c with
    | some ⟨_, .popped (some i)⟩ => d.stop = .returned ∨ ¬ d.Pending i
    | _ => True
  | .start c opens =>
    match d.calls.lookup c with
    | some ⟨host, .registered i⟩ => opens = false ∨ d.stop = .returned ∨
        ∀ r ∈ d.links.rows, r.2.host = host → d.Taken r.1 → r.1 = i
    | _ => True
  | .stopNext =>
    match d.stop with
    | .stopping (i :: _) => ¬ d.Pending i
    | _ => True
  | .ret => waits ∨ ∀ r ∈ d.links.rows, r.2.state = .live →
      ¬ d.Taken r.1 ∧ ∀ e ∈ d.table.rows, e.2 ≠ r.1
  | _ => True

instance (waits : Bool) (d : PeerDiscovery) (a : Action) : Decidable (InTurn waits d a) := by
  cases a <;> dsimp only [InTurn] <;> (try split) <;> infer_instance

/-! ## What a turn does to the places -/

section Places

variable {d d' : PeerDiscovery} {c i j : ℕ} {host : String} {x : ConnectCall} {p : ConnectPhase}

theorem at_iff : d.At p ↔ ∃ c host, d.calls.lookup c = some ⟨host, p⟩ := by
  constructor
  · rintro ⟨⟨c, host, q⟩, hr, rfl⟩
    exact ⟨c, host, Dict.mem_rows_iff_lookup.mp hr⟩
  · rintro ⟨c, host, hc⟩
    exact ⟨(c, ⟨host, p⟩), Dict.mem_rows_iff_lookup.mpr hc, rfl⟩

theorem At.of_insert (he : d'.calls = d.calls.insert c x) (h : d'.At p) : x.phase = p ∨ d.At p := by
  obtain ⟨c', host, hc⟩ := at_iff.mp h
  rw [he] at hc
  rcases Dict.lookup_insert_cases hc with (⟨-, rfl⟩ | hc)
  · exact Or.inl rfl
  · exact Or.inr (at_iff.mpr ⟨c', host, hc⟩)

theorem At.of_erase (he : d'.calls = d.calls.erase c) (h : d'.At p) : d.At p := by
  obtain ⟨c', host, hc⟩ := at_iff.mp h
  rw [he] at hc
  exact at_iff.mpr ⟨c', host, (Dict.lookup_erase_eq_some hc).2⟩

theorem At.keeps (he : ∀ c', c ≠ c' → d'.calls.lookup c' = d.calls.lookup c')
    (hc : ∀ host, d.calls.lookup c ≠ some ⟨host, p⟩) (h : d.At p) : d'.At p := by
  obtain ⟨c', host, hc'⟩ := at_iff.mp h
  refine at_iff.mpr ⟨c', host, (he c' ?_).trans hc'⟩
  rintro rfl
  exact hc host hc'

theorem lookup_stopLink (d : PeerDiscovery) (i j : ℕ) :
    (d.stopLink i).lookup j =
      if i = j then (d.links.lookup j).map HostLink.stop else d.links.lookup j := by
  unfold stopLink
  split
  · rename_i l hl
    rw [Dict.lookup_insert]
    split
    · rename_i hij
      rw [← hij, hl, Option.map_some]
    · rfl
  · rename_i hl
    split
    · rename_i hij
      rw [← hij, hl, Option.map_none]
    · rfl

end Places

theorem stop_state (l : HostLink) : l.stop = ⟨l.host, .idle⟩ := by
  obtain ⟨host, state⟩ := l
  cases state <;> rfl

/-! ## No link gets lost -/

/-- The link is where a later turn stops it. -/
def Held (d : PeerDiscovery) (i : ℕ) : Prop :=
  (∃ host, d.table.lookup host = some i) ∨ d.Taken i

/-- What holds of discovery as long as its turns come in order and `stop` has not returned. -/
structure Orderly (d : PeerDiscovery) : Prop where
  fresh : ∀ {i l}, d.links.lookup i = some l → i < d.made
  pending : ∀ {c host i}, d.calls.lookup c = some ⟨host, .registered i⟩ →
    d.links.lookup i = some ⟨host, .idle⟩
  owner : ∀ {c c' host host' i}, d.calls.lookup c = some ⟨host, .registered i⟩ →
    d.calls.lookup c' = some ⟨host', .registered i⟩ → c = c'
  keyed : ∀ {host i}, d.table.lookup host = some i →
    ∃ l, d.links.lookup i = some l ∧ l.host = host
  known : ∀ {i}, d.Taken i → ∃ l, d.links.lookup i = some l
  liveHeld : ∀ {host i}, d.Live host i → d.Held i
  pendingHeld : ∀ {i}, d.Pending i → d.Held i
  apart : ∀ {host i}, d.table.lookup host = some i → ¬ d.Taken i
  /-- Beside a live link in the table no other link of its host waits to be stopped. -/
  alone : ∀ {host i j l}, d.table.lookup host = some i → d.Live host i → d.Taken j →
    d.links.lookup j = some l → l.host ≠ host
  one : ∀ {host i j}, d.Live host i → d.Live host j → i = j

section Steps

variable {d d' : PeerDiscovery} {c c' i : ℕ} {host : String} {x y : ConnectCall}
  {existing : Option ℕ} {opens waits : Bool}

theorem registered_of_insert (he : d'.calls = d.calls.insert c x)
    (hx : x.phase ≠ .registered i) (h : d'.calls.lookup c' = some ⟨host, .registered i⟩) :
    d.calls.lookup c' = some ⟨host, .registered i⟩ := by
  rw [he] at h
  refine (Dict.lookup_insert_cases h).resolve_left ?_
  rintro ⟨-, rfl⟩
  exact hx rfl

theorem calls_of_ne (he : d'.calls = d.calls.insert c x) :
    ∀ c', c ≠ c' → d'.calls.lookup c' = d.calls.lookup c' := fun _ hc => by
  rw [he, Dict.lookup_insert_of_ne hc]

theorem started_orderly : started.Orderly where
  fresh h := nomatch h
  pending h := nomatch h
  owner h := nomatch h
  keyed h := nomatch h
  known h := by simp [Taken, At, started, StopPhase.rest, Table.empty] at h
  liveHeld h := nomatch h
  pendingHeld h := by simp [Pending, At, started, Table.empty] at h
  apart h := nomatch h
  alone h := nomatch h
  one h := nomatch h

/-- Turns that only move links about: what leaves the table is taken, and what is held no longer
neither runs nor is still to be started. -/
theorem Orderly.moved (hi : d.Orderly) (hlinks : d'.links = d.links) (hmade : d'.made = d.made)
    (hcalls : ∀ {c host i}, d'.calls.lookup c = some ⟨host, .registered i⟩ →
      d.calls.lookup c = some ⟨host, .registered i⟩)
    (htable : ∀ {host i}, d'.table.lookup host = some i → d.table.lookup host = some i)
    (htaken : ∀ {i}, d'.Taken i → d.Taken i ∨
      ∃ host, d.table.lookup host = some i ∧ d'.table.lookup host = none)
    (hheld : ∀ {i}, d.Held i → d'.Held i ∨ (∀ host, ¬ d.Live host i) ∧ ¬ d.Pending i) :
    d'.Orderly := by
  have hlive : ∀ {host i}, d'.Live host i → d.Live host i := fun h => by rwa [Live, ← hlinks]
  have hpending : ∀ {i}, d'.Pending i → d.Pending i := by
    intro i h
    obtain ⟨c, host, hc⟩ := at_iff.mp h
    exact at_iff.mpr ⟨c, host, hcalls hc⟩
  constructor
  case fresh => rw [hlinks, hmade]; exact hi.fresh
  case pending => rw [hlinks]; exact fun h => hi.pending (hcalls h)
  case owner => exact fun h h' => hi.owner (hcalls h) (hcalls h')
  case keyed => rw [hlinks]; exact fun h => hi.keyed (htable h)
  case known =>
    rw [hlinks]
    intro i h
    rcases htaken h with (h | ⟨host, h, -⟩)
    · exact hi.known h
    · exact (hi.keyed h).imp fun _ => And.left
  case liveHeld =>
    intro host i h
    exact (hheld (hi.liveHeld (hlive h))).resolve_right fun hn => hn.1 host (hlive h)
  case pendingHeld =>
    intro i h
    exact (hheld (hi.pendingHeld (hpending h))).resolve_right fun hn => hn.2 (hpending h)
  case apart =>
    intro host i h ht
    rcases htaken ht with (ht | ⟨host', ht, hnone⟩)
    · exact hi.apart (htable h) ht
    · obtain ⟨l, hl, rfl⟩ := hi.keyed (htable h)
      obtain ⟨l', hl', rfl⟩ := hi.keyed ht
      obtain rfl := Option.some.inj (hl.symm.trans hl')
      rw [hnone] at h
      cases h
  case alone =>
    rw [hlinks]
    rintro host i j l h hl ht hj rfl
    rcases htaken ht with (ht | ⟨host', ht, hnone⟩)
    · exact hi.alone (htable h) (hlive hl) ht hj rfl
    · obtain ⟨l', hl', rfl⟩ := hi.keyed ht
      obtain rfl := Option.some.inj (hj.symm.trans hl')
      rw [hnone] at h
      cases h
  case one => exact fun h h' => hi.one (hlive h) (hlive h')

theorem Orderly.call (hi : d.Orderly) (hc : d.calls.lookup c = none) :
    Orderly { d with calls := d.calls.insert c ⟨host, .asked⟩ } := by
  set d' : PeerDiscovery := { d with calls := d.calls.insert c ⟨host, .asked⟩ } with hd
  have he : d'.calls = d.calls.insert c ⟨host, .asked⟩ := rfl
  refine hi.moved rfl rfl (fun h => registered_of_insert he (by simp) h) id ?_ ?_
  · exact fun h => Or.inl (h.imp_left fun h => (h.of_insert he).resolve_left (by simp))
  · exact fun h => Or.inl (h.imp_right (Or.imp_left (At.keeps (calls_of_ne he) (by simp [hc]))))

theorem Orderly.pop (hi : d.Orderly) (hc : d.calls.lookup c = some ⟨host, .asked⟩) :
    Orderly { d with
      table := d.table.erase host
      calls := d.calls.insert c ⟨host, .popped (d.table.lookup host)⟩ } := by
  set d' : PeerDiscovery := { d with
    table := d.table.erase host
    calls := d.calls.insert c ⟨host, .popped (d.table.lookup host)⟩ } with hd
  have he : d'.calls = d.calls.insert c ⟨host, .popped (d.table.lookup host)⟩ := rfl
  refine hi.moved rfl rfl (fun h => registered_of_insert he (by simp) h) ?_ ?_ ?_
  · exact fun h => (Dict.lookup_erase_eq_some h).2
  · rintro i (h | h)
    · rcases h.of_insert he with (h | h)
      · exact Or.inr ⟨host, by simpa using h, Dict.lookup_erase_self⟩
      · exact Or.inl (Or.inl h)
    · exact Or.inl (Or.inr h)
  · rintro i (⟨h, hl⟩ | ht)
    · by_cases heq : host = h
      · subst heq
        refine Or.inl (Or.inr (Or.inl (at_iff.mpr ⟨c, host, ?_⟩)))
        rw [he, Dict.lookup_insert_self, hl]
      · exact Or.inl (Or.inl ⟨h, (Dict.lookup_erase_of_ne heq).trans hl⟩)
    · exact Or.inl (Or.inr (ht.imp_left (At.keeps (calls_of_ne he) (by simp [hc]))))

/-- What runs after a link was stopped is another one, and ran before. -/
theorem live_of_stopLink {d : PeerDiscovery} {i j : ℕ} {host : String}
    (h : (d.stopLink i).lookup j = some ⟨host, .live⟩) : i ≠ j ∧ d.Live host j := by
  rw [lookup_stopLink] at h
  split at h
  · obtain ⟨l, -, hl⟩ := Option.map_eq_some_iff.mp h
    rw [stop_state] at hl
    cases hl
  · exact ⟨‹_›, h⟩

theorem live_of_stopExisting {d : PeerDiscovery} {existing : Option ℕ} {j : ℕ} {host : String}
    (h : (d.stopExisting existing).lookup j = some ⟨host, .live⟩) : d.Live host j := by
  cases existing with
  | none => exact h
  | some i => exact (live_of_stopLink h).2

/-- A turn that changes how far a link is leaves every link its host. -/
theorem host_of_relabel {l k : HostLink} (l' : HostLink) {links : Dict ℕ HostLink} {j : ℕ}
    (hl : links.lookup i = some l) (hh : l.host = l'.host)
    (h : Dict.lookup (links.insert i l') j = some k) :
    ∃ k', links.lookup j = some k' ∧ k'.host = k.host := by
  rcases Dict.lookup_insert_cases h with (⟨rfl, rfl⟩ | h)
  · exact ⟨l, hl, hh⟩
  · exact ⟨k, h, rfl⟩

theorem relabel_of_host {l k : HostLink} (l' : HostLink) {links : Dict ℕ HostLink} {j : ℕ}
    (hl : links.lookup i = some l) (hh : l.host = l'.host)
    (h : links.lookup j = some k) :
    ∃ k', Dict.lookup (links.insert i l') j = some k' ∧ k'.host = k.host := by
  by_cases hij : i = j
  · subst hij
    obtain rfl := Option.some.inj (hl.symm.trans h)
    exact ⟨l', Dict.lookup_insert_self, hh.symm⟩
  · exact ⟨k, (Dict.lookup_insert_of_ne hij).trans h, rfl⟩

theorem Orderly.stopLink (hi : d.Orderly) (hp : ¬ d.Pending i) :
    Orderly { d with links := d.stopLink i } := by
  cases hlast : d.links.lookup i with
  | none =>
    rw [PeerDiscovery.stopLink, hlast]
    exact hi
  | some last =>
    have hhost : last.host = last.stop.host := by rw [stop_state]
    have hlinks : d.stopLink i = d.links.insert i last.stop := by
      rw [PeerDiscovery.stopLink, hlast]
    set d' : PeerDiscovery := { d with links := d.stopLink i } with hd
    have hlink : ∀ {j l}, d'.links.lookup j = some l →
        ∃ l', d.links.lookup j = some l' ∧ l'.host = l.host := fun h =>
      host_of_relabel last.stop hlast hhost (hlinks ▸ h)
    have hmap : ∀ {j l}, d.links.lookup j = some l →
        ∃ l', d'.links.lookup j = some l' ∧ l'.host = l.host := by
      intro j l hl
      rw [show d'.links = d.links.insert i last.stop from hlinks]
      exact relabel_of_host last.stop hlast hhost hl
    have hlive : ∀ {host j}, d'.Live host j → d.Live host j := fun h => (live_of_stopLink h).2
    constructor
    case fresh =>
      intro j l hl
      obtain ⟨l', hl', -⟩ := hlink hl
      exact hi.fresh hl'
    case pending =>
      intro c host j hc
      have hne : i ≠ j := by
        rintro rfl
        exact hp (at_iff.mpr ⟨c, host, hc⟩)
      exact (lookup_stopLink d i j).trans ((if_neg hne).trans (hi.pending hc))
    case owner => exact hi.owner
    case keyed =>
      intro host j hj
      obtain ⟨l, hl, rfl⟩ := hi.keyed hj
      exact hmap hl
    case known =>
      intro j hj
      obtain ⟨l, hl⟩ := hi.known hj
      exact (hmap hl).imp fun _ => And.left
    case liveHeld => exact fun h => hi.liveHeld (hlive h)
    case pendingHeld => exact hi.pendingHeld
    case apart => exact hi.apart
    case alone =>
      intro host j k l hj hl ht hk
      obtain ⟨l', hk', heq⟩ := hlink hk
      exact heq ▸ hi.alone hj (hlive hl) ht hk'
    case one => exact fun h h' => hi.one (hlive h) (hlive h')

theorem Orderly.stopExisting (hi : d.Orderly)
    (hc : d.calls.lookup c = some ⟨host, .popped existing⟩)
    (hp : ∀ i, existing = some i → ¬ d.Pending i) :
    Orderly { d with
      links := d.stopExisting existing
      calls := d.calls.insert c ⟨host, .cleared⟩ } := by
  have hstop : Orderly { d with links := d.stopExisting existing } := by
    cases existing with
    | none => exact hi
    | some i => exact hi.stopLink (hp i rfl)
  set d' : PeerDiscovery := { d with
    links := d.stopExisting existing
    calls := d.calls.insert c ⟨host, .cleared⟩ } with hd
  have he : d'.calls = d.calls.insert c ⟨host, .cleared⟩ := rfl
  refine hstop.moved rfl rfl (fun h => registered_of_insert he (by simp) h) id ?_ ?_
  · exact fun h => Or.inl (h.imp_left fun h => (h.of_insert he).resolve_left (by simp))
  · rintro i (h | h | h)
    · exact Or.inl (Or.inl h)
    · by_cases hx : existing = some i
      · subst hx
        exact Or.inr ⟨fun _ h => (live_of_stopLink h).1 rfl, hp i rfl⟩
      · refine Or.inl (Or.inr (Or.inl (At.keeps (calls_of_ne he) (fun h' hl => hx ?_) h)))
        have heq := hc.symm.trans hl
        simp only [Option.some.injEq, ConnectCall.mk.injEq, ConnectPhase.popped.injEq] at heq
        exact heq.2
    · exact Or.inl (Or.inr (Or.inr h))

theorem Orderly.take (hi : d.Orderly) (hs : d.stop = .running) :
    Orderly { d with table := Table.empty, stop := .stopping (d.table.rows.map Prod.snd) } := by
  have hmem : ∀ {i}, i ∈ d.table.rows.map Prod.snd ↔ ∃ host, d.table.lookup host = some i := by
    intro i
    simp [← Dict.mem_rows_iff_lookup]
  refine hi.moved rfl rfl id (fun h => ?_) ?_ ?_
  · cases h
  · rintro i (h | h)
    · exact Or.inl (Or.inl h)
    · obtain ⟨host, h⟩ := hmem.mp h
      exact Or.inr ⟨host, h, rfl⟩
  · rintro i (h | h | h)
    · exact Or.inl (Or.inr (Or.inr (hmem.mpr h)))
    · exact Or.inl (Or.inr (Or.inl h))
    · rw [hs] at h
      cases h

theorem Orderly.stopNext {rest : List ℕ} (hi : d.Orderly) (hs : d.stop = .stopping (i :: rest))
    (hp : ¬ d.Pending i) : Orderly { d with links := d.stopLink i, stop := .stopping rest } := by
  refine (hi.stopLink hp).moved rfl rfl id id ?_ ?_
  · refine fun h => Or.inl (h.imp_right fun h => ?_)
    rw [hs]
    exact List.mem_cons_of_mem i h
  · rintro j (h | h | h)
    · exact Or.inl (Or.inl h)
    · exact Or.inl (Or.inr (Or.inl h))
    · rw [hs] at h
      rcases List.mem_cons.mp h with (rfl | h)
      · exact Or.inr ⟨fun _ h => (live_of_stopLink h).1 rfl, hp⟩
      · exact Or.inl (Or.inr (Or.inr h))

theorem Orderly.not_known (hi : d.Orderly) : d.links.lookup d.made = none :=
  Option.eq_none_iff_forall_ne_some.mpr fun _ hl => absurd (hi.fresh hl) (Nat.lt_irrefl _)

theorem Orderly.register (hi : d.Orderly) (hc : d.calls.lookup c = some ⟨host, .cleared⟩)
    (hfree : d.table.lookup host = none) :
    Orderly { d with
      links := d.links.insert d.made ⟨host, .idle⟩
      made := d.made + 1
      table := d.table.insert host d.made
      calls := d.calls.insert c ⟨host, .registered d.made⟩ } := by
  set d' : PeerDiscovery := { d with
    links := d.links.insert d.made ⟨host, .idle⟩
    made := d.made + 1
    table := d.table.insert host d.made
    calls := d.calls.insert c ⟨host, .registered d.made⟩ } with hd
  have he : d'.calls = d.calls.insert c ⟨host, .registered d.made⟩ := rfl
  have hnew := hi.not_known
  have hlink : ∀ {j l}, d.links.lookup j = some l → d'.links.lookup j = some l :=
    fun hl => (Dict.lookup_insert_of_ne (Nat.ne_of_gt (hi.fresh hl))).trans hl
  have hold : ∀ {j l}, d'.links.lookup j = some l →
      (d.made = j ∧ ⟨host, .idle⟩ = l) ∨ d.links.lookup j = some l := Dict.lookup_insert_cases
  have hlive : ∀ {h j}, d'.Live h j → d.Live h j := fun h => (hold h).resolve_left (by simp)
  have hcall : ∀ {c' h i}, d'.calls.lookup c' = some ⟨h, .registered i⟩ →
      (c = c' ∧ host = h ∧ d.made = i) ∨ d.calls.lookup c' = some ⟨h, .registered i⟩ := by
    intro c' h i hl
    refine (Dict.lookup_insert_cases hl).imp_left ?_
    rintro ⟨rfl, heq⟩
    cases heq
    exact ⟨rfl, rfl, rfl⟩
  have hpast : ∀ {c' h}, d.calls.lookup c' ≠ some ⟨h, .registered d.made⟩ := fun hl => by
    rw [hi.pending hl] at hnew
    cases hnew
  have htable : ∀ {h j}, d'.table.lookup h = some j →
      (host = h ∧ d.made = j) ∨ d.table.lookup h = some j := Dict.lookup_insert_cases
  have htaken : ∀ {j}, d'.Taken j → d.Taken j := fun h =>
    h.imp_left fun h => (h.of_insert he).resolve_left (by simp)
  have hheld : ∀ {j}, d.Held j → d'.Held j := by
    rintro j (⟨h, hl⟩ | ht)
    · refine Or.inl ⟨h, (Dict.lookup_insert_of_ne ?_).trans hl⟩
      rintro rfl
      rw [hfree] at hl
      cases hl
    · exact Or.inr (ht.imp_left (At.keeps (calls_of_ne he) (by simp [hc])))
  constructor
  case fresh =>
    intro j l hl
    rcases hold hl with (⟨rfl, -⟩ | hl)
    · exact Nat.lt_succ_self _
    · exact Nat.lt_succ_of_lt (hi.fresh hl)
  case pending =>
    intro c' h j hl
    rcases hcall hl with (⟨-, rfl, rfl⟩ | hl)
    · exact Dict.lookup_insert_self
    · exact hlink (hi.pending hl)
  case owner =>
    intro c₁ c₂ h₁ h₂ j hl₁ hl₂
    rcases hcall hl₁ with (⟨rfl, -, rfl⟩ | hl₁)
    · exact ((hcall hl₂).resolve_right hpast).1
    · rcases hcall hl₂ with (⟨-, -, rfl⟩ | hl₂)
      · exact absurd hl₁ hpast
      · exact hi.owner hl₁ hl₂
  case keyed =>
    intro h j hl
    rcases htable hl with (⟨rfl, rfl⟩ | hl)
    · exact ⟨_, Dict.lookup_insert_self, rfl⟩
    · exact (hi.keyed hl).imp fun _ => And.imp_left hlink
  case known => exact fun h => (hi.known (htaken h)).imp fun _ => hlink
  case liveHeld => exact fun h => hheld (hi.liveHeld (hlive h))
  case pendingHeld =>
    intro j hj
    obtain ⟨c', h, hl⟩ := at_iff.mp hj
    rcases hcall hl with (⟨-, -, rfl⟩ | hl)
    · exact Or.inl ⟨host, Dict.lookup_insert_self⟩
    · exact hheld (hi.pendingHeld (at_iff.mpr ⟨c', h, hl⟩))
  case apart =>
    intro h j hl ht
    rcases htable hl with (⟨-, rfl⟩ | hl)
    · obtain ⟨l, hl⟩ := hi.known (htaken ht)
      rw [hnew] at hl
      cases hl
    · exact hi.apart hl (htaken ht)
  case alone =>
    intro h j k l hl hj ht hk
    -- a link that is taken is an old one, and so is a live one
    obtain ⟨l', hl'⟩ := hi.known (htaken ht)
    obtain rfl := Option.some.inj ((hlink hl').symm.trans hk)
    rcases htable hl with (⟨-, rfl⟩ | hl)
    · exact absurd (hnew.symm.trans (hlive hj)) nofun
    · exact hi.alone hl (hlive hj) (htaken ht) hl'
  case one => exact fun h h' => hi.one (hlive h) (hlive h')

/-- The link that a call is about to start is the only one of its host that can be live then. -/
theorem Orderly.live_in_turn {j : ℕ} (hi : d.Orderly)
    (hc : d.calls.lookup c = some ⟨host, .registered i⟩)
    (hturn : ∀ j l, d.links.lookup j = some l → l.host = host → d.Taken j → j = i)
    (hj : d.Live host j) : j = i := by
  rcases hi.liveHeld hj with (⟨h, ht⟩ | ht)
  · obtain ⟨l, hl, rfl⟩ := hi.keyed ht
    obtain rfl := Option.some.inj (hj.symm.trans hl)
    rcases hi.pendingHeld (at_iff.mpr ⟨c, _, hc⟩) with (⟨h', ht'⟩ | ht')
    · obtain ⟨l', hl', rfl⟩ := hi.keyed ht'
      obtain rfl := Option.some.inj ((hi.pending hc).symm.trans hl')
      exact Option.some.inj (ht.symm.trans ht')
    · exact (hi.alone ht hj ht' (hi.pending hc) rfl).elim
  · exact hturn j _ hj rfl ht

theorem Orderly.start {st : LinkState} (hi : d.Orderly)
    (hc : d.calls.lookup c = some ⟨host, .registered i⟩)
    (hturn : st = .live → ∀ j l, d.links.lookup j = some l → l.host = host → d.Taken j → j = i) :
    Orderly { d with links := d.links.insert i ⟨host, st⟩, calls := d.calls.erase c } := by
  set d' : PeerDiscovery :=
    { d with links := d.links.insert i ⟨host, st⟩, calls := d.calls.erase c } with hd
  have he : d'.calls = d.calls.erase c := rfl
  have hidle := hi.pending hc
  have hcall : ∀ {c' h j}, d'.calls.lookup c' = some ⟨h, .registered j⟩ →
      c ≠ c' ∧ d.calls.lookup c' = some ⟨h, .registered j⟩ := Dict.lookup_erase_eq_some
  have hlink : ∀ {j l}, d'.links.lookup j = some l →
      ∃ l', d.links.lookup j = some l' ∧ l'.host = l.host := host_of_relabel ⟨host, st⟩ hidle rfl
  have hmap : ∀ {j l}, d.links.lookup j = some l →
      ∃ l', d'.links.lookup j = some l' ∧ l'.host = l.host :=
    relabel_of_host ⟨host, st⟩ hidle rfl
  have hlive : ∀ {h j}, d'.Live h j → (j = i ∧ h = host ∧ st = .live) ∨ d.Live h j := by
    intro h j hl
    refine (Dict.lookup_insert_cases hl).imp_left ?_
    rintro ⟨rfl, heq⟩
    cases heq
    exact ⟨rfl, rfl, rfl⟩
  have htaken : ∀ {j}, d'.Taken j → d.Taken j := fun h => h.imp_left (At.of_erase he)
  have hheld : ∀ {j}, d.Held j → d'.Held j := fun h =>
    h.imp_right (Or.imp_left (At.keeps (fun _ => Dict.lookup_erase_of_ne) (by simp [hc])))
  constructor
  case fresh =>
    intro j l hl
    obtain ⟨l', hl', -⟩ := hlink hl
    exact hi.fresh hl'
  case pending =>
    intro c' h j hl
    obtain ⟨hne, hl⟩ := hcall hl
    refine (Dict.lookup_insert_of_ne ?_).trans (hi.pending hl)
    rintro rfl
    exact hne (hi.owner hc hl)
  case owner => exact fun h h' => hi.owner (hcall h).2 (hcall h').2
  case keyed =>
    intro h j hj
    obtain ⟨l, hl, rfl⟩ := hi.keyed hj
    exact hmap hl
  case known =>
    intro j hj
    obtain ⟨l, hl⟩ := hi.known (htaken hj)
    exact (hmap hl).imp fun _ => And.left
  case liveHeld =>
    intro h j hj
    rcases hlive hj with (⟨rfl, -⟩ | hj)
    · exact hheld (hi.pendingHeld (at_iff.mpr ⟨c, host, hc⟩))
    · exact hheld (hi.liveHeld hj)
  case pendingHeld => exact fun h => hheld (hi.pendingHeld (At.of_erase he h))
  case apart => exact fun h ht => hi.apart h (htaken ht)
  case alone =>
    rintro h j k l hj hl ht hk rfl
    obtain ⟨l', hk', heq⟩ := hlink hk
    rcases hlive hl with (⟨rfl, hhost, hst⟩ | hl)
    · have hk := hturn hst k l' hk' (heq.trans hhost) (htaken ht)
      exact hi.apart hj (hk ▸ htaken ht)
    · exact hi.alone hj hl (htaken ht) hk' heq
  case one =>
    intro h j k hj hk
    rcases hlive hj with (⟨rfl, rfl, hst⟩ | hj')
    · rcases hlive hk with (⟨rfl, -⟩ | hk')
      · rfl
      · exact (hi.live_in_turn hc (hturn hst) hk').symm
    · rcases hlive hk with (⟨rfl, rfl, hst⟩ | hk')
      · exact hi.live_in_turn hc (hturn hst) hj'
      · exact hi.one hj' hk'

/-- What a turn can do, with the tests it has passed. -/
inductive Turn (waits : Bool) (d : PeerDiscovery) : Action → PeerDiscovery → Prop
  | call {c : ℕ} {host : String} (hc : d.calls.lookup c = none) :
      Turn waits d (.call c host) { d with calls := d.calls.insert c ⟨host, .asked⟩ }
  | pop {c : ℕ} {host : String} (hc : d.calls.lookup c = some ⟨host, .asked⟩) :
      Turn waits d (.pop c) { d with
        table := d.table.erase host
        calls := d.calls.insert c ⟨host, .popped (d.table.lookup host)⟩ }
  | stopExisting {c : ℕ} {host : String} {existing : Option ℕ}
      (hc : d.calls.lookup c = some ⟨host, .popped existing⟩) :
      Turn waits d (.stopExisting c) { d with
        links := d.stopExisting existing
        calls := d.calls.insert c ⟨host, .cleared⟩ }
  | register {c : ℕ} {host : String} (hc : d.calls.lookup c = some ⟨host, .cleared⟩) :
      Turn waits d (.register c) { d with
        links := d.links.insert d.made ⟨host, .idle⟩
        made := d.made + 1
        table := d.table.insert host d.made
        calls := d.calls.insert c ⟨host, .registered d.made⟩ }
  | start {c i : ℕ} {host : String} {opens : Bool} {state : LinkState}
      (hc : d.calls.lookup c = some ⟨host, .registered i⟩)
      (hstate : state = .live → opens = true ∧ d.stop ≠ .returned) :
      Turn waits d (.start c opens)
        { d with links := d.links.insert i ⟨host, state⟩, calls := d.calls.erase c }
  | take (hrun : d.stop = .running) :
      Turn waits d .take
        { d with table := Table.empty, stop := .stopping (d.table.rows.map Prod.snd) }
  | stopNext {i : ℕ} {rest : List ℕ} (hrest : d.stop = .stopping (i :: rest)) :
      Turn waits d .stopNext { d with links := d.stopLink i, stop := .stopping rest }
  | ret (hdone : d.stop = .stopping [])
      (hwaits : waits → ∀ r ∈ d.links.rows, r.2.state ≠ .live) :
      Turn waits d .ret { d with stop := .returned }

theorem step_cases {a : Action} (hs : step waits d a = some d') : Turn waits d a d' := by
  cases a with
  | call c host =>
    simp only [step] at hs
    split at hs
    · cases hs
      exact .call ‹_›
    · cases hs
  | pop c =>
    simp only [step] at hs
    split at hs
    · cases hs
      exact .pop ‹_›
    · cases hs
  | stopExisting c =>
    simp only [step] at hs
    split at hs
    · cases hs
      exact .stopExisting ‹_›
    · cases hs
  | register c =>
    simp only [step] at hs
    split at hs
    · cases hs
      exact .register ‹_›
    · cases hs
  | start c opens =>
    simp only [step] at hs
    split at hs
    · cases hs
      refine .start ‹_› fun h => ?_
      split at h
      · rename_i hopen
        simpa using hopen
      · cases h
    · cases hs
  | take =>
    simp only [step, Option.ite_none_right_eq_some, Option.some.injEq] at hs
    obtain ⟨hrun, rfl⟩ := hs
    exact .take hrun
  | stopNext =>
    simp only [step] at hs
    split at hs
    · cases hs
      exact .stopNext ‹_›
    · cases hs
  | ret =>
    simp only [step, Option.ite_none_right_eq_some, Option.some.injEq] at hs
    obtain ⟨⟨hdone, hwaits⟩, rfl⟩ := hs
    exact .ret hdone hwaits

theorem returned_step {a : Action} (hs : step waits d a = some d') (hstop : d.stop = .returned)
    (hidle : ∀ host i, ¬ d.Live host i) :
    d'.stop = .returned ∧ ∀ host i, ¬ d'.Live host i := by
  have insert : ∀ {i : ℕ} {l : HostLink}, l.state ≠ .live →
      ∀ host j, Dict.lookup (d.links.insert i l) j ≠ some ⟨host, .live⟩ := by
    intro i l hl host j h
    rcases Dict.lookup_insert_cases h with (⟨-, rfl⟩ | h)
    · exact hl rfl
    · exact hidle host j h
  cases step_cases hs with
  | call | pop => exact ⟨hstop, hidle⟩
  | stopExisting => exact ⟨hstop, fun host i h => hidle host i (live_of_stopExisting h)⟩
  | register => exact ⟨hstop, insert nofun⟩
  | start hc hstate => exact ⟨hstop, insert fun h => (hstate h).2 hstop⟩
  | take hrun => cases hrun.symm.trans hstop
  | stopNext hrest => cases hrest.symm.trans hstop
  | ret hdone => cases hdone.symm.trans hstop

/-- What holds of every state of a run whose turns come in order. -/
structure Safe (d : PeerDiscovery) : Prop where
  orderly : d.stop ≠ .returned → d.Orderly
  idle : d.stop = .returned → ∀ host i, ¬ d.Live host i

theorem Orderly.ret (hi : d.Orderly)
    (hwaits : waits → ∀ r ∈ d.links.rows, r.2.state ≠ .live)
    (hturn : InTurn waits d .ret) (host : String) (i : ℕ) : ¬ d.Live host i := by
  intro h
  have hmem : (i, ⟨host, .live⟩) ∈ d.links.rows := Dict.mem_rows_iff_lookup.mpr h
  rcases hturn with (hw | hturn)
  · exact hwaits hw _ hmem rfl
  · obtain ⟨hfree, htable⟩ := hturn _ hmem rfl
    rcases hi.liveHeld h with (⟨host', ht⟩ | ht)
    · exact htable _ (Dict.mem_rows_iff_lookup.mpr ht) rfl
    · exact hfree ht

theorem Safe.step {a : Action} (hi : d.Safe) (hturn : InTurn waits d a)
    (hs : step waits d a = some d') : d'.Safe := by
  by_cases hret : d.stop = .returned
  · obtain ⟨hret', hidle⟩ := returned_step hs hret (hi.idle hret)
    exact ⟨fun h => absurd hret' h, fun _ => hidle⟩
  have ho := hi.orderly hret
  have running : ∀ {e : PeerDiscovery}, e.stop = d.stop → e.Orderly → e.Safe :=
    fun he h => ⟨fun _ => h, fun h' => absurd (he.symm.trans h') hret⟩
  cases step_cases hs with
  | call hc => exact running rfl (ho.call hc)
  | pop hc => exact running rfl (ho.pop hc)
  | stopExisting hc =>
    refine running rfl (ho.stopExisting hc ?_)
    rintro i rfl
    simp only [InTurn, hc] at hturn
    exact hturn.resolve_left hret
  | register hc =>
    simp only [InTurn, hc] at hturn
    exact running rfl (ho.register hc (hturn.resolve_left hret))
  | start hc hstate =>
    refine running rfl (ho.start hc fun hst j l hl hhost ht => ?_)
    simp only [InTurn, hc, (hstate hst).1, Bool.true_eq_false, false_or] at hturn
    exact hturn.resolve_left hret _ (Dict.mem_rows_iff_lookup.mpr hl) hhost ht
  | take hrun => exact ⟨fun _ => ho.take hrun, nofun⟩
  | stopNext hrest =>
    simp only [InTurn, hrest] at hturn
    exact ⟨fun _ => ho.stopNext hrest hturn, nofun⟩
  | ret _ hwaits => exact ⟨fun h => absurd rfl h, fun _ => ho.ret hwaits hturn⟩

end Steps

/-! ## Every run -/

section Runs

open MbTools.Runs

variable {waits : Bool} {as : List Action} {d : PeerDiscovery}

theorem safe_of_run (hr : exec (step waits) started as = some d)
    (hm : Meets (step waits) (InTurn waits) started as) : d.Safe :=
  inv_of_meets (fun _ _ _ h hok hs => h.step hok hs)
    ⟨fun _ => started_orderly, fun h => nomatch h⟩ hm hr

/-- At most one link per host is started and not stopped, and none is once `stop` has returned. -/
def OneLiveLink (d : PeerDiscovery) : Prop :=
  (∀ host i j, d.Live host i → d.Live host j → i = j) ∧
    (d.stop = .returned → ∀ host i, ¬ d.Live host i)

/-- With every turn in order, a host has one live link and a finished stop has left none. -/
theorem connectPeer_one_live (hr : exec (step waits) started as = some d)
    (hm : Meets (step waits) (InTurn waits) started as) : d.OneLiveLink := by
  have hsafe := safe_of_run hr hm
  refine ⟨fun host i j hi hj => ?_, hsafe.idle⟩
  by_cases hret : d.stop = .returned
  · exact absurd hi (hsafe.idle hret host i)
  · exact (hsafe.orderly hret).one hi hj

/-- Two discoveries of one host one after the other, and a stop that meets no call. -/
def rediscovered : List Action :=
  [.call 0 "loki", .pop 0, .stopExisting 0, .register 0, .start 0 true,
    .call 0 "loki", .pop 0, .stopExisting 0, .register 0, .start 0 true, .take, .stopNext, .ret]

theorem connectPeer_one_live_rediscovered :
    ∃ d, exec (step true) started rediscovered = some d ∧ d.OneLiveLink := by
  obtain ⟨d, hd⟩ : ∃ d, exec (step true) started rediscovered = some d :=
    Option.isSome_iff_exists.mp (by decide)
  exact ⟨d, hd, connectPeer_one_live hd (by decide)⟩

/-- The host is discovered while `--peer` names it. -/
def discoveredAndNamed : List Action :=
  [.call 0 "loki", .pop 0, .call 1 "loki", .pop 1, .stopExisting 0, .stopExisting 1,
    .register 0, .register 1, .start 0 true, .start 1 true]

/-- Neither call finds a link to stop, and both start theirs. -/
theorem connectPeer_two_live : ¬ ∀ (as : List Action) (d : PeerDiscovery),
    exec (step true) started as = some d → d.OneLiveLink := by
  intro h
  obtain ⟨d, hd, h₀, h₁⟩ : ∃ d, exec (step true) started discoveredAndNamed = some d ∧
      d.Live "loki" 0 ∧ d.Live "loki" 1 := ⟨_, rfl, by decide, by decide⟩
  exact absurd ((h _ d hd).1 "loki" 0 1 h₀ h₁) (by decide)

end Runs

end PeerDiscovery

end MbTools
