import MbTools.Api.Requests

/-! # Hidden rows on the remote port

A token is resolved over all rows and only then checked for visibility. A row
that the port hides can stand in front of one that it shows, and hidden rows on
several hosts make a name ambiguous.
-/

namespace MbTools.Api

open Store

def shown (r : DeviceRecord) : Bool := deviceVisible .tcp r

def shownRows (s : Store) : List DeviceRecord := s.listDevices.filter shown

/-- The rows a token can mean: by uid, by short uid or by name. -/
def answersTo (token : String) (r : DeviceRecord) : Bool :=
  r.uid = token || r.shortUid = token || r.deviceName.any (nocaseEq · token)

/-- The row a token means: by uid, else by short uid, else by name. -/
def firstAnswer (rows : List DeviceRecord) (token : String) : Option DeviceRecord :=
  ((rows.find? fun r => r.uid = token).or (rows.find? fun r => r.shortUid = token)).or
    (rows.find? fun r => r.deviceName.any (nocaseEq · token))

/-- What the token means among rows that are all of one host. -/
def resolveAmong (rows : List DeviceRecord) (token : String) : Except ApiError DeviceRecord :=
  if '@' ∈ token.toList then .error (.notFound token)
  else
    match firstAnswer rows token with
    | some r => .ok r
    | none => .error (.notFound token)

/-- What the hidden rows do to a token. -/
inductive Shadow where
  | clear
  /-- A hidden row is picked though a row that is shown answers to the token. -/
  | hides
  /-- The rows of the name are on several hosts. -/
  | ambiguous (hosts : List (Option String))
  deriving DecidableEq, Repr

/-- A row that was picked shadows the token if it is hidden and some row that is shown answers. -/
def cast (s : Store) (token : String) (r : DeviceRecord) : Shadow :=
  if shown r = false ∧ (shownRows s).any (answersTo token) = true then .hides else .clear

def shadow (C : Casing) (s : Store) (token : String) : Shadow :=
  if '@' ∈ token.toList then .clear
  else
    match (s.get token).or (s.listDevices.find? fun r => r.shortUid = token) with
    | some r => cast s token r
    | none =>
      match s.listDevices.filter fun r => r.deviceName.any (nocaseEq · token) with
      | [] => .clear
      | r :: rest =>
        let hosts := uniqueHosts C ((r :: rest).map DeviceRecord.host)
        if 1 < hosts.length then .ambiguous hosts else cast s token r

/-- What an observer of the port sees: the response, or that it raised, and the lock table. -/
def seen : Except Raised (Response × Daemon) → Except Raised (Response × LockManager)
  | .ok (r, d) => .ok (r, d.locks)
  | .error e => .error e

section Shadow

variable {C : Casing} {s s' : Store} {d d' : Daemon} {token : String} {r : DeviceRecord} {now : ℕ}
  {holder : HolderRef}

theorem rpartitionAt_isSome : (rpartitionAt token).isSome ↔ '@' ∈ token.toList := by
  unfold rpartitionAt
  split <;> simp_all

/-- The first row of all that has a property is the first of those shown, if it is shown. -/
theorem find?_shownRows {p : DeviceRecord → Bool} (h : s.listDevices.find? p = some r)
    (hr : shown r = true) : (shownRows s).find? p = some r := by
  unfold shownRows
  rw [List.find?_filter]
  generalize s.listDevices = l at h
  induction l with
  | nil => cases h
  | cons a l ih =>
    rw [List.find?_cons] at h ⊢
    cases hp : p a with
    | true =>
      rw [hp] at h
      obtain rfl := Option.some.inj h
      simp [hr]
    | false =>
      rw [hp] at h
      simpa using ih h

theorem find?_shownRows_none {p : DeviceRecord → Bool} (h : s.listDevices.find? p = none) :
    (shownRows s).find? p = none := by
  rw [List.find?_eq_none] at h ⊢
  exact fun a ha => h a (List.mem_of_mem_filter ha)

theorem get_eq_find? (s : Store) (token : String) :
    s.get token = s.listDevices.find? fun r => r.uid = token := rfl

/-- With no row among those shown answering, the token means none of them. -/
theorem resolveAmong_of_none {rows : List DeviceRecord} (h : rows.any (answersTo token) = false) :
    resolveAmong rows token = .error (.notFound token) := by
  have hnone : ∀ r ∈ rows, answersTo token r = false := by
    intro r hr
    simpa using List.any_eq_false.mp h r hr
  simp only [answersTo, Bool.or_eq_false_iff, decide_eq_false_iff_not] at hnone
  have huid : rows.find? (fun r => r.uid = token) = none :=
    List.find?_eq_none.mpr fun r hr => by simp [(hnone r hr).1.1]
  have hshort : rows.find? (fun r => r.shortUid = token) = none :=
    List.find?_eq_none.mpr fun r hr => by simp [(hnone r hr).1.2]
  have hname : rows.find? (fun r => r.deviceName.any (nocaseEq · token)) = none :=
    List.find?_eq_none.mpr fun r hr => by simp [(hnone r hr).2]
  unfold resolveAmong
  split
  · rfl
  · simp [firstAnswer, huid, hshort, hname]

/-- A row that was picked is what the shown rows alone give, or its shadow falls on the token. -/
theorem picked (hat : '@' ∉ token.toList)
    (h : shown r = true → firstAnswer (shownRows s) token = some r) :
    (if shown r then .ok r else .error (ApiError.notFound token)) =
      match cast s token r with
      | .clear => resolveAmong (shownRows s) token
      | .hides => .error (.notFound token)
      | .ambiguous hosts => .error (.ambiguousName token hosts) := by
  unfold cast
  cases hr : shown r with
  | true => simp [resolveAmong, hat, h hr]
  | false =>
    cases hany : (shownRows s).any (answersTo token) with
    | true => simp
    | false => simp [resolveAmong_of_none hany]

/-- Resolving depends on the hidden rows through their shadow only. -/
theorem resolveVisible_eq (C : Casing) (s : Store) (token : String) :
    resolveVisible .tcp C s token =
      match shadow C s token with
      | .clear => resolveAmong (shownRows s) token
      | .hides => .error (.notFound token)
      | .ambiguous hosts => .error (.ambiguousName token hosts) := by
  by_cases hat : '@' ∈ token.toList
  · obtain ⟨⟨name, host⟩, hp⟩ := Option.isSome_iff_exists.mp (rpartitionAt_isSome.mpr hat)
    simp only [resolveVisible, find, hp, shadow, hat, if_true, resolveAmong]
    split
    · rename_i h
      cases h
    · rfl
    · rename_i r h
      have hhost := List.find?_some (Except.ok.inj h)
      have hidden : deviceVisible .tcp r = false := by
        cases hh : r.host with
        | none => simp [hh] at hhost
        | some g => simp [deviceVisible, hh]
      simp [hidden]
  · have hp : rpartitionAt token = none := by
      rw [← Option.not_isSome_iff_eq_none, rpartitionAt_isSome]
      exact hat
    simp only [resolveVisible, find, hp, shadow, hat, if_false]
    cases hu : (s.get token).or (s.listDevices.find? fun r => r.shortUid = token) with
    | some r =>
      refine picked hat fun hr => ?_
      rcases Option.or_eq_some_iff.mp hu with (hg | ⟨hg, hs⟩)
      · rw [firstAnswer, find?_shownRows (get_eq_find? s token ▸ hg) hr]
        rfl
      · rw [firstAnswer, find?_shownRows_none (get_eq_find? s token ▸ hg), find?_shownRows hs hr]
        rfl
    | none =>
      obtain ⟨hg, hs⟩ := Option.or_eq_none_iff.mp hu
      have hg' := find?_shownRows_none (get_eq_find? s token ▸ hg)
      have hs' := find?_shownRows_none hs
      cases hf : s.listDevices.filter fun r => r.deviceName.any (nocaseEq · token) with
      | nil =>
        have hn : s.listDevices.find? (fun r => r.deviceName.any (nocaseEq · token)) = none := by
          rw [List.find?_eq_none]
          exact List.filter_eq_nil_iff.mp hf
        simp [resolveAmong, firstAnswer, hat, hg', hs', find?_shownRows_none hn]
      | cons r rest =>
        have hn : s.listDevices.find? (fun r => r.deviceName.any (nocaseEq · token)) = some r := by
          rw [← List.head?_filter, hf]
          rfl
        dsimp only
        by_cases hhosts : 1 < (uniqueHosts C ((r :: rest).map DeviceRecord.host)).length
        · rw [if_pos hhosts, if_pos hhosts]
        · rw [if_neg hhosts, if_neg hhosts]
          refine picked hat fun hr => ?_
          rw [firstAnswer, hg', hs', find?_shownRows hn hr]
          rfl

end Shadow

/-- What a request does once its token is in hand. -/
def act (text : Json → String) (d : Daemon) (now : ℕ) (holder : HolderRef) (req : Json)
    (token : String) : Query → Response × Daemon
  | .list => (.ok, d)
  | .find => (answerFind .tcp d token, d)
  | .lock =>
    answerLock .tcp d now
      ⟨some token, some ((req.get "kind").strOf text), labelOf text (req.get "label")⟩ holder
  | .unlock => answerUnlock .tcp d now token holder
  | .markFlashed => answerMarkFlashed .tcp d token holder
  | .stream => (answerStream .tcp d token holder, d)

/-- What a request does once its token is resolved to a row. -/
def onRow (text : Json → String) (d : Daemon) (now : ℕ) (holder : HolderRef) (req : Json)
    (r : DeviceRecord) : Query → Response × Daemon
  | .list => (.ok, d)
  | .find => (.device (deviceDict d.store d.locks r), d)
  | .lock =>
    match detachedError r, kindOf (req.get "kind") with
    | some e, _ => (.error e, d)
    | none, none => (.ok, d)
    | none, some kind =>
      match d.locks.acquire now r.uid kind holder (labelOf text (req.get "label")) with
      | .error current => (.error (.locked r.uid current), d)
      | .ok locks => (.ok, { d with locks })
  | .unlock => (.released (d.locks.release r.uid holder).2.isSome, d.releaseLock now r.uid holder)
  | .markFlashed =>
    match d.locks.status r.uid with
    | none => (.error (.notLocked r.uid answerMarkFlashed.markFlashedMessage), d)
    | some st =>
      if st.kind = .flash ∧ st.holder = holder then
        match d.store.incrementFlashCount r.uid with
        | .ok s => (.ok, { d with store := s })
        | .error _ => (.error (.internalError "the row is gone"), d)
      else (.error (.notLocked r.uid answerMarkFlashed.markFlashedMessage), d)
  | .stream =>
    match d.locks.status r.uid with
    | none => (.error (.notLocked r.uid opStreamPrecheck.streamMessage), d)
    | some st =>
      if (st.kind = .serial ∨ st.kind = .relay) ∧ st.holder = holder then
        match field r.port with
        | none => (.error (.invalidRequest s!"{r.uid} has no known port to open"), d)
        | some _ =>
          match detachedError r with
          | some e => (.error e, d)
          | none => (.ok, d)
      else (.error (.notLocked r.uid opStreamPrecheck.streamMessage), d)

section Answers

variable {C : Casing} {text : Json → String} {d d' : Daemon} {token : String} {r : DeviceRecord}
  {now : ℕ} {holder : HolderRef} {req v : Json} {q : Query} {e : ApiError}

theorem text?_eq_some_iff {t : Token} : t.text? = some token ↔ t = .text token := by
  cases t <;> simp [Token.text?]

theorem answer_of_resolves (d : Daemon) (now : ℕ) (holder : HolderRef)
    (h : resolves text req q = some token) :
    token ≠ "" ∧ answer text d now holder req q = .ok (act text d now holder req token q) := by
  cases q with
  | list => cases h
  | lock =>
    obtain ⟨kind, hk, ht⟩ := Option.bind_eq_some_iff.mp h
    rw [text?_eq_some_iff] at ht
    obtain ⟨htruthy, -, -⟩ := kindOf_eq_some text hk
    refine ⟨tokenOf_ne_empty ht, ?_⟩
    simp [answer, lockRequest, ht, htruthy, hk, Token.run, act]
  | find =>
    have ht := text?_eq_some_iff.mp h
    exact ⟨tokenOf_ne_empty ht, by simp [answer, ht, Token.run, act]⟩
  | unlock =>
    have ht := text?_eq_some_iff.mp h
    exact ⟨tokenOf_ne_empty ht, by simp [answer, ht, Token.run, act]⟩
  | markFlashed =>
    have ht := text?_eq_some_iff.mp h
    exact ⟨tokenOf_ne_empty ht, by simp [answer, ht, Token.run, act]⟩
  | stream =>
    have ht := text?_eq_some_iff.mp h
    exact ⟨tokenOf_ne_empty ht, by simp [answer, ht, Token.run, act]⟩

/-- A request is answered from the row its token means, or with the error of resolving it. -/
theorem answer_eq (h : resolves text req q = some token) :
    answer text d now holder req q =
      .ok (match resolveVisible .tcp d.casing d.store token with
        | .error e => (.error e, d)
        | .ok r => onRow text d now holder req r q) := by
  obtain ⟨hne, ha⟩ := answer_of_resolves d now holder h
  have hfield := field_of_ne hne
  rw [ha]
  congr 1
  cases q with
  | list => cases h
  | find =>
    simp only [act, answerFind, onRow]
    cases resolveVisible .tcp d.casing d.store token <;> rfl
  | lock =>
    obtain ⟨kind, hk, -⟩ := Option.bind_eq_some_iff.mp h
    obtain ⟨-, hkind, ho⟩ := kindOf_eq_some text hk
    simp only [act, answerLock, opLock, hfield, field_of_ne hkind, ho, onRow, hk]
    cases resolveVisible .tcp d.casing d.store token with
    | error e => rfl
    | ok r =>
      dsimp only
      cases detachedError r with
      | some e => rfl
      | none =>
        dsimp only
        cases d.locks.acquire now r.uid kind holder (labelOf text (req.get "label")) <;> rfl
  | unlock =>
    simp only [act, answerUnlock, opUnlock, hfield, onRow]
    cases resolveVisible .tcp d.casing d.store token <;> rfl
  | markFlashed =>
    unfold act answerMarkFlashed onRow
    cases resolveVisible .tcp d.casing d.store token <;> rfl
  | stream =>
    simp only [act, answerStream, opStreamPrecheck, hfield, onRow]
    cases resolveVisible .tcp d.casing d.store token with
    | error e => rfl
    | ok r =>
      dsimp only
      cases d.locks.status r.uid with
      | none => rfl
      | some st =>
        dsimp only
        by_cases hmine : (st.kind = .serial ∨ st.kind = .relay) ∧ st.holder = holder
        · simp only [if_pos hmine]
          cases field r.port with
          | none => rfl
          | some port => cases detachedError r <;> rfl
        · simp only [if_neg hmine]

/-- On a row that is shown, only the lock table and the row decide what is seen. -/
theorem seen_onRow_congr (hl : d.locks = d'.locks) (hr : r.host = none)
    (hd : d.store.get r.uid = some r) (hd' : d'.store.get r.uid = some r) :
    seen (.ok (onRow text d now holder req r q)) =
      seen (.ok (onRow text d' now holder req r q)) := by
  cases q with
  | list => simp [onRow, seen, hl]
  | find => simp [onRow, seen, deviceDict, hr, hl]
  | lock =>
    simp only [onRow, hl]
    cases detachedError r with
    | some e => simp [seen, hl]
    | none =>
      cases kindOf (req.get "kind") with
      | none => simp [seen, hl]
      | some kind =>
        dsimp only
        cases d'.locks.acquire now r.uid kind holder (labelOf text (req.get "label")) with
        | error st => simp [seen, hl]
        | ok locks => simp [seen]
  | unlock => simp [onRow, seen, Daemon.releaseLock_locks, hl]
  | markFlashed =>
    simp only [onRow, hl]
    cases d'.locks.status r.uid with
    | none => simp [seen, hl]
    | some st =>
      dsimp only
      split
      · simp [incrementFlashCount, modifyRow, hd, hd', seen]
      · simp [seen, hl]
  | stream =>
    simp only [onRow, hl]
    cases d'.locks.status r.uid with
    | none => simp [seen, hl]
    | some st =>
      dsimp only
      split
      · cases field r.port with
        | none => simp [seen, hl]
        | some port =>
          cases detachedError r with
          | none => simp [seen, hl]
          | some e => simp [seen, hl]
      · simp [seen, hl]

/-- The errors of a row that is there are not those of resolving. -/
theorem onRow_ne_error (hq : q ≠ .list) (he : e = .notFound token ∨ ∃ hosts,
    e = .ambiguousName token hosts) : (onRow text d now holder req r q).1 ≠ .error e := by
  have hdet : ∀ e', detachedError r = some e' → e' ≠ e := by
    intro e' hd
    unfold detachedError at hd
    split at hd
    · cases hd
      rcases he with (rfl | ⟨hosts, rfl⟩) <;> nofun
    · cases hd
  have hlocked : ∀ uid m, ApiError.notLocked uid m ≠ e := by
    rcases he with (rfl | ⟨hosts, rfl⟩) <;> nofun
  cases q with
  | list => exact absurd rfl hq
  | find => nofun
  | lock =>
    simp only [onRow]
    cases hd : detachedError r with
    | some e' => exact fun h => hdet e' hd (Response.error.inj h)
    | none =>
      cases kindOf (req.get "kind") with
      | none => nofun
      | some kind =>
        dsimp only
        split
        · rcases he with (rfl | ⟨hosts, rfl⟩) <;> nofun
        · nofun
  | unlock => nofun
  | markFlashed =>
    simp only [onRow]
    split
    · exact fun h => hlocked _ _ (Response.error.inj h)
    · split
      · split
        · nofun
        · rcases he with (rfl | ⟨hosts, rfl⟩) <;> nofun
      · exact fun h => hlocked _ _ (Response.error.inj h)
  | stream =>
    simp only [onRow]
    split
    · exact fun h => hlocked _ _ (Response.error.inj h)
    · split
      · split
        · rcases he with (rfl | ⟨hosts, rfl⟩) <;> nofun
        · split
          · rename_i e' hd
            exact fun h => hdet e' hd (Response.error.inj h)
          · nofun
      · exact fun h => hlocked _ _ (Response.error.inj h)

theorem resolveAmong_error {rows : List DeviceRecord} (h : resolveAmong rows token = .error e) :
    e = .notFound token := by
  unfold resolveAmong at h
  split at h
  · cases h
    rfl
  · split at h
    · cases h
    · cases h
      rfl

theorem resolveVisible_error {s : Store} (h : resolveVisible .tcp C s token = .error e) :
    e = .notFound token ∨ ∃ hosts, e = .ambiguousName token hosts := by
  rcases resolveVisible_eq_error h with (⟨hosts, -, rfl⟩ | rfl)
  · exact Or.inr ⟨hosts, rfl⟩
  · exact Or.inl rfl

theorem shadow_eq_ambiguous_iff {s : Store} {hosts : List (Option String)} :
    shadow C s token = .ambiguous hosts ↔
      resolveVisible .tcp C s token = .error (.ambiguousName token hosts) := by
  rw [resolveVisible_eq]
  cases hsh : shadow C s token with
  | clear =>
    refine iff_of_false nofun fun h => ?_
    cases resolveAmong_error h
  | hides => exact iff_of_false nofun nofun
  | ambiguous hosts' => simp

theorem cast_eq_hides {s : Store} (h : cast s token r = .hides) :
    (shownRows s).any (answersTo token) = true := by
  unfold cast at h
  split at h
  · rename_i hc
    exact hc.2
  · cases h

/-- Where a row is hidden behind another, the rows shown have one that answers. -/
theorem resolveAmong_of_hides {s : Store} (h : shadow C s token = .hides) :
    ∃ r, resolveAmong (shownRows s) token = .ok r := by
  unfold shadow at h
  split at h
  · cases h
  · rename_i hat
    have hany : (shownRows s).any (answersTo token) = true := by
      split at h
      · exact cast_eq_hides h
      · split at h
        · cases h
        · dsimp only at h
          split at h
          · cases h
          · exact cast_eq_hides h
    obtain ⟨r, hr, hans⟩ := List.any_eq_true.mp hany
    cases hf : firstAnswer (shownRows s) token with
    | some r => exact ⟨r, by simp [resolveAmong, hat, hf]⟩
    | none =>
      -- no step finds a row, so no row answers
      simp only [firstAnswer, Option.or_eq_none_iff, List.find?_eq_none] at hf
      simp only [answersTo, Bool.or_eq_true, decide_eq_true_eq] at hans
      rcases hans with ((hu | hs) | hn)
      · exact absurd (decide_eq_true hu) (hf.1.1 r hr)
      · exact absurd (decide_eq_true hs) (hf.1.2 r hr)
      · exact absurd hn (hf.2 r hr)

theorem shadow_eq_of_errors {s s' : Store} (hs : shownRows s = shownRows s')
    (h : ∀ e, resolveVisible .tcp C s token = .error e ↔
      resolveVisible .tcp C s' token = .error e) :
    shadow C s token = shadow C s' token := by
  have hamb : ∀ hosts,
      shadow C s token = .ambiguous hosts ↔ shadow C s' token = .ambiguous hosts := by
    intro hosts
    rw [shadow_eq_ambiguous_iff, shadow_eq_ambiguous_iff, h]
  have hhides : ∀ {t t' : Store}, shownRows t = shownRows t' → shadow C t token = .hides →
      shadow C t' token = .clear →
      (∀ e, resolveVisible .tcp C t token = .error e → resolveVisible .tcp C t' token = .error e) →
      False := by
    intro t t' ht hh hc hres
    obtain ⟨r, hr⟩ := resolveAmong_of_hides hh
    have he := hres (.notFound token) (by rw [resolveVisible_eq, hh])
    rw [resolveVisible_eq, hc] at he
    dsimp only at he
    rw [← ht, hr] at he
    cases he
  cases h1 : shadow C s token with
  | ambiguous hosts => exact ((hamb hosts).mp h1).symm
  | clear =>
    cases h2 : shadow C s' token with
    | clear => rfl
    | hides => exact (hhides hs.symm h2 h1 fun e => (h e).mpr).elim
    | ambiguous hosts => rw [← h1, (hamb hosts).mpr h2]
  | hides =>
    cases h2 : shadow C s' token with
    | clear => exact (hhides hs h1 h2 fun e => (h e).mp).elim
    | hides => rfl
    | ambiguous hosts => rw [← h1, (hamb hosts).mpr h2]

theorem snapshotLocalDevices_eq (s : Store) :
    s.snapshotLocalDevices = (shownRows s).filter fun r => r.state ≠ .disconnected := by
  unfold snapshotLocalDevices shownRows
  rw [List.filter_filter, List.filter_filter]
  refine List.filter_congr fun r _ => ?_
  simp only [shown, deviceVisible, ne_eq, Bool.and_comm, Bool.and_assoc]

theorem host_of_mem_shownRows {s : Store} (h : r ∈ shownRows s) : r.host = none := by
  have hv := (List.mem_filter.mp h).2
  simp only [shown, deviceVisible, Bool.and_eq_true, decide_eq_true_eq] at hv
  exact hv.1

/-- A request that resolves no token is answered from the rows shown and the lock table. -/
theorem seen_of_not_resolves (hs : shownRows d.store = shownRows d'.store)
    (hl : d.locks = d'.locks) (h : resolves text req q = none) :
    seen (answer text d now holder req q) = seen (answer text d' now holder req q) := by
  have hrun : ∀ (t : Token) (m : Response) (f f' : String → Response × Daemon), t.text? = none →
      seen (t.run (m, d) f) = seen (t.run (m, d') f') := by
    intro t m f f' ht
    cases t with
    | missing => simp [Token.run, seen, hl]
    | lone => rfl
    | text s => cases ht
  cases q with
  | list =>
    simp only [answer, seen, hl, listVisibleDevices, snapshotLocalDevices_eq, hs]
    congr 3
    refine List.map_congr_left fun r hr => ?_
    have hhost := host_of_mem_shownRows (List.mem_of_mem_filter hr)
    simp [deviceDict, hhost]
  | lock =>
    simp only [answer, lockRequest]
    split
    · simp [seen, hl]
    · cases hk : kindOf (req.get "kind") with
      | none => simp [seen, hl]
      | some kind =>
        refine hrun _ _ _ _ ?_
        simpa [resolves, hk] using h
  | find => exact hrun _ _ _ _ h
  | unlock => exact hrun _ _ _ _ h
  | markFlashed => exact hrun _ _ _ _ h
  | stream => exact hrun _ _ _ _ h

theorem seen_error_iff (hq : resolves text req q = some token)
    (he : e = .notFound token ∨ ∃ hosts, e = .ambiguousName token hosts) :
    resolveVisible .tcp d.casing d.store token = .error e ↔
      seen (answer text d now holder req q) = .ok (.error e, d.locks) := by
  have hne : q ≠ .list := by
    rintro rfl
    cases hq
  rw [answer_eq hq]
  cases hr : resolveVisible .tcp d.casing d.store token with
  | error e' =>
    simp only [seen, Except.error.injEq, Except.ok.injEq, Prod.mk.injEq, Response.error.injEq,
      and_true]
  | ok r =>
    refine iff_of_false nofun fun h => ?_
    simp only [seen, Except.ok.injEq, Prod.mk.injEq] at h
    exact onRow_ne_error hne he h.1

def vevov : ProbeResult :=
  ⟨"RADIOBRIDGE", "relay", "vevov", "12", "DEVICE:RADIOBRIDGE:relay:vevov:12"⟩

/-- A local board, attached and probed. -/
def ownBoard : Store :=
  ((Store.empty.upsertAttached 1 "9900a" "/dev/ttyACM0" "0d28:0204").applyProbeResult 2 "9900a"
    (some vevov)).toOption.getD Store.empty

/-- The same, and a peer's board of the same name. -/
def withPeerBoard : Store :=
  ((ownBoard.upsertRemoteAttached 3 "9900b" "loki" none none).applyRemoteProbe 4 "9900b"
    (some vevov)).toOption.getD Store.empty

def remoteClient : HolderRef := ⟨.remote, "1", none, some "10.0.0.7"⟩

def findByUid : Json := .obj [("op", .str "find"), ("uid", .str "9900a")]

def findByName : Json := .obj [("op", .str "find"), ("uid", .str "vevov")]

end Answers

end MbTools.Api
