import Mathlib.Data.List.Induction
import MbTools.Api.Requests
import MbTools.Api.System
import MbTools.Registry.Blocks

/-! # Waiting for a board to announce itself again

`mbdeploy deploy` looks a device up, resolves the hex file, flashes under a lock of
kind flash and then polls the owner's registry until the row of the board is connected
with a later probe time than the one looked up. The blocks of the owner's daemon come
anywhere between its steps.
-/

namespace MbTools.Deploy

open Api Store

/-- Where the device is looked up: in the registry that owns it, or in the replica of a peer, from
where the run goes on over the owner's remote port. -/
inductive Route where
  | own
  | peer (replica : Store)
  deriving DecidableEq, Repr

def Route.server : Route → Server
  | .own => .socket
  | .peer _ => .tcp

structure Command where
  target : String
  forceRelay : Bool
  route : Route
  /-- The connection to the owner. -/
  holder : HolderRef
  deriving DecidableEq, Repr

/-- How far the run has come; a flash that raised has no `success`. -/
inductive Phase where
  | asked
  | found (device : DeviceRecord)
  | resolved (device : DeviceRecord)
  | locked (device : DeviceRecord)
  | flashed (device : DeviceRecord) (success : Option Bool)
  | polling (device : DeviceRecord)
  | announced (device newDevice : DeviceRecord)
  | ended
  deriving DecidableEq, Repr

/-- The device the run has locked, as it was looked up, until the run is over. -/
def Phase.device : Phase → Option DeviceRecord
  | .locked r => some r
  | .flashed r _ => some r
  | .polling r => some r
  | _ => none

/-- The device that the run has reported, as it was looked up and as it was found again. -/
def Phase.report : Phase → Option (DeviceRecord × DeviceRecord)
  | .announced r q => some (r, q)
  | _ => none

theorem Phase.report_eq_some_iff {p : Phase} {r q : DeviceRecord} :
    p.report = some (r, q) ↔ p = .announced r q := by
  cases p <;> simp [report]

structure Run where
  owner : Blocks.Service
  phase : Phase

inductive Action where
  | owner (a : Blocks.Action)
  | find
  | resolve (hex : Bool)
  | lock (now : ℕ)
  | flash (success : Option Bool)
  | unlock (now : ℕ)
  | poll
  | timeOut
  | lost

namespace Command

variable (c : Command)

/-- The first `find`, if the device it answers is one of the route's owner. -/
def find (C : Casing) (s : Store) : Option Phase :=
  match c.route with
  | .own =>
    match resolveVisible .socket C s c.target with
    | .ok r => if r.host.isNone then some (.found r) else none
    | .error _ => some .ended
  | .peer replica =>
    match resolveVisible .socket C replica c.target with
    | .ok r => if r.host.isSome then some (.found r) else none
    | .error _ => some .ended

/-- What the flash of a board that succeeded leaves: the daemon with the flash counted, and whether
the run goes on. The owner's own `flash` operation counts it, else `mark_flashed` does. -/
def markFlashed (d : Daemon) (uid : String) : Option Bool × Daemon :=
  match c.route with
  | .own =>
    match answerMarkFlashed .socket d uid c.holder with
    | (.error e, d') => (if e.code = "invalid_request" then some true else none, d')
    | (_, d') => (some true, d')
  | .peer _ => (some true, d.apply (.markFlashed uid))

/-- The daemon after `unlock`, whose errors are only warned of. -/
def unlock (d : Daemon) (now : ℕ) (uid : String) : Daemon :=
  match opUnlock c.route.server d now (some uid) c.holder with
  | .ok (_, _, d') => d'
  | .error _ => d

end Command

/-- Does this row of the device tell, by its state and its time, of a probe since `r` was read? -/
def later (r q : DeviceRecord) : Bool := q.state = .connected && r.lastProbe < q.lastProbe

namespace Run

variable (c : Command)

/-- One step of the run, or one block of the owner's daemon. -/
def step (w : Run) : Action → Option Run
  | .owner a => (Blocks.step w.owner a).map fun owner => { w with owner }
  | .find =>
    match w.phase with
    | .asked =>
      (c.find w.owner.daemon.casing w.owner.daemon.store).map fun phase => { w with phase }
    | _ => none
  | .resolve hex =>
    match w.phase with
    | .found r =>
      if System.isRelayRole w.owner.daemon.casing r.role && !c.forceRelay then
        some { w with phase := .ended }
      else some { w with phase := if hex then .resolved r else .ended }
    | _ => none
  | .lock now =>
    match w.phase with
    | .resolved r =>
      match opLock c.route.server w.owner.daemon now ⟨some r.uid, some "flash", none⟩ c.holder with
      | .ok (_, d) => some ⟨{ w.owner with daemon := d }, .locked r⟩
      | .error _ => some { w with phase := .ended }
    | _ => none
  | .flash success =>
    match w.phase with
    | .locked r =>
      if success = some true then
        let (success, d) := c.markFlashed w.owner.daemon r.uid
        some ⟨{ w.owner with daemon := d }, .flashed r success⟩
      else some { w with phase := .flashed r success }
    | _ => none
  | .unlock now =>
    match w.phase with
    | .flashed r success =>
      some ⟨{ w.owner with daemon := c.unlock w.owner.daemon now r.uid },
        if success = some true then .polling r else .ended⟩
    | _ => none
  | .poll =>
    match w.phase with
    | .polling r =>
      match resolveVisible c.route.server w.owner.daemon.casing w.owner.daemon.store r.uid with
      | .ok q => some { w with phase := if later r q then .announced r q else .polling r }
      | .error (.notFound _) => some w
      | .error _ => some { w with phase := .ended }
    | _ => none
  | .timeOut =>
    match w.phase with
    | .polling _ => some { w with phase := .ended }
    | _ => none
  | .lost =>
    match w.phase with
    | .announced _ _ => none
    | _ => some { w with phase := .ended }

/-- A run that is about to look its device up, beside an owner in any state. -/
def begin (owner : Blocks.Service) : Run := ⟨owner, .asked⟩

/-- Does the connection hold the flash lock of the uid? -/
def held (d : Daemon) (uid : String) : Bool :=
  (d.locks.status uid).any fun st => st.kind = .flash && st.holder = c.holder

/-- Does the row of the device look as after a probe since it was looked up? -/
def fresh (s : Store) (r : DeviceRecord) : Bool := (s.get r.uid).any (later r)

/-- The step ends the flash lock that the run has taken on the uid. -/
def Releases (uid : String) (w : Run) (a : Action) : Prop :=
  w.phase.device.map DeviceRecord.uid = some uid ∧ held c w.owner.daemon uid = true ∧
    (step c w a).any (fun w' => !held c w'.owner.daemon uid) = true

/-- The owner's daemon records the announcement that a probe of the uid has heard. -/
def Reprobes (uid : String) (w : Run) : Action → Prop
  | .owner (.write wall u (some p) chip) =>
    u = uid ∧ u ∈ w.owner.inFlight ∧
      (w.owner.daemon.probeWrite wall u (some p) chip).toOption.isSome = true
  | _ => False

instance (uid : String) (w : Run) (a : Action) : Decidable (Releases c uid w a) :=
  inferInstanceAs (Decidable (_ ∧ _ ∧ _))

instance (uid : String) (w : Run) : ∀ a, Decidable (Reprobes uid w a)
  | .owner (.write _ _ (some _) _) => inferInstanceAs (Decidable (_ ∧ _ ∧ _))
  | .owner (.write _ _ none _) => isFalse id
  | .owner (.diff _) => isFalse id
  | .owner (.check _) => isFalse id
  | .owner (.op _) => isFalse id
  | .owner .restart => isFalse id
  | .find => isFalse id
  | .resolve _ => isFalse id
  | .lock _ => isFalse id
  | .flash _ => isFalse id
  | .unlock _ => isFalse id
  | .poll => isFalse id
  | .timeOut => isFalse id
  | .lost => isFalse id

/-- When the times tell of a probe: when the lock goes, the row is not fresh yet, and no report of a
peer makes it fresh later; lock and poll find the device itself by its uid; and no poll finds a
fresh row while the lock is still there. -/
def Telling (w : Run) (a : Action) : Prop :=
  (match step c w a, w.phase.device with
    | some w', some r => held c w.owner.daemon r.uid = true →
        held c w'.owner.daemon r.uid = false → fresh w'.owner.daemon.store r = false
    | _, _ => True) ∧
  match a, w.phase with
  | .owner (.op (.peer host input)), phase =>
    match phase.device with
    | some r => held c w.owner.daemon r.uid = false → fresh w.owner.daemon.store r = false →
        fresh (w.owner.daemon.apply (.peer host input)).store r = false
    | none => True
  | .lock _, .resolved r =>
    match resolveVisible c.route.server w.owner.daemon.casing w.owner.daemon.store r.uid with
    | .ok q => q.uid = r.uid
    | .error _ => True
  | .poll, .polling r =>
    match resolveVisible c.route.server w.owner.daemon.casing w.owner.daemon.store r.uid with
    | .ok q => later r q = true → q.uid = r.uid ∧ held c w.owner.daemon r.uid = false
    | .error _ => True
  | _, _ => True

instance (w : Run) (a : Action) : Decidable (Telling c w a) := by
  unfold Telling
  refine @instDecidableAnd _ _ ?_ ?_
  · split <;> infer_instance
  · split
    · split <;> infer_instance
    · split <;> infer_instance
    · split <;> infer_instance
    · infer_instance

section Fresh

variable {b b' : Blocks.Service} {d d' : Daemon} {r q : DeviceRecord} {uid : String} {c : Cycle}

theorem fresh_congr {s s' : Store} (h : s'.get r.uid = s.get r.uid) : fresh s' r = fresh s r := by
  rw [fresh, fresh, h]

/-- The rows that a scan writes tell of no probe that was not there before. -/
theorem later_attachedRow {wall : ℕ} {info : PortInfo} {prev : Option DeviceRecord}
    (h : later r (Daemon.attachedRow wall uid info prev) = true) : prev.any (later r) = true := by
  cases prev with
  | none => simp [Daemon.attachedRow, DeviceRecord.upserted, DeviceRecord.new, later] at h
  | some q =>
    simp only [Daemon.attachedRow, DeviceRecord.upserted, ne_eq, not_true_eq_false, false_and,
      if_false] at h
    split at h
    · simp [DeviceRecord.reattached, later] at h
    · exact h

theorem fresh_lockedBlock (h : fresh (d.lockedBlock c).1.store r = true) :
    fresh d.store r = true := by
  have hdiff : fresh (d.diff c).1.store r = true := by
    unfold Daemon.lockedBlock at h
    rcases Daemon.giveUpLoop_row (d.diff c).1.flashPending.rows (d.diff c).1 [] r.uid with
      (he | ⟨-, q, -, he⟩)
    · rwa [fresh, he] at h
    · rw [fresh, he] at h
      simp [later, DeviceRecord.knownBlank] at h
  rw [fresh, Daemon.diff_get, Daemon.rowAfterDiff] at hdiff
  split at hdiff
  · split at hdiff
    · exact hdiff
    · exact later_attachedRow hdiff
  · split at hdiff
    · simp only [Option.any_map, Option.any_eq_true] at hdiff
      obtain ⟨q, -, hq⟩ := hdiff
      simp [later, DeviceRecord.gone] at hq
    · exact hdiff

/-- A probe that heard nothing leaves a row that is not connected. -/
theorem not_later_of_silent {wall : ℕ} {pending : Bool} {chip : Option (String × ℕ)} :
    later r (Daemon.outcomeRow wall pending none chip q) = false := by
  have hrec : later r (Daemon.recordedRow wall pending none q) = false := by
    unfold Daemon.recordedRow
    split <;> simp [later, DeviceRecord.knownBlank, DeviceRecord.probed]
  cases chip with
  | none => exact hrec
  | some x =>
    rw [later] at hrec ⊢
    simpa [Daemon.outcomeRow] using hrec

/-- No operation makes a row fresh, but for the report of a peer. -/
theorem fresh_apply {o : Op} (h : fresh (d.apply o).store r = true) :
    fresh d.store r = true ∨ ∃ host input, o = .peer host input := by
  rcases Daemon.get_apply_cases o r.uid with (he | he | ⟨-, -, he⟩ | ⟨host, input, rfl⟩)
  · exact Or.inl (by rwa [fresh, he] at h)
  · rw [fresh, he, Option.any_map] at h
    exact Or.inl h
  · rw [fresh, he] at h
    cases h
  · exact Or.inr ⟨host, input, rfl⟩

/-- A row becomes fresh by a probe that heard the board, or by the report of a peer. -/
theorem fresh_step {w : Run} {a : Blocks.Action} (hs : Blocks.step w.owner a = some b')
    (h : fresh b'.daemon.store r = true) : fresh w.owner.daemon.store r = true ∨
      Reprobes r.uid w (.owner a) ∨ ∃ host input, a = .op (.peer host input) := by
  obtain ⟨b, phase⟩ := w
  cases a with
  | diff c =>
    cases hs
    exact Or.inl (fresh_lockedBlock h)
  | check uid =>
    simp only [Blocks.step] at hs
    split at hs <;> (cases hs; exact Or.inl h)
  | write wall uid result chip =>
    simp only [Blocks.step] at hs
    split at hs
    · rename_i hf
      cases hs
      cases hw : b.daemon.probeWrite wall uid result chip with
      | error e =>
        rw [hw] at h
        exact Or.inl h
      | ok d' =>
        rw [hw] at h
        obtain ⟨q, hq, hnew, hother, -⟩ := Daemon.probeWrite_spec hw
        by_cases hu : uid = r.uid
        · subst hu
          cases result with
          | some p => exact Or.inr (Or.inl ⟨rfl, hf, by rw [hw]; rfl⟩)
          | none =>
            simp only [Except.toOption, Option.getD_some, fresh, hnew, Option.any_some] at h
            rw [not_later_of_silent] at h
            cases h
        · exact Or.inl ((fresh_congr (hother r.uid hu)).symm.trans h)
    · cases hs
  | op o =>
    cases hs
    rcases fresh_apply h with (h | ⟨host, input, rfl⟩)
    · exact Or.inl h
    · exact Or.inr (Or.inr ⟨host, input, rfl⟩)
  | restart =>
    cases hs
    refine Or.inl ?_
    rcases get_sweepVirtual_cases b.daemon.store r.uid with (hnone | hsame)
    · rw [fresh, Daemon.restarted, hnone] at h
      cases h
    · exact (fresh_congr hsame).symm.trans h

end Fresh

section Runs

open MbTools.Runs

variable {c : Command} {s : Run} {as : List Action} {w w' : Run} {a : Action} {r q : DeviceRecord}

/-- What a run that has taken the lock of `r` owes for it: the lock is still there, or it has gone
and either a probe came after it or the row is still not fresh. -/
def Accounted (c : Command) (s : Run) (as : List Action) (r : DeviceRecord) (d : Daemon) : Prop :=
  held c d r.uid = true ∨ HappenedThen (step c) (Releases c r.uid) (Reprobes r.uid) s as ∨
    (Happened (step c) (Releases c r.uid) s as ∧ fresh d.store r = false)

/-- A step of a run that holds the device keeps the account, if only a probe makes the row fresh
once the lock is gone. -/
theorem Accounted.step (h : Accounted c s as r w.owner.daemon)
    (hr : exec (Run.step c) s as = some w) (hdev : w.phase.device = some r)
    (hs : Run.step c w a = some w') (htell : Telling c w a)
    (hfresh : held c w.owner.daemon r.uid = false → fresh w'.owner.daemon.store r = true →
      fresh w.owner.daemon.store r = true ∨ Reprobes r.uid w a) :
    Accounted c s (as ++ [a]) r w'.owner.daemon := by
  by_cases hheld : held c w.owner.daemon r.uid = true
  · by_cases hheld' : held c w'.owner.daemon r.uid = true
    · exact Or.inl hheld'
    · -- this step ends the lock
      rw [Bool.not_eq_true] at hheld'
      have hrel : Releases c r.uid w a := ⟨by rw [hdev]; rfl, hheld, by rw [hs]; simp [hheld']⟩
      have hstale := htell.1
      simp only [hs, hdev] at hstale
      exact Or.inr (Or.inr ⟨Happened.concat hr hrel, hstale hheld hheld'⟩)
  · rcases h with (h | h | ⟨hrel, hstale⟩)
    · exact absurd h hheld
    · exact Or.inr (Or.inl (h.append [a]))
    · rw [Bool.not_eq_true] at hheld
      by_cases hf : fresh w'.owner.daemon.store r = true
      · rcases hfresh hheld hf with (hold | hprobe)
        · rw [hstale] at hold
          cases hold
        · exact Or.inr (Or.inl (hrel.thenConcat hr hprobe))
      · rw [Bool.not_eq_true] at hf
        exact Or.inr (Or.inr ⟨hrel.append [a], hf⟩)

/-- What a run has to show for the device it has locked, and for the one it reports. -/
structure Sound (c : Command) (s : Run) (as : List Action) (w : Run) : Prop where
  device : ∀ r, w.phase.device = some r → Accounted c s as r w.owner.daemon
  announced : ∀ r q, w.phase = .announced r q →
    HappenedThen (step c) (Releases c r.uid) (Reprobes r.uid) s as

theorem held_of_opLock {server : Server} {d d' : Daemon} {now : ℕ} {uid u : String}
    (h : opLock server d now ⟨some uid, some "flash", none⟩ c.holder = .ok (u, d')) :
    held c d' u = true ∧ ∃ q, resolveVisible server d.casing d.store uid = .ok q ∧ q.uid = u := by
  have hkind : field (some "flash") = some "flash" := field_of_ne (by decide)
  rw [opLock, hkind] at h
  split at h
  · rename_i token kind htoken hk
    obtain rfl := Option.some.inj hk
    obtain rfl : uid = token := Option.some.inj (Option.eq_some_of_filter_eq_some htoken)
    simp only [show LockKind.ofString? "flash" = some .flash from rfl] at h
    split at h
    · cases h
    · rename_i q hq
      split at h
      · cases h
      · split at h
        · cases h
        · rename_i locks hl
          simp only [Except.ok.injEq, Prod.mk.injEq] at h
          obtain ⟨rfl, rfl⟩ := h
          obtain ⟨-, rfl⟩ := LockManager.acquire_eq_ok_iff.mp hl
          refine ⟨?_, q, hq, rfl⟩
          rw [held, LockManager.status_insert, if_pos rfl]
          simp
  · cases h

theorem find_idle {C : Casing} {t : Store} {phase : Phase} (h : c.find C t = some phase) :
    phase.device = none ∧ phase.report = none := by
  unfold Command.find at h
  split at h
  all_goals
    split at h
    · split at h
      · cases h
        exact ⟨rfl, rfl⟩
      · cases h
    · cases h
      exact ⟨rfl, rfl⟩

theorem unlock_store (d : Daemon) (now : ℕ) (uid : String) :
    (c.unlock d now uid).store = d.store := by
  unfold Command.unlock
  split
  · rename_i h
    obtain ⟨_, _, -, -, -, rfl⟩ := opUnlock_eq_ok h
    exact Daemon.releaseLock_store
  · rfl

theorem fresh_markFlashed (d : Daemon) (uid : String) :
    fresh (c.markFlashed d uid).2.store r = fresh d.store r := by
  have hcount : ∀ u, fresh ((d.store.incrementFlashCount u).toOption.getD d.store) r =
      fresh d.store r := by
    intro u
    rw [fresh, Daemon.get_incrementFlashCount]
    split
    · rw [Option.any_map]
      rfl
    · rfl
  have hanswer : fresh (answerMarkFlashed .socket d uid c.holder).2.store r = fresh d.store r := by
    unfold answerMarkFlashed
    split
    · rfl
    · rename_i q hq
      split
      · rfl
      · split
        · have h := hcount q.uid
          split
          · rename_i hs
            rwa [hs] at h
          · rfl
        · rfl
  unfold Command.markFlashed
  split
  · split
    · rename_i h
      rwa [h] at hanswer
    · rename_i h
      rwa [h] at hanswer
  · exact hcount uid

/-- Before the lock and after the end there is nothing to show. -/
theorem Sound.of_idle (hdev : w.phase.device = none) (hann : w.phase.report = none) :
    Sound c s as w := by
  refine ⟨fun r h => ?_, fun r q h => ?_⟩
  · rw [hdev] at h
    cases h
  · rw [h] at hann
    cases hann

theorem Sound.of_device (hdev : w.phase.device = some r)
    (h : Accounted c s as r w.owner.daemon) : Sound c s as w := by
  refine ⟨fun r' hr' => ?_, fun r' q hr' => ?_⟩
  · obtain rfl := Option.some.inj (hdev.symm.trans hr')
    exact h
  · rw [hr'] at hdev
    cases hdev

theorem Sound.owner {b : Blocks.Action} (h : Sound c s as w) (hr : exec (Run.step c) s as = some w)
    (hs : Run.step c w (.owner b) = some w') (htell : Telling c w (.owner b)) :
    Sound c s (as ++ [.owner b]) w' := by
  obtain ⟨owner, hb, rfl⟩ := Option.map_eq_some_iff.mp hs
  refine ⟨fun r hdev => ?_, fun r q hann => (h.announced r q hann).append _⟩
  refine (h.device r hdev).step hr hdev hs htell fun hheld hf => ?_
  rcases fresh_step hb hf with (hold | hprobe | ⟨host, input, rfl⟩)
  · exact Or.inl hold
  · exact Or.inr hprobe
  · -- the report of a peer: the condition says that it does not make the row fresh
    cases hb
    by_contra hnot
    rw [not_or, Bool.not_eq_true] at hnot
    have hpeer := htell.2
    simp only [hdev] at hpeer
    exact absurd (hpeer hheld hnot.1) (by simpa using hf)

theorem Sound.lock {now : ℕ} (hs : Run.step c w (.lock now) = some w')
    (htell : Telling c w (.lock now)) : Sound c s (as ++ [.lock now]) w' := by
  obtain ⟨owner, phase⟩ := w
  simp only [Run.step] at hs
  split at hs
  · rename_i r
    split at hs
    · rename_i u d hop
      cases hs
      obtain ⟨hheld, q, hq, rfl⟩ := held_of_opLock hop
      have hown := htell.2
      simp only [hq] at hown
      exact Sound.of_device rfl (Or.inl (hown ▸ hheld))
    · cases hs
      exact Sound.of_idle rfl rfl
  · cases hs

theorem Sound.flash {success : Option Bool} (h : Sound c s as w)
    (hr : exec (Run.step c) s as = some w) (hs : Run.step c w (.flash success) = some w')
    (htell : Telling c w (.flash success)) : Sound c s (as ++ [.flash success]) w' := by
  have hstep := hs
  obtain ⟨owner, phase⟩ := w
  simp only [Run.step] at hs
  split at hs
  · rename_i r
    have hacc := h.device r rfl
    split at hs
    · cases hs
      refine Sound.of_device rfl (hacc.step hr rfl hstep htell fun _ hf => Or.inl ?_)
      rwa [fresh_markFlashed] at hf
    · cases hs
      exact Sound.of_device rfl (hacc.step hr rfl hstep htell fun _ hf => Or.inl hf)
  · cases hs

theorem Sound.unlock {now : ℕ} (h : Sound c s as w) (hr : exec (Run.step c) s as = some w)
    (hs : Run.step c w (.unlock now) = some w') (htell : Telling c w (.unlock now)) :
    Sound c s (as ++ [.unlock now]) w' := by
  have hstep := hs
  obtain ⟨owner, phase⟩ := w
  simp only [Run.step] at hs
  split at hs
  · rename_i r success
    cases hs
    by_cases hok : success = some true
    · subst hok
      have hacc := h.device r rfl
      refine Sound.of_device rfl (hacc.step hr rfl hstep htell fun _ hf => Or.inl ?_)
      rwa [unlock_store] at hf
    · rw [if_neg hok]
      exact Sound.of_idle rfl rfl
  · cases hs

/-- A poll that reports has read the row of the device, and the row was not fresh when the lock
went. -/
theorem Sound.poll (h : Sound c s as w) (hr : exec (Run.step c) s as = some w)
    (hs : Run.step c w .poll = some w') (htell : Telling c w .poll) :
    Sound c s (as ++ [.poll]) w' := by
  have hstep := hs
  obtain ⟨owner, phase⟩ := w
  simp only [Run.step] at hs
  split at hs
  · rename_i r
    have hacc := h.device r rfl
    split at hs
    · rename_i q hq
      by_cases hlater : later r q = true
      · rw [if_pos hlater] at hs
        cases hs
        have hpoll := htell.2
        simp only [hq] at hpoll
        obtain ⟨hown, hheld⟩ := hpoll hlater
        have hget := get_of_find (resolveVisible_eq_ok_iff.mp hq).1
        have hfresh : fresh owner.daemon.store r = true := by
          rw [fresh, ← hown, hget]
          exact hlater
        refine ⟨fun _ hdev => (nomatch hdev), fun r' q' hann => ?_⟩
        cases hann
        rcases hacc with (hheld' | hdone | ⟨-, hstale⟩)
        · rw [hheld] at hheld'
          cases hheld'
        · exact hdone.append _
        · rw [hfresh] at hstale
          cases hstale
      · rw [if_neg hlater] at hs
        cases hs
        exact Sound.of_device rfl (hacc.step hr rfl hstep htell fun _ hf => Or.inl hf)
    · cases hs
      exact Sound.of_device rfl (hacc.step hr rfl hstep htell fun _ hf => Or.inl hf)
    · cases hs
      exact Sound.of_idle rfl rfl
  · cases hs

theorem Sound.step (h : Sound c s as w) (hr : exec (Run.step c) s as = some w)
    (hs : Run.step c w a = some w') (htell : Telling c w a) : Sound c s (as ++ [a]) w' := by
  cases a with
  | owner b => exact h.owner hr hs htell
  | find =>
    simp only [Run.step] at hs
    split at hs
    · obtain ⟨phase, hfind, rfl⟩ := Option.map_eq_some_iff.mp hs
      obtain ⟨hdev, hrep⟩ := find_idle hfind
      exact Sound.of_idle hdev hrep
    · cases hs
  | resolve hex =>
    simp only [Run.step] at hs
    split at hs
    · split at hs
      · cases hs
        exact Sound.of_idle rfl rfl
      · cases hs
        cases hex with
        | true => exact Sound.of_idle rfl rfl
        | false => exact Sound.of_idle rfl rfl
    · cases hs
  | lock now => exact Sound.lock hs htell
  | flash success => exact h.flash hr hs htell
  | unlock now => exact h.unlock hr hs htell
  | poll => exact h.poll hr hs htell
  | timeOut =>
    simp only [Run.step] at hs
    split at hs
    · cases hs
      exact Sound.of_idle rfl rfl
    · cases hs
  | lost =>
    simp only [Run.step] at hs
    split at hs
    · cases hs
    · cases hs
      exact Sound.of_idle rfl rfl

theorem sound_of_run {b : Blocks.Service} (as : List Action) : ∀ w,
    exec (Run.step c) (begin b) as = some w → Meets (Run.step c) (Telling c) (begin b) as →
      Sound c (begin b) as w := by
  induction as using List.reverseRecOn with
  | nil =>
    intro w hr _
    obtain rfl := Option.some.inj hr
    exact Sound.of_idle rfl rfl
  | append_singleton as a ih =>
    intro w hr hm
    obtain ⟨t, ht, hs⟩ := exec_concat.mp hr
    exact (ih t ht hm.left).step ht hs (hm.right ht).head

end Runs

end Run

open MbTools.Runs

variable {c : Command} {b : Blocks.Service} {as : List Action} {w : Run} {r q : DeviceRecord}

/-- Where the times tell of a probe, a run that reports the board has seen the lock of its own flash
go, and after that the daemon has recorded an announcement. -/
theorem announced_after_reprobe (hr : exec (Run.step c) (Run.begin b) as = some w)
    (hm : Meets (Run.step c) (Run.Telling c) (Run.begin b) as)
    (hw : w.phase = .announced r q) :
    HappenedThen (Run.step c) (Run.Releases c r.uid) (Run.Reprobes r.uid) (Run.begin b) as :=
  (Run.sound_of_run as w hr hm).announced r q hw

/-- `mbdeploy deploy` of a board on this host. -/
def ownBoard : Command := ⟨"9900a", false, .own, ⟨.local, "512", some 512, none⟩⟩

def announcement : ProbeResult := ⟨"ROBOT", "mbx", "gitig", "1234", "DEVICE:ROBOT:mbx:gitig:1234"⟩

/-- A registry that has just started. -/
def service : Blocks.Service := Blocks.start Daemon.blank

/-- Does the run report the board? -/
def reports (w : Run) : Bool := w.phase.report.any fun p => p.1.uid = "9900a"

theorem announced_of_reports (h : reports w = true) :
    ∃ r q, w.phase = .announced r q ∧ r.uid = "9900a" := by
  obtain ⟨⟨r, q⟩, hp, hr⟩ := (Option.any_eq_true _ _).mp h
  exact ⟨r, q, Phase.report_eq_some_iff.mp hp, of_decide_eq_true hr⟩

/-- A board that was probed before, and is probed again after the flash. -/
def reflashed : List Action :=
  [.owner (.diff .oneBoard), .owner (.check "9900a"),
    .owner (.write 20 "9900a" (some announcement) none), .find, .resolve true, .lock 30,
    .flash (some true), .unlock 40, .poll, .owner (.diff .oneBoard), .owner (.check "9900a"),
    .owner (.write 50 "9900a" (some announcement) none), .poll]

theorem announced_after_reprobe_reflashed : ∃ w r q,
    exec (Run.step ownBoard) (Run.begin service) reflashed = some w ∧
      w.phase = .announced r q ∧ HappenedThen (Run.step ownBoard) (Run.Releases ownBoard r.uid)
        (Run.Reprobes r.uid) (Run.begin service) reflashed := by
  have hrun : (exec (Run.step ownBoard) (Run.begin service) reflashed).any reports = true := by
    decide +kernel
  have hm : Meets (Run.step ownBoard) (Run.Telling ownBoard) (Run.begin service) reflashed := by
    decide +kernel
  obtain ⟨w, hw, hrep⟩ := (Option.any_eq_true _ _).mp hrun
  obtain ⟨r, q, hann, -⟩ := announced_of_reports hrep
  exact ⟨w, r, q, hw, hann, announced_after_reprobe hw hm hann⟩

/-- The board is looked up while its first probe is under way. -/
def probedMeanwhile : List Action :=
  [.owner (.diff .oneBoard), .owner (.check "9900a"), .find,
    .owner (.write 20 "9900a" (some announcement) none), .resolve true, .lock 30,
    .flash (some true), .unlock 40, .poll]

/-- The first poll takes the probe before the flash for one after it. -/
theorem announced_without_reprobe : ¬ ∀ (as : List Action) (w : Run) (r q : DeviceRecord),
    exec (Run.step ownBoard) (Run.begin service) as = some w → w.phase = .announced r q →
      HappenedThen (Run.step ownBoard) (Run.Releases ownBoard r.uid) (Run.Reprobes r.uid)
        (Run.begin service) as := by
  intro h
  have hrun : (exec (Run.step ownBoard) (Run.begin service) probedMeanwhile).any reports =
      true := by decide +kernel
  obtain ⟨w, hw, hrep⟩ := (Option.any_eq_true _ _).mp hrun
  obtain ⟨r, q, hann, huid⟩ := announced_of_reports hrep
  have hno : ¬ HappenedThen (Run.step ownBoard) (Run.Releases ownBoard "9900a")
      (Run.Reprobes "9900a") (Run.begin service) probedMeanwhile := by decide +kernel
  exact hno (huid ▸ h probedMeanwhile w r q hw hann)

end MbTools.Deploy
