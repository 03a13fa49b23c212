import MbTools.Registry.Service

/-! # Cycles block by block

A cycle is its locked block, then for each uid it owns a check and, if the
check allows a probe, the write when the port is closed again. Operations of
clients and peers come between any two blocks, and so do the blocks of another
cycle; a sequential run is one in which they do not.
-/

namespace MbTools.Blocks

open Store DeviceRecord Daemon

structure Service where
  daemon : Daemon
  /-- The uids the last locked block left to be checked. -/
  toCheck : List String
  /-- The uids whose ports are open, each once for every probe of it. -/
  inFlight : List String

inductive Action where
  | diff (c : Cycle)
  | check (uid : String)
  | write (wall : ℕ) (uid : String) (result : Option ProbeResult) (chip : Option (String × ℕ))
  | op (o : Op)
  | restart

/-- The block opens the port of the uid. -/
def StartsProbe (w : Service) (uid : String) (a : Action) : Prop :=
  a = .check uid ∧ w.daemon.probeEligible uid = .ok true

/-- The uids to check after a locked block; an exception ends the cycle. -/
def checkList (d : Daemon) (c : Cycle) : List String :=
  if (d.lockedBlock c).2.toOption.isSome then (d.diff c).2.2.1 else []

def step (w : Service) : Action → Option Service
  | .diff c => some ⟨(w.daemon.lockedBlock c).1, checkList w.daemon c, w.inFlight⟩
  | .check uid =>
    match w.daemon.probeEligible uid with
    | .ok true => some { w with toCheck := w.toCheck.erase uid, inFlight := uid :: w.inFlight }
    | _ => some { w with toCheck := w.toCheck.erase uid }
  | .write wall uid result chip =>
    if uid ∈ w.inFlight then
      some
        { w with
          daemon := (w.daemon.probeWrite wall uid result chip).toOption.getD w.daemon
          inFlight := w.inFlight.erase uid }
    else none
  | .op o => some { w with daemon := w.daemon.apply o }
  | .restart => some ⟨w.daemon.restarted, [], []⟩

/-- A service between two cycles. -/
def start (d : Daemon) : Service := ⟨d, [], []⟩

/-- The blocks of one cycle after the other, a restart between two cycles. -/
def Sequential (w : Service) : Action → Prop
  | .diff _ => w.inFlight = []
  | .check uid => w.inFlight = [] ∧ uid ∈ w.toCheck
  | .restart => w.inFlight = []
  | _ => True

section Blocks

variable {w w' : Service} {d : Daemon} {c : Cycle} {uid : String}

theorem step_check_of_eligible (h : w.daemon.probeEligible uid = .ok true) :
    step w (.check uid) =
      some { w with toCheck := w.toCheck.erase uid, inFlight := uid :: w.inFlight } := by
  simp only [step, h]

theorem step_check_of_not (w : Service) (uid : String) (h : w.daemon.probeEligible uid ≠ .ok true) :
    step w (.check uid) = some { w with toCheck := w.toCheck.erase uid } := by
  simp only [step]

theorem exec_maybeProbe {l : List String} {records : List DeviceRecord}
    (hc : w.toCheck = uid :: l) (hf : w.inFlight = [])
    (hd : w.daemon.maybeProbe c uid = .ok (d, records)) : ∃ as, Runs.exec step w as =
      some ⟨d, l, []⟩ ∧ Runs.Meets step Sequential w as := by
  obtain ⟨daemon, toCheck, inFlight⟩ := w
  obtain rfl : toCheck = uid :: l := hc
  obtain rfl : inFlight = [] := hf
  have hseq : Sequential ⟨daemon, uid :: l, []⟩ (.check uid) := ⟨rfl, List.mem_cons_self⟩
  rcases maybeProbe_cases hd with (⟨helig, rfl⟩ | ⟨helig, chip, hwrite⟩)
  · have hcheck := step_check_of_not ⟨d, uid :: l, []⟩ uid (by rw [helig]; nofun)
    rw [List.erase_cons_head] at hcheck
    refine ⟨[.check uid], Runs.exec_cons.mpr ⟨_, hcheck, rfl⟩, ?_⟩
    exact (Runs.meets_cons_of_step hcheck).mpr ⟨hseq, trivial⟩
  · have hcheck := step_check_of_eligible (w := ⟨daemon, uid :: l, []⟩) helig
    have hclose : step ⟨daemon, l, [uid]⟩ (.write c.wall uid (c.probe uid).result chip) =
        some ⟨d, l, []⟩ := by
      simp [step, hwrite, Except.toOption]
    rw [List.erase_cons_head] at hcheck
    refine ⟨[.check uid, .write c.wall uid (c.probe uid).result chip],
      Runs.exec_cons.mpr ⟨_, hcheck, Runs.exec_cons.mpr ⟨_, hclose, rfl⟩⟩, ?_⟩
    refine (Runs.meets_cons_of_step hcheck).mpr ⟨hseq, ?_⟩
    exact (Runs.meets_cons_of_step hclose).mpr ⟨trivial, trivial⟩

/-- A whole cycle, returning or raising, is a sequential run of its blocks. -/
theorem exec_runOnce (w : Service) (c : Cycle) (hf : w.inFlight = []) :
    ∃ as w', Runs.exec step w (.diff c :: as) = some w' ∧
      Runs.Meets step Sequential w (.diff c :: as) ∧ w'.inFlight = [] ∧
      w'.daemon = (w.daemon.runOnce c).daemon := by
  have hprobe : ∀ w uid l d records, (w.toCheck = uid :: l ∧ w.inFlight = []) →
      w.daemon.maybeProbe c uid = .ok (d, records) → ∃ as w', Runs.exec step w as = some w' ∧
        Runs.Meets step Sequential w as ∧ (w'.toCheck = l ∧ w'.inFlight = []) ∧
          w'.daemon = d := by
    intro w uid l d records h hd
    obtain ⟨as, hrun, hmeets⟩ := exec_maybeProbe h.1 h.2 hd
    exact ⟨as, _, hrun, hmeets, ⟨rfl, rfl⟩, rfl⟩
  have hlist : ∀ timedOut, (w.daemon.lockedBlock c).2 = .ok timedOut →
      checkList w.daemon c = (w.daemon.diff c).2.2.1 := by
    intro timedOut hg
    simp [checkList, hg, Except.toOption]
  obtain ⟨as, w', l, hrun, hmeets, hready, hres⟩ :=
    exec_runOnce_of_probe Sequential Service.daemon (fun w l => w.toCheck = l ∧ w.inFlight = [])
      hprobe (a := .diff c) rfl hf rfl ⟨rfl, hf⟩ hlist
  exact ⟨as, w', hrun, hmeets, hready.2, hres⟩

end Blocks

end MbTools.Blocks
