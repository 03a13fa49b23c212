import MbTools.Service.Manager
import Mathlib.Data.List.Basic
import Mathlib.Data.List.Induction
import Mathlib.Tactic.Common

/-! # What the service leaves in the file system

What a request makes of each path, and that it does nothing else: what holds of a path, and is
kept by the commands, holds after the request unless the request itself writes or removes the
path. From that, what holds over any run of requests, whichever of them fail and whatever the
daemon writes beside them.
-/

namespace MbTools.Service

/-- What becomes of a path: nothing, or its content, or that there is none. -/
abbrev Effect := Path → Option (Option String)

def Effect.nothing : Effect := fun _ => none

def Effect.write (path : Path) (content : String) : Effect :=
  fun q => if path = q then some (some content) else none

def Effect.remove (P : Path → Bool) : Effect := fun q => if P q then some none else none

/-- Does the request leave this at a path? A text that is being written is there as far as it
got. -/
def Effect.Leaves (E : Effect) (q : Path) (x : Option String) : Prop :=
  match E q with
  | none => False
  | some none => x = none
  | some (some content) => ∃ part, x = some part ∧ part.toList <+: content.toList

theorem Effect.leaves_write {path : Path} {content part : String}
    (hpart : part.toList <+: content.toList) :
    (Effect.write path content).Leaves path (some part) := by
  rw [Leaves, write, if_pos rfl]
  exact ⟨part, rfl, hpart⟩

theorem Effect.leaves_remove {P : Path → Bool} {q : Path} {x : Option String} :
    (Effect.remove P).Leaves q x ↔ P q = true ∧ x = none := by
  unfold Leaves remove
  cases P q <;> simp

/-! ## What the commands do -/

section Commands

variable {fails : ℕ → Option Exn} {makes : ℕ → List String → Dict Path String → Dict Path String}
  {runner : Runner} {P : Option String → Prop} {q : Path}

/-- This command keeps that of the path. -/
def Runner.KeepsAt (argv : List String) (P : Option String → Prop) (q : Path) : Runner → Prop
  | .dry => True
  | .subprocess _ makes => ∀ n (files : Dict Path String), P (files.lookup q) →
      P ((makes n argv files).lookup q)

def Runner.Keeps (runner : Runner) (P : Option String → Prop) (q : Path) : Prop :=
  ∀ argv, runner.KeepsAt argv P q

/-- The commands leave the path alone. -/
def Runner.Spares (runner : Runner) (q : Path) : Prop := ∀ x, runner.Keeps (· = x) q

theorem Runner.Spares.keeps (h : runner.Spares q) : runner.Keeps P q := by
  intro argv
  cases runner with
  | dry => trivial
  | subprocess fails makes =>
    intro n files hfiles
    have hsame := h (files.lookup q) argv n files rfl
    rw [hsame]
    exact hfiles

end Commands

/-! ## What a program keeps -/

/-- What holds of the path before the program holds of it after, wherever that ends. -/
def Keeps {α : Type} (P : Option String → Prop) (q : Path) (f : Script α) : Prop :=
  Unwind.Within (fun s t => P (s.files.lookup q) → P (t.files.lookup q)) f

namespace Keeps

variable {α β : Type} {P : Option String → Prop} {q : Path} {f : Script α} {g : α → Script β}
  {runner : Runner} {w : World}

theorem bind (hf : Keeps P q f) (hg : ∀ a, Keeps P q (g a)) : Keeps P q (f >>= g) :=
  Unwind.Within.bind (fun _ _ _ hst htu => htu ∘ hst) hf hg

theorem pure (a : α) : Keeps P q (pure a : Script α) := fun _ => id

theorem run {argv : List String} (h : runner.KeepsAt argv P q) : Keeps P q (runner.run argv) := by
  intro s
  cases runner with
  | dry => exact id
  | subprocess fails makes => exact h s.issued.length s.files

theorem attempt {argv : List String} (h : runner.KeepsAt argv P q) :
    Keeps P q (runner.attempt argv) :=
  (run h).except_silent fun _ => Unwind.Silent.pure ()

theorem writeText {path : Path} {content : String}
    (h : ∀ x, (Effect.write path content).Leaves q x → P x) :
    Keeps P q (writeText w path content) := by
  -- of a text that is written the file has the beginning
  have hwritten (s : State) (part : String) (hpart : part.toList <+: content.toList) :
      P (s.files.lookup q) → P ((s.files.insert path part).lookup q) := by
    intro hs
    rw [Dict.lookup_insert]
    split
    next heq => exact h _ (heq ▸ Effect.leaves_write hpart)
    · exact hs
  intro s
  unfold Service.writeText
  split
  · cases w.cut path with
    | none => exact id
    | some n =>
      refine hwritten s _ ?_
      rw [String.toList_ofList]
      exact List.take_prefix n _
  · exact hwritten s content List.prefix_rfl

theorem unlink {path : Path} (h : path = q → P none) : Keeps P q (unlink w path) := by
  intro s hs
  unfold Service.unlink
  split
  · exact hs
  · split
    · exact hs
    · dsimp only
      rw [Dict.lookup_erase]
      split
      next heq => exact h heq
      · exact hs

theorem rmtree {dir : Path} (h : dir.isPrefixOf q = true → P none) : Keeps P q (rmtree w dir) := by
  have hfilter (s : State) (keep : Path → Bool) (hkeep : keep q = false → dir.isPrefixOf q = true)
      (hs : P (s.files.lookup q)) : P ((s.files.filterKeys keep).lookup q) := by
    rw [Dict.lookup_filterKeys]
    cases hq : keep q with
    | true => simpa using hs
    | false => simpa using h (hkeep hq)
  intro s hs
  unfold Service.rmtree
  split
  · exact hfilter s _ (fun hq => by simp_all) hs
  · exact hfilter s _ (fun hq => by simpa using hq) hs

end Keeps

/-! ## What a program removes -/

/-- A program that gets to its end leaves no file at the path. -/
def Removes {α : Type} (q : Path) (f : Script α) : Prop :=
  ∀ s a, (f s).1 = .ok a → (f s).2.files.lookup q = none

theorem Removes.after {α β : Type} {q : Path} {f : Script α} {g : α → Script β}
    (hg : ∀ a, Removes q (g a)) : Removes q (f >>= g) := by
  intro s b hok
  rcases hr : f s with ⟨r, t⟩
  cases r with
  | error e =>
    rw [Unwind.bind_of_error hr] at hok
    cases hok
  | ok a =>
    rw [Unwind.bind_of_ok hr] at hok ⊢
    exact hg a t b hok

theorem Removes.before {α β : Type} {q : Path} {f : Script α} {g : α → Script β}
    (hf : Removes q f) (hg : ∀ a, Keeps (· = none) q (g a)) : Removes q (f >>= g) := by
  intro s b hok
  have hgone := hf s
  rcases hr : f s with ⟨r, t⟩
  rw [hr] at hgone
  cases r with
  | error e =>
    rw [Unwind.bind_of_error hr] at hok
    cases hok
  | ok a =>
    rw [Unwind.bind_of_ok hr]
    exact hg a t (hgone a rfl)

/-- The program removes these paths, and of the others in `A` brings none back. -/
structure Clears {α : Type} (A : Path → Prop) (P : Path → Bool) (f : Script α) : Prop where
  removes : ∀ q, P q = true → Removes q f
  keeps : ∀ q, A q → Keeps (· = none) q f

namespace Clears

variable {α β : Type} {A : Path → Prop} {P Q : Path → Bool} {f : Script α} {g : α → Script β}
  {runner : Runner} {w : World}

theorem bind (hf : Clears A P f) (hA : ∀ q, P q = true → A q) (hg : ∀ a, Clears A Q (g a)) :
    Clears A (fun q => P q || Q q) (f >>= g) where
  removes q hq := by
    rcases Bool.or_eq_true_iff.mp hq with hq | hq
    · exact (hf.removes q hq).before fun a => (hg a).keeps q (hA q hq)
    · exact Removes.after fun a => (hg a).removes q hq
  keeps q hq := (hf.keeps q hq).bind fun a => (hg a).keeps q hq

theorem nothing (h : ∀ q, A q → Keeps (· = none) q f) : Clears A (fun _ => false) f :=
  ⟨nofun, h⟩

theorem congr (hf : Clears A P f) (hP : ∀ q, Q q = P q) : Clears A Q f := funext hP ▸ hf

theorem unlink (path : Path) : Clears A (fun q => path = q) (unlink w path) where
  removes q hq s a hok := by
    obtain rfl := of_decide_eq_true hq
    unfold Service.unlink at hok ⊢
    split at hok
    next hnone => exact (if_pos hnone).symm ▸ Option.isNone_iff_eq_none.mp hnone
    next hthere =>
      rw [if_neg hthere]
      split at hok
      · cases hok
      next hdenied =>
        rw [if_neg hdenied]
        exact Dict.lookup_erase_self
  keeps _ _ := Keeps.unlink fun _ => rfl

theorem rmtree (dir : Path) : Clears A (fun q => dir.isPrefixOf q) (rmtree w dir) where
  removes q hq s a hok := by
    unfold Service.rmtree at hok ⊢
    split at hok
    · cases hok
    next hdenied =>
      rw [if_neg hdenied]
      dsimp only
      rw [Dict.lookup_filterKeys, hq]
      rfl
  keeps _ _ := Keeps.rmtree fun _ => rfl

end Clears

/-! ## What a request makes of the files -/

section Effects

variable (p : Platform) (h : Host)

/-- What an uninstall removes. -/
def artifact (scope : Scope) (purge : Bool) (q : Path) : Bool :=
  unitPath h p scope = q || socketPath h p scope = q ||
    (p = .darwin && macosLogPath h scope = q) ||
    (p = .linux && scope = .system && linuxUdevRulePath = q) ||
    (purge && (stateDir h p scope).isPrefixOf q)

def unitText (scope : Scope) : String :=
  match p with
  | .darwin => renderLaunchdPlist h scope
  | .linux => renderSystemdUnit h scope

def installs (scope : Scope) : Effect := fun q =>
  if unitPath h p scope = q then some (some (unitText p h scope))
  else if p = .linux ∧ scope = .system ∧ linuxUdevRulePath = q then some (some renderUdevRule)
  else none

def effect : Request → Effect
  | .install scope _ => installs p h scope
  | .uninstall scope purge => .remove (artifact p h scope purge)
  | .control _ _ => .nothing

variable {p h} {runner : Runner} {w : World} {P : Option String → Prop} {q : Path}
  {scope : Scope} {purge : Bool} {x : Option String}

theorem unitPath_ne_rule : unitPath h .linux scope ≠ linuxUdevRulePath := by
  intro heq
  have hlast := congrArg List.getLast? heq
  cases scope <;> simp [unitPath, linuxUnitPath, linuxUdevRulePath, List.getLast?_append] at hlast

theorem leaves_unit (hx : (Effect.write (unitPath h p scope) (unitText p h scope)).Leaves q x) :
    (installs p h scope).Leaves q x := by
  unfold Effect.Leaves Effect.write at hx
  unfold Effect.Leaves installs
  by_cases hq : unitPath h p scope = q
  · rw [if_pos hq] at hx ⊢
    exact hx
  · rw [if_neg hq] at hx
    exact hx.elim

theorem leaves_rule (hx : (Effect.write linuxUdevRulePath renderUdevRule).Leaves q x) :
    (installs .linux h .system).Leaves q x := by
  unfold Effect.Leaves Effect.write at hx
  unfold Effect.Leaves installs
  by_cases hq : linuxUdevRulePath = q
  · rw [if_pos hq] at hx
    rw [if_neg (hq ▸ unitPath_ne_rule), if_pos ⟨rfl, rfl, hq⟩]
    exact hx
  · rw [if_neg hq] at hx
    exact hx.elim

/-- An install leaves no file but these two, and takes none away. -/
theorem path_of_leaves_installs (hx : (installs p h scope).Leaves q x) : x.isSome = true ∧
    (unitPath h p scope = q ∨ p = .linux ∧ scope = .system ∧ linuxUdevRulePath = q) := by
  unfold Effect.Leaves installs at hx
  by_cases hunit : unitPath h p scope = q
  · rw [if_pos hunit] at hx
    obtain ⟨part, rfl, -⟩ := hx
    exact ⟨rfl, Or.inl hunit⟩
  rw [if_neg hunit] at hx
  by_cases hrule : p = .linux ∧ scope = .system ∧ linuxUdevRulePath = q
  · rw [if_pos hrule] at hx
    obtain ⟨part, rfl, -⟩ := hx
    exact ⟨rfl, Or.inr hrule⟩
  · rw [if_neg hrule] at hx
    exact hx.elim

theorem keeps_install {operatingUser : Option String}
    (hE : ∀ x, (installs p h scope).Leaves q x → P x) (hm : runner.Keeps P q) :
    Keeps P q (body p h runner w false (.install scope operatingUser)) := by
  cases p with
  | darwin =>
    apply (Keeps.writeText fun x hx => hE x (leaves_unit hx)).bind
    intro _
    apply (Keeps.attempt (hm _)).bind
    intro _
    apply (Keeps.run (hm _)).bind
    intro _
    exact Keeps.run (hm _)
  | linux =>
    cases scope with
    | user =>
      apply (Keeps.writeText fun x hx => hE x (leaves_unit hx)).bind
      intro _
      apply (Keeps.run (hm _)).bind
      intro _
      apply (Keeps.run (hm _)).bind
      intro _
      exact Keeps.run (hm _)
    | system =>
      apply Keeps.bind
      · apply (Keeps.writeText fun x hx => hE x (leaves_unit hx)).bind
        intro _
        exact Keeps.writeText fun x hx => hE x (leaves_rule hx)
      intro _
      apply (Keeps.run (hm _)).bind
      intro _
      apply (Keeps.run (hm _)).bind
      intro _
      apply (Keeps.run (hm _)).bind
      intro _
      apply (Keeps.run (hm _)).bind
      intro _
      exact Keeps.run (hm _)

theorem keeps_rmtree (hpurge : purge = true → (stateDir h p scope).isPrefixOf q = true → P none) :
    Keeps P q (if purge then rmtree w (stateDir h p scope) else pure ()) := by
  cases purge with
  | false => exact Keeps.pure ()
  | true => exact Keeps.rmtree (hpurge rfl)

theorem keeps_dropRule (hrule : scope = .system → linuxUdevRulePath = q → P none)
    (hm : runner.Keeps P q) :
    Keeps P q (if scope = .system then linuxDropRule runner w false else pure ()) := by
  cases scope with
  | user => exact Keeps.pure ()
  | system =>
    apply (Keeps.unlink (hrule rfl)).bind
    intro _
    apply (Keeps.run (hm _)).bind
    intro _
    exact Keeps.attempt (hm _)

theorem keeps_uninstall (hE : artifact p h scope purge q = true → P none)
    (hm : runner.Keeps P q) : Keeps P q (body p h runner w false (.uninstall scope purge)) := by
  simp only [artifact, Bool.or_eq_true, Bool.and_eq_true, decide_eq_true_eq] at hE
  cases p with
  | darwin =>
    apply (Keeps.attempt (hm _)).bind
    intro _
    apply (Keeps.unlink fun hq => hE (by simp [unitPath, hq])).bind
    intro _
    apply (Keeps.unlink fun hq => hE (by simp [hq])).bind
    intro _
    apply (Keeps.unlink fun hq => hE (by simp [hq])).bind
    intro _
    exact keeps_rmtree fun hpurge hq => hE (by simp [hpurge, hq])
  | linux =>
    apply (Keeps.attempt (hm _)).bind
    intro _
    apply Keeps.bind
    · apply (Keeps.unlink fun hq => hE (by simp [unitPath, hq])).bind
      intro _
      exact Keeps.unlink fun hq => hE (by simp [hq])
    intro _
    apply (keeps_dropRule (fun hsystem hq => hE (by simp [hsystem, hq])) hm).bind
    intro _
    cases purge with
    | false => exact Keeps.pure ()
    | true => exact Keeps.rmtree fun hq => hE (by simp [hq])

/-- What holds of a path holds of it after a request, if the commands keep it and it holds of what
the request may leave there. -/
theorem keeps_body {r : Request} (hE : ∀ x, (effect p h r).Leaves q x → P x)
    (hm : runner.Keeps P q) : Keeps P q (body p h runner w false r) := by
  cases r with
  | install scope operatingUser => exact keeps_install hE hm
  | uninstall scope purge =>
    exact keeps_uninstall (fun hq => hE none (Effect.leaves_remove.mpr ⟨hq, rfl⟩)) hm
  | control action scope =>
    cases p with
    | darwin =>
      simp only [body, macosControl]
      split
      · exact Keeps.attempt (hm _)
      · apply (Keeps.attempt (hm _)).bind
        intro _
        exact Keeps.run (hm _)
    | linux => exact Keeps.run (hm _)

/-! ## What an uninstall removes -/

/-- The commands of an uninstall behind the one that stops the service. -/
def reloads : List (List String) :=
  [["systemctl", "daemon-reload"], ["udevadm", "control", "--reload-rules"]]

section Clears

variable {A : Path → Prop}

theorem clears_purge : Clears A (fun q => purge && (stateDir h p scope).isPrefixOf q)
    (if purge then rmtree w (stateDir h p scope) else pure ()) := by
  cases purge with
  | false => exact Clears.nothing fun _ _ => Keeps.pure ()
  | true => exact Clears.rmtree _

theorem clears_dropRule (hA : scope = .system → A linuxUdevRulePath)
    (hback : ∀ argv ∈ reloads, ∀ q, A q → runner.KeepsAt argv (· = none) q) :
    Clears A (fun q => scope = .system && linuxUdevRulePath = q)
      (if scope = .system then linuxDropRule runner w false else pure ()) := by
  cases scope with
  | user => exact Clears.nothing fun _ _ => Keeps.pure ()
  | system =>
    have hrest (q : Path) (hq : A q) : Keeps (· = none) q (do
        runner.run ["systemctl", "daemon-reload"]
        runner.attempt ["udevadm", "control", "--reload-rules"]) :=
      (Keeps.run (hback _ (by simp [reloads]) q hq)).bind fun _ =>
        Keeps.attempt (hback _ (by simp [reloads]) q hq)
    have hunlink : Clears A (fun q => linuxUdevRulePath = q) (unlink w linuxUdevRulePath) :=
      Clears.unlink _
    refine (hunlink.bind ?_ fun _ => Clears.nothing hrest).congr fun q => by simp
    intro q hq
    exact of_decide_eq_true hq ▸ hA rfl

/-- An uninstall that gets to its end has removed the artifacts, if no command behind the stop
brings one back. -/
theorem removes_uninstall (hq : artifact p h scope purge q = true)
    (hback : ∀ argv ∈ reloads, ∀ q, artifact p h scope purge q = true →
      runner.KeepsAt argv (· = none) q) :
    Removes q (body p h runner w false (.uninstall scope purge)) := by
  set A : Path → Prop := fun q => artifact p h scope purge q = true with hA
  have hunit : Clears A (fun q => unitPath h p scope = q) (unlink w (unitPath h p scope)) :=
    Clears.unlink _
  have hsocket : Clears A (fun q => socketPath h p scope = q) (unlink w (socketPath h p scope)) :=
    Clears.unlink _
  have hpurge : Clears A (fun q => purge && (stateDir h p scope).isPrefixOf q)
      (if purge then rmtree w (stateDir h p scope) else pure ()) := clears_purge
  have hisUnit (q : Path) (h' : decide (unitPath h p scope = q) = true) : A q := by
    simp [hA, artifact, of_decide_eq_true h']
  have hisSocket (q : Path) (h' : decide (socketPath h p scope = q) = true) : A q := by
    simp [hA, artifact, of_decide_eq_true h']
  cases p with
  | darwin =>
    have hlog : Clears A (fun q => macosLogPath h scope = q) (unlink w (macosLogPath h scope)) :=
      Clears.unlink _
    have hisLog (q : Path) (h' : decide (macosLogPath h scope = q) = true) : A q := by
      simp [hA, artifact, of_decide_eq_true h']
    apply Removes.after
    intro _
    have hall := hunit.bind hisUnit fun _ => hsocket.bind hisSocket fun _ =>
      hlog.bind hisLog fun _ => hpurge
    refine hall.removes q ?_
    simpa [artifact, or_assoc] using hq
  | linux =>
    have hrule : scope = .system → A linuxUdevRulePath := fun hsystem => by
      simp [hA, artifact, hsystem]
    apply Removes.after
    intro _
    have hisRule (q : Path) (h' : (scope = .system && linuxUdevRulePath = q) = true) : A q := by
      simp only [Bool.and_eq_true, decide_eq_true_eq] at h'
      exact h'.2 ▸ hrule h'.1
    have hdrop : Clears A (fun q => scope = .system && linuxUdevRulePath = q)
        (if scope = .system then linuxDropRule runner w false else pure ()) :=
      clears_dropRule hrule hback
    have hall := (hunit.bind hisUnit fun _ => hsocket).bind
      (fun q h' => (Bool.or_eq_true_iff.mp h').elim (hisUnit q) (hisSocket q)) fun _ =>
        hdrop.bind hisRule fun _ => hpurge
    cases purge with
    | false => exact hall.removes q (by simpa [artifact, or_assoc] using hq)
    | true => exact hall.removes q (by simpa [artifact, or_assoc] using hq)

end Clears

end Effects

/-! ## A request -/

section Perform

variable {p : Platform} {h : Host} {runner : Runner} {w : World} {r : Request} {s : State}
  {P : Option String → Prop} {q : Path}

theorem perform_eq (p : Platform) (h : Host) (runner : Runner) (w : World) (dryRun : Bool)
    (r : Request) (s : State) :
    perform p h runner w dryRun r s = match early p h s.files r with
      | some x => (x, s)
      | none => (body p h runner w dryRun r >>= fun _ => pure (result p h r)) s := by
  have hread (k : Dict Path String → Script Outcome) : (readFiles >>= k) s = k s.files s := rfl
  rw [perform, hread]
  cases early p h s.files r <;> rfl

theorem perform_keeps
    (hE : early p h s.files r = none → ∀ x, (effect p h r).Leaves q x → P x)
    (hm : runner.Keeps P q) (hs : P (s.files.lookup q)) :
    P ((perform p h runner w false r s).2.files.lookup q) := by
  rw [perform_eq]
  cases hearly : early p h s.files r with
  | some x => exact hs
  | none =>
    have hbody : Keeps P q (body p h runner w false r) := keeps_body (hE hearly) hm
    exact hbody.bind (fun _ => Keeps.pure (result p h r)) s hs

theorem perform_dry_files (p : Platform) (h : Host) (w : World) (r : Request) (s : State) :
    (perform p h .dry w true r s).2.files = s.files := by
  rw [perform_eq]
  cases early p h s.files r with
  | some x => rfl
  | none =>
    obtain ⟨_, -, hfiles, -⟩ := (dryRunOf_body p h (fun _ => none) (fun _ _ => id) w w r).bind
      (fun _ => .pure (result p h r)) s s rfl
    exact hfiles

end Perform

/-! ## Runs of requests -/

/-- One call of the program, with what becomes of its commands and what they and the daemon make of
the files, and with what the operating system lets it do. -/
structure Invocation where
  request : Request
  dryRun : Bool
  fails : ℕ → Option Exn
  makes : ℕ → List String → Dict Path String → Dict Path String
  world : World

/-- `default_runner` -/
def Invocation.runner (i : Invocation) : Runner :=
  if i.dryRun then .dry else .subprocess i.fails i.makes

section Runs

variable (p : Platform) (h : Host)

def invoke (files : Dict Path String) (i : Invocation) : Dict Path String :=
  (perform p h i.runner i.world i.dryRun i.request { files, issued := [] }).2.files

def serve (files : Dict Path String) (l : List Invocation) : Dict Path String :=
  l.foldl (invoke p h) files

variable {p h} {files : Dict Path String} {i : Invocation} {l : List Invocation}
  {P : Option String → Prop} {q : Path}

theorem invoke_dry (hdry : i.dryRun = true) : invoke p h files i = files := by
  rw [invoke, Invocation.runner, hdry, if_pos rfl]
  exact perform_dry_files p h i.world i.request _

theorem invoke_keeps (hE : i.dryRun = false → early p h files i.request = none →
      ∀ x, (effect p h i.request).Leaves q x → P x)
    (hm : i.runner.Keeps P q) (hs : P (files.lookup q)) : P ((invoke p h files i).lookup q) := by
  cases hdry : i.dryRun with
  | true =>
    rw [invoke_dry hdry]
    exact hs
  | false =>
    rw [invoke, hdry]
    exact perform_keeps (s := ⟨files, []⟩) (hE hdry) hm hs

theorem serve_keeps (hE : ∀ i ∈ l, i.dryRun = false → ∀ x, (effect p h i.request).Leaves q x → P x)
    (hm : ∀ i ∈ l, i.runner.Keeps P q) (hs : P (files.lookup q)) :
    P ((serve p h files l).lookup q) := by
  induction l generalizing files with
  | nil => exact hs
  | cons i l ih =>
    rw [List.forall_mem_cons] at hE hm
    exact ih hE.2 hm.2 (invoke_keeps (fun hreal _ => hE.1 hreal) hm.1 hs)

/-- What no request of the run is about, and no command touches, is as it was. -/
theorem serve_lookup (hspares : ∀ i ∈ l, i.runner.Spares q) :
    (serve p h files l).lookup q = files.lookup q ∨ ∃ i ∈ l, i.dryRun = false ∧
      (effect p h i.request).Leaves q ((serve p h files l).lookup q) := by
  refine serve_keeps (P := fun x => x = files.lookup q ∨ ∃ i ∈ l, i.dryRun = false ∧
    (effect p h i.request).Leaves q x) ?_ (fun i hi => (hspares i hi).keeps) (Or.inl rfl)
  intro i hi hreal x hx
  exact Or.inr ⟨i, hi, hreal, hx⟩

/-! ## What survives -/

/-- The last names of what requests write, and of what they remove without a purge. -/
def fileNames : List String :=
  ["mbregistry.service", launchdLabel ++ ".plist", "api.sock", "mbregistry.log",
    "99-mbregistry-cmsis-dap.rules"]

theorem unitPath_last (p : Platform) (scope : Scope) :
    ∃ n ∈ fileNames, (unitPath h p scope).getLast? = some n := by
  cases p <;> cases scope <;>
    simp [unitPath, linuxUnitPath, macosPlistPath, fileNames, List.getLast?_append]

theorem socketPath_last (p : Platform) (scope : Scope) :
    (socketPath h p scope).getLast? = some "api.sock" := by
  cases p <;> cases scope <;>
    simp [socketPath, systemSocketPath, userSocketPath, List.getLast?_append]

theorem macosLogPath_last (scope : Scope) :
    (macosLogPath h scope).getLast? = some "mbregistry.log" := by
  cases scope <;> simp [macosLogPath, List.getLast?_append]

theorem linuxUdevRulePath_last :
    linuxUdevRulePath.getLast? = some "99-mbregistry-cmsis-dap.rules" := rfl

theorem artifact_last {scope : Scope} {q : Path} (hq : artifact p h scope false q = true) :
    ∃ n ∈ fileNames, q.getLast? = some n := by
  simp only [artifact, Bool.or_eq_true, Bool.and_eq_true, decide_eq_true_eq, Bool.false_and,
    Bool.false_eq_true, or_false] at hq
  rcases hq with ((rfl | rfl) | ⟨-, rfl⟩) | ⟨-, rfl⟩
  · exact unitPath_last p scope
  · exact ⟨"api.sock", by decide, socketPath_last p scope⟩
  · exact ⟨"mbregistry.log", by decide, macosLogPath_last scope⟩
  · exact ⟨"99-mbregistry-cmsis-dap.rules", by decide, linuxUdevRulePath_last⟩

theorem effect_last {r : Request} {x : Option String}
    (hpurge : ∀ scope, r ≠ .uninstall scope true) (hq : (effect p h r).Leaves q x) :
    ∃ n ∈ fileNames, q.getLast? = some n := by
  cases r with
  | install scope operatingUser =>
    rcases (path_of_leaves_installs hq).2 with rfl | ⟨-, -, rfl⟩
    · exact unitPath_last p scope
    · exact ⟨"99-mbregistry-cmsis-dap.rules", by decide, linuxUdevRulePath_last⟩
  | uninstall scope purge =>
    cases purge with
    | true => exact absurd rfl (hpurge scope)
    | false => exact artifact_last (Effect.leaves_remove.mp hq).1
  | control action scope => exact hq.elim

/-- Without a purge the requests have no part in what becomes of a device database. -/
theorem serve_database (hq : q.getLast? = some "devices.db")
    (hpurge : ∀ i ∈ l, i.dryRun = false → ∀ scope, i.request ≠ .uninstall scope true)
    (hm : ∀ i ∈ l, i.runner.Keeps P q) (hs : P (files.lookup q)) :
    P ((serve p h files l).lookup q) := by
  refine serve_keeps (fun i hi hreal x hx => ?_) hm hs
  obtain ⟨n, hn, hlast⟩ := effect_last (hpurge i hi hreal) hx
  obtain rfl : n = "devices.db" := by rw [hq] at hlast; exact (Option.some.inj hlast).symm
  exact absurd hn (by decide)

end Runs

/-! ## The udev rule -/

section Rule

variable {h : Host} {files : Dict Path String} {i : Invocation}

theorem userUnit_ne_systemUnit : unitPath h .linux .user ≠ unitPath h .linux .system := by
  intro heq
  have hlast := congrArg (fun q => q.dropLast.getLast?) heq
  simp [unitPath, linuxUnitPath, List.getLast?_append] at hlast

theorem rule_not_in_userState : (stateDir h .linux .user).isPrefixOf linuxUdevRulePath = false := by
  have hdir : stateDir h .linux .user =
      h.stateHome.getD (h.home ++ [".local", "state"]) ++ [app] := by
    simp [stateDir, dbPath, userDbPath]
  rw [Bool.eq_false_iff]
  intro hprefix
  rw [List.isPrefixOf_iff_prefix, hdir] at hprefix
  have hmem : app ∈ linuxUdevRulePath :=
    hprefix.subset (List.mem_append_right _ (List.mem_singleton_self _))
  exact absurd hmem (by decide)

theorem rule_not_of_user (purge : Bool) :
    artifact .linux h .user purge linuxUdevRulePath = false := by
  have hsocket : socketPath h .linux .user ≠ linuxUdevRulePath := by
    intro heq
    have hlast := (socketPath_last (h := h) .linux .user).symm.trans (congrArg List.getLast? heq)
    exact absurd hlast (by decide)
  simp [artifact, unitPath_ne_rule, hsocket, rule_not_in_userState]

/-- Only the removal of the system's service takes the rule away. -/
theorem invoke_rule (hi : i.dryRun = false → ∀ purge, i.request ≠ .uninstall .system purge)
    (hspares : i.runner.Spares linuxUdevRulePath)
    (hrule : (files.lookup linuxUdevRulePath).isSome) :
    ((invoke .linux h files i).lookup linuxUdevRulePath).isSome := by
  refine invoke_keeps (P := fun x => x.isSome = true) (fun hreal _ x hx => ?_) hspares.keeps hrule
  cases hr : i.request with
  | install scope operatingUser =>
    rw [hr] at hx
    exact (path_of_leaves_installs hx).1
  | uninstall scope purge =>
    rw [hr] at hx
    have hartifact := (Effect.leaves_remove.mp hx).1
    cases scope with
    | system => exact absurd hr (hi hreal purge)
    | user =>
      rw [rule_not_of_user] at hartifact
      cases hartifact
  | control action scope =>
    rw [hr] at hx
    exact hx.elim

/-- A user's service is there only with the rule it needs. -/
def UserReady (h : Host) (files : Dict Path String) : Prop :=
  (files.lookup (unitPath h .linux .user)).isSome → (files.lookup linuxUdevRulePath).isSome

/-- Where a request makes a user's unit, its checks have found the rule. -/
theorem rule_of_unit_made (hspares : i.runner.Spares (unitPath h .linux .user))
    (hunit : ((invoke .linux h files i).lookup (unitPath h .linux .user)).isSome)
    (hnone : files.lookup (unitPath h .linux .user) = none) :
    (files.lookup linuxUdevRulePath).isSome := by
  by_contra hrule
  have hkept : (invoke .linux h files i).lookup (unitPath h .linux .user) = none := by
    refine invoke_keeps (P := (· = none)) (fun _ hearly x hx => ?_) hspares.keeps hnone
    cases hr : i.request with
    | install scope operatingUser =>
      rw [hr] at hx hearly
      cases scope with
      | user =>
        rw [early, Option.map_eq_none_iff, userPreflight] at hearly
        split at hearly
        next hchecks => exact absurd (Bool.and_eq_true_iff.mp hchecks).2 hrule
        · cases hearly
      | system =>
        rcases (path_of_leaves_installs hx).2 with heq | ⟨-, -, heq⟩
        · exact absurd heq.symm userUnit_ne_systemUnit
        · exact absurd heq.symm unitPath_ne_rule
    | uninstall scope purge =>
      rw [hr] at hx
      exact (Effect.leaves_remove.mp hx).2
    | control action scope =>
      rw [hr] at hx
      exact hx.elim
  rw [hkept] at hunit
  cases hunit

theorem invoke_userReady
    (hi : i.dryRun = false → ∀ purge, i.request ≠ .uninstall .system purge)
    (hunit : i.runner.Spares (unitPath h .linux .user)) (hrule : i.runner.Spares linuxUdevRulePath)
    (hready : UserReady h files) : UserReady h (invoke .linux h files i) := by
  intro hthere
  apply invoke_rule hi hrule
  cases hbefore : files.lookup (unitPath h .linux .user) with
  | none => exact rule_of_unit_made hunit hthere hbefore
  | some content => exact hready (by rw [hbefore]; rfl)

theorem serve_userReady {l : List Invocation}
    (hl : ∀ i ∈ l, i.dryRun = false → ∀ purge, i.request ≠ .uninstall .system purge)
    (hspares : ∀ i ∈ l, i.runner.Spares (unitPath h .linux .user) ∧
      i.runner.Spares linuxUdevRulePath)
    (hready : UserReady h files) : UserReady h (serve .linux h files l) := by
  induction l generalizing files with
  | nil => exact hready
  | cons i l ih =>
    rw [List.forall_mem_cons] at hl hspares
    exact ih hl.2 hspares.2 (invoke_userReady hl.1 hspares.1.1 hspares.1.2 hready)

end Rule

/-! ## An install undone -/

/-- The program makes this file, if not all of it, or fails and changes none. -/
def Starts {α : Type} (path : Path) (f : Script α) : Prop :=
  ∀ s : State, ((f s).2.files.lookup path).isSome ∨
    (f s).2.files = s.files ∧ ∃ e, (f s).1 = .error e

namespace Starts

variable {α β : Type} {path : Path} {f : Script α} {g : α → Script β} {w : World}

theorem writeText (content : String) : Starts path (writeText w path content) := by
  intro s
  unfold Service.writeText
  split
  · cases w.cut path with
    | none => exact Or.inr ⟨rfl, _, rfl⟩
    | some n =>
      left
      rw [Dict.lookup_insert_self]
      rfl
  · left
    rw [Dict.lookup_insert_self]
    rfl

theorem bind (hf : Starts path f) (hg : ∀ a, Keeps (·.isSome = true) path (g a)) :
    Starts path (f >>= g) := by
  intro s
  rcases hr : f s with ⟨r, t⟩
  have hst := hf s
  rw [hr] at hst
  cases r with
  | error e =>
    rw [Unwind.bind_of_error hr]
    exact hst.imp_right fun h => ⟨h.1, e, rfl⟩
  | ok a =>
    rw [Unwind.bind_of_ok hr]
    left
    rcases hst with hsome | ⟨-, e, he⟩
    · exact hg a t hsome
    · cases he

end Starts

section Undo

variable {p : Platform} {h : Host} {files : Dict Path String} {scope : Scope} {purge : Bool}

theorem starts_install {runner : Runner} {w : World} {operatingUser : Option String}
    (hm : runner.Spares (unitPath h p scope)) :
    Starts (unitPath h p scope) (body p h runner w false (.install scope operatingUser)) := by
  have hrun (argv : List String) :
      Keeps (·.isSome = true) (unitPath h p scope) (runner.run argv) := Keeps.run (hm.keeps argv)
  have hattempt (argv : List String) :
      Keeps (·.isSome = true) (unitPath h p scope) (runner.attempt argv) :=
    Keeps.attempt (hm.keeps argv)
  cases p with
  | darwin =>
    apply (Starts.writeText _).bind
    intro _
    exact (hattempt _).bind fun _ => (hrun _).bind fun _ => hrun _
  | linux =>
    cases scope with
    | user =>
      apply (Starts.writeText _).bind
      intro _
      exact (hrun _).bind fun _ => (hrun _).bind fun _ => hrun _
    | system =>
      have hrule : Keeps (·.isSome = true) (unitPath h .linux .system)
          (writeText w linuxUdevRulePath renderUdevRule) :=
        Keeps.writeText fun x hx => (path_of_leaves_installs (leaves_rule (h := h) hx)).1
      apply ((Starts.writeText _).bind fun _ => hrule).bind
      intro _
      exact (hrun _).bind fun _ => (hrun _).bind fun _ => (hrun _).bind fun _ =>
        (hrun _).bind fun _ => hrun _

/-- What installs at the scope, controls it, or changes no file. -/
def Invocation.SetsUp (scope : Scope) (i : Invocation) : Prop :=
  i.dryRun = false → match i.request with
    | .install scope' _ => scope' = scope
    | .uninstall _ _ => False
    | .control _ scope' => scope' = scope

theorem not_leaves_installs {q : Path} {x : Option String}
    (hq : artifact p h scope purge q = false) : ¬ (installs p h scope).Leaves q x := by
  simp only [artifact, Bool.or_eq_false_iff, Bool.and_eq_false_iff, decide_eq_false_iff_not] at hq
  obtain ⟨⟨⟨⟨hunit, -⟩, -⟩, hrule⟩, -⟩ := hq
  intro hx
  rcases (path_of_leaves_installs hx).2 with heq | ⟨hlinux, hsystem, heq⟩
  · exact hunit heq
  rcases hrule with (hne | hne) | hne
  · exact hne hlinux
  · exact hne hsystem
  · exact hne heq

variable (files) in
/-- Nothing changes before the service is there. -/
theorem invoke_installed {i : Invocation} (hi : i.SetsUp scope)
    (hm : i.runner.Spares (unitPath h p scope)) :
    installed p h (invoke p h files i) scope = true ∨ invoke p h files i = files := by
  cases hdry : i.dryRun with
  | true => exact Or.inr (invoke_dry hdry)
  | false =>
    have hi := hi hdry
    cases hr : i.request with
    | install scope' operatingUser =>
      rw [hr] at hi
      obtain rfl : scope' = scope := hi
      simp only [invoke, hdry, hr, perform_eq]
      cases early p h files (.install scope' operatingUser) with
      | some x => exact Or.inr rfl
      | none =>
        have hstarts : Starts (unitPath h p scope')
            (body p h i.runner i.world false (.install scope' operatingUser)) := starts_install hm
        exact (hstarts.bind (fun _ => Keeps.pure (result p h (.install scope' operatingUser)))
          _).imp_right And.left
    | uninstall scope' purge' =>
      rw [hr] at hi
      exact hi.elim
    | control action scope' =>
      rw [hr] at hi
      obtain rfl : scope' = scope := hi
      cases hthere : installed p h files scope' with
      | true =>
        refine Or.inl (invoke_keeps (P := fun x => x.isSome = true) (fun _ _ x hx => ?_) hm.keeps
          hthere)
        rw [hr] at hx
        exact hx.elim
      | false =>
        right
        have hearly : early p h files (.control action scope') =
            some (.error (.fileNotFound (unitPath h p scope'))) := by simp [early, hthere]
        simp only [invoke, hdry, hr, perform_eq, hearly]

theorem serve_installed {l : List Invocation} (hl : ∀ i ∈ l, i.SetsUp scope)
    (hm : ∀ i ∈ l, i.runner.Spares (unitPath h p scope)) :
    installed p h (serve p h files l) scope = true ∨ serve p h files l = files := by
  induction l using List.reverseRecOn with
  | nil => exact Or.inr rfl
  | append_singleton l i ih =>
    simp only [List.forall_mem_append, List.forall_mem_singleton] at hl hm
    have hserve : serve p h files (l ++ [i]) = invoke p h (serve p h files l) i := by
      rw [serve, List.foldl_append]
      rfl
    rw [hserve]
    rcases invoke_installed (serve p h files l) hl.2 hm.2 with hthere | hsame
    · exact Or.inl hthere
    · rw [hsame]
      exact ih hl.1 hm.1

/-- Whatever installs and controls were tried at a scope that had nothing, wherever they failed and
whatever the daemon has written, an uninstall that does not fail leaves no artifact, and what no
command touches as it was before them. -/
theorem uninstall_undoes_installs {l : List Invocation} {fails : ℕ → Option Exn}
    {makes : ℕ → List String → Dict Path String → Dict Path String} {w : World}
    {issued : List (List String)} {x : Outcome}
    (hclean : ∀ q, artifact p h scope purge q = true → files.lookup q = none)
    (hl : ∀ i ∈ l, i.SetsUp scope) (hunit : ∀ i ∈ l, i.runner.Spares (unitPath h p scope))
    (hback : ∀ argv ∈ reloads, ∀ q, artifact p h scope purge q = true →
      (Runner.subprocess fails makes).KeepsAt argv (· = none) q)
    (hok : (perform p h (.subprocess fails makes) w false (.uninstall scope purge)
      { files := serve p h files l, issued }).1 = .ok x) {q : Path}
    (hq : artifact p h scope purge q = true ∨
      (∀ i ∈ l, i.runner.Spares q) ∧ (Runner.subprocess fails makes).Spares q) :
    (perform p h (.subprocess fails makes) w false (.uninstall scope purge)
      { files := serve p h files l, issued }).2.files.lookup q = files.lookup q := by
  set s : State := { files := serve p h files l, issued }
  have hearly : early p h s.files (.uninstall scope purge) =
      if installed p h s.files scope then none
      else some (.ok (.message (notInstalled p h s.files scope))) := rfl
  cases hartifact : artifact p h scope purge q with
  | true =>
    rw [hclean q hartifact]
    cases hthere : installed p h s.files scope with
    | true =>
      rw [hthere, if_pos rfl] at hearly
      rw [perform_eq, hearly] at hok ⊢
      exact (removes_uninstall hartifact hback).before (fun _ => Keeps.pure _) s x hok
    | false =>
      rw [hthere, if_neg Bool.false_ne_true] at hearly
      rw [perform_eq, hearly]
      have hsame : s.files = files := (serve_installed hl hunit).resolve_left fun hthere' => by
        cases hthere.symm.trans hthere'
      rw [hsame]
      exact hclean q hartifact
  | false =>
    obtain ⟨hspares, hspares'⟩ := hq.resolve_left (by simp [hartifact])
    have hserved : (serve p h files l).lookup q = files.lookup q := by
      refine (serve_lookup hspares).resolve_right ?_
      rintro ⟨i, hi, hreal, hleaves⟩
      have hi := hl i hi hreal
      cases hr : i.request with
      | install scope' operatingUser =>
        rw [hr] at hi hleaves
        obtain rfl : scope' = scope := hi
        exact not_leaves_installs hartifact hleaves
      | uninstall scope' purge' =>
        rw [hr] at hi
        exact hi
      | control action scope' =>
        rw [hr] at hleaves
        exact hleaves
    refine perform_keeps (P := (· = files.lookup q)) (fun _ y hy => ?_) hspares'.keeps hserved
    have hremoved := (Effect.leaves_remove.mp hy).1
    rw [hartifact] at hremoved
    cases hremoved

/-- A host on which nothing is refused but the second command of the install. -/
def bench : Host where
  home := ["home", "ada"]
  stateHome := none
  runtimeDir := some ["run", "user", "1000"]
  uid := 1000
  executable := "/usr/bin/python3"
  sudoUser := some "ada"
  userVar := some "root"
  loginName := "root"
  inPlugdev := fun _ => false
  plistDumps := fun _ => ""

/-- The command that starts the daemon: that makes its socket and its database. -/
def daemonStarts (_ : ℕ) (argv : List String) (files : Dict Path String) : Dict Path String :=
  if argv = ["systemctl", "enable", "--now", linuxUnitName] then
    (files.insert (systemSocketPath .linux) "").insert (systemDbPath .linux) "9900a"
  else files

def failedInstall : Invocation where
  request := .install .system none
  dryRun := false
  fails := fun n => if n = 1 then some .calledProcessError else none
  makes := daemonStarts
  world := ⟨fun _ => false, fun _ => none, fun _ => false⟩

theorem daemonStarts_spares {fails : ℕ → Option Exn} {q : Path}
    (hq : artifact .linux bench .system true q = false ∨ unitPath bench .linux .system = q) :
    (Runner.subprocess fails daemonStarts).Spares q := by
  have hsocket : systemSocketPath .linux ≠ q := by
    rintro rfl
    revert hq
    decide
  have hdb : systemDbPath .linux ≠ q := by
    rintro rfl
    revert hq
    decide
  intro x argv n files hx
  unfold daemonStarts
  split
  · rw [Dict.lookup_insert_of_ne hdb, Dict.lookup_insert_of_ne hsocket]
    exact hx
  · exact hx

theorem uninstall_undoes_failedInstall :
    (∀ path ∈ [linuxUdevRulePath, systemSocketPath .linux, systemDbPath .linux],
      (Dict.lookup (serve .linux bench .empty [failedInstall]) path).isSome = true) ∧ ∀ q,
      (perform .linux bench (.subprocess (fun _ => none) daemonStarts) failedInstall.world false
        (.uninstall .system true)
        { files := serve .linux bench .empty [failedInstall], issued := [] }).2.files.lookup q =
          Dict.lookup .empty q := by
  refine ⟨by decide +kernel, fun q => ?_⟩
  refine uninstall_undoes_installs (x := result .linux bench (.uninstall .system true))
    (fun _ _ => rfl) ?_ ?_ ?_ rfl ?_
  · exact List.forall_mem_singleton.mpr fun _ => rfl
  · exact List.forall_mem_singleton.mpr (daemonStarts_spares (Or.inr rfl))
  · intro argv hargv q _ n files hnone
    have hne : argv ≠ ["systemctl", "enable", "--now", linuxUnitName] := by
      rintro rfl
      revert hargv
      decide
    rwa [daemonStarts, if_neg hne]
  · cases hq : artifact .linux bench .system true q with
    | true => exact Or.inl rfl
    | false =>
      exact Or.inr ⟨List.forall_mem_singleton.mpr (daemonStarts_spares (Or.inl hq)),
        daemonStarts_spares (Or.inl hq)⟩

end Undo

/-! ## Runs as a whole -/

/-- After any run of requests a path that no command touches holds what it held or what a request of
the run may leave there; without a purge the requests have no part in what becomes of a database,
and while the system's service is not removed a user's is there only with the udev rule. -/
theorem runs_keep_what_is_needed (p : Platform) (h : Host) (files : Dict Path String)
    (l : List Invocation) :
    (∀ q, (∀ i ∈ l, i.runner.Spares q) →
      (serve p h files l).lookup q = files.lookup q ∨ ∃ i ∈ l, i.dryRun = false ∧
        (effect p h i.request).Leaves q ((serve p h files l).lookup q)) ∧
    (∀ q, q.getLast? = some "devices.db" →
      (∀ i ∈ l, i.dryRun = false → ∀ scope, i.request ≠ .uninstall scope true) →
        ∀ P, (∀ i ∈ l, i.runner.Keeps P q) → P (files.lookup q) →
          P ((serve p h files l).lookup q)) ∧
    ((∀ i ∈ l, i.dryRun = false → ∀ purge, i.request ≠ .uninstall .system purge) →
      (∀ i ∈ l, i.runner.Spares (unitPath h .linux .user) ∧ i.runner.Spares linuxUdevRulePath) →
        UserReady h files → UserReady h (serve .linux h files l)) :=
  ⟨fun _ hspares => serve_lookup hspares, fun _ hq hpurge _ hm hs => serve_database hq hpurge hm hs,
    fun hl hspares hready => serve_userReady hl hspares hready⟩

end MbTools.Service
