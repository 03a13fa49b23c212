import MbTools.Lib.Table
import MbTools.Lib.Unwind

/-! # Installing the service

`install`, `uninstall` and the controls of the launchd or systemd service, at one of two
scopes: which files they write and remove and which commands they run. What a command, and the
daemon that it starts, makes of the files is a parameter. A dry run has a runner that prints the
commands, and writes nothing.
-/

namespace MbTools.Service

/-! ## Paths -/

inductive Platform where
  | darwin
  | linux
  deriving DecidableEq, Repr

inductive Scope where
  | user
  | system
  deriving DecidableEq, Repr

/-- The names from the root. -/
abbrev Path := List String

def text (path : Path) : String := "/" ++ "/".intercalate path

structure Plist where
  label : String
  programArguments : List String
  environmentVariables : List (String × String)
  workingDirectory : String
  runAtLoad : Bool
  keepAliveOnSuccess : Bool
  throttleInterval : ℕ
  standardOutPath : String
  standardErrorPath : String

/-- What the functions learn of the host. -/
structure Host where
  home : Path
  /-- `$XDG_STATE_HOME`, and `$XDG_RUNTIME_DIR` if it is a directory. -/
  stateHome : Option Path
  runtimeDir : Option Path
  uid : ℕ
  executable : String
  sudoUser : Option String
  userVar : Option String
  loginName : String
  /-- By the account and group databases. -/
  inPlugdev : String → Bool
  plistDumps : Plist → String

section Paths

variable (h : Host)

def app : String := "mbregistry"

def launchdLabel : String := "org.jointheleague.mbregistry"

def systemDbPath : Platform → Path
  | .darwin => ["Library", "Application Support", app, "devices.db"]
  | .linux => ["var", "lib", app, "devices.db"]

def userDbPath : Platform → Path
  | .darwin => h.home ++ ["Library", "Application Support", app, "devices.db"]
  | .linux => h.stateHome.getD (h.home ++ [".local", "state"]) ++ [app, "devices.db"]

def systemSocketPath : Platform → Path
  | .darwin => ["var", "run", app, "api.sock"]
  | .linux => ["run", app, "api.sock"]

def userSocketPath : Platform → Path
  | .darwin => h.home ++ ["Library", "Application Support", app, "api.sock"]
  | .linux => h.runtimeDir.getD (h.home ++ [".cache"]) ++ [app, "api.sock"]

def linuxUnitPath : Scope → Path
  | .user => h.home ++ [".config", "systemd", "user", "mbregistry.service"]
  | .system => ["etc", "systemd", "system", "mbregistry.service"]

def linuxUdevRulePath : Path := ["etc", "udev", "rules.d", "99-mbregistry-cmsis-dap.rules"]

def macosPlistPath : Scope → Path
  | .user => h.home ++ ["Library", "LaunchAgents", launchdLabel ++ ".plist"]
  | .system => ["Library", "LaunchDaemons", launchdLabel ++ ".plist"]

def macosLogPath : Scope → Path
  | .user => h.home ++ ["Library", "Logs", "mbregistry.log"]
  | .system => ["Library", "Logs", "mbregistry.log"]

def dbPath (p : Platform) : Scope → Path
  | .user => userDbPath h p
  | .system => systemDbPath p

def socketPath (p : Platform) : Scope → Path
  | .user => userSocketPath h p
  | .system => systemSocketPath p

def unitPath : Platform → Scope → Path
  | .darwin => macosPlistPath h
  | .linux => linuxUnitPath h

/-- `db_path.parent` -/
def stateDir (p : Platform) (scope : Scope) : Path := (dbPath h p scope).dropLast

end Paths

/-! ## Texts -/

section Texts

variable (h : Host)

def macosDomain : Scope → String
  | .system => "system"
  | .user => s!"gui/{h.uid}"

def macosWorkingDirectory : Scope → String
  | .system => "/"
  | .user => text h.home

def renderLaunchdPlist (scope : Scope) : String :=
  h.plistDumps
    { label := launchdLabel
      programArguments := [h.executable, "-m", "mbtools.registry.cli", "service", "run"]
      environmentVariables := [("PYTHONUNBUFFERED", "1"), ("PYTHONDONTWRITEBYTECODE", "1")]
      workingDirectory := macosWorkingDirectory h scope
      runAtLoad := true
      keepAliveOnSuccess := false
      throttleInterval := 10
      standardOutPath := text (macosLogPath h scope)
      standardErrorPath := text (macosLogPath h scope) }

def linuxUnitName : String := "mbregistry.service"

def udevGroup : String := "plugdev"

def lines (l : List String) : String := String.join (l.map (· ++ "\n"))

def renderSystemdUnit (scope : Scope) : String :=
  let execStart := h.executable ++ " -m mbtools.registry.cli service run"
  lines <|
    ["[Unit]", "Description=mbregistry -- micro:bit device registry daemon",
      "After=network.target", "", "[Service]", "Type=simple", "ExecStart=" ++ execStart] ++
    (match scope with
      | .system =>
        ["# Running as root, the daemon would otherwise write root-owned __pycache__",
          "# into the (user-owned) venv, which breaks the next non-root reinstall.",
          "Environment=PYTHONDONTWRITEBYTECODE=1"]
      | .user => []) ++
    ["Restart=on-failure", "RestartSec=2"] ++
    (match scope with
      | .system => ["RuntimeDirectory=mbregistry", "StateDirectory=mbregistry"]
      | .user => []) ++
    ["", "[Install]",
      match scope with
      | .system => "WantedBy=multi-user.target"
      | .user => "WantedBy=default.target"]

def usbVendorId : String := "0d28"

def usbProductId : String := "0204"

/-- One rule: the match on the device node, and what is granted. -/
def udevMatch (node : String) : String :=
  node ++ ", ATTRS\x7bidVendor\x7d==\"" ++ usbVendorId ++ "\", ATTRS\x7bidProduct\x7d==\"" ++
    usbProductId ++ "\", GROUP=\"" ++ udevGroup ++ "\", MODE=\"0660\", TAG+=\"uaccess\""

def renderUdevRule : String :=
  lines
    ["# mbregistry -- non-root access to the micro:bit DAPLink interface",
      "# (VID:PID " ++ usbVendorId ++ ":" ++ usbProductId ++
        "). Written by `mbregistry service install`",
      "# (ticket 006-003) -- re-running it overwrites this file with identical",
      "# content, so re-running install is idempotent. See",
      "# mbtools.registry.service.render_udev_rule()'s docstring for why each rule",
      "# below grants access via both the " ++ udevGroup ++ " group and uaccess rather than",
      "# just one of the two.", "",
      "# CDC-ACM tty device node (mbserial, and pyOCD's DAPLink serial transport)",
      udevMatch "SUBSYSTEM==\"tty\", SUBSYSTEMS==\"usb\"", "",
      "# Raw USB device node (CMSIS-DAP v2 / WinUSB transport, opened directly by pyOCD)",
      udevMatch "SUBSYSTEM==\"usb\"", "",
      "# hidraw device node (CMSIS-DAP v1 / HID transport)", udevMatch "KERNEL==\"hidraw*\""]

def resolveLinuxOperatingUser (flagValue : Option String) : String :=
  let given (v : Option String) := v.filter (· ≠ "")
  (((given flagValue).or (given h.sudoUser)).or (given h.userVar)).getD h.loginName

end Texts

/-! ## Scripts -/

inductive Exn where
  | calledProcessError
  /-- Of a file, or of a command that is not there. -/
  | osError
  | fileNotFound (path : Path)
  | linuxUserPreflight (message : String)
  deriving DecidableEq, Repr

/-- The files, and the commands that were run or printed. -/
structure State where
  files : Dict Path String
  issued : List (List String)

abbrev Script := Unwind State Exn

/-- `DryRunCommandRunner`, or `SubprocessCommandRunner` with what becomes of the `n`-th command, and
what it and the daemon make of the files until the next one. -/
inductive Runner where
  | dry
  | subprocess (fails : ℕ → Option Exn)
      (makes : ℕ → List String → Dict Path String → Dict Path String)

/-- What the operating system refuses: a file that cannot be written or removed, how much of its
text is in a file that was opened before its writing failed, and the files of a tree whose removal
fails that are left of it. -/
structure World where
  denies : Path → Bool
  cut : Path → Option ℕ
  spares : Path → Bool

section Scripts

variable (runner : Runner) (w : World)

def Runner.run (argv : List String) : Script Unit := fun s =>
  match runner with
  | .dry => (.ok (), { s with issued := s.issued ++ [argv] })
  | .subprocess fails makes =>
    (match fails s.issued.length with
      | none => .ok ()
      | some e => .error e,
      { files := makes s.issued.length argv s.files, issued := s.issued ++ [argv] })

/-- A command whose failure is expected. -/
def Runner.attempt (argv : List String) : Script Unit :=
  Unwind.except (· = .calledProcessError) (runner.run argv) fun _ => pure ()

def readFiles : Script (Dict Path String) := fun s => (.ok s.files, s)

/-- `mkdir` and `write_text`, which empties the file before it writes. -/
def writeText (path : Path) (content : String) : Script Unit := fun s =>
  if w.denies path then
    (.error .osError,
      match w.cut path with
      | none => s
      | some n =>
        { s with files := s.files.insert path (String.ofList (content.toList.take n)) })
  else (.ok (), { s with files := s.files.insert path content })

/-- `unlink(missing_ok=True)` -/
def unlink (path : Path) : Script Unit := fun s =>
  if (s.files.lookup path).isNone then (.ok (), s)
  else if w.denies path then (.error .osError, s)
  else (.ok (), { s with files := s.files.erase path })

/-- `if dir.exists(): shutil.rmtree(dir)`; a directory that is not there is not denied. -/
def rmtree (dir : Path) : Script Unit := fun s =>
  if w.denies dir then
    (.error .osError,
      { s with files := s.files.filterKeys fun p => !dir.isPrefixOf p || w.spares p })
  else (.ok (), { s with files := s.files.filterKeys fun p => !dir.isPrefixOf p })

/-- `if not dry_run: …` -/
def unlessDry (dryRun : Bool) (body : Script Unit) : Script Unit :=
  if dryRun then pure () else body

end Scripts

/-! ## Operations -/

section Operations

variable (h : Host) (runner : Runner) (w : World) (dryRun : Bool)

/-- `f"{domain}/{label}"` -/
def serviceTarget (scope : Scope) : String := macosDomain h scope ++ "/" ++ launchdLabel

def macosInstall (scope : Scope) : Script Unit := do
  unlessDry dryRun (writeText w (macosPlistPath h scope) (renderLaunchdPlist h scope))
  runner.attempt ["launchctl", "bootout", serviceTarget h scope]
  runner.run ["launchctl", "enable", serviceTarget h scope]
  runner.run ["launchctl", "bootstrap", macosDomain h scope, text (macosPlistPath h scope)]

/-- The part of `macos_uninstall` for a service that is there. -/
def macosRemove (scope : Scope) (purge : Bool) : Script Unit := do
  runner.attempt ["launchctl", "bootout", serviceTarget h scope]
  unlessDry dryRun do
    unlink w (macosPlistPath h scope)
    unlink w (socketPath h .darwin scope)
    unlink w (macosLogPath h scope)
    if purge then rmtree w (stateDir h .darwin scope)

def macosControl (action : String) (scope : Scope) : Script Unit := do
  if action = "stop" then
    runner.attempt ["launchctl", "bootout", serviceTarget h scope]
  else
    runner.attempt ["launchctl", "bootstrap", macosDomain h scope, text (macosPlistPath h scope)]
    runner.run <| ["launchctl", "kickstart"] ++ (if action = "restart" then ["-k"] else []) ++
      [serviceTarget h scope]

def systemctl : Scope → List String
  | .user => ["systemctl", "--user"]
  | .system => ["systemctl"]

def linuxInstallSystem (operatingUser : Option String) : Script Unit := do
  unlessDry dryRun do
    writeText w (linuxUnitPath h .system) (renderSystemdUnit h .system)
    writeText w linuxUdevRulePath renderUdevRule
  runner.run ["systemctl", "daemon-reload"]
  runner.run ["systemctl", "enable", "--now", linuxUnitName]
  runner.run ["udevadm", "control", "--reload-rules"]
  runner.run ["udevadm", "trigger"]
  runner.run ["usermod", "-aG", udevGroup, resolveLinuxOperatingUser h operatingUser]

/-- What is missing for a user's service, as the user is told it. -/
def userPreflight (user : String) (ruleThere : Bool) : Option String :=
  if h.inPlugdev user && ruleThere then none
  else
    some <| "\n".intercalate <|
      ["mbregistry: cannot install --user for '" ++ user ++ "' yet -- " ++
        "USB access needs a one-time root-run setup first:"] ++
      (if h.inPlugdev user then [] else ["  sudo usermod -aG " ++ udevGroup ++ " " ++ user]) ++
      (if ruleThere then []
        else ["  sudo mbregistry service install --system  " ++
          "# writes the udev rule this --user install needs"])

/-- The part of `_linux_install_user` after the preflight check. -/
def linuxInstallUser (operatingUser : Option String) : Script Unit := do
  unlessDry dryRun (writeText w (linuxUnitPath h .user) (renderSystemdUnit h .user))
  runner.run ["systemctl", "--user", "daemon-reload"]
  runner.run ["systemctl", "--user", "enable", "--now", linuxUnitName]
  runner.run ["loginctl", "enable-linger", resolveLinuxOperatingUser h operatingUser]

/-- What `linux_uninstall` does at the system scope only. -/
def linuxDropRule : Script Unit := do
  unlessDry dryRun (unlink w linuxUdevRulePath)
  runner.run ["systemctl", "daemon-reload"]
  runner.attempt ["udevadm", "control", "--reload-rules"]

/-- The part of `linux_uninstall` for a service that is there. -/
def linuxRemove (scope : Scope) (purge : Bool) : Script Unit := do
  runner.attempt (systemctl scope ++ ["disable", "--now", linuxUnitName])
  unlessDry dryRun do
    unlink w (linuxUnitPath h scope)
    unlink w (socketPath h .linux scope)
  (if scope = .system then linuxDropRule runner w dryRun else pure ())
  unlessDry (dryRun || !purge) (rmtree w (stateDir h .linux scope))

def linuxControl (action : String) (scope : Scope) : Script Unit :=
  runner.run (systemctl scope ++ [action, linuxUnitName])

end Operations

/-! ## Requests -/

inductive Action where
  | start
  | stop
  | restart
  deriving DecidableEq, Repr

def Action.name : Action → String
  | start => "start"
  | stop => "stop"
  | restart => "restart"

inductive Request where
  | install (scope : Scope) (operatingUser : Option String)
  | uninstall (scope : Scope) (purge : Bool)
  | control (action : Action) (scope : Scope)

/-- The path or the message that is returned. -/
inductive Outcome where
  | path (p : Path)
  | message (m : String)
  deriving DecidableEq, Repr

def Scope.name : Scope → String
  | user => "user"
  | system => "system"

def Scope.other : Scope → Scope
  | user => system
  | system => user

def Platform.name : Platform → String
  | darwin => "macOS"
  | linux => "Linux"

section Perform

variable (p : Platform) (h : Host)

def installed (files : Dict Path String) (scope : Scope) : Bool :=
  (files.lookup (unitPath h p scope)).isSome

def notInstalled (files : Dict Path String) (scope : Scope) : String :=
  s!"{p.name} {scope.name} service is not installed (no {text (unitPath h p scope)})." ++
    if installed p h files scope.other then
      s!" A {scope.other.name}-scope install exists at {text (unitPath h p scope.other)}."
    else ""

/-- Why a request ends before it does anything, if it does. -/
def early (files : Dict Path String) : Request → Option (Except Exn Outcome)
  | .install .user operatingUser =>
    match p with
    | .darwin => none
    | .linux =>
      (userPreflight h (resolveLinuxOperatingUser h operatingUser)
        (files.lookup linuxUdevRulePath).isSome).map fun m => .error (.linuxUserPreflight m)
  | .install .system _ => none
  | .uninstall scope _ =>
    if installed p h files scope then none else some (.ok (.message (notInstalled p h files scope)))
  | .control _ scope =>
    if installed p h files scope then none else some (.error (.fileNotFound (unitPath h p scope)))

def result : Request → Outcome
  | .install scope _ => .path (unitPath h p scope)
  | .uninstall scope _ =>
    .message s!"Removed {p.name} {scope.name} service ({text (unitPath h p scope)})."
  | .control _ scope => .path (unitPath h p scope)

variable (runner : Runner) (w : World) (dryRun : Bool)

def body : Request → Script Unit
  | .install scope operatingUser =>
    match p, scope with
    | .darwin, _ => macosInstall h runner w dryRun scope
    | .linux, .user => linuxInstallUser h runner w dryRun operatingUser
    | .linux, .system => linuxInstallSystem h runner w dryRun operatingUser
  | .uninstall scope purge =>
    match p with
    | .darwin => macosRemove h runner w dryRun scope purge
    | .linux => linuxRemove h runner w dryRun scope purge
  | .control action scope =>
    match p with
    | .darwin => macosControl h runner action.name scope
    | .linux => linuxControl runner action.name scope

/-- `macos_install`, `linux_install`, `macos_uninstall`, `linux_uninstall`, `_macos_control` and
`_linux_control`. -/
def perform (r : Request) : Script Outcome := do
  let files ← readFiles
  match early p h files r with
  | some x => Unwind.answer x
  | none =>
    body p h runner w dryRun r
    pure (result p h r)

end Perform

/-! ## Dry runs -/

/-- The second program is a dry run of the first: it writes nothing and cannot fail, and what it
prints is what the first runs, as far as that gets. -/
def DryRunOf {α : Type} (real dry : Script α) : Prop :=
  ∀ s t : State, s.issued = t.issued → ∃ a, (dry t).1 = .ok a ∧ (dry t).2.files = t.files ∧
    t.issued <+: (dry t).2.issued ∧ (real s).2.issued <+: (dry t).2.issued ∧
    ∀ b, (real s).1 = .ok b → b = a ∧ (real s).2.issued = (dry t).2.issued

namespace DryRunOf

variable {α β : Type} {real dry : Script α} {next next' : α → Script β}

theorem pure (a : α) : DryRunOf (pure a : Script α) (pure a) := by
  intro s t hst
  refine ⟨a, rfl, rfl, List.prefix_rfl, ?_, fun b hb => ?_⟩
  · exact hst ▸ List.prefix_rfl
  · cases hb
    exact ⟨rfl, hst⟩

theorem bind (h : DryRunOf real dry) (hnext : ∀ a, DryRunOf (next a) (next' a)) :
    DryRunOf (real >>= next) (dry >>= next') := by
  intro s t hst
  obtain ⟨a, hok, hfiles, hgrows, hprefix, hsame⟩ := h s t hst
  rcases hr : real s with ⟨r, s'⟩
  rcases hd : dry t with ⟨r', t'⟩
  rw [hr] at hprefix hsame
  rw [hd] at hok hfiles hgrows hprefix hsame
  obtain rfl : r' = .ok a := hok
  rw [Unwind.bind_of_ok hd]
  cases r with
  | ok b =>
    obtain ⟨rfl, hissued⟩ := hsame b rfl
    rw [Unwind.bind_of_ok hr]
    obtain ⟨c, hok', hfiles', hgrows', hprefix', hsame'⟩ := hnext b s' t' hissued
    exact ⟨c, hok', hfiles'.trans hfiles, hgrows.trans hgrows', hprefix', hsame'⟩
  | error e =>
    rw [Unwind.bind_of_error hr]
    obtain ⟨c, hok', hfiles', hgrows', -, -⟩ := hnext a t' t' rfl
    exact ⟨c, hok', hfiles'.trans hfiles, hgrows.trans hgrows', hprefix.trans hgrows', nofun⟩

theorem ite {c : Prop} [Decidable c] {real' dry' : Script α} (h : DryRunOf real dry)
    (h' : DryRunOf real' dry') :
    DryRunOf (if c then real else real') (if c then dry else dry') := by
  split
  · exact h
  · exact h'

variable (fails : ℕ → Option Exn) (makes : ℕ → List String → Dict Path String → Dict Path String)

theorem run (argv : List String) :
    DryRunOf ((Runner.subprocess fails makes).run argv) (Runner.dry.run argv) := by
  intro s t hst
  refine ⟨(), rfl, rfl, List.prefix_append _ _, ?_, fun b _ => ⟨rfl, ?_⟩⟩
  · simp only [Runner.run, hst, List.prefix_rfl]
  · simp only [Runner.run, hst]

theorem attempt (argv : List String) :
    DryRunOf ((Runner.subprocess fails makes).attempt argv) (Runner.dry.attempt argv) := by
  have hissued (s : State) : ((Runner.subprocess fails makes).attempt argv s).2.issued =
      s.issued ++ [argv] := by
    have hrun : Unwind.Within (fun s t => t.issued = s.issued ++ [argv])
        ((Runner.subprocess fails makes).run argv) := fun _ => rfl
    exact hrun.except_silent (fun _ => Unwind.Silent.pure ()) s
  intro s t hst
  refine ⟨(), rfl, rfl, List.prefix_append _ _, ?_, fun b _ => ⟨rfl, ?_⟩⟩
  · rw [hissued, hst]
    exact List.prefix_rfl
  · rw [hissued, hst]
    rfl

end DryRunOf

/-- A program that runs no command. -/
def Quiet {α : Type} (f : Script α) : Prop := Unwind.Within (fun s t => t.issued = s.issued) f

theorem quiet_writeText {w : World} (path : Path) (content : String) :
    Quiet (writeText w path content) := by
  intro s
  unfold writeText
  split
  · cases w.cut path <;> rfl
  · rfl

theorem quiet_unlink {w : World} (path : Path) : Quiet (unlink w path) := by
  intro s
  unfold unlink
  split
  · rfl
  · split <;> rfl

theorem quiet_rmtree {w : World} (dir : Path) : Quiet (rmtree w dir) := by
  intro s
  unfold rmtree
  split <;> rfl

theorem Quiet.bind {α β : Type} {f : Script α} {g : α → Script β} (hf : Quiet f)
    (hg : ∀ a, Quiet (g a)) : Quiet (f >>= g) :=
  Unwind.Within.bind (fun _ _ _ hst htu => htu.trans hst) hf hg

theorem quiet_pure {α : Type} (a : α) : Quiet (pure a) := fun _ => rfl

/-- What changes files only is left out by a dry run. -/
theorem DryRunOf.unlessDry {real real' : Script Unit} (h : Quiet real) :
    DryRunOf (unlessDry false real) (unlessDry true real') := by
  intro s t hst
  have hissued : (Service.unlessDry false real s).2.issued = s.issued := h s
  refine ⟨(), rfl, rfl, List.prefix_rfl, ?_, fun b _ => ⟨rfl, ?_⟩⟩
  · rw [hissued, hst]
    exact List.prefix_rfl
  · rw [hissued, hst]
    rfl

section DryRun

variable (p : Platform) (h : Host) (fails : ℕ → Option Exn)
  (makes : ℕ → List String → Dict Path String → Dict Path String) (w w' : World)

theorem dryRunOf_install (scope : Scope) (operatingUser : Option String) :
    DryRunOf (body p h (.subprocess fails makes) w false (.install scope operatingUser))
      (body p h .dry w' true (.install scope operatingUser)) := by
  cases p with
  | darwin =>
    apply DryRunOf.bind (.unlessDry (quiet_writeText _ _))
    intro _
    apply DryRunOf.bind (.attempt fails makes _)
    intro _
    apply DryRunOf.bind (.run fails makes _)
    intro _
    exact .run fails makes _
  | linux =>
    cases scope with
    | user =>
      apply DryRunOf.bind (.unlessDry (quiet_writeText _ _))
      intro _
      apply DryRunOf.bind (.run fails makes _)
      intro _
      apply DryRunOf.bind (.run fails makes _)
      intro _
      exact .run fails makes _
    | system =>
      apply DryRunOf.bind
      · exact .unlessDry ((quiet_writeText _ _).bind fun _ => quiet_writeText _ _)
      intro _
      apply DryRunOf.bind (.run fails makes _)
      intro _
      apply DryRunOf.bind (.run fails makes _)
      intro _
      apply DryRunOf.bind (.run fails makes _)
      intro _
      apply DryRunOf.bind (.run fails makes _)
      intro _
      exact .run fails makes _

theorem dryRunOf_uninstall (scope : Scope) (purge : Bool) :
    DryRunOf (body p h (.subprocess fails makes) w false (.uninstall scope purge))
      (body p h .dry w' true (.uninstall scope purge)) := by
  cases p with
  | darwin =>
    apply DryRunOf.bind (.attempt fails makes _)
    intro _
    apply DryRunOf.unlessDry
    apply (quiet_unlink _).bind
    intro _
    apply (quiet_unlink _).bind
    intro _
    apply (quiet_unlink _).bind
    intro _
    split
    · exact quiet_rmtree _
    · exact quiet_pure ()
  | linux =>
    apply DryRunOf.bind (.attempt fails makes _)
    intro _
    apply DryRunOf.bind (.unlessDry ((quiet_unlink _).bind fun _ => quiet_unlink _))
    intro _
    apply DryRunOf.bind
    · apply DryRunOf.ite
      · apply DryRunOf.bind (.unlessDry (quiet_unlink _))
        intro _
        apply DryRunOf.bind (.run fails makes _)
        intro _
        exact .attempt fails makes _
      · exact .pure ()
    intro _
    cases purge with
    | false => exact .pure ()
    | true => exact .unlessDry (quiet_rmtree _)

theorem dryRunOf_control (action : Action) (scope : Scope) :
    DryRunOf (body p h (.subprocess fails makes) w false (.control action scope))
      (body p h .dry w' true (.control action scope)) := by
  cases p with
  | darwin =>
    apply DryRunOf.ite
    · exact .attempt fails makes _
    · apply DryRunOf.bind (.attempt fails makes _)
      intro _
      exact .run fails makes _
  | linux => exact .run fails makes _

theorem dryRunOf_body (r : Request) :
    DryRunOf (body p h (.subprocess fails makes) w false r) (body p h .dry w' true r) := by
  cases r with
  | install scope operatingUser => exact dryRunOf_install p h fails makes w w' scope operatingUser
  | uninstall scope purge => exact dryRunOf_uninstall p h fails makes w w' scope purge
  | control action scope => exact dryRunOf_control p h fails makes w w' action scope

/-- A dry run changes no file. What a run issues begins what the dry run shows, and is all of it
if the run gets to its end; then both return the same, and what the dry run refuses to do is
refused in the same way. -/
theorem dry_run_shows_the_run (r : Request) (s : State) :
    (perform p h .dry w' true r s).2.files = s.files ∧
      (perform p h (.subprocess fails makes) w false r s).2.issued <+:
        (perform p h .dry w' true r s).2.issued ∧
      (∀ x, (perform p h (.subprocess fails makes) w false r s).1 = .ok x →
        (perform p h .dry w' true r s).1 = .ok x ∧
          (perform p h (.subprocess fails makes) w false r s).2.issued =
            (perform p h .dry w' true r s).2.issued) ∧
      ∀ e, (perform p h .dry w' true r s).1 = .error e →
        perform p h (.subprocess fails makes) w false r s = (.error e, s) := by
  have hread (k : Dict Path String → Script Outcome) : (readFiles >>= k) s = k s.files s := rfl
  simp only [perform, hread]
  cases hearly : early p h s.files r with
  | some x =>
    simp only [Unwind.answer]
    refine ⟨trivial, List.prefix_rfl, fun y hy => ⟨hy, trivial⟩, fun e he => by rw [he]⟩
  | none =>
    obtain ⟨a, hok, hfiles, -, hprefix, hsame⟩ :=
      (dryRunOf_body p h fails makes w w' r).bind (fun _ => .pure (result p h r)) s s rfl
    refine ⟨hfiles, hprefix, fun x hx => ?_, fun e he => ?_⟩
    · obtain ⟨rfl, hissued⟩ := hsame x hx
      exact ⟨hok, hissued⟩
    · rw [hok] at he
      cases he

end DryRun

end MbTools.Service
