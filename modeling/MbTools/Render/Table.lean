import Mathlib.Data.List.Lex
import Mathlib.Data.List.Sort
import MbTools.Lib.Columns
import MbTools.Relay.Pick
import MbTools.Render.LockCell

/-! # The table of devices

`list` shows the devices as a table or as JSON. Both sort them first, by one of four columns or
by the uid, and each device is one line of the table.
-/

namespace MbTools.Render

open Columns
open Api (DeviceEntry)

/-! ## Sorting what is sorted -/

section Stable

variable {α : Type*} {r S : α → α → Prop} [DecidableRel r] [Std.Total r] [IsTrans α r]

/-- Among elements that rank alike the order is `S`. -/
def Ranked (r S : α → α → Prop) (a b : α) : Prop := r a b ∧ (r b a → S a b)

theorem pairwise_orderedInsert {a : α} {l : List α} (hl : l.Pairwise (Ranked r S))
    (ha : ∀ b ∈ l, S a b) : (l.orderedInsert r a).Pairwise (Ranked r S) := by
  induction l with
  | nil => exact List.pairwise_singleton _ _
  | cons b l ih =>
    rw [List.pairwise_cons] at hl
    by_cases hab : r a b
    · rw [List.orderedInsert_cons, if_pos hab, List.pairwise_cons, List.pairwise_cons]
      refine ⟨fun c hc => ⟨?_, fun _ => ha c hc⟩, hl⟩
      rcases List.mem_cons.mp hc with rfl | hc
      · exact hab
      · exact IsTrans.trans _ _ _ hab (hl.1 c hc).1
    · rw [List.orderedInsert_cons, if_neg hab, List.pairwise_cons]
      refine ⟨fun c hc => ?_, ih hl.2 fun c hc => ha c (List.mem_cons_of_mem _ hc)⟩
      rcases (List.mem_orderedInsert r).mp hc with rfl | hc
      · exact ⟨(Std.Total.total b c).resolve_right hab, fun h => absurd h hab⟩
      · exact hl.1 c hc

theorem pairwise_insertionSort_of_pairwise {l : List α} (hl : l.Pairwise S) :
    (l.insertionSort r).Pairwise (Ranked r S) := by
  induction l with
  | nil => exact List.Pairwise.nil
  | cons a l ih =>
    rw [List.pairwise_cons] at hl
    exact pairwise_orderedInsert (ih hl.2) fun b hb => hl.1 b ((List.mem_insertionSort r).mp hb)

end Stable

/-! ## The cells -/

def tableHeaders : List (List ℕ) :=
  ["STATE", "LOCKED", "NAME", "UID", "FIRMWARE", "HOST", "PORT"].map codes

def kindText : LockKind → String
  | .serial => "serial"
  | .relay => "relay"
  | .flash => "flash"
  | .debug => "debug"

/-- What the lock cell is made from, of a device as listed. -/
def lockFieldsOf (d : DeviceEntry) : LockFields where
  host := d.record.host
  lockKind := d.lock.map fun l => kindText l.kind
  lockLabel := ((d.lock.bind Api.LockFields.label).map Json.str).getD .null
  remoteLockKind := d.record.remoteLockKind
  remoteLockDisplay := d.record.remoteLockDisplay

/-- `x or y` -/
def orElse (x : Option String) (y : String) : String := (Api.field x).getD y

/-- `_name_cell` -/
def nameCell (d : DeviceEntry) : List ℕ :=
  codes (orElse d.record.deviceName (orElse d.record.chipIdentityName "-"))

/-- `_firmware_cell` -/
def firmwareCell (d : DeviceEntry) : List ℕ :=
  codes <| match d.record.state with
    | .attachedUnprobed => "(not probed yet)"
    | .attachedNoAnnounce => "unknown"
    | .connectedNoFirmware => "no firmware"
    | .connected | .disconnected =>
      match Api.field d.record.role, Api.field d.record.commonName with
      | some role, some commonName => role ++ "/" ++ commonName
      | some role, none => role
      | none, some commonName => commonName
      | none, none => "-"

/-- `_host_cell` -/
def hostCell (d : DeviceEntry) : List ℕ := hostText d.record.host

def uidCell (d : DeviceEntry) : List ℕ :=
  if d.record.shortUid ≠ "" then codes d.record.shortUid
  else (codes d.record.uid).drop (d.record.uid.length - 8)

/-- The cells of one device; `isWord` are the characters of `\w`. -/
def cells (isWord : ℕ → Bool) (d : DeviceEntry) : List (List ℕ) :=
  [codes (Relay.stateCell d), (lockCell isWord (lockFieldsOf d)).getD [], nameCell d, uidCell d,
    firmwareCell d, hostCell d, codes (orElse d.record.port "-")]

/-- The label of a lock is a text, so its cell is never an error. -/
theorem lockCell_isSome (isWord : ℕ → Bool) (d : DeviceEntry) :
    (lockCell isWord (lockFieldsOf d)).isSome = true := by
  unfold lockCell
  split
  · rfl
  · split
    · split
      · rename_i htruthy
        have hlabel : ((lockFieldsOf d).lockLabel.truthy = true) := htruthy
        unfold lockFieldsOf at hlabel ⊢
        cases h : d.lock.bind Api.LockFields.label with
        | none =>
          rw [h] at hlabel
          cases hlabel
        | some label => rfl
      · rfl
    · dsimp only
      split
      · rfl
      · rfl

/-! ## The order -/

inductive SortKey where
  | state
  | name
  | firmware
  | host
  deriving DecidableEq, Repr

/-- What a column is sorted by. The pair that `host` is sorted by compares as a text that begins
with its first part. -/
def sortKey (lower : List ℕ → List ℕ) : SortKey → DeviceEntry → List ℕ
  | .state, d => lower (codes (Relay.stateCell d))
  | .name, d => lower (nameCell d)
  | .firmware, d => lower (firmwareCell d)
  | .host, d => (if d.record.host = none then 0 else 1) :: lower (hostCell d)

def uidKey (d : DeviceEntry) : List ℕ :=
  codes (if d.record.shortUid ≠ "" then d.record.shortUid else d.record.uid)

/-- `_sort_devices`; `lower` is `str.lower`. -/
def sortDevices (lower : List ℕ → List ℕ) (sortBy : Option SortKey) (devices : List DeviceEntry) :
    List DeviceEntry :=
  let ordered := devices.insertionSort fun d e => uidKey d ≤ uidKey e
  match sortBy with
  | none => ordered
  | some k => ordered.insertionSort fun d e => sortKey lower k d ≤ sortKey lower k e

/-- The code points of the blank, of the hyphen and of the line feed. -/
def marks : Marks ℕ where
  blank := 32
  dash := 45
  newline := 10
  isSpace := Virtual.isSpace
  isSpace_blank := by decide
  dash_ne_blank := by decide
  dash_ne_newline := by decide
  blank_ne_newline := by decide

/-- `render_table` -/
def renderTable (isWord : ℕ → Bool) (lower : List ℕ → List ℕ) (sortBy : Option SortKey)
    (devices : List DeviceEntry) : List ℕ :=
  let devices := sortDevices lower sortBy devices
  if devices = [] then codes "no devices known to the registry"
  else marks.table tableHeaders (devices.map (cells isWord))

/-- `render_json`, the devices of it. -/
def renderJson (lower : List ℕ → List ℕ) (sortBy : Option SortKey) (devices : List DeviceEntry) :
    List DeviceEntry :=
  sortDevices lower sortBy devices

variable {lower : List ℕ → List ℕ} {sortBy : Option SortKey} {devices : List DeviceEntry}

theorem perm_sortDevices (lower : List ℕ → List ℕ) (sortBy : Option SortKey)
    (devices : List DeviceEntry) : (sortDevices lower sortBy devices).Perm devices := by
  have hordered := List.perm_insertionSort (fun d e : DeviceEntry => uidKey d ≤ uidKey e) devices
  cases sortBy with
  | none => exact hordered
  | some k => exact (List.perm_insertionSort _ _).trans hordered

/-- Sorted by the text of the column, and by the uid among devices with one text. -/
def Before (lower : List ℕ → List ℕ) (sortBy : Option SortKey) (d e : DeviceEntry) : Prop :=
  match sortBy with
  | none => uidKey d ≤ uidKey e
  | some k => sortKey lower k d < sortKey lower k e ∨
      sortKey lower k d = sortKey lower k e ∧ uidKey d ≤ uidKey e

instance (key : DeviceEntry → List ℕ) : Std.Total fun d e => key d ≤ key e :=
  ⟨fun d e => le_total (key d) (key e)⟩

instance (key : DeviceEntry → List ℕ) : IsTrans DeviceEntry fun d e => key d ≤ key e :=
  ⟨fun _ _ _ => le_trans⟩

theorem pairwise_sortDevices :
    (sortDevices lower sortBy devices).Pairwise (Before lower sortBy) := by
  have hordered := List.pairwise_insertionSort (fun d e : DeviceEntry => uidKey d ≤ uidKey e)
    devices
  cases sortBy with
  | none => exact hordered
  | some k =>
    refine (pairwise_insertionSort_of_pairwise (r := fun d e => sortKey lower k d ≤
      sortKey lower k e) hordered).imp ?_
    rintro d e ⟨hle, htie⟩
    rcases hle.lt_or_eq with hlt | heq
    · exact Or.inl hlt
    · exact Or.inr ⟨heq, htie heq.ge⟩

/-- The table and the JSON list the same devices, each once and in one order: by the column asked
for, then by the uid. And if no cell has a line feed in it, the cells of each device can be
read off its line of the table. -/
theorem table_lists_the_devices (isWord : ℕ → Bool) (lower : List ℕ → List ℕ)
    (sortBy : Option SortKey) (devices : List DeviceEntry) (hne : devices ≠ [])
    (hcells : ∀ d ∈ devices, ∀ cell ∈ cells isWord d, 10 ∉ cell) :
    (renderJson lower sortBy devices).Perm devices ∧
      (renderJson lower sortBy devices).Pairwise (Before lower sortBy) ∧
      marks.read (renderTable isWord lower sortBy devices) =
        (renderJson lower sortBy devices).map fun d => (cells isWord d).map marks.rstrip := by
  have hperm := perm_sortDevices lower sortBy devices
  have hsorted : sortDevices lower sortBy devices ≠ [] := fun hnil =>
    hne (hperm.symm.trans (hnil ▸ List.Perm.refl [])).eq_nil
  refine ⟨hperm, pairwise_sortDevices, ?_⟩
  rw [renderTable, if_neg hsorted, read_table (by decide), List.map_map]
  · rfl
  · intro row hrow
    obtain ⟨d, -, rfl⟩ := List.mem_map.mp hrow
    rfl
  · intro row hrow
    obtain ⟨d, hd, rfl⟩ := List.mem_map.mp hrow
    exact hcells d (hperm.mem_iff.mp hd)

/-- A relay of this host, and a blank board of another that is held by its own daemon. -/
def bench : List DeviceEntry :=
  [⟨⟨"9906b", "9906b", some "/dev/ttyACM0", none, some "RELAY", some "nezha", some "togov", none,
      none, .connected, none, none, none, none, none, none, 0, 0, 0, 0⟩, none, none, true, false⟩,
    ⟨⟨"9904a", "9904a", some "COM7", none, none, none, none, none, none, .connectedNoFirmware, none,
      some "loki", some "flash", some "flash pid 7 (gala / mbdeploy, 5s)", some "zatep", none, 0, 0,
      0, 0⟩, none, some "10.0.0.5:7440", true, false⟩]

def asciiLower (s : List ℕ) : List ℕ := s.map fun c => if 65 ≤ c ∧ c ≤ 90 then c + 32 else c

theorem bench_is_listed : (renderJson asciiLower (some .state) bench).Perm bench ∧
    (renderJson asciiLower (some .state) bench).Pairwise (Before asciiLower (some .state)) ∧
    marks.read (renderTable asciiWord asciiLower (some .state) bench) =
      (renderJson asciiLower (some .state) bench).map fun d =>
        (cells asciiWord d).map marks.rstrip :=
  table_lists_the_devices asciiWord asciiLower (some .state) bench (by decide) (by decide +kernel)

example : (cells asciiWord (bench.getLast (by decide))).map
    (fun cell => String.ofList (cell.map Char.ofNat)) =
    ["locked", "gala", "zatep", "9904a", "no firmware", "loki", "COM7"] := by
  decide +kernel

end MbTools.Render
