import MbTools.Lib.Readline
import MbTools.Lib.Text
import MbTools.Lib.Utf8
import MbTools.Store.Record

/-! # The answer to `HELLO`

`identity.probe` listens in two windows and takes the first return of `readline` that it can
parse for the announcement. It is the first whole line that can be parsed unless a `readline`
that gave up inside a line gave a text that parses, or kept one from it.
-/

namespace MbTools.Identity

open Lines Text Utf8 Readline

/-- `str.split`. -/
def words (text : Str) : List Str := (text.splitOnP isSpace).filter (· ≠ [])

/-- Role, common name, device name and serial. -/
structure Fields where
  role : Str
  commonName : Str
  deviceName : Str
  serial : Str

/-- `_parse_announcement`: both dialects have the same fields in the same order. -/
def parseAnnouncement (text : Str) : Option Fields :=
  if "DEVICE:".toList <+: text then
    match text.splitOn ':' with
    | _ :: role :: commonName :: deviceName :: serial =>
      -- the serial may itself contain colons
      if serial = [] then none
      else some ⟨role, commonName, deviceName, [':'].intercalate serial⟩
    | _ => none
  else if "device ".toList <+: text then
    match words text with
    | _ :: role :: commonName :: deviceName :: serial :: _ =>
      some ⟨role, commonName, deviceName, serial⟩
    | _ => none
  else none

/-- `raw.decode("utf-8", "ignore").strip()`. -/
def heard (raw : List UInt8) : Str := strip (decode ignore raw)

def Fields.result (fields : Fields) (text : Str) : ProbeResult :=
  { role := String.ofList fields.role
    commonName := String.ofList fields.commonName
    deviceName := String.ofList fields.deviceName
    serial := String.ofList fields.serial
    raw := String.ofList text }

/-- What is left of a line that is none of the two dialects. -/
def malformed (text : Str) : ProbeResult :=
  { role := "", commonName := "", deviceName := "", serial := "", raw := String.ofList text }

/-- How one window ends. -/
inductive Listened where
  | announced (result : ProbeResult)
  | over (malformedRaw : Option Str) (now : ℕ) (as : Arrivals)

/-- The loop of one window; `none` if it needs more turns than `turns`. -/
def listen (ser : Reader) (deadline : ℕ) :
    ℕ → Option Str → ℕ → Arrivals → Option Listened
  | 0, _, _, _ => none
  | turns + 1, malformedRaw, now, as =>
    if deadline ≤ now then some (.over malformedRaw now as)
    else
      let raw := ser.read now as
      if raw.bytes = [] then listen ser deadline turns malformedRaw raw.now raw.rest
      else
        let text := heard raw.bytes
        if text = [] then listen ser deadline turns malformedRaw raw.now raw.rest
        else
          match parseAnnouncement text with
          | some fields => some (.announced (fields.result text))
          | none => listen ser deadline turns (some text) raw.now raw.rest

/-- So many attempts, each with a window of `timeout`. -/
def attempts (ser : Reader) (timeout : ℕ) :
    ℕ → Option Str → ℕ → Arrivals → Option (Option ProbeResult)
  | 0, malformedRaw, _, _ => some (malformedRaw.map malformed)
  | n + 1, malformedRaw, now, as =>
    let deadline := now + timeout
    match listen ser deadline (callsUntil deadline now as + 1) malformedRaw now as with
    | none => none
    | some (.announced result) => some (some result)
    | some (.over malformedRaw now as) => attempts ser timeout n malformedRaw now as

/-- `probe` from when the first `HELLO` is written at `start`. -/
def probe (ser : Reader) (start timeout : ℕ) (as : Arrivals) : Option (Option ProbeResult) :=
  attempts ser timeout 2 none start as

/-- What the calls of `readline` give in so many windows. -/
def windows (ser : Reader) (timeout : ℕ) : ℕ → ℕ → Arrivals → List (List UInt8)
  | 0, _, _ => []
  | n + 1, now, as =>
    let left := ser.left (now + timeout) now as
    ser.reads (now + timeout) now as ++ windows ser timeout n left.1 left.2

/-- When the last of so many windows ends. -/
def windowsEnd (ser : Reader) (timeout : ℕ) : ℕ → ℕ → Arrivals → ℕ
  | 0, now, _ => now
  | 1, now, _ => now + timeout
  | n + 1, now, as =>
    let left := ser.left (now + timeout) now as
    windowsEnd ser timeout n left.1 left.2

/-- The result for a line that is an announcement. -/
def announcement (raw : List UInt8) : Option ProbeResult :=
  (parseAnnouncement (heard raw)).map fun fields => fields.result (heard raw)

/-- The lines of a stream that are ended by a newline. -/
def completeLines (bs : List UInt8) : List (List UInt8) := (bs.splitOn newline).dropLast

/-- The first announcement among the complete lines of a stream. -/
def spoken (bs : List UInt8) : Option ProbeResult := (completeLines bs).findSome? announcement

def NoFields (r : ProbeResult) : Prop :=
  r.role = "" ∧ r.commonName = "" ∧ r.deviceName = "" ∧ r.serial = ""

instance (r : ProbeResult) : Decidable (NoFields r) := instDecidableAnd

/-- Of a stream the first complete line that is an announcement is recorded, and nothing
if there is none. -/
def Faithful (bs : List UInt8) (result : Option ProbeResult) : Prop :=
  match spoken bs with
  | some r => result = some r
  | none => ∀ r ∈ result, NoFields r

/-- Nothing of a line is behind the last newline. -/
def AtLineStart (bs : List UInt8) : Prop := ∀ b ∈ bs.getLast?, b = newline

/-- Where a `readline` gives up inside a line, it does no harm: a part of a line that by itself is
an announcement has the text of the first line that is one, and an announcement of which every
part is something else is followed by the same one. -/
structure Spared (raws : List (List UInt8)) : Prop where
  torn : ∀ before raw after r, raws = before ++ raw :: after →
    (∀ x ∈ before, announcement x = none) → announcement raw = some r →
    ¬ (AtLineStart before.flatten ∧ raw.getLast? = some newline) →
    spoken raws.flatten = some r ∨ spoken raws.flatten = none ∧ NoFields r
  lost : ∀ before after r, raws = before ++ after → (∀ x ∈ before, announcement x = none) →
    spoken before.flatten = some r → after.findSome? announcement = some r

variable {ser : Reader} {start timeout now : ℕ} {as : Arrivals} {m : Option Str}
  {raws : List (List UInt8)}

/-! ### What is made of the returns of `readline` -/

/-- The announcement, or the last text that is none. -/
def scan : Option Str → List (List UInt8) → ProbeResult ⊕ Option Str
  | m, [] => .inr m
  | m, raw :: raws =>
    if heard raw = [] then scan m raws
    else
      match announcement raw with
      | some r => .inl r
      | none => scan (some (heard raw)) raws

theorem scan_append (m : Option Str) (raws more : List (List UInt8)) :
    scan m (raws ++ more) = (scan m raws).elim .inl fun m => scan m more := by
  induction raws generalizing m with
  | nil => rfl
  | cons raw raws ih =>
    rw [List.cons_append, scan, scan]
    split
    · exact ih m
    · split
      · rfl
      · exact ih _

theorem scan_eq (m : Option Str) (raws : List (List UInt8)) :
    match raws.findSome? announcement with
    | some r => scan m raws = .inl r
    | none => ∃ m', scan m raws = .inr m' ∧
        (m' = m ∨ ∃ t, m' = some t ∧ parseAnnouncement t = none) := by
  induction raws generalizing m with
  | nil => exact ⟨m, rfl, .inl rfl⟩
  | cons raw raws ih =>
    rw [List.findSome?_cons, scan]
    by_cases hnil : heard raw = []
    · have hnone : announcement raw = none := by rw [announcement, hnil]; rfl
      rw [if_pos hnil, hnone]
      exact ih m
    · rw [if_neg hnil]
      cases hraw : announcement raw with
      | some r => rfl
      | none =>
        have hparse : parseAnnouncement (heard raw) = none := by
          rwa [announcement, Option.map_eq_none_iff] at hraw
        have hih := ih (some (heard raw))
        simp only
        revert hih
        cases raws.findSome? announcement with
        | some r => exact id
        | none =>
          rintro ⟨m', hscan, rfl | hm⟩
          · exact ⟨_, hscan, .inr ⟨_, rfl, hparse⟩⟩
          · exact ⟨m', hscan, .inr hm⟩

theorem listen_eq {deadline turns : ℕ} (h : callsUntil deadline now as < turns) :
    listen ser deadline turns m now as =
      some ((scan m (ser.readsFrom deadline turns now as)).elim .announced fun m =>
        .over m (ser.leftFrom deadline turns now as).1 (ser.leftFrom deadline turns now as).2) := by
  induction turns generalizing m now as with
  | zero => cases h
  | succ turns ih =>
    rw [listen, Reader.readsFrom, Reader.leftFrom]
    split
    · rfl
    next hlate =>
      have hcalls := ser.callsUntil_read as (Nat.lt_of_not_le hlate)
      simp only
      split
      · exact ih (by omega)
      · rw [scan]
        split
        · exact ih (by omega)
        · rw [announcement]
          cases parseAnnouncement (heard (ser.read now as).bytes) with
          | some fields => rfl
          | none => exact ih (by omega)

theorem attempts_eq (n : ℕ) : attempts ser timeout n m now as =
    some ((scan m (windows ser timeout n now as)).elim some (Option.map malformed)) := by
  induction n generalizing m now as with
  | zero => rfl
  | succ n ih =>
    rw [attempts, windows, scan_append]
    rw [listen_eq (Nat.lt_succ_self _), ← Reader.reads, ← Reader.left]
    cases scan m (ser.reads (now + timeout) now as) with
    | inl r => rfl
    | inr m' => exact ih

/-- With nothing to parse, the result has no fields and is no result of parsing. -/
theorem malformed_ne {m' : Option Str} (h : ∀ t ∈ m', parseAnnouncement t = none) :
    (∀ r ∈ m'.map malformed, NoFields r) ∧
      ∀ raw r, announcement raw = some r → m'.map malformed ≠ some r := by
  cases m' with
  | none => exact ⟨by simp, by simp⟩
  | some t =>
    refine ⟨by simp [malformed, NoFields], fun raw r hr heq => ?_⟩
    rw [announcement] at hr
    cases hfields : parseAnnouncement (heard raw) with
    | none =>
      rw [hfields] at hr
      cases hr
    | some fields =>
      rw [hfields] at hr
      cases hr
      have hraw : String.ofList t = String.ofList (heard raw) :=
        congrArg ProbeResult.raw (Option.some.inj heq)
      rw [String.ofList_inj] at hraw
      rw [← hraw, h t rfl] at hfields
      cases hfields

/-- What is recorded of the returns of `readline` is true of a stream exactly if their first
announcement is. -/
theorem scan_faithful_iff (bs : List UInt8) :
    Faithful bs ((scan none raws).elim some (Option.map malformed)) ↔
      Faithful bs (raws.findSome? announcement) := by
  have hscan := scan_eq none raws
  rw [Faithful, Faithful]
  cases hfound : raws.findSome? announcement with
  | some r =>
    rw [hfound] at hscan
    rw [hscan]
    exact Iff.rfl
  | none =>
    rw [hfound] at hscan
    obtain ⟨m', hm, hnone⟩ := hscan
    have hm' : ∀ t ∈ m', parseAnnouncement t = none := by
      rcases hnone with rfl | ⟨t, rfl, ht⟩
      · simp
      · simpa using ht
    obtain ⟨hblank, hne⟩ := malformed_ne hm'
    rw [hm]
    cases hline : spoken bs with
    | some r =>
      obtain ⟨line, -, hr⟩ := List.exists_of_findSome?_eq_some hline
      exact iff_of_false (hne line r hr) (by simp)
    | none => exact iff_of_true hblank (by simp)

/-! ### The lines of a stream and the returns of `readline` -/

theorem flatten_windows (n : ℕ) (hord : InOrder as) (hnow : ∀ a ∈ as, now ≤ a.1)
    (hend : ∀ a ∈ as, a.1 < windowsEnd ser timeout (n + 1) now as) :
    (windows ser timeout (n + 1) now as).flatten = as.bytes := by
  induction n generalizing now as with
  | zero =>
    rw [windows, windows, List.append_nil]
    exact ser.flatten_reads hord hnow hend
  | succ n ih =>
    obtain ⟨hall, hord', hnow', hmem⟩ := ser.left_spec (now + timeout) hord hnow
    rw [windows, List.flatten_append, ih hord' hnow' fun a ha => hend a (hmem a ha), ← hall]

theorem trim_concat {p : Char → Bool} {c : Char} (text : Str) (h : p c = true) :
    trim p (text ++ [c]) = trim p text := by
  rw [trim, trim, List.dropWhile_append]
  split
  next hnil =>
    rw [List.isEmpty_iff] at hnil
    rw [hnil, List.dropWhile_cons_of_pos h]
    rfl
  · rw [List.reverse_append, List.reverse_singleton, List.singleton_append,
      List.dropWhile_cons_of_pos h]

theorem heard_line (line : List UInt8) : heard (line ++ [newline]) = heard line := by
  have hn : ∀ b ∈ [newline], b.toNat < 128 := by
    rw [List.forall_mem_singleton]
    decide
  rw [heard, decode_append_of_ascii line hn]
  exact trim_concat _ rfl

theorem announcement_line (line : List UInt8) :
    announcement (line ++ [newline]) = announcement line := by
  rw [announcement, announcement, heard_line]

theorem completeLines_newline (xs ys : List UInt8) :
    completeLines (xs ++ newline :: ys) = xs.splitOn newline ++ completeLines ys := by
  rw [completeLines, List.splitOn_append_cons_self, List.dropLast_append_of_ne_nil
    (List.splitOn_ne_nil _ _), completeLines]

theorem completeLines_append {xs : List UInt8} (h : AtLineStart xs) (ys : List UInt8) :
    completeLines (xs ++ ys) = completeLines xs ++ completeLines ys := by
  rcases List.eq_nil_or_concat xs with rfl | ⟨xs, b, rfl⟩
  · rfl
  · obtain rfl : b = newline := h b (by simp)
    rw [List.concat_eq_append, List.append_assoc, List.singleton_append, completeLines_newline,
      completeLines_newline]
    exact congrArg (· ++ completeLines ys) (List.append_nil _).symm

theorem completeLines_line {line : List UInt8} (h : newline ∉ line) (bs : List UInt8) :
    completeLines (line ++ [newline] ++ bs) = line :: completeLines bs := by
  rw [List.append_assoc, List.singleton_append, completeLines_newline,
    List.splitOn_eq_singleton h]
  rfl

theorem completeLines_of_not_mem {bs : List UInt8} (h : newline ∉ bs) : completeLines bs = [] := by
  rw [completeLines, List.splitOn_eq_singleton h]
  rfl

theorem completeLines_prefix (xs ys : List UInt8) :
    completeLines xs <+: completeLines (xs ++ ys) := by
  by_cases h : newline ∈ xs
  · obtain ⟨a, b, hab, ha⟩ := List.eq_append_cons_of_mem (List.mem_reverse.mpr h)
    obtain rfl : xs = b.reverse ++ newline :: a.reverse := by
      simpa using congrArg List.reverse hab
    rw [List.append_assoc, List.cons_append, completeLines_newline, completeLines_newline,
      completeLines_of_not_mem (mt List.mem_reverse.mp ha), List.append_nil]
    exact List.prefix_append _ _
  · rw [completeLines_of_not_mem h]
    exact List.nil_prefix

theorem spoken_append {xs : List UInt8} {r : ProbeResult} (h : spoken xs = some r)
    (ys : List UInt8) : spoken (xs ++ ys) = some r := by
  obtain ⟨more, hmore⟩ := completeLines_prefix xs ys
  rw [spoken, ← hmore, List.findSome?_append]
  exact Option.or_eq_some_iff.mpr (.inl h)

/-! ### Where `readline` gives up -/

theorem spoken_line {before raw more : List UInt8} (hstart : AtLineStart before)
    (hend : raw.getLast? = some newline) (hlast : newline ∉ raw.dropLast) :
    spoken (before ++ (raw ++ more)) =
      (spoken before).or ((announcement raw).or (spoken more)) := by
  obtain ⟨line, rfl⟩ := List.getLast?_eq_some_iff.mp hend
  rw [List.dropLast_concat] at hlast
  rw [spoken, completeLines_append hstart, completeLines_line hlast, List.findSome?_append,
    List.findSome?_cons, announcement_line]
  cases announcement line with
  | some r => rfl
  | none => rfl

/-- The first return that is an announcement tells the truth exactly if no `readline` that gave up
did harm. -/
theorem faithful_iff_spared (hlast : ∀ raw ∈ raws, newline ∉ raw.dropLast) :
    Faithful raws.flatten (raws.findSome? announcement) ↔ Spared raws := by
  constructor
  · intro hf
    constructor
    · rintro before raw after r rfl hbefore hraw -
      have hfirst : (before ++ raw :: after).findSome? announcement = some r :=
        List.findSome?_eq_some_iff.mpr ⟨before, raw, after, rfl, hraw, hbefore⟩
      rw [hfirst, Faithful] at hf
      cases hline : spoken (before ++ raw :: after).flatten with
      | some r' =>
        rw [hline] at hf
        exact .inl hf.symm
      | none =>
        rw [hline] at hf
        exact .inr ⟨rfl, hf r rfl⟩
    · rintro before after r rfl hbefore hline
      rw [List.flatten_append, Faithful, spoken_append hline, List.findSome?_append,
        List.findSome?_eq_none_iff.mpr hbefore] at hf
      exact hf
  · intro hs
    -- a whole line is an announcement of the stream, so an earlier one was lost if this is not the
    -- first
    have hwhole : ∀ before raw after r, raws = before ++ raw :: after →
        (∀ x ∈ before, announcement x = none) → announcement raw = some r →
        spoken raws.flatten = some r ∨ spoken raws.flatten = none ∧ NoFields r := by
      rintro before raw after r rfl hbefore hraw
      by_cases hpart : AtLineStart before.flatten ∧ raw.getLast? = some newline
      · left
        have hmem : raw ∈ before ++ raw :: after := by simp
        rw [List.flatten_append, List.flatten_cons,
          spoken_line hpart.1 hpart.2 (hlast raw hmem), hraw]
        cases hline : spoken before.flatten with
        | none => rfl
        | some r' =>
          have hnext := hs.lost before (raw :: after) r' rfl hbefore hline
          rw [List.findSome?_cons, hraw] at hnext
          exact hnext.symm
      · exact hs.torn before raw after r rfl hbefore hraw hpart
    rw [Faithful]
    cases hfound : raws.findSome? announcement with
    | some r =>
      obtain ⟨before, raw, after, hsplit, hraw, hbefore⟩ := List.findSome?_eq_some_iff.mp hfound
      rcases hwhole before raw after r hsplit hbefore hraw with hline | ⟨hline, hnone⟩
      · rw [hline]
      · rw [hline]
        simpa using hnone
    | none =>
      cases hline : spoken raws.flatten with
      | none => simp
      | some r =>
        have hnext := hs.lost raws [] r (List.append_nil _).symm
          (List.findSome?_eq_none_iff.mp hfound) hline
        cases hnext

theorem spared_of_whole (hlast : ∀ raw ∈ raws, newline ∉ raw.dropLast)
    (hwhole : ∀ raw ∈ raws, raw.getLast? = some newline) : Spared raws := by
  have hsame : spoken raws.flatten = raws.findSome? announcement := by
    induction raws with
    | nil => rfl
    | cons raw raws ih =>
      rw [List.forall_mem_cons] at hlast hwhole
      have hline : spoken ([] ++ (raw ++ raws.flatten)) =
          (spoken []).or ((announcement raw).or (spoken raws.flatten)) :=
        spoken_line (by simp [AtLineStart]) hwhole.1 hlast.1
      rw [List.nil_append, ← List.flatten_cons, ih hlast.2 hwhole.2] at hline
      rw [hline, List.findSome?_cons]
      cases announcement raw with
      | some r => rfl
      | none => rfl
  refine (faithful_iff_spared hlast).mp ?_
  rw [Faithful, hsame]
  cases raws.findSome? announcement with
  | some r => rfl
  | none => simp

theorem mem_windows {n : ℕ} {raw : List UInt8} (h : raw ∈ windows ser timeout n now as) :
    newline ∉ raw.dropLast := by
  induction n generalizing now as with
  | zero => cases h
  | succ n ih =>
    rw [windows, List.mem_append] at h
    rcases h with h | h
    · exact (ser.mem_reads h).2
    · exact ih h

theorem whole_of_mem_windows {readTimeout n : ℕ} (h : SteadyLines readTimeout as)
    (hnow : ∀ a ∈ as, now ≤ a.1) :
    ∀ raw ∈ windows (.eachByte readTimeout) timeout n now as, raw.getLast? = some newline := by
  induction n generalizing now as with
  | zero => simp [windows]
  | succ n ih =>
    obtain ⟨hreads, hleft⟩ := Reader.eachByte_readsFrom_steady h (now + timeout)
      (callsUntil (now + timeout) now as + 1) hnow
    obtain ⟨-, -, hlater, -⟩ :=
      (Reader.eachByte readTimeout).left_spec (now + timeout) h.inOrder hnow
    rw [windows]
    exact List.forall_mem_append.mpr ⟨hreads, ih hleft hlater⟩

theorem spared_of_steady {readTimeout : ℕ} (h : SteadyLines readTimeout as)
    (hstart : ∀ a ∈ as, start ≤ a.1) :
    Spared (windows (.eachByte readTimeout) timeout 2 start as) :=
  spared_of_whole (fun _ hraw => mem_windows hraw) (whole_of_mem_windows h hstart)

/-- A line that comes in two parts, and an announcement that comes whole. -/
def chatter : Arrivals :=
  ("boo".toList.map fun c => (3, UInt8.ofNat c.toNat)) ++ [(5, 116), (5, newline)] ++
    ("DEVICE:a:b:c:17".toList.map fun c => (7, UInt8.ofNat c.toNat)) ++ [(7, newline)]

/-- `DEVICE:a:b:c:17` with the last digit two read timeouts after the rest. -/
def tornAnnouncement : Arrivals :=
  ("DEVICE:a:b:c:1".toList.map fun c => (3, UInt8.ofNat c.toNat)) ++ [(5, 55), (5, newline)]

end MbTools.Identity
