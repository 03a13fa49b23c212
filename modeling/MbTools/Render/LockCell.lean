import MbTools.Api.Ops
import MbTools.Lib.Successes
import MbTools.Peering.Apply
import MbTools.Registry.LockEvents
import MbTools.Virtual.Registration
import Mathlib.Data.List.DropRight

/-! # The LOCKED column

A lock's label reaches another host inside the text that shows the lock: one function
writes it between parentheses, and two patterns look for it there. The owner's own cell
is made from the label itself. Texts are lists of code points here.
-/

namespace MbTools.Render

open Successes Virtual

/-! ## The text of a lock -/

def lparen : ℕ := 40
def rparen : ℕ := 41
def comma : ℕ := 44
def blank : ℕ := 32

def codes (s : String) : List ℕ := s.toList.map Char.toNat

/-- `_format_age`. -/
def formatAge (seconds : ℚ) : List ℕ :=
  let seconds := (max 0 (seconds.num.tdiv seconds.den)).toNat
  if seconds < 60 then codes (toString seconds ++ "s")
  else
    let minutes := seconds / 60
    if minutes < 60 then codes (toString minutes ++ "m") else codes (toString (minutes / 60) ++ "h")

/-- `str(label)`; `text` gives it for the values that are not strings. -/
def labelText (text : Json → String) (label : Json) : List ℕ :=
  (codesOf label).getD (codes (text label))

/-- `format_lock_suffix`. -/
def formatLockSuffix (text : Json → String) (label : Json) (since : Option ℚ) (now : ℚ) :
    List ℕ :=
  match since with
  | none => []
  | some since =>
    let age := formatAge (now - since)
    if label.truthy then
      blank :: lparen :: labelText text label ++ comma :: blank :: age ++ [rparen]
    else blank :: lparen :: age ++ [rparen]

/-- The display in the event of `publish_lock_event`; a virtual board has no event. -/
def publishLockEvent (text : Json → String) (uid : String) (display : List ℕ) (label : Json)
    (since : Option ℚ) (now : ℚ) : Option (List ℕ) :=
  if isVirtualUid uid then none else some (display ++ formatLockSuffix text label since now)

/-- What SQLite takes for a text; a lone surrogate cannot be written. -/
def sqlText (display : List ℕ) : Option String :=
  if ∀ c ∈ display, c.isValidChar then some (String.ofList (display.map Char.ofNat)) else none

/-- `_apply_event` of a lock report, `none` where it raises. -/
def applyLockEvent (s : Store) (now : ℕ) (host uid kind : String) (display : List ℕ) :
    Option Store :=
  (sqlText display).bind fun display =>
    (Peering.applyEvent s now host { Peering.Event.ofType .lockState with
      uid := some uid, kind := some kind, display := some display }).toOption

/-! ## The cell -/

/-- The fields of a device that the cell is made from. -/
structure LockFields where
  host : Option String
  lockKind : Option String
  lockLabel : Json
  remoteLockKind : Option String
  remoteLockDisplay : Option String

/-- The kind and label of a `lock` request that passes its checks. -/
def lockRequest (req : Json) : Option (String × Json) :=
  if (req.get "uid").truthy then
    match req.get "kind" with
    | .str kind => (LockKind.ofString? kind).map fun _ => (kind, req.get "label")
    | _ => none
  else none

/-- The lock fields of `_device_dict`; only a local row has those of the lock table. -/
def deviceDict (r : DeviceRecord) (held : Option (String × Json)) : LockFields where
  host := r.host
  lockKind := if r.host = none then held.map Prod.fst else none
  lockLabel := if r.host = none then (held.map Prod.snd).getD .null else .null
  remoteLockKind := r.remoteLockKind
  remoteLockDisplay := r.remoteLockDisplay

/-- `_is_locked`. -/
def isLocked (d : LockFields) : Bool :=
  let kind := if d.host = none then d.lockKind else d.remoteLockKind
  kind.any (· ≠ "")

def isParen (c : ℕ) : Bool := c = lparen || c = rparen

/-- `_DISPLAY_LABEL_RE`, its group. -/
def displayLabel (_ : Option ℕ) : List ℕ → List (List ℕ)
  | [] => []
  | c :: s =>
    if c = lparen then
      (splits (fun c => !isParen c) s).flatMap fun x =>
        if [comma, blank] <+: x.2 then
          (splits (fun c => !isParen c && c ≠ comma) (x.2.drop 2)).flatMap fun y =>
            if y.2.head? = some rparen then
              (splits isSpace y.2.tail).flatMap fun z =>
                if z.2 = [] ∨ z.2 = [10] then [x.1] else []
            else []
        else []
    else []

/-- `_DISPLAY_ON_RE`, its group; `isWord` are the characters of `\w`. -/
def displayOn (isWord : ℕ → Bool) (prev : Option ℕ) (s : List ℕ) : List (List ℕ) :=
  if prev.any isWord = s.head?.any isWord then []
  else if codes "on " <+: s then
    ((splits (fun c => !isSpace c) (s.drop 3)).map Prod.fst).filter (· ≠ [])
  else []

/-- `text.split(" / ")[0]`. -/
def beforeSlash : List ℕ → List ℕ
  | [] => []
  | c :: s => if codes " / " <+: c :: s then [] else c :: beforeSlash s

/-- The machine of a label. -/
def machine (label : List ℕ) : List ℕ :=
  ((beforeSlash label).dropWhile isSpace).rdropWhile isSpace

/-- `host or "local"`. -/
def hostText (host : Option String) : List ℕ :=
  match host with
  | none | some "" => codes "local"
  | some host => codes host

/-- `_lock_cell`, `none` where the label has no `split`. -/
def lockCell (isWord : ℕ → Bool) (d : LockFields) : Option (List ℕ) :=
  if !isLocked d then some (codes "-")
  else
    match d.host with
    | none =>
      if d.lockLabel.truthy then (codesOf d.lockLabel).map machine else some (hostText none)
    | some host =>
      let display := codes (d.remoteLockDisplay.getD "")
      match search displayLabel none display with
      | some (c :: label) => some (machine (c :: label))
      | _ => some ((search (displayOn isWord) none display).getD (hostText (some host)))

/-! ## What a label has to be like -/

/-- The owner of a board publishes a lock, another registry applies the report, and the
cells of the two rows show the same text. -/
def ShowsSame (isWord : ℕ → Bool) (text : Json → String) (own : DeviceRecord) (s : Store)
    (now : ℕ) (owner uid kind : String) (holder : HolderRef) (label : Json) (since at' : ℚ) :
    Prop :=
  ∃ display s' r cell,
    publishLockEvent text uid (codes holder.describe) label (some since) at' = some display ∧
    applyLockEvent s now owner uid kind display = some s' ∧ s'.get uid = some r ∧
    lockCell isWord (deviceDict r none) = some cell ∧
    lockCell isWord (deviceDict own (some (kind, label))) = some cell

/-- Behind the last parenthesis of the label. -/
def behindParen (label : List ℕ) : List ℕ := label.rtakeWhile fun c => !isParen c

def lastParen (label : List ℕ) : Option ℕ := (label.rdropWhile fun c => !isParen c).getLast?

/-- A text without lone surrogates whose machine the other host finds: behind its last
parenthesis or, if that one closes or ends the label, behind the first `on ` of the whole
text or in the owner's host name. -/
def Survives (isWord : ℕ → Bool) (owner : String) (display : List ℕ) (label : Json) : Prop :=
  ∃ cs, codesOf label = some cs ∧ (∀ c ∈ cs, c.isValidChar) ∧
    machine cs =
      if lastParen cs = some rparen ∨ behindParen cs = [] then
        (search (displayOn isWord) none display).getD (hostText (some owner))
      else machine (behindParen cs)

/-! ## Where the pattern finds the label -/

variable {label before tail age s : List ℕ} {prev : Option ℕ}

/-- No character that the pattern for the age leaves out. -/
def Plain (age : List ℕ) : Prop := ∀ c ∈ age, c ≠ lparen ∧ c ≠ rparen ∧ c ≠ comma

instance (age : List ℕ) : Decidable (Plain age) :=
  inferInstanceAs (Decidable (∀ c ∈ age, c ≠ lparen ∧ c ≠ rparen ∧ c ≠ comma))

def parens (s : List ℕ) : List ℕ := s.filter isParen

@[simp] theorem parens_append (s t : List ℕ) : parens (s ++ t) = parens s ++ parens t :=
  List.filter_append s t

@[simp] theorem parens_lparen (s : List ℕ) : parens (lparen :: s) = lparen :: parens s := rfl

@[simp] theorem parens_rparen (s : List ℕ) : parens (rparen :: s) = rparen :: parens s := rfl

@[simp] theorem parens_comma (s : List ℕ) : parens (comma :: s) = parens s := rfl

@[simp] theorem parens_blank (s : List ℕ) : parens (blank :: s) = parens s := rfl

theorem parens_eq_nil (h : ∀ c ∈ s, isParen c = false) : parens s = [] :=
  List.filter_eq_nil_iff.mpr fun c hc => by simp [h c hc]

theorem Plain.isParen (h : Plain age) : ∀ c ∈ age, isParen c = false := by
  intro c hc
  obtain ⟨hl, hr, -⟩ := h c hc
  simp [Render.isParen, hl, hr]

theorem isParen_of_isSpace {c : ℕ} (h : isSpace c = true) : isParen c = false := by
  by_contra hp
  rw [Bool.not_eq_false, isParen, Bool.or_eq_true, decide_eq_true_eq, decide_eq_true_eq] at hp
  rcases hp with rfl | rfl <;> exact absurd h (by decide)

theorem of_mem_displayLabel {group : List ℕ} (h : group ∈ displayLabel prev s) :
    parens s = [lparen, rparen] ∧ s.head? = some lparen := by
  cases s with
  | nil => cases h
  | cons c s =>
    rw [displayLabel] at h
    split at h
    next hc =>
      subst hc
      obtain ⟨x, hx, h⟩ := List.mem_flatMap.mp h
      split at h
      next hsep =>
        obtain ⟨y, hy, h⟩ := List.mem_flatMap.mp h
        split at h
        next hclose =>
          obtain ⟨z, hz, h⟩ := List.mem_flatMap.mp h
          obtain ⟨hs, hgroup⟩ := of_mem_splits hx
          obtain ⟨hrest, hage⟩ := of_mem_splits hy
          obtain ⟨hend, hblank⟩ := of_mem_splits hz
          have hafter : parens z.2 = [] := by
            split at h
            next hz => rcases hz with hz | hz <;> rw [hz] <;> rfl
            next => cases h
          have hcall : parens y.2 = [rparen] := by
            obtain ⟨more, hmore⟩ := List.head?_eq_some_iff.mp hclose
            rw [hmore, List.tail_cons] at hend
            rw [hmore, hend, ← List.singleton_append, parens_append, parens_append, hafter,
              parens_eq_nil fun c hc => isParen_of_isSpace (hblank c hc)]
            rfl
          have hrun : parens x.1 = [] := parens_eq_nil fun c hc => by simpa using hgroup c hc
          have hage : parens y.1 = [] := parens_eq_nil fun c hc => by
            have := hage c hc
            rw [Bool.and_eq_true] at this
            simpa using this.1
          obtain ⟨more, hmore⟩ := hsep
          have hmid : more = y.1 ++ y.2 := by
            rw [← hmore] at hrest
            exact hrest
          refine ⟨?_, rfl⟩
          rw [hs, ← hmore, hmid, ← List.singleton_append, parens_append, parens_append,
            parens_append, parens_append, hrun, hage, hcall]
          rfl
        next => cases h
      next => cases h
    next => cases h

/-- The pattern matches at the parenthesis before a text without parentheses and an age. -/
theorem head_displayLabel (htail : ∀ c ∈ tail, isParen c = false) (hage : Plain age) :
    (displayLabel prev (lparen :: (tail ++ comma :: blank :: (age ++ [rparen])))).head? =
      some tail := by
  rw [displayLabel, if_pos rfl]
  refine head_flatMap_splits (fun c hc => by simp [htail c hc]) ?_ ?_
  · -- a longer run leaves no comma behind it
    intro x hx hne
    obtain ⟨hs, -⟩ := of_mem_splits hx
    obtain ⟨c, run, hrun⟩ := List.exists_cons_of_ne_nil hne
    rw [hrun, List.cons_append] at hs
    have hnone : comma ∉ x.2 := by
      intro hmem
      have hin : comma ∈ blank :: (age ++ [rparen]) := by
        rw [(List.cons.inj hs).2]
        exact List.mem_append_right _ hmem
      rcases List.mem_cons.mp hin with hin | hin
      · cases hin
      rcases List.mem_append.mp hin with hin | hin
      · exact (hage comma hin).2.2 rfl
      · cases List.mem_singleton.mp hin
    refine if_neg ?_
    rintro ⟨more, hmore⟩
    exact hnone (hmore ▸ List.mem_cons_self)
  · have hsep : [comma, blank] <+: comma :: blank :: (age ++ [rparen]) := List.prefix_append _ _
    dsimp only
    rw [if_pos hsep, List.drop_succ_cons, List.drop_succ_cons, List.drop_zero]
    refine head_flatMap_splits ?_ ?_ ?_
    · intro c hc
      obtain ⟨hl, hr, hcomma⟩ := hage c hc
      simp [isParen, hl, hr, hcomma]
    · intro x hx hne
      simp [splits, isParen] at hx
      exact absurd (congrArg Prod.fst hx) hne
    · simp [splits]

theorem parens_tail (htail : ∀ c ∈ tail, isParen c = false) (hage : Plain age) :
    parens (tail ++ comma :: blank :: (age ++ [rparen])) = [rparen] := by
  rw [parens_append, parens_eq_nil htail, parens_comma, parens_blank, parens_append,
    parens_eq_nil hage.isParen]
  rfl

/-- A label whose last parenthesis opens is found from there on. -/
theorem search_displayLabel_of_open (before : List ℕ) (htail : ∀ c ∈ tail, isParen c = false)
    (hage : Plain age) :
    search displayLabel none
      (before ++ lparen :: (tail ++ comma :: blank :: (age ++ [rparen]))) = some tail := by
  refine search_append ?_ fun prev => head_displayLabel htail hage
  intro prev t _ hne
  rw [List.eq_nil_iff_forall_not_mem]
  intro group hgroup
  obtain ⟨hparens, hhead⟩ := of_mem_displayLabel hgroup
  -- the place has an opening parenthesis of its own before this one
  obtain ⟨c, t, rfl⟩ := List.exists_cons_of_ne_nil hne
  obtain rfl : c = lparen := Option.some.inj hhead
  have hlen := congrArg List.length hparens
  rw [List.cons_append, parens_lparen, parens_append, parens_lparen, parens_tail htail hage] at hlen
  simp at hlen

theorem search_displayLabel_of_close (before : List ℕ) (htail : ∀ c ∈ tail, isParen c = false)
    (hage : Plain age) :
    search displayLabel none
      (before ++ rparen :: (tail ++ comma :: blank :: (age ++ [rparen]))) = none := by
  refine search_eq_none fun prev t ht => ?_
  rw [List.eq_nil_iff_forall_not_mem]
  intro group hgroup
  obtain ⟨hparens, -⟩ := of_mem_displayLabel hgroup
  have hsuffix : [lparen, rparen] <:+ parens before ++ [rparen, rparen] := by
    have hs := ht.filter isParen
    rw [parens] at hparens
    rw [hparens] at hs
    rwa [← parens, parens_append, parens_rparen, parens_tail htail hage] at hs
  obtain ⟨front, hfront⟩ := hsuffix
  have hlast := (List.append_inj' hfront rfl).2
  cases hlast

/-! ## The text of the age -/

theorem plain_age (n : ℕ) {unit : String} (hu : Plain (codes unit)) :
    Plain (codes (toString n ++ unit)) := by
  intro c hc
  rw [codes, String.toList_append, List.map_append] at hc
  rcases List.mem_append.mp hc with hc | hc
  · obtain ⟨d, hd, rfl⟩ := List.mem_map.mp hc
    have hdigit : d.isDigit = true := by
      refine Nat.isDigit_of_mem_toDigits (b := 10) (n := n) (by decide) (by decide) ?_
      simpa using hd
    have hge : 48 ≤ d.toNat := by
      rw [Char.isDigit, Bool.and_eq_true] at hdigit
      exact UInt32.le_iff_toNat_le.mp (of_decide_eq_true hdigit.1)
    simp only [lparen, rparen, comma]
    omega
  · exact hu c hc

theorem plain_formatAge (seconds : ℚ) : Plain (formatAge seconds) := by
  unfold formatAge
  dsimp only
  split
  · exact plain_age _ (by decide +kernel)
  · split
    · exact plain_age _ (by decide +kernel)
    · exact plain_age _ (by decide +kernel)

/-! ## The text that is stored -/

theorem toNat_ofNat_of_valid {c : ℕ} (h : c.isValidChar) : (Char.ofNat c).toNat = c := by
  rw [Char.ofNat, dif_pos h]
  rfl

theorem codes_of_sqlText {display : List ℕ} {stored : String} (h : sqlText display = some stored) :
    codes stored = display := by
  rw [sqlText, Option.ite_none_right_eq_some, Option.some.injEq] at h
  obtain ⟨hvalid, rfl⟩ := h
  rw [codes, String.toList_ofList, List.map_map]
  exact (List.map_congr_left fun c hc => toNat_ofNat_of_valid (hvalid c hc)).trans (List.map_id' _)

theorem valid_codes (s : String) : ∀ c ∈ codes s, c.isValidChar := by
  intro c hc
  obtain ⟨d, -, rfl⟩ := List.mem_map.mp hc
  exact d.valid

theorem valid_formatAge (seconds : ℚ) : ∀ c ∈ formatAge seconds, c.isValidChar := by
  unfold formatAge
  dsimp only
  split
  · exact valid_codes _
  · split <;> exact valid_codes _

/-! ## The two cells -/

section Cells

variable {isWord : ℕ → Bool} {text : Json → String} {own peer r : DeviceRecord} {st s' : Store}
  {now : ℕ} {owner uid kind stored : String} {holder : HolderRef} {held : Json} {since at' : ℚ}
  {display base cs : List ℕ}

theorem lockCell_own (hown : own.host = none) (hkind : kind ≠ "") (hheld : held.truthy = true) :
    lockCell isWord (deviceDict own (some (kind, held))) = (codesOf held).map machine := by
  simp [lockCell, isLocked, deviceDict, hown, hkind, hheld]

theorem lockCell_peer (hhost : peer.host = some owner) (hkind : kind ≠ "") :
    lockCell isWord (deviceDict (peer.withRemoteLock (some kind) (some stored)) none) =
      match search displayLabel none (codes stored) with
      | some (c :: label) => some (machine (c :: label))
      | _ =>
        some ((search (displayOn isWord) none (codes stored)).getD (hostText (some owner))) := by
  have hfields : deviceDict (peer.withRemoteLock (some kind) (some stored)) none =
      ⟨some owner, none, .null, some kind, some stored⟩ := by
    simp [deviceDict, DeviceRecord.withRemoteLock, hhost]
  rw [hfields]
  simp [lockCell, isLocked, hkind]

theorem applyLockEvent_eq_some_iff (hget : st.get uid = some peer)
    (hhost : peer.host = some owner) : applyLockEvent st now owner uid kind display = some s' ↔
      ∃ stored, sqlText display = some stored ∧
        st.writeRow (peer.withRemoteLock (some kind) (some stored)) = s' := by
  have happly : ∀ stored, Peering.applyEvent st now owner { Peering.Event.ofType .lockState with
      uid := some uid, kind := some kind, display := some stored } =
      .ok (st.writeRow (peer.withRemoteLock (some kind) (some stored))) := by
    intro stored
    have hattr : Peering.attributedTo st (some uid) owner = true := by
      rw [Peering.attributedTo_some_iff]
      intro q hq
      rw [hget] at hq
      cases hq
      exact hhost
    simp [Peering.applyEvent, Peering.applyEventBody, Peering.Event.ofType, hattr, Peering.onUid,
      Store.applyRemoteLockState, Store.modifyRow, hget]
  rw [applyLockEvent, Option.bind_eq_some_iff]
  simp only [happly]
  constructor
  · rintro ⟨stored, hs, h⟩
    exact ⟨stored, hs, Option.some.inj h⟩
  · rintro ⟨stored, hs, rfl⟩
    exact ⟨stored, hs, rfl⟩

theorem isParen_behindParen (cs : List ℕ) : ∀ c ∈ behindParen cs, isParen c = false := by
  intro c hc
  simpa using List.mem_rtakeWhile_imp hc

/-- A label has no parenthesis, or one that the text behind the last one follows. -/
theorem split_label (cs : List ℕ) :
    (lastParen cs = none ∧ behindParen cs = cs) ∨
      ∃ before c, lastParen cs = some c ∧ isParen c = true ∧
        cs = before ++ c :: behindParen cs := by
  have happend : (cs.rdropWhile fun c => !isParen c) ++ behindParen cs = cs :=
    List.rdropWhile_append_rtakeWhile
  by_cases hnil : (cs.rdropWhile fun c => !isParen c) = []
  · refine .inl ⟨by rw [lastParen, hnil, List.getLast?_nil], ?_⟩
    rwa [hnil, List.nil_append] at happend
  · refine .inr ⟨(cs.rdropWhile fun c => !isParen c).dropLast, _,
      List.getLast?_eq_some_getLast hnil, ?_, ?_⟩
    · simpa using List.rdropWhile_last_not (fun c => !isParen c) cs hnil
    · rw [← List.singleton_append, ← List.append_assoc, List.dropLast_append_getLast, happend]

theorem search_displayLabel (base cs : List ℕ) (hage : Plain age) :
    search displayLabel none
        (base ++ blank :: lparen :: (cs ++ comma :: blank :: (age ++ [rparen]))) =
      if lastParen cs = some rparen then none else some (behindParen cs) := by
  have htail := isParen_behindParen cs
  rcases split_label cs with ⟨hlast, hall⟩ | ⟨before, c, hlast, hc, hcs⟩
  · have hopen := search_displayLabel_of_open (base ++ [blank]) htail hage
    rw [hlast, if_neg nofun, ← hopen, List.append_assoc, List.singleton_append, hall]
  · rw [isParen, Bool.or_eq_true, decide_eq_true_eq, decide_eq_true_eq] at hc
    rcases hc with rfl | rfl
    · have hopen :=
        search_displayLabel_of_open (base ++ blank :: lparen :: before) htail hage
      rw [hlast, if_neg nofun, ← hopen]
      conv_lhs => rw [hcs]
      simp
    · have hclose :=
        search_displayLabel_of_close (base ++ blank :: lparen :: before) htail hage
      rw [hlast, if_pos rfl, ← hclose]
      conv_lhs => rw [hcs]
      simp

/-- The text of a labelled lock. -/
def shown (base cs : List ℕ) (since at' : ℚ) : List ℕ :=
  base ++ blank :: lparen :: (cs ++ comma :: blank :: (formatAge (at' - since) ++ [rparen]))

theorem publishLockEvent_of_label (hv : isVirtualUid uid = false) (hheld : held.truthy = true)
    (hcs : codesOf held = some cs) :
    publishLockEvent text uid base held (some since) at' = some (shown base cs since at') := by
  simp [publishLockEvent, hv, formatLockSuffix, hheld, labelText, hcs, shown]

/-- The cell of another host that has stored the text of a labelled lock. -/
theorem lockCell_shown (hhost : peer.host = some owner) (hkind : kind ≠ "")
    (hstored : sqlText (shown base cs since at') = some stored) :
    lockCell isWord (deviceDict (peer.withRemoteLock (some kind) (some stored)) none) =
      some (if lastParen cs = some rparen ∨ behindParen cs = [] then
        (search (displayOn isWord) none (shown base cs since at')).getD (hostText (some owner))
      else machine (behindParen cs)) := by
  rw [lockCell_peer hhost hkind, codes_of_sqlText hstored]
  have hsearch := search_displayLabel base cs (plain_formatAge (at' - since))
  rw [← shown] at hsearch
  rw [hsearch]
  by_cases hlast : lastParen cs = some rparen
  · simp only [hlast, true_or, if_true]
  · simp only [hlast, false_or]
    cases behindParen cs with
    | nil => simp
    | cons c tail => simp

theorem valid_shown_iff (shownBy : String) :
    (∀ c ∈ shown (codes shownBy) cs since at', c.isValidChar) ↔ ∀ c ∈ cs, c.isValidChar := by
  constructor
  · intro h c hc
    refine h c ?_
    simp [shown, hc]
  · intro h c hc
    have hage := valid_formatAge (at' - since) c
    have hby := valid_codes shownBy c
    simp only [shown, List.mem_append, List.mem_cons, List.not_mem_nil, or_false] at hc
    rcases hc with hc | rfl | rfl | hc | rfl | rfl | hc | rfl
    · exact hby hc
    · decide
    · decide
    · exact h c hc
    · decide
    · decide
    · exact hage hc
    · decide

theorem showsSame_iff_of_codes (hv : isVirtualUid uid = false) (hown : own.host = none)
    (hget : st.get uid = some peer) (hhost : peer.host = some owner) (hkind : kind ≠ "")
    (hheld : held.truthy = true) (hcs : codesOf held = some cs) :
    ShowsSame isWord text own st now owner uid kind holder held since at' ↔
      (∀ c ∈ cs, c.isValidChar) ∧ machine cs =
        if lastParen cs = some rparen ∨ behindParen cs = [] then
          (search (displayOn isWord) none (shown (codes holder.describe) cs since at')).getD
            (hostText (some owner))
        else machine (behindParen cs) := by
  have hrow : ∀ stored, (st.writeRow (peer.withRemoteLock (some kind) (some stored))).get uid =
      some (peer.withRemoteLock (some kind) (some stored)) :=
    fun stored => Store.get_writeRow_self
      ((peer.withRemoteLock_uid _ _).trans (Store.uid_of_get hget))
  rw [ShowsSame, publishLockEvent_of_label hv hheld hcs, lockCell_own hown hkind hheld, hcs]
  constructor
  · rintro ⟨display, s', r, cell, hdisplay, happly, hr, hpeer, howner⟩
    obtain rfl := Option.some.inj hdisplay
    obtain ⟨stored, hstored, rfl⟩ := (applyLockEvent_eq_some_iff hget hhost).mp happly
    rw [hrow, Option.some.injEq] at hr
    subst hr
    rw [lockCell_shown hhost hkind hstored, ← howner] at hpeer
    rw [sqlText, Option.ite_none_right_eq_some, valid_shown_iff] at hstored
    exact ⟨hstored.1, (Option.some.inj hpeer).symm⟩
  · rintro ⟨hvalid, hcell⟩
    have hstored : sqlText (shown (codes holder.describe) cs since at') = some _ :=
      if_pos ((valid_shown_iff _).mpr hvalid)
    refine ⟨_, _, _, _, rfl, (applyLockEvent_eq_some_iff hget hhost).mpr ⟨_, hstored, rfl⟩, hrow _,
      lockCell_shown hhost hkind hstored, ?_⟩
    rw [Option.map_some, hcell]

end Cells

theorem ne_of_lockRequest {req held : Json} {kind : String}
    (h : lockRequest req = some (kind, held)) : kind ≠ "" := by
  rintro rfl
  rw [lockRequest, Option.ite_none_right_eq_some] at h
  obtain ⟨-, h⟩ := h
  split at h
  next kind _ =>
    obtain ⟨k, hk, hkind⟩ := Option.map_eq_some_iff.mp h
    obtain rfl : kind = "" := congrArg Prod.fst hkind
    cases hk
  next => cases h

/-- The other host's cell for a labelled lock shows the owner's text just if the label
survives in the text of the lock. -/
theorem label_shown_iff (isWord : ℕ → Bool) (text : Json → String) {req label : Json}
    {kind : String} (hreq : lockRequest req = some (kind, label)) (hlabel : label.truthy = true)
    (holder : HolderRef) (since at' : ℚ) {uid owner : String} {own peer : DeviceRecord} {s : Store}
    (hv : isVirtualUid uid = false) (hown : own.host = none) (hget : s.get uid = some peer)
    (hhost : peer.host = some owner) (now : ℕ) :
    ShowsSame isWord text own s now owner uid kind holder label since at' ↔
      Survives isWord owner
        (codes holder.describe ++ formatLockSuffix text label (some since) at') label := by
  cases hcs : codesOf label with
  | none =>
    have hcell : lockCell isWord (deviceDict own (some (kind, label))) = none := by
      rw [lockCell_own hown (ne_of_lockRequest hreq) hlabel, hcs, Option.map_none]
    constructor
    · rintro ⟨_, _, _, _, -, -, -, -, h⟩
      rw [hcell] at h
      cases h
    · rintro ⟨cs, h, -⟩
      rw [hcs] at h
      cases h
  | some cs =>
    have hshown : codes holder.describe ++ formatLockSuffix text label (some since) at' =
        shown (codes holder.describe) cs since at' := by
      simp [formatLockSuffix, hlabel, labelText, hcs, shown]
    rw [showsSame_iff_of_codes hv hown hget hhost (ne_of_lockRequest hreq) hlabel hcs, hshown,
      Survives, hcs]
    simp only [Option.some.injEq, exists_eq_left']

/-! ## Two labels -/

/-- `\w` for the ASCII characters. -/
def asciiWord (c : ℕ) : Bool :=
  (48 ≤ c && c ≤ 57) || (65 ≤ c && c ≤ 90) || c = 95 || (97 ≤ c && c ≤ 122)

def lockOf (label : Json) : Json :=
  .obj [("op", .str "lock"), ("uid", .str "9900a"), ("kind", .str "serial"), ("label", label)]

/-- A registry that knows the board of another host. -/
def knows : Store :=
  Store.empty.upsertRemoteAttached 3 "9900a" "vidar" (some "/dev/ttyACM4") (some "0d28:0204")

theorem knows_get : knows.get "9900a" =
    some (.new 3 "9900a" (some "vidar") (some "/dev/ttyACM4") (some "0d28:0204")) := rfl

def onVidar : DeviceRecord :=
  .new 3 "9900a" none (some "/dev/ttyACM4") (some "0d28:0204")

def client : HolderRef := ⟨.local, "4821", some 4821, none⟩

theorem label_shown_iff_plain :
    ShowsSame asciiWord (fun _ => "") onVidar knows 4 "vidar" "9900a" "serial" client
      (.str "gala / robot-console") 100 103 := by
  have hreq : lockRequest (lockOf (.str "gala / robot-console")) =
      some ("serial", .str "gala / robot-console") := by rfl
  refine (label_shown_iff asciiWord (fun _ => "") hreq (by decide) client 100 103 (by decide) rfl
    knows_get rfl 4).mpr ?_
  exact ⟨codes "gala / robot-console", rfl, valid_codes _, by decide +kernel⟩

/-- A machine with a parenthesis in its name. -/
theorem label_with_parens_lost :
    lockRequest (lockOf (.str "gala (lab) / robot-console")) =
        some ("serial", .str "gala (lab) / robot-console") ∧
      (Json.str "gala (lab) / robot-console").truthy = true ∧
      ¬ ShowsSame asciiWord (fun _ => "") onVidar knows 4 "vidar" "9900a" "serial" client
        (.str "gala (lab) / robot-console") 100 103 := by
  refine ⟨rfl, by decide, ?_⟩
  rw [showsSame_iff_of_codes (by decide) rfl knows_get rfl (by decide) (by decide) rfl]
  rintro ⟨-, hcell⟩
  exact absurd hcell (by decide +kernel)

end MbTools.Render
