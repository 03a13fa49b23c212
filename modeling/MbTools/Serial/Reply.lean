import Mathlib.Data.List.Chain
import MbTools.Lib.Readline
import MbTools.Lib.Text
import MbTools.Lib.Utf8

/-! # The lines of a reply

`serial.connect.send_command` writes its message and then takes each return of `readline`
for a line, until the board has been quiet for the idle gap. A `readline` that gives up on
its timeout returns what it has of a line. The lines of the reply are those of the stream
exactly if each such return has all of its line, save for carriage returns.
-/

namespace MbTools.Serial

open Lines Text Utf8 Readline

def isEol (c : Char) : Bool := c = '\r' || c = '\n'

def isEolByte (b : UInt8) : Bool := b = 13 || b = newline

/-- `raw.decode("utf-8", "replace").rstrip("\r\n")`. -/
def lineText (raw : List UInt8) : Str := (decode replace raw).rdropWhile isEol

/-- The loop of `send_command`; `none` if it needs more turns than `turns`. -/
def replyLoop (ser : Reader) (deadline idleGap : ℕ) :
    ℕ → List Str → ℕ → ℕ → Arrivals → Option (List Str)
  | 0, _, _, _, _ => none
  | turns + 1, lines, quietAfter, now, as =>
    if deadline ≤ now ∨ lines ≠ [] ∧ quietAfter ≤ now then some lines
    else
      let raw := ser.read now as
      if raw.bytes = [] then replyLoop ser deadline idleGap turns lines quietAfter raw.now raw.rest
      else
        let text := lineText raw.bytes
        replyLoop ser deadline idleGap turns (if text = [] then lines else lines ++ [text])
          (raw.now + idleGap) raw.now raw.rest

/-- `send_command`, from when the message is written at `start`. -/
def sendCommand (ser : Reader) (start timeout idleGap : ℕ) (as : Arrivals) : Option (List Str) :=
  let deadline := start + timeout
  replyLoop ser deadline idleGap (callsUntil deadline start as + 1) [] deadline start as

/-- What is read through: the port itself, whose `readline` reads byte by byte, or a
`RemoteSession`, which waits for a whole line and sees the stream end. -/
inductive Transport where
  | port (readTimeout : ℕ)
  | remoteSession (readTimeout : ℕ) (eof : Option ℕ)

def Transport.readline : Transport → Reader
  | .port readTimeout => .eachByte readTimeout
  | .remoteSession readTimeout eof => .eachLine readTimeout eof

/-- The texts of these lines that are not empty. -/
def shown (ls : List (List UInt8)) : List Str := (ls.map lineText).filter (· ≠ [])

/-- The lines of a whole stream. -/
def replyLines (bs : List UInt8) : List Str := shown (bs.splitOn newline)

/-! ### The text of a line -/

theorem isEol_ofNat {b : UInt8} (h : isEolByte b = true) :
    b.toNat < 128 ∧ isEol (Char.ofNat b.toNat) = true := by
  rw [isEolByte, Bool.or_eq_true, decide_eq_true_eq, decide_eq_true_eq] at h
  rcases h with rfl | rfl <;> decide

theorem isEolByte_of_toNat {b : UInt8} {c : Char} (hc : isEol c = true) (h : b.toNat = c.toNat) :
    isEolByte b = true := by
  rw [isEol, Bool.or_eq_true, decide_eq_true_eq, decide_eq_true_eq] at hc
  rw [isEolByte, Bool.or_eq_true, decide_eq_true_eq, decide_eq_true_eq]
  rcases hc with rfl | rfl
  · exact .inl (UInt8.toNat_inj.mp h)
  · exact .inr (UInt8.toNat_inj.mp h)

variable {x w : List UInt8}

theorem lineText_append_eol (h : w.all isEolByte = true) : lineText (x ++ w) = lineText x := by
  rw [List.all_eq_true] at h
  rw [lineText, decode_append_of_ascii _ fun b hb => (isEol_ofNat (h b hb)).1, lineText]
  refine rdropWhile_append_all ?_
  rintro c hc
  obtain ⟨b, hb, rfl⟩ := List.mem_map.mp hc
  exact (isEol_ofNat (h b hb)).2

theorem lineText_eq_nil_of_eol (h : w.all isEolByte = true) : lineText w = [] :=
  lineText_append_eol (x := []) h

theorem lineText_eol_append (h : x.all isEolByte = true) (hw : lineText w ≠ []) :
    lineText (x ++ w) = x.map (fun b => Char.ofNat b.toNat) ++ lineText w := by
  rw [List.all_eq_true] at h
  rw [lineText, decode_of_ascii_append _ fun b hb => (isEol_ofNat (h b hb)).1]
  exact rdropWhile_append_of_ne_nil hw

theorem decode_no_eol {c : Char} (hx : ∀ b ∈ x, isEolByte b = false)
    (hc : c ∈ decode replace x) : isEol c = false := by
  by_contra hne
  rw [Bool.not_eq_false] at hne
  have hlt : c.toNat < 128 ∧ c.toNat ≠ 0 := by
    rw [isEol, Bool.or_eq_true, decide_eq_true_eq, decide_eq_true_eq] at hne
    rcases hne with rfl | rfl <;> decide
  have hreplace : ∀ c ∈ replace, 128 ≤ c.toNat := by
    rw [replace, List.forall_mem_singleton]
    decide
  obtain ⟨b, hb, he⟩ := mem_decode hreplace hc hlt.1 hlt.2
  exact Bool.noConfusion ((isEolByte_of_toNat hne he).symm.trans (hx b hb))

theorem all_eol_of_decode (h : ∀ c ∈ decode replace x, isEol c = true) :
    x.all isEolByte = true := by
  induction x with
  | nil => rfl
  | cons b x ih =>
    by_cases hb : isEolByte b = true
    · have hdec := @decode_append_ascii replace b x [] (isEol_ofNat hb).1
      rw [List.nil_append] at hdec
      rw [List.all_cons, hb, Bool.true_and]
      exact ih fun c hc => h c (by rw [hdec]; exact List.mem_cons_of_mem _ hc)
    · -- the bytes up to the next line end have a text without line ends
      exfalso
      have hsub : ∀ c ∈ decode replace ((b :: x).takeWhile fun b => !isEolByte b),
          c ∈ decode replace (b :: x) := by
        intro c hc
        rw [← List.takeWhile_append_dropWhile (p := fun b => !isEolByte b) (l := b :: x)]
        cases hrest : (b :: x).dropWhile fun b => !isEolByte b with
        | nil => rwa [List.append_nil]
        | cons e rest =>
          have he : isEolByte e = true := by
            have := List.head?_dropWhile_not (fun b => !isEolByte b) (b :: x)
            rw [hrest] at this
            simpa using this
          rw [decode_append_ascii _ (isEol_ofNat he).1]
          exact List.mem_append_left _ hc
      have hne : (b :: x).takeWhile (fun b => !isEolByte b) ≠ [] := by
        rw [List.takeWhile_cons, if_pos (by simp [hb])]
        exact List.cons_ne_nil _ _
      have hreplace : replace ≠ [] := List.cons_ne_nil _ _
      obtain ⟨c, hc⟩ := List.exists_mem_of_ne_nil _ (decode_ne_nil hreplace hne)
      have hno := decode_no_eol (fun b hb => by simpa using List.mem_takeWhile_imp hb) hc
      exact Bool.noConfusion ((h c (hsub c hc)).symm.trans hno)

theorem lineText_eq_nil_iff : lineText x = [] ↔ x.all isEolByte = true := by
  refine ⟨fun h => ?_, lineText_eq_nil_of_eol⟩
  rw [lineText, List.rdropWhile_eq_nil_iff] at h
  exact all_eol_of_decode h

/-! ### Reads and lines -/

/-- What comes of the line before its newline. -/
def restOfLine (bs : List UInt8) : List UInt8 := bs.takeWhile (· ≠ newline)

/-- No read gives up inside a line, save before carriage returns only. -/
def Unbroken : List (List UInt8) → Prop
  | [] => True
  | raw :: later =>
    (newline ∈ raw ∨ (restOfLine later.flatten).all isEolByte = true) ∧ Unbroken later

instance Unbroken.decidable : (raws : List (List UInt8)) → Decidable (Unbroken raws)
  | [] => isTrue trivial
  | _ :: later => @instDecidableAnd _ _ inferInstance (Unbroken.decidable later)

theorem shown_cons (l : List UInt8) (ls : List (List UInt8)) :
    shown (l :: ls) = shown [l] ++ shown ls := by
  rw [shown, shown, shown, ← List.filter_append, ← List.map_append]
  rfl

theorem shown_of_eol {l : List UInt8} (h : l.all isEolByte = true) : shown [l] = [] := by
  simp [shown, lineText_eq_nil_of_eol h]

theorem shown_of_text {l : List UInt8} (h : ¬ l.all isEolByte = true) :
    shown [l] = [lineText l] := by
  have htext : lineText l ≠ [] := fun ht => h (lineText_eq_nil_iff.mp ht)
  simp [shown, htext]

theorem shown_append_eol {l : List UInt8} (h : w.all isEolByte = true) :
    shown [l ++ w] = shown [l] := by
  simp [shown, lineText_append_eol h]

theorem length_shown_append (l : List UInt8) :
    (shown [l ++ w]).length ≤ (shown [l]).length + (shown [w]).length := by
  by_cases hw : w.all isEolByte = true
  · rw [shown_append_eol hw]
    exact Nat.le_add_right _ _
  · rw [shown_of_text hw, shown_of_text (by simp_all)]
    exact Nat.le_add_left _ _

theorem shown_append_inj {p l : List UInt8} {ts us : List Str} (hp : p.all isEolByte = true) :
    shown [l] ++ ts = shown [p ++ l] ++ us ↔ (p = [] ∨ l.all isEolByte = true) ∧ ts = us := by
  by_cases hl : l.all isEolByte = true
  · have hpl : (p ++ l).all isEolByte = true := by rw [List.all_append, hp, hl]; rfl
    rw [shown_of_eol hl, shown_of_eol hpl]
    simp [hl]
  · have hpl : ¬ (p ++ l).all isEolByte = true := by
      rw [List.all_append, hp]
      exact hl
    have htext := lineText_eol_append hp fun ht => hl (lineText_eq_nil_iff.mp ht)
    rw [shown_of_text hl, shown_of_text hpl, htext, List.singleton_append, List.singleton_append,
      List.cons.injEq, List.self_eq_append_left, List.map_eq_nil_iff]
    simp [hl]

theorem replyLines_of_not_mem {l : List UInt8} (h : newline ∉ l) : replyLines l = shown [l] := by
  rw [replyLines, List.splitOn_eq_singleton h]

theorem replyLines_line {l : List UInt8} (h : newline ∉ l) (bs : List UInt8) :
    replyLines (l ++ newline :: bs) = shown [l] ++ replyLines bs := by
  rw [replyLines, List.splitOn_append_cons_self_of_not_mem h, shown_cons]
  rfl

theorem restOfLine_line {l : List UInt8} (h : newline ∉ l) (bs : List UInt8) :
    restOfLine (l ++ newline :: bs) = l := by
  rw [restOfLine, List.takeWhile_append_of_pos]
  · simp
  · intro b hb
    simpa using fun hn : b = newline => h (hn ▸ hb)

theorem restOfLine_append {r : List UInt8} (h : newline ∉ r) (bs : List UInt8) :
    restOfLine (r ++ bs) = r ++ restOfLine bs := by
  rw [restOfLine, List.takeWhile_append_of_pos]
  · rfl
  · intro b hb
    simpa using fun hn : b = newline => h (hn ▸ hb)

theorem replyLines_first (bs : List UInt8) : ∃ more,
    ∀ r, newline ∉ r → replyLines (r ++ bs) = shown [r ++ restOfLine bs] ++ more := by
  cases h : splitLine bs with
  | none =>
    rw [splitLine_eq_none_iff] at h
    refine ⟨[], fun r hr => ?_⟩
    have hrest : restOfLine bs = bs := by
      have := restOfLine_append h []
      rwa [List.append_nil, show restOfLine [] = [] from rfl, List.append_nil] at this
    rw [hrest, replyLines_of_not_mem (by simp [hr, h]), List.append_nil]
  | some s =>
    obtain ⟨line, rest⟩ := s
    obtain ⟨rfl, hline⟩ := splitLine_eq_some_iff.mp h
    refine ⟨replyLines rest, fun r hr => ?_⟩
    rw [restOfLine_line hline, ← List.append_assoc, replyLines_line (by simp [hr, hline])]

theorem eq_line_of_mem {r : List UInt8} (hlast : newline ∉ r.dropLast) (h : newline ∈ r) :
    ∃ l, newline ∉ l ∧ r = l ++ [newline] := by
  have hne : r ≠ [] := List.ne_nil_of_mem h
  rw [← List.dropLast_append_getLast hne, List.mem_append, List.mem_singleton] at h
  have hget := h.resolve_left hlast
  exact ⟨r.dropLast, hlast, by conv_lhs => rw [← List.dropLast_append_getLast hne, ← hget]⟩

theorem length_replyLines_le {raws : List (List UInt8)}
    (h : ∀ raw ∈ raws, newline ∉ raw.dropLast) :
    (replyLines raws.flatten).length ≤ (shown raws).length := by
  induction raws with
  | nil => exact Nat.le_refl _
  | cons r raws ih =>
    rw [List.forall_mem_cons] at h
    have hih := ih h.2
    rw [List.flatten_cons, shown_cons, List.length_append]
    by_cases hr : newline ∈ r
    · obtain ⟨l, hl, rfl⟩ := eq_line_of_mem h.1 hr
      have hn : [newline].all isEolByte = true := rfl
      rw [List.append_assoc, List.singleton_append, replyLines_line hl, List.length_append,
        shown_append_eol hn]
      omega
    · obtain ⟨more, hmore⟩ := replyLines_first raws.flatten
      have hrest := hmore [] List.not_mem_nil
      have hlen := length_shown_append (w := restOfLine raws.flatten) r
      rw [List.nil_append, List.nil_append] at hrest
      rw [hrest, List.length_append] at hih
      rw [hmore r hr, List.length_append]
      omega

/-- The texts of the reads are the texts of the lines if and only if no read gives up inside
a line. The induction carries the carriage returns `p` that a read before took. -/
theorem shown_eq_iff {raws : List (List UInt8)} {p : List UInt8} (hp : p.all isEolByte = true)
    (hn : newline ∉ p) (h : ∀ raw ∈ raws, raw ≠ [] ∧ newline ∉ raw.dropLast) :
    shown raws = replyLines (p ++ raws.flatten) ↔
      Unbroken raws ∧ (p = [] ∨ (restOfLine raws.flatten).all isEolByte = true) := by
  induction raws generalizing p with
  | nil =>
    rw [List.flatten_nil, List.append_nil, replyLines_of_not_mem hn, shown_of_eol hp]
    exact iff_of_true rfl ⟨trivial, .inr rfl⟩
  | cons r raws ih =>
    rw [List.forall_mem_cons] at h
    obtain ⟨⟨hne, hlast⟩, h⟩ := h
    have hwhole : shown raws = replyLines raws.flatten ↔ Unbroken raws := by
      have := ih rfl List.not_mem_nil h
      rwa [List.nil_append, eq_self, true_or, and_true] at this
    rw [List.flatten_cons, shown_cons, ← List.append_assoc, Unbroken]
    by_cases hr : newline ∈ r
    · obtain ⟨l, hl, rfl⟩ := eq_line_of_mem hlast hr
      have heol : [newline].all isEolByte = true := rfl
      rw [shown_append_eol heol, List.append_assoc, List.append_assoc, List.singleton_append,
        restOfLine_line hl, ← List.append_assoc, replyLines_line (by simp [hn, hl]),
        shown_append_inj hp, hwhole]
      simp [hr, and_comm]
    · obtain ⟨more, hmore⟩ := replyLines_first raws.flatten
      have hrest := hmore [] List.not_mem_nil
      have hpr : newline ∉ p ++ r := by simp [hn, hr]
      rw [List.nil_append, List.nil_append] at hrest
      rw [hmore _ hpr, restOfLine_append hr]
      by_cases hw : (restOfLine raws.flatten).all isEolByte = true
      · rw [shown_of_eol hw, List.nil_append] at hrest
        rw [shown_append_eol hw, shown_append_inj hp, ← hrest, hwhole, List.all_append, hw]
        simp [and_comm]
      · -- the line is broken: it has a text too many, or has lost its carriage returns
        refine iff_of_false (fun heq => ?_) fun hb => (hb.1.1.resolve_left hr |> hw).elim
        by_cases htext : r.all isEolByte = true
        · rw [shown_of_eol htext, List.nil_append, ← hmore _ hpr] at heq
          have hall : (p ++ r).all isEolByte = true := by rw [List.all_append, hp, htext]; rfl
          obtain ⟨-, hnil | hall⟩ := (ih hall hpr h).mp heq
          · exact hne (List.append_eq_nil_iff.mp hnil).2
          · exact hw hall
        · have hlen := length_replyLines_le fun raw hraw => (h raw hraw).2
          have hlong : ¬ (p ++ r ++ restOfLine raws.flatten).all isEolByte = true := by
            rw [List.all_append, List.all_append, hp, Bool.true_and, Bool.and_eq_true]
            exact fun hall => htext hall.1
          have hcount := congrArg List.length heq
          rw [hrest, shown_of_text hw, List.length_append] at hlen
          rw [shown_of_text htext, shown_of_text hlong, List.length_append,
            List.length_append] at hcount
          simp only [List.length_singleton] at hlen hcount
          omega

/-! ### The loop -/

/-- Each byte comes less than `idleGap` after the one before. -/
def Flowing (idleGap : ℕ) (as : Arrivals) : Prop := as.IsChain fun a b => b.1 < a.1 + idleGap

variable {deadline idleGap start timeout : ℕ} {as : Arrivals}

/-- While bytes flow the loop takes the text of each read until all bytes are read: what is
still to come is there before `quietAfter`. -/
theorem replyLoop_eq (ser : Reader) {turns now quietAfter : ℕ} {lines : List Str}
    (hturns : callsUntil deadline now as < turns) (hord : InOrder as)
    (hnow : ∀ a ∈ as, now ≤ a.1) (hdl : ∀ a ∈ as, a.1 < deadline) (hflow : Flowing idleGap as)
    (hquiet : lines ≠ [] → ∀ a ∈ as.head?, a.1 < quietAfter) :
    replyLoop ser deadline idleGap turns lines quietAfter now as =
      some (lines ++ shown (ser.readsFrom deadline turns now as)) := by
  induction turns generalizing now quietAfter lines as with
  | zero => cases hturns
  | succ turns ih =>
    rw [replyLoop]
    split
    next hstop =>
      have hnil : as = [] := by
        cases as with
        | nil => rfl
        | cons a as =>
          have := hnow a List.mem_cons_self
          have := hdl a List.mem_cons_self
          rcases hstop with hlate | ⟨hsome, hlate⟩
          · omega
          · have := hquiet hsome a rfl
            omega
      rw [hnil, ser.readsFrom_nil]
      exact congrArg some (List.append_nil lines).symm
    next hstop =>
      rw [not_or] at hstop
      have hcalls := ser.callsUntil_read as (Nat.lt_of_not_le hstop.1)
      have hprompt := ser.prompt now as hord hnow
      obtain ⟨got, has, hbytes, hgot⟩ := ser.taken now as
      have hsplit := List.isChain_append.mp (has ▸ hflow)
      rw [has] at hord hdl
      have hord' := (List.pairwise_append.mp hord).2.1
      have hdl' : ∀ a ∈ (ser.read now as).rest, a.1 < deadline :=
        fun a ha => hdl a (List.mem_append_right _ ha)
      rw [Reader.readsFrom, if_neg hstop.1]
      simp only
      split
      next hb =>
        have hgot : got = [] := by rwa [hbytes, List.map_eq_nil_iff] at hb
        rw [hgot, List.nil_append] at has
        refine ih (by omega) hord' hprompt hdl' hsplit.2.1 fun hsome => ?_
        rw [← has]
        exact hquiet hsome
      next hb =>
        have hnext : ∀ a ∈ (ser.read now as).rest.head?, a.1 < (ser.read now as).now + idleGap := by
          intro a ha
          have hne : got ≠ [] := fun hg => hb (by rw [hbytes, hg]; rfl)
          have hlast := hsplit.2.2 _ (List.getLast_mem_getLast? hne) a ha
          have := hgot _ (List.getLast_mem hne)
          omega
        rw [ih (by omega) hord' hprompt hdl' hsplit.2.1 fun _ => hnext, shown_cons]
        by_cases htext : lineText (ser.read now as).bytes = []
        · rw [if_pos htext, shown_of_eol (lineText_eq_nil_iff.mp htext), List.nil_append]
        · rw [if_neg htext, shown_of_text fun h => htext (lineText_eq_nil_iff.mpr h),
            List.append_assoc]

theorem sendCommand_eq (ser : Reader) (hord : InOrder as) (hstart : ∀ a ∈ as, start ≤ a.1)
    (hflow : Flowing idleGap as) (hdl : ∀ a ∈ as, a.1 < start + timeout) :
    sendCommand ser start timeout idleGap as =
      some (shown (ser.reads (start + timeout) start as)) :=
  replyLoop_eq ser (Nat.lt_succ_self _) hord hstart hdl hflow fun h => absurd rfl h

/-- The result is the lines of the stream if and only if no `readline` gives up inside a line
that has more to come than carriage returns. -/
theorem send_command_lines_iff (transport : Transport) (hord : InOrder as)
    (hstart : ∀ a ∈ as, start ≤ a.1) (hflow : Flowing idleGap as)
    (hdl : ∀ a ∈ as, a.1 < start + timeout) :
    sendCommand transport.readline start timeout idleGap as = some (replyLines as.bytes) ↔
      Unbroken (transport.readline.reads (start + timeout) start as) := by
  have hmem : ∀ raw ∈ transport.readline.reads (start + timeout) start as,
      raw ≠ [] ∧ newline ∉ raw.dropLast := fun raw => transport.readline.mem_reads
  have hreads := shown_eq_iff (p := []) rfl List.not_mem_nil hmem
  rw [List.nil_append, transport.readline.flatten_reads hord hstart hdl, eq_self, true_or,
    and_true] at hreads
  rw [sendCommand_eq _ hord hstart hflow hdl, Option.some.injEq, hreads]

instance (idleGap : ℕ) (as : Arrivals) : Decidable (Flowing idleGap as) :=
  inferInstanceAs (Decidable (as.IsChain _))

/-- `ok` comes as a whole after the message is written at 0. -/
def promptReply : Arrivals := [(3, 111), (4, 107), (4, newline)]

theorem send_command_lines_prompt :
    (InOrder promptReply ∧ (∀ a ∈ promptReply, 0 ≤ a.1) ∧ Flowing 4 promptReply ∧
      ∀ a ∈ promptReply, a.1 < 0 + 15) ∧
      (sendCommand (Transport.port 1).readline 0 15 4 promptReply =
          some (replyLines promptReply.bytes) ↔
        Unbroken ((Transport.port 1).readline.reads (0 + 15) 0 promptReply)) :=
  have hord : InOrder promptReply := by decide
  have hstart : ∀ a ∈ promptReply, 0 ≤ a.1 := fun _ _ => Nat.zero_le _
  have hflow : Flowing 4 promptReply := by decide
  have hdl : ∀ a ∈ promptReply, a.1 < 0 + 15 := by simp [promptReply]
  ⟨⟨hord, hstart, hflow, hdl⟩, send_command_lines_iff (.port 1) hord hstart hflow hdl⟩

/-- The two bytes of `ö` with a gap of two read timeouts, but less than the idle gap. -/
def slowReply : Arrivals := [(3, 0xC3), (5, 0xB6), (5, newline)]

/-- Both transports give two lines, of a broken character each. -/
theorem slow_line_split :
    (InOrder slowReply ∧ (∀ a ∈ slowReply, 0 ≤ a.1) ∧ Flowing 4 slowReply ∧
      ∀ a ∈ slowReply, a.1 < 0 + 15) ∧
      replyLines slowReply.bytes = [['ö']] ∧
      sendCommand (Transport.port 1).readline 0 15 4 slowReply =
        some [['\uFFFD'], ['\uFFFD']] ∧
      sendCommand (Transport.remoteSession 1 none).readline 0 15 4 slowReply =
        some [['\uFFFD'], ['\uFFFD']] := by
  refine ⟨⟨by decide, by simp, by decide, by simp [slowReply]⟩, ?_⟩
  decide +kernel

end MbTools.Serial
