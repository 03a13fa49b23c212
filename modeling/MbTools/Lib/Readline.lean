import Mathlib.Data.List.Chain
import Mathlib.Data.List.DropRight
import MbTools.Lib.Lines

/-! # Reading lines against the clock

Bytes are on their way, each with the time it is there. A reader gives a line when its
newline is there, and what it has of the line when it has waited long enough. Time passes
only while it waits.
-/

namespace MbTools.Readline

open Lines

abbrev Arrivals := List (ℕ × UInt8)

def Arrivals.bytes (as : Arrivals) : List UInt8 := as.map Prod.snd

/-- What a reader gives, when, and what is left to come. -/
structure Reading where
  bytes : List UInt8
  now : ℕ
  rest : Arrivals

def InOrder (as : Arrivals) : Prop := as.Pairwise fun a b => a.1 ≤ b.1

instance (as : Arrivals) : Decidable (InOrder as) :=
  inferInstanceAs (Decidable (as.Pairwise _))

structure Reader where
  read : ℕ → Arrivals → Reading
  taken : ∀ now as, ∃ got, as = got ++ (read now as).rest ∧
    (read now as).bytes = got.map Prod.snd ∧ ∀ a ∈ got, a.1 ≤ (read now as).now
  newline_last : ∀ now as, newline ∉ (read now as).bytes.dropLast
  later : ∀ now as, now ≤ (read now as).now
  ticks : ∀ now as, (read now as).bytes = [] → now < (read now as).now
  prompt : ∀ now as, InOrder as → (∀ a ∈ as, now ≤ a.1) →
    ∀ a ∈ (read now as).rest, (read now as).now ≤ a.1

/-- Take bytes as they come, up to a newline or until `limit`, which a byte may put off. -/
def takeLine (next : ℕ → ℕ → ℕ) : ℕ → ℕ → Arrivals → Reading
  | limit, _, [] => ⟨[], limit, []⟩
  | limit, now, (t, b) :: as =>
    if t ≤ limit then
      if b = newline then ⟨[b], max now t, as⟩
      else
        let rest := takeLine next (next limit (max now t)) (max now t) as
        ⟨b :: rest.bytes, rest.now, rest.rest⟩
    else ⟨[], limit, (t, b) :: as⟩

section
variable {next : ℕ → ℕ → ℕ} (hnext : ∀ limit t, t ≤ limit → t ≤ next limit t)
  {limit now : ℕ}
include hnext

theorem takeLine_later (as : Arrivals) (h : now ≤ limit) :
    now ≤ (takeLine next limit now as).now := by
  induction as generalizing limit now with
  | nil => exact h
  | cons a as ih =>
    obtain ⟨t, b⟩ := a
    rw [takeLine]
    split
    next ht =>
      split
      · exact Nat.le_max_left _ _
      · exact Nat.le_trans (Nat.le_max_left _ _) (ih (hnext _ _ (Nat.max_le.mpr ⟨h, ht⟩)))
    · exact h

theorem takeLine_taken (as : Arrivals) (h : now ≤ limit) :
    ∃ got, as = got ++ (takeLine next limit now as).rest ∧
      (takeLine next limit now as).bytes = got.map Prod.snd ∧
      ∀ a ∈ got, a.1 ≤ (takeLine next limit now as).now := by
  induction as generalizing limit now with
  | nil => exact ⟨[], rfl, rfl, by simp⟩
  | cons a as ih =>
    obtain ⟨t, b⟩ := a
    rw [takeLine]
    split
    next ht =>
      split
      next hb =>
        refine ⟨[(t, b)], rfl, rfl, ?_⟩
        rw [List.forall_mem_singleton]
        exact Nat.le_max_right _ _
      next hb =>
        have hlimit := hnext _ _ (Nat.max_le.mpr ⟨h, ht⟩)
        obtain ⟨got, has, hbytes, hgot⟩ := ih hlimit
        refine ⟨(t, b) :: got, congrArg _ has, congrArg _ hbytes, ?_⟩
        rw [List.forall_mem_cons]
        exact ⟨Nat.le_trans (Nat.le_max_right _ _) (takeLine_later hnext as hlimit), hgot⟩
    · exact ⟨[], rfl, rfl, by simp⟩

end

theorem takeLine_prompt (next : ℕ → ℕ → ℕ) {limit now : ℕ} {as : Arrivals} (hord : InOrder as)
    (hnow : ∀ a ∈ as, now ≤ a.1) : ∀ a ∈ (takeLine next limit now as).rest,
      (takeLine next limit now as).now ≤ a.1 := by
  induction as generalizing limit now with
  | nil => simp [takeLine]
  | cons a as ih =>
    obtain ⟨t, b⟩ := a
    rw [InOrder, List.pairwise_cons] at hord
    rw [List.forall_mem_cons] at hnow
    have hmax : max now t = t := Nat.max_eq_right hnow.1
    rw [takeLine]
    split
    next ht =>
      split
      · rw [hmax]
        exact hord.1
      · rw [hmax]
        exact ih hord.2 hord.1
    next ht =>
      rw [List.forall_mem_cons]
      have hlt : limit ≤ t := Nat.le_of_not_le ht
      exact ⟨hlt, fun a ha => Nat.le_trans hlt (hord.1 a ha)⟩

theorem takeLine_newline_last (next : ℕ → ℕ → ℕ) (limit now : ℕ) (as : Arrivals) :
    newline ∉ (takeLine next limit now as).bytes.dropLast := by
  induction as generalizing limit now with
  | nil => simp [takeLine]
  | cons a as ih =>
    obtain ⟨t, b⟩ := a
    rw [takeLine]
    split
    · split
      · simp
      next hb =>
        have hih := ih (next limit (max now t)) (max now t)
        simp only
        revert hih
        cases (takeLine next (next limit (max now t)) (max now t) as).bytes with
        | nil => exact fun _ => List.not_mem_nil
        | cons c bytes =>
          intro hih
          rw [List.dropLast_cons_cons, List.mem_cons, not_or]
          exact ⟨Ne.symm hb, hih⟩
    · simp

/-- Whole lines, in none of which a byte is later than `timeout` behind the one before it. -/
structure SteadyLines (timeout : ℕ) (as : Arrivals) : Prop where
  inOrder : InOrder as
  steady : as.IsChain fun a b => a.2 = newline ∨ b.1 ≤ a.1 + timeout
  ended : ∀ a ∈ as.getLast?, a.2 = newline

theorem SteadyLines.of_append {timeout : ℕ} {rest : Arrivals} (got : Arrivals)
    (h : SteadyLines timeout (got ++ rest)) : SteadyLines timeout rest where
  inOrder := h.inOrder.sublist (List.sublist_append_right _ _)
  steady := h.steady.right_of_append
  ended a ha := h.ended a (List.mem_getLast?_append_of_mem_getLast? ha)

/-- Such a line is taken whole, once it has begun before the limit. -/
theorem takeLine_steady {timeout limit now : ℕ} {as : Arrivals} (h : SteadyLines timeout as)
    (hnow : ∀ a ∈ as, now ≤ a.1) (hne : as ≠ []) (hfirst : ∀ a ∈ as.head?, a.1 ≤ limit) :
    (takeLine (fun _ t => t + timeout) limit now as).bytes.getLast? = some newline := by
  induction as generalizing limit now with
  | nil => exact absurd rfl hne
  | cons a as ih =>
    obtain ⟨t, b⟩ := a
    have hrest : SteadyLines timeout as := SteadyLines.of_append [(t, b)] h
    obtain ⟨hnext, -⟩ := List.isChain_cons.mp h.steady
    rw [takeLine, if_pos (hfirst (t, b) rfl)]
    split
    next hb => simp [hb]
    next hb =>
      have hmax : max now t = t := Nat.max_eq_right (hnow _ List.mem_cons_self)
      have hmore : as ≠ [] := by
        rintro rfl
        exact hb (h.ended (t, b) rfl)
      rw [hmax, List.getLast?_cons, ih hrest (List.pairwise_cons.mp h.inOrder).1 hmore
        fun a ha => (hnext a ha).resolve_left hb]
      rfl

/-- Nothing is taken only if nothing is there before the limit. -/
theorem takeLine_empty {next : ℕ → ℕ → ℕ} {limit now : ℕ} {as : Arrivals}
    (h : (takeLine next limit now as).bytes = []) (hord : InOrder as) :
    (takeLine next limit now as).now = limit ∧
      ∀ a ∈ (takeLine next limit now as).rest, limit < a.1 := by
  cases as with
  | nil => simp [takeLine]
  | cons a as =>
    obtain ⟨t, b⟩ := a
    rw [InOrder, List.pairwise_cons] at hord
    rw [takeLine] at h ⊢
    split at h
    · split at h <;> cases h
    next ht =>
      rw [if_neg ht]
      refine ⟨rfl, ?_⟩
      rw [List.forall_mem_cons]
      exact ⟨Nat.lt_of_not_le ht, fun a ha => Nat.lt_of_lt_of_le (by omega) (hord.1 a ha)⟩

/-- A call that takes nothing takes some time. -/
def Reading.after (r : Reading) (now : ℕ) : Reading :=
  if r.bytes = [] then { r with now := max r.now (now + 1) } else r

@[simp] theorem Reading.after_bytes (r : Reading) (now : ℕ) :
    (r.after now).bytes = r.bytes := by
  rw [after]
  split <;> rfl

@[simp] theorem Reading.after_rest (r : Reading) (now : ℕ) : (r.after now).rest = r.rest := by
  rw [after]
  split <;> rfl

theorem Reading.le_after (r : Reading) (now : ℕ) : r.now ≤ (r.after now).now := by
  rw [after]
  split
  · exact Nat.le_max_left _ _
  · exact Nat.le_refl _

/-- A reader that waits until a limit set when it is called. -/
def Reader.ofLimit (next : ℕ → ℕ → ℕ) (hnext : ∀ limit t, t ≤ limit → t ≤ next limit t)
    (limit : ℕ → ℕ) (hlimit : ∀ now, now ≤ limit now) : Reader where
  read now as := (takeLine next (limit now) now as).after now
  taken now as := by
    obtain ⟨got, has, hbytes, hgot⟩ := takeLine_taken hnext as (hlimit now)
    rw [Reading.after_rest, Reading.after_bytes]
    exact ⟨got, has, hbytes, fun a ha => Nat.le_trans (hgot a ha) (Reading.le_after _ now)⟩
  newline_last now as := by
    rw [Reading.after_bytes]
    exact takeLine_newline_last _ _ _ as
  later now as := Nat.le_trans (takeLine_later hnext as (hlimit now)) (Reading.le_after _ now)
  ticks now as h := by
    rw [Reading.after_bytes] at h
    rw [Reading.after, if_pos h]
    exact Nat.lt_of_lt_of_le (Nat.lt_succ_self now) (Nat.le_max_right _ _)
  prompt now as hord hnow := by
    rw [Reading.after_rest, Reading.after]
    split
    next hb =>
      obtain ⟨htime, hrest⟩ := takeLine_empty hb hord
      intro a ha
      have := hrest a ha
      have := hlimit now
      simp only [htime]
      omega
    · exact takeLine_prompt next hord hnow

/-- Single bytes are read, each with a timeout of its own. -/
def Reader.eachByte (timeout : ℕ) : Reader :=
  Reader.ofLimit (fun _ t => t + timeout) (fun _ _ _ => Nat.le_add_right _ _)
    (fun now => now + timeout) (fun _ => Nat.le_add_right _ _)

/-- There is one timeout for the whole line, and it is not waited out once the stream
is over. -/
def Reader.eachLine (timeout : ℕ) (eof : Option ℕ) : Reader :=
  Reader.ofLimit (fun limit _ => limit) (fun _ _ h => h)
    (fun now => eof.elim (now + timeout) fun e => max now (min (now + timeout) e))
    (fun now => by
      cases eof with
      | none => exact Nat.le_add_right _ _
      | some e => exact Nat.le_max_left _ _)

/-- What a reader gives that is called until `deadline`. -/
def Reader.readsFrom (r : Reader) (deadline : ℕ) : ℕ → ℕ → Arrivals → List (List UInt8)
  | 0, _, _ => []
  | calls + 1, now, as =>
    if deadline ≤ now then []
    else
      let reading := r.read now as
      let later := r.readsFrom deadline calls reading.now reading.rest
      if reading.bytes = [] then later else reading.bytes :: later

/-- There are no more calls than these before `deadline`: each takes a byte or some time. -/
def callsUntil (deadline now : ℕ) (as : Arrivals) : ℕ := as.length + (deadline - now)

/-- The bytes that each call gives until `deadline`, of those that give any. -/
def Reader.reads (r : Reader) (deadline now : ℕ) (as : Arrivals) : List (List UInt8) :=
  r.readsFrom deadline (callsUntil deadline now as + 1) now as

/-- When a reader is done that is called until `deadline`, and what is left to come. -/
def Reader.leftFrom (r : Reader) (deadline : ℕ) : ℕ → ℕ → Arrivals → ℕ × Arrivals
  | 0, now, as => (now, as)
  | calls + 1, now, as =>
    if deadline ≤ now then (now, as)
    else
      let reading := r.read now as
      r.leftFrom deadline calls reading.now reading.rest

def Reader.left (r : Reader) (deadline now : ℕ) (as : Arrivals) : ℕ × Arrivals :=
  r.leftFrom deadline (callsUntil deadline now as + 1) now as

namespace Reader
variable (r : Reader) {deadline now : ℕ} {as : Arrivals}

theorem callsUntil_read (as : Arrivals) (h : now < deadline) :
    callsUntil deadline (r.read now as).now (r.read now as).rest < callsUntil deadline now as := by
  obtain ⟨got, has, hbytes, -⟩ := r.taken now as
  have hlen := congrArg List.length has
  rw [List.length_append] at hlen
  have hlater := r.later now as
  rw [callsUntil, callsUntil]
  by_cases hb : (r.read now as).bytes = []
  · have := r.ticks now as hb
    omega
  · have hpos : 0 < got.length := List.length_pos_of_ne_nil fun hg => hb (by rw [hbytes, hg]; rfl)
    omega

theorem mem_readsFrom {calls : ℕ} {bytes : List UInt8}
    (h : bytes ∈ r.readsFrom deadline calls now as) : bytes ≠ [] ∧ newline ∉ bytes.dropLast := by
  induction calls generalizing now as with
  | zero => cases h
  | succ calls ih =>
    rw [readsFrom] at h
    split at h
    · cases h
    · simp only at h
      split at h
      · exact ih h
      next hb =>
        rcases List.mem_cons.mp h with rfl | h
        · exact ⟨hb, r.newline_last _ _⟩
        · exact ih h

theorem mem_reads {bytes : List UInt8} (h : bytes ∈ r.reads deadline now as) :
    bytes ≠ [] ∧ newline ∉ bytes.dropLast :=
  r.mem_readsFrom h

theorem readsFrom_nil (calls : ℕ) : r.readsFrom deadline calls now [] = [] := by
  induction calls generalizing now with
  | zero => rfl
  | succ calls ih =>
    obtain ⟨got, hnil, hbytes, -⟩ := r.taken now []
    obtain ⟨rfl, hrest⟩ := List.append_eq_nil_iff.mp hnil.symm
    rw [readsFrom]
    split
    · rfl
    · simp only [hbytes, hrest, List.map_nil, if_true, ih]

theorem bytes_read (now : ℕ) (as : Arrivals) :
    as.bytes = (r.read now as).bytes ++ Arrivals.bytes (r.read now as).rest := by
  obtain ⟨got, has, hbytes, -⟩ := r.taken now as
  rw [hbytes]
  conv_lhs => rw [has]
  exact List.map_append

theorem rest_sublist (now : ℕ) (as : Arrivals) : (r.read now as).rest.Sublist as := by
  obtain ⟨got, has, -, -⟩ := r.taken now as
  conv_rhs => rw [has]
  exact List.sublist_append_right _ _

/-- What is left comes after the reader is done, and with what is read is everything. -/
theorem leftFrom_spec {calls : ℕ} (hord : InOrder as) (hnow : ∀ a ∈ as, now ≤ a.1) :
    let left := r.leftFrom deadline calls now as
    as.bytes = (r.readsFrom deadline calls now as).flatten ++ Arrivals.bytes left.2 ∧
      InOrder left.2 ∧ (∀ a ∈ left.2, left.1 ≤ a.1) ∧ ∀ a ∈ left.2, a ∈ as := by
  induction calls generalizing now as with
  | zero => exact ⟨rfl, hord, hnow, fun _ ha => ha⟩
  | succ calls ih =>
    rw [leftFrom, readsFrom]
    split
    · exact ⟨rfl, hord, hnow, fun _ ha => ha⟩
    · have hrest := r.rest_sublist now as
      obtain ⟨hall, hord', hnow', hmem⟩ := ih (hord.sublist hrest) (r.prompt now as hord hnow)
      refine ⟨?_, hord', hnow', fun a ha => hrest.subset (hmem a ha)⟩
      simp only
      rw [r.bytes_read now as, hall]
      split
      next hb => rw [hb, List.nil_append]
      · rw [List.flatten_cons, List.append_assoc]

theorem deadline_le_leftFrom {calls : ℕ} (h : callsUntil deadline now as < calls) :
    deadline ≤ (r.leftFrom deadline calls now as).1 := by
  induction calls generalizing now as with
  | zero => cases h
  | succ calls ih =>
    rw [leftFrom]
    split
    next hlate => exact hlate
    next hlate =>
      have hcalls := r.callsUntil_read as (Nat.lt_of_not_le hlate)
      exact ih (by omega)

theorem left_spec (deadline : ℕ) (hord : InOrder as) (hnow : ∀ a ∈ as, now ≤ a.1) :
    let left := r.left deadline now as
    as.bytes = (r.reads deadline now as).flatten ++ Arrivals.bytes left.2 ∧
      InOrder left.2 ∧ (∀ a ∈ left.2, left.1 ≤ a.1) ∧ ∀ a ∈ left.2, a ∈ as :=
  r.leftFrom_spec hord hnow

theorem flatten_reads (hord : InOrder as) (hnow : ∀ a ∈ as, now ≤ a.1)
    (hdl : ∀ a ∈ as, a.1 < deadline) : (r.reads deadline now as).flatten = as.bytes := by
  obtain ⟨hall, -, hleft, hmem⟩ := r.left_spec deadline hord hnow
  have hdone : deadline ≤ (r.left deadline now as).1 :=
    r.deadline_le_leftFrom (Nat.lt_succ_self _)
  have hnil : (r.left deadline now as).2 = [] := by
    refine List.eq_nil_iff_forall_not_mem.mpr fun a ha => ?_
    have := hleft a ha
    have := hdl a (hmem a ha)
    omega
  rw [hall, hnil]
  exact (List.append_nil _).symm

section EachByte

variable {timeout : ℕ}

/-- A reader of single bytes gives nothing or a whole line of such a stream. -/
theorem eachByte_read_steady (h : SteadyLines timeout as) (hnow : ∀ a ∈ as, now ≤ a.1) :
    (((eachByte timeout).read now as).bytes = [] ∨
      ((eachByte timeout).read now as).bytes.getLast? = some newline) ∧
      SteadyLines timeout ((eachByte timeout).read now as).rest := by
  constructor
  · change (Reading.after _ now).bytes = [] ∨ (Reading.after _ now).bytes.getLast? = _
    rw [Reading.after_bytes]
    cases as with
    | nil => exact .inl rfl
    | cons a as =>
      by_cases ha : a.1 ≤ now + timeout
      · exact .inr (takeLine_steady h hnow (List.cons_ne_nil _ _) (by simpa using ha))
      · exact .inl (by rw [takeLine, if_neg ha])
  · obtain ⟨got, has, -, -⟩ := (eachByte timeout).taken now as
    rw [has] at h
    exact SteadyLines.of_append got h

theorem eachByte_readsFrom_steady (h : SteadyLines timeout as) (deadline calls : ℕ)
    (hnow : ∀ a ∈ as, now ≤ a.1) :
    (∀ raw ∈ (eachByte timeout).readsFrom deadline calls now as, raw.getLast? = some newline) ∧
      SteadyLines timeout ((eachByte timeout).leftFrom deadline calls now as).2 := by
  induction calls generalizing now as with
  | zero => exact ⟨by simp [readsFrom], h⟩
  | succ calls ih =>
    obtain ⟨hbytes, hrest⟩ := eachByte_read_steady h hnow
    obtain ⟨hlater, hleft⟩ := ih hrest ((eachByte timeout).prompt now as h.inOrder hnow)
    rw [readsFrom, leftFrom]
    split
    · exact ⟨by simp, h⟩
    · refine ⟨?_, hleft⟩
      dsimp only
      split
      · exact hlater
      next hb => exact List.forall_mem_cons.mpr ⟨hbytes.resolve_left hb, hlater⟩

end EachByte

end Reader

end MbTools.Readline
