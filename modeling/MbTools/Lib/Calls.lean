import MbTools.Lib.Runs
import Mathlib.Data.List.Induction
import Mathlib.Tactic.Common

/-! # Calls over one connection

A client makes one call at a time, and a server answers the requests in the order they
come in. A call reads one line, or, if it streams, all lines up to the first that is no
log line; the log lines it hands to a callback, which may raise, and it may be interrupted
while it waits. Every line is known here by the number of the request it answers, which the
client cannot see.
-/

namespace MbTools.Calls

inductive Status where
  | returned
  /-- The callback raised, or the call was interrupted while it waited. -/
  | abandoned
  /-- The connection failed. -/
  | broken
  deriving DecidableEq, Repr

structure Call (ρ μ : Type) where
  request : ρ
  read : List (ℕ × μ)
  status : Status
  deriving Repr

/-- The calls that are over and the one that waits; the answers to the requests that the
server has taken; their lines that are not written, or not read. -/
structure Conn (ρ μ : Type) where
  past : List (Call ρ μ)
  now : Option (ρ × List (ℕ × μ))
  served : List (List μ)
  pending : List (ℕ × μ)
  unread : List (ℕ × μ)
  /-- The server takes no more requests. -/
  ended : Bool
  /-- The client has seen the connection fail. -/
  down : Bool
  deriving Repr

/-- What the two sides do. A request whose sending fails may have come in or not. -/
inductive Action (ρ μ : Type) where
  | ask (q : ρ)
  | serve (answer : List μ) (last : Bool)
  | write
  | read (raises : Bool)
  | interrupt
  | fail
  | hangUp

def Action.serves {ρ μ : Type} : Action ρ μ → Bool
  | serve _ _ => true
  | _ => false

/-- The lines of answers, each with the number of its answer. -/
def number {μ : Type} (served : List (List μ)) : List (ℕ × μ) :=
  served.zipIdx.flatMap fun p => p.1.map (p.2, ·)

namespace Conn

variable {ρ μ : Type}

def start : Conn ρ μ := ⟨[], none, [], [], [], false, false⟩

def requests (c : Conn ρ μ) : List ρ := c.past.map Call.request ++ (c.now.map Prod.fst).toList

/-- The lines of all answers, in order. -/
def lines (c : Conn ρ μ) : List (ℕ × μ) := number c.served

def heard (c : Conn ρ μ) : List (ℕ × μ) :=
  c.past.flatMap Call.read ++ (c.now.map Prod.snd).getD []

section Step

variable (isLog : μ → Bool) (streams : ρ → Bool)

/-- The call has read a line: it goes on, or it is over. -/
def took (c : Conn ρ μ) (q : ρ) (read : List (ℕ × μ)) (m : μ) (raises : Bool) : Conn ρ μ :=
  if streams q && isLog m then
    if raises then { c with past := c.past ++ [⟨q, read, .abandoned⟩], now := none }
    else { c with now := some (q, read) }
  else { c with past := c.past ++ [⟨q, read, .returned⟩], now := none }

def step (c : Conn ρ μ) : Action ρ μ → Option (Conn ρ μ)
  | .ask q =>
    match c.now with
    | some _ => none
    | none => some { c with now := some (q, []) }
  | .serve answer last =>
    if c.ended || c.served.length = c.requests.length then none
    else
      match c.pending with
      | _ :: _ => none
      | [] =>
        some { c with
          served := c.served ++ [answer]
          pending := answer.map (c.served.length, ·)
          ended := last }
  | .write =>
    match c.pending with
    | [] => none
    | x :: rest => some { c with pending := rest, unread := c.unread ++ [x] }
  | .read raises =>
    if c.down then none
    else
      match c.now, c.unread with
      | some (q, read), x :: rest =>
        some (took isLog streams { c with unread := rest } q (read ++ [x]) x.2 raises)
      | _, _ => none
  | .interrupt =>
    match c.now with
    | none => none
    | some (q, read) => some { c with past := c.past ++ [⟨q, read, .abandoned⟩], now := none }
  | .fail =>
    match c.now with
    | none => none
    | some (q, read) =>
      some { c with past := c.past ++ [⟨q, read, .broken⟩], now := none, down := true }
  | .hangUp => some { c with ended := true }

end Step

end Conn

/-! ## Numbers -/

section Numbers

variable {ρ μ : Type} {isLog : μ → Bool} {l : List (ℕ × μ)} {x : ℕ × μ} {lines : List μ}
  {n : ℕ}

/-- How many of the lines are the last ones of their answers. -/
def finals (isLog : μ → Bool) (l : List (ℕ × μ)) : ℕ := l.countP fun x => !isLog x.2

/-- Each line is of the first answer that is not complete before it. -/
def Numbered (isLog : μ → Bool) (l : List (ℕ × μ)) : Prop :=
  ∀ before x, before ++ [x] <+: l → x.1 = finals isLog before

/-- Log lines, and one other line after them. -/
def Complete (isLog : μ → Bool) (answer : List μ) : Prop :=
  ∃ logs m, answer = logs ++ [m] ∧ (∀ l ∈ logs, isLog l = true) ∧ isLog m = false

theorem finals_append (l l' : List (ℕ × μ)) :
    finals isLog (l ++ l') = finals isLog l + finals isLog l' := List.countP_append

theorem finals_of_logs (h : ∀ x ∈ l, isLog x.2 = true) : finals isLog l = 0 := by
  rw [finals, List.countP_eq_zero]
  intro x hx
  simp [h x hx]

theorem finals_concat_of_log (h : isLog x.2 = true) : finals isLog (l ++ [x]) = finals isLog l := by
  simp [finals, h]

theorem finals_concat_of_final (h : isLog x.2 = false) :
    finals isLog (l ++ [x]) = finals isLog l + 1 := by
  simp [finals, h]

theorem numbered_nil : Numbered isLog [] := by
  intro before x h
  simp at h

theorem Numbered.concat (h : Numbered isLog l) (hx : x.1 = finals isLog l) :
    Numbered isLog (l ++ [x]) := by
  intro before y hy
  rcases List.prefix_concat_iff.mp hy with heq | hy
  · obtain ⟨rfl, hlast⟩ := List.append_inj' heq rfl
    obtain rfl := List.singleton_inj.mp hlast
    exact hx
  · exact h before y hy

theorem Numbered.mono {l' : List (ℕ × μ)} (h : Numbered isLog l) (hl : l' <+: l) :
    Numbered isLog l' :=
  fun before x hx => h before x (hx.trans hl)

theorem Numbered.logs (h : Numbered isLog l) (hn : finals isLog l = n)
    (hlines : ∀ m ∈ lines, isLog m = true) :
    Numbered isLog (l ++ lines.map (n, ·)) ∧ finals isLog (l ++ lines.map (n, ·)) = n := by
  induction lines generalizing l with
  | nil => simpa using ⟨h, hn⟩
  | cons m lines ih =>
    rw [List.forall_mem_cons] at hlines
    have hconcat : Numbered isLog (l ++ [(n, m)]) := h.concat hn.symm
    have hfinals : finals isLog (l ++ [(n, m)]) = n := by rw [finals_concat_of_log hlines.1, hn]
    simpa using ih hconcat hfinals hlines.2

theorem Numbered.answer (h : Numbered isLog l) (hn : finals isLog l = n)
    (hlines : Complete isLog lines) :
    Numbered isLog (l ++ lines.map (n, ·)) ∧ finals isLog (l ++ lines.map (n, ·)) = n + 1 := by
  obtain ⟨logs, m, rfl, hlogs, hm⟩ := hlines
  obtain ⟨hnumbered, hfinals⟩ := h.logs hn hlogs
  rw [List.map_append, ← List.append_assoc]
  exact ⟨hnumbered.concat hfinals.symm, by
    rw [List.map_singleton, finals_concat_of_final hm, hfinals]⟩

end Numbers

/-! ## What a connection keeps -/

section Kept

variable {ρ μ : Type} {isLog : μ → Bool} {streams : ρ → Bool}

/-- What a call that is over has read. -/
def Call.Shaped (isLog : μ → Bool) (streams : ρ → Bool) (d : Call ρ μ) : Prop :=
  match d.status with
  | .returned =>
    ∃ logs x, d.read = logs ++ [x] ∧ (∀ y ∈ logs, isLog y.2 = true) ∧
      if streams d.request then isLog x.2 = false else logs = []
  | _ => ∀ y ∈ d.read, isLog y.2 = true

/-- An answer is complete, unless it is the last, and only a call that streams gets logs. -/
def Fits (isLog : μ → Bool) (streams : ρ → Bool) (q : ρ) (answer : List μ) (last : Bool) : Prop :=
  (Complete isLog answer ∨ last = true ∧ ∀ m ∈ answer, isLog m = true) ∧
    (streams q = false → ∀ m ∈ answer, isLog m = false)

namespace Conn

/-- The server answers the request it has taken with what fits it. -/
def Serves (isLog : μ → Bool) (streams : ρ → Bool) (c : Conn ρ μ) : Action ρ μ → Prop
  | .serve answer last =>
    ∀ q, c.requests[c.served.length]? = some q → Fits isLog streams q answer last
  | _ => True

structure Kept (isLog : μ → Bool) (streams : ρ → Bool) (c : Conn ρ μ) : Prop where
  order : c.heard ++ c.unread ++ c.pending = c.lines
  numbered : Numbered isLog c.lines
  level : c.ended = false → finals isLog c.lines = c.served.length
  plain : ∀ (k : ℕ) q answer, c.requests[k]? = some q → c.served[k]? = some answer →
    streams q = false → ∀ m ∈ answer, isLog m = false
  length : c.served.length ≤ c.requests.length
  now : ∀ q read, c.now = some (q, read) →
    (∀ y ∈ read, isLog y.2 = true) ∧ (streams q = false → read = [])
  past : ∀ d ∈ c.past, d.Shaped isLog streams
  up : c.down = false → ∀ d ∈ c.past, d.status ≠ .broken
  fallen : c.past.Pairwise fun d e => d.status = .broken → e.status ≠ .returned

variable {c c' : Conn ρ μ} {q : ρ} {got : List (ℕ × μ)} {x : ℕ × μ} {rest : List (ℕ × μ)}

theorem kept_start : (start : Conn ρ μ).Kept isLog streams where
  order := rfl
  numbered := numbered_nil
  level _ := rfl
  plain _ _ _ h := by simp [start, requests] at h
  length := Nat.le_refl 0
  now _ _ h := by cases h
  past _ h := by cases h
  up _ _ h := by cases h
  fallen := .nil

theorem served_concat {served : List (List μ)} {answer answer' : List μ} {k : ℕ}
    (h : (served ++ [answer])[k]? = some answer') :
    served[k]? = some answer' ∨ k = served.length ∧ answer = answer' := by
  rw [List.getElem?_append] at h
  split at h
  · exact Or.inl h
  next hk =>
    obtain ⟨hz, rfl⟩ : k - served.length = 0 ∧ answer = answer' := by
      simpa [List.getElem?_singleton] using h
    exact Or.inr ⟨by omega, rfl⟩

theorem lines_serve (c : Conn ρ μ) (answer : List μ) (pending : List (ℕ × μ)) (last : Bool) :
    ({ c with served := c.served ++ [answer], pending, ended := last } : Conn ρ μ).lines =
      c.lines ++ answer.map (c.served.length, ·) := by
  simp [lines, number, List.zipIdx_append]

theorem Kept.ask (h : c.Kept isLog streams) (hnow : c.now = none) (q : ρ) :
    ({ c with now := some (q, []) } : Conn ρ μ).Kept isLog streams where
  order := by simpa [heard, hnow, lines] using h.order
  numbered := h.numbered
  level := h.level
  plain k p answer hp hserved hstreams := by
    have hlt : k < c.served.length := (List.getElem?_eq_some_iff.mp hserved).1
    have hlen := h.length
    have hreq : c.requests = c.past.map Call.request := by simp [requests, hnow]
    rw [hreq] at hlen
    refine h.plain k p answer ?_ hserved hstreams
    rw [hreq, ← hp]
    exact (List.getElem?_append_left (Nat.lt_of_lt_of_le hlt hlen)).symm
  length := by
    have hlen := h.length
    simp only [requests, hnow, Option.map_none, Option.map_some, Option.toList_none,
      Option.toList_some, List.length_append, List.length_map, List.length_nil,
      List.length_singleton] at hlen ⊢
    omega
  now p read hp := by
    cases hp
    exact ⟨by simp, fun _ => rfl⟩
  past := h.past
  up := h.up
  fallen := h.fallen

theorem Kept.serve (h : c.Kept isLog streams) (hended : c.ended = false)
    (hlen : c.served.length < c.requests.length) (hpending : c.pending = []) {answer : List μ}
    {last : Bool} (hfits : c.Serves isLog streams (.serve answer last)) :
    ({ c with
        served := c.served ++ [answer]
        pending := answer.map (c.served.length, ·)
        ended := last } : Conn ρ μ).Kept isLog streams := by
  obtain ⟨q, hq⟩ : ∃ q, c.requests[c.served.length]? = some q := ⟨_, List.getElem?_eq_getElem hlen⟩
  obtain ⟨hanswer, hplain⟩ := hfits q hq
  have horder := h.order
  rw [hpending, List.append_nil] at horder
  constructor
  case order => rw [lines_serve, ← horder]; rfl
  case numbered =>
    rw [lines_serve]
    rcases hanswer with hanswer | ⟨-, hlogs⟩
    · exact (h.numbered.answer (h.level hended) hanswer).1
    · exact (h.numbered.logs (h.level hended) hlogs).1
  case level =>
    intro hlast
    rcases hanswer with hanswer | ⟨hl, -⟩
    · rw [lines_serve, (h.numbered.answer (h.level hended) hanswer).2]
      simp
    · exact absurd hl (by simp_all)
  case plain =>
    intro k p a hp ha hstreams
    rcases served_concat ha with ha | ⟨rfl, rfl⟩
    · exact h.plain k p a hp ha hstreams
    · obtain rfl : q = p := Option.some.inj (hq.symm.trans hp)
      exact hplain hstreams
  case length => simpa [requests, Nat.succ_le_iff] using hlen
  case now => exact h.now
  case past => exact h.past
  case up => exact h.up
  case fallen => exact h.fallen

theorem Kept.write (h : c.Kept isLog streams) (hpending : c.pending = x :: rest) :
    ({ c with pending := rest, unread := c.unread ++ [x] } : Conn ρ μ).Kept isLog streams :=
  { h with
    order := by
      have horder := h.order
      rw [hpending, List.append_cons, List.append_assoc c.heard] at horder
      exact horder }

/-- Where the calls change and the client reads no other line than the next. -/
theorem Kept.calls {past : List (Call ρ μ)} {now : Option (ρ × List (ℕ × μ))}
    {unread : List (ℕ × μ)} {down : Bool} (h : c.Kept isLog streams)
    (hheard : past.flatMap Call.read ++ (now.map Prod.snd).getD [] ++ unread = c.heard ++ c.unread)
    (hrequests : past.map Call.request ++ (now.map Prod.fst).toList = c.requests)
    (hnow : ∀ q got, now = some (q, got) →
      (∀ y ∈ got, isLog y.2 = true) ∧ (streams q = false → got = []))
    (hpast : ∀ d ∈ past, d.Shaped isLog streams)
    (hup : down = false → ∀ d ∈ past, d.status ≠ .broken)
    (hfallen : past.Pairwise fun d e => d.status = .broken → e.status ≠ .returned) :
    ({ c with past, now, unread, down } : Conn ρ μ).Kept isLog streams where
  order := by
    have horder := h.order
    rw [← hheard] at horder
    exact horder
  numbered := h.numbered
  level := h.level
  plain k q answer hq := h.plain k q answer (hrequests ▸ hq)
  length := by
    have hlen := h.length
    rw [← hrequests] at hlen
    exact hlen
  now := hnow
  past := hpast
  up := hup
  fallen := hfallen

/-- A call that ends is the last one, and is shaped like the others. -/
theorem Kept.over {unread : List (ℕ × μ)} {down : Bool} {d : Call ρ μ} (h : c.Kept isLog streams)
    (hnow : c.now = some (d.request, got)) (hread : d.read ++ unread = got ++ c.unread)
    (hd : d.Shaped isLog streams) (hdown : d.status = .returned → c.down = false)
    (hbroken : down = false → c.down = false ∧ d.status ≠ .broken) :
    ({ c with past := c.past ++ [d], now := none, unread, down } : Conn ρ μ).Kept isLog
      streams := by
  apply h.calls
  · simp only [heard, hnow, List.flatMap_append, List.flatMap_singleton, Option.map_none,
      Option.map_some, Option.getD_none, Option.getD_some, List.append_nil, List.append_assoc,
      hread]
  · simp [requests, hnow]
  · intro q got' heq
    cases heq
  · exact List.forall_mem_append.mpr ⟨h.past, List.forall_mem_singleton.mpr hd⟩
  · intro hup
    obtain ⟨hc, hstatus⟩ := hbroken hup
    exact List.forall_mem_append.mpr ⟨h.up hc, List.forall_mem_singleton.mpr hstatus⟩
  · rw [List.pairwise_append]
    refine ⟨h.fallen, List.pairwise_singleton _ _, fun e he d' hd' hb => ?_⟩
    obtain rfl := List.mem_singleton.mp hd'
    exact fun hreturned => h.up (hdown hreturned) e he hb

theorem Kept.took (h : c.Kept isLog streams) (hdown : c.down = false)
    (hnow : c.now = some (q, got)) (hunread : c.unread = x :: rest) (raises : Bool) :
    (Conn.took isLog streams { c with unread := rest } q (got ++ [x]) x.2 raises).Kept isLog
      streams := by
  obtain ⟨hlogs, hplain⟩ := h.now q got hnow
  have hread : got ++ [x] ++ rest = got ++ c.unread := by simp [hunread]
  have hover (d : Call ρ μ) (hq : d.request = q) (hgot : d.read = got ++ [x])
      (hd : d.Shaped isLog streams) (hstatus : d.status ≠ .broken) :
      ({ c with past := c.past ++ [d], now := none, unread := rest } : Conn ρ μ).Kept isLog
        streams :=
    h.over (hq ▸ hnow) (hgot ▸ hread) hd (fun _ => hdown) fun hc => ⟨hc, hstatus⟩
  have hlogs' (hx : isLog x.2 = true) : ∀ y ∈ got ++ [x], isLog y.2 = true :=
    List.forall_mem_append.mpr ⟨hlogs, List.forall_mem_singleton.mpr hx⟩
  unfold Conn.took
  split
  next hlog =>
    obtain ⟨hq, hx⟩ := Bool.and_eq_true_iff.mp hlog
    split
    · exact hover _ rfl rfl (hlogs' hx) nofun
    · apply h.calls
      · simp [heard, hnow, hunread]
      · simp [requests, hnow]
      · intro q' got' heq
        cases heq
        exact ⟨hlogs' hx, fun hq' => by simp [hq] at hq'⟩
      · exact h.past
      · exact h.up
      · exact h.fallen
  next hlog =>
    refine hover _ rfl rfl ⟨got, x, rfl, hlogs, ?_⟩ nofun
    cases hq : streams q with
    | false => simpa [hq] using hplain hq
    | true => simpa [hq] using hlog

/-- What a step does. -/
inductive Turn (isLog : μ → Bool) (streams : ρ → Bool) (c : Conn ρ μ) :
    Action ρ μ → Conn ρ μ → Prop where
  | ask {q : ρ} : c.now = none → Turn isLog streams c (.ask q) { c with now := some (q, []) }
  | serve {answer : List μ} {last : Bool} : c.ended = false →
      c.served.length ≠ c.requests.length → c.pending = [] →
      Turn isLog streams c (.serve answer last)
        { c with
          served := c.served ++ [answer]
          pending := answer.map (c.served.length, ·)
          ended := last }
  | write {x : ℕ × μ} {rest : List (ℕ × μ)} : c.pending = x :: rest →
      Turn isLog streams c .write { c with pending := rest, unread := c.unread ++ [x] }
  | read {q : ρ} {got : List (ℕ × μ)} {x : ℕ × μ} {rest : List (ℕ × μ)} {raises : Bool} :
      c.down = false → c.now = some (q, got) → c.unread = x :: rest →
      Turn isLog streams c (.read raises)
        (Conn.took isLog streams { c with unread := rest } q (got ++ [x]) x.2 raises)
  | interrupt {q : ρ} {got : List (ℕ × μ)} : c.now = some (q, got) →
      Turn isLog streams c .interrupt
        { c with past := c.past ++ [⟨q, got, .abandoned⟩], now := none }
  | fail {q : ρ} {got : List (ℕ × μ)} : c.now = some (q, got) →
      Turn isLog streams c .fail
        { c with past := c.past ++ [⟨q, got, .broken⟩], now := none, down := true }
  | hangUp : Turn isLog streams c .hangUp { c with ended := true }

theorem turn_of_step {a : Action ρ μ} (hs : Conn.step isLog streams c a = some c') :
    Turn isLog streams c a c' := by
  cases a with
  | ask q =>
    simp only [Conn.step] at hs
    split at hs
    · cases hs
    next hnow =>
      cases hs
      exact .ask hnow
  | serve answer last =>
    simp only [Conn.step] at hs
    split at hs
    · cases hs
    next hopen =>
      split at hs
      · cases hs
      next hpending =>
        cases hs
        simp only [Bool.or_eq_true, decide_eq_true_eq, not_or, Bool.not_eq_true] at hopen
        exact .serve hopen.1 hopen.2 hpending
  | write =>
    simp only [Conn.step] at hs
    split at hs
    · cases hs
    next hpending =>
      cases hs
      exact .write hpending
  | read raises =>
    simp only [Conn.step] at hs
    split at hs
    · cases hs
    next hdown =>
      split at hs
      next hnow hunread =>
        cases hs
        exact .read (Bool.not_eq_true _ ▸ hdown) hnow hunread
      · cases hs
  | interrupt =>
    simp only [Conn.step] at hs
    split at hs
    · cases hs
    next hnow =>
      cases hs
      exact .interrupt hnow
  | fail =>
    simp only [Conn.step] at hs
    split at hs
    · cases hs
    next hnow =>
      cases hs
      exact .fail hnow
  | hangUp =>
    cases hs
    exact .hangUp

theorem Kept.step {a : Action ρ μ} (h : c.Kept isLog streams) (ha : c.Serves isLog streams a)
    (hs : Conn.step isLog streams c a = some c') : c'.Kept isLog streams := by
  cases turn_of_step hs with
  | @ask q hnow => exact h.ask hnow q
  | serve hopen hlength hpending =>
    exact h.serve hopen (Nat.lt_of_le_of_ne h.length hlength) hpending ha
  | write hpending => exact h.write hpending
  | read hdown hnow hunread => exact h.took hdown hnow hunread _
  | interrupt hnow =>
    exact h.over hnow rfl (h.now _ _ hnow).1 nofun fun hc => ⟨hc, nofun⟩
  | fail hnow => exact h.over hnow rfl (h.now _ _ hnow).1 nofun nofun
  | hangUp => exact { h with level := nofun }

theorem requests_took {m : μ} {raises : Bool} {got' : List (ℕ × μ)}
    (hnow : c.now = some (q, got')) :
    (took isLog streams c q got m raises).requests = c.requests := by
  unfold took requests
  rw [hnow]
  split
  · split <;> simp
  · simp

theorem served_took {m : μ} {raises : Bool} :
    (took isLog streams c q got m raises).served = c.served := by
  unfold took
  split
  · split <;> rfl
  · rfl

theorem requests_step {a : Action ρ μ} (hs : Conn.step isLog streams c a = some c') :
    c'.requests = match a with
      | .ask q => c.requests ++ [q]
      | _ => c.requests := by
  cases turn_of_step hs with
  | ask hnow => simp [requests, hnow]
  | serve _ _ _ => rfl
  | write _ => rfl
  | read _ hnow _ => exact requests_took hnow
  | interrupt hnow => simp [requests, hnow]
  | fail hnow => simp [requests, hnow]
  | hangUp => rfl

theorem requests_of_not_asks {a : Action ρ μ} (ha : ∀ q, a ≠ .ask q)
    (hs : Conn.step isLog streams c a = some c') : c'.requests = c.requests := by
  rw [requests_step hs]
  cases a with
  | ask q => exact absurd rfl (ha q)
  | _ => rfl

theorem requests_prefix {a : Action ρ μ} (hs : Conn.step isLog streams c a = some c') :
    c.requests <+: c'.requests := by
  rw [requests_step hs]
  cases a with
  | ask q => exact List.prefix_append _ _
  | _ => exact List.prefix_rfl

theorem request_step {a : Action ρ μ} {k : ℕ} (hs : Conn.step isLog streams c a = some c')
    (hq : c.requests[k]? = some q) : c'.requests[k]? = some q := by
  obtain ⟨asked, hasked⟩ := requests_prefix hs
  rw [← hasked, List.getElem?_append_left (List.getElem?_eq_some_iff.mp hq).1]
  exact hq

theorem served_step {a : Action ρ μ} (hs : Conn.step isLog streams c a = some c') :
    c'.served = match a with
      | .serve answer _ => c.served ++ [answer]
      | _ => c.served := by
  cases turn_of_step hs with
  | ask _ => rfl
  | serve _ _ _ => rfl
  | write _ => rfl
  | read _ _ _ => exact served_took
  | interrupt _ => rfl
  | fail _ => rfl
  | hangUp => rfl

theorem served_of_not_serves {a : Action ρ μ} (ha : a.serves = false)
    (hs : Conn.step isLog streams c a = some c') : c'.served = c.served := by
  rw [served_step hs]
  cases a with
  | serve answer last => cases ha
  | _ => rfl

theorem serves_of_not_serves {a : Action ρ μ} (ha : a.serves = false) :
    c.Serves isLog streams a := by
  cases a with
  | serve answer last => cases ha
  | _ => trivial

/-! ## Whose answer a call gets -/

/-- Every line the call has read is of the answer to its own request, the `k`-th. -/
def Own (k : ℕ) (d : Call ρ μ) : Prop := ∀ y ∈ d.read, y.1 = k

variable {k : ℕ} {d e : Call ρ μ} {before after : List (Call ρ μ)}

theorem served_of_mem_lines (h : x ∈ c.lines) : ∃ answer, c.served[x.1]? = some answer ∧
    x.2 ∈ answer := by
  obtain ⟨p, hp, hx⟩ := List.mem_flatMap.mp h
  obtain ⟨m, hm, rfl⟩ := List.mem_map.mp hx
  exact ⟨p.1, List.mem_zipIdx_iff_getElem?.mp hp, hm⟩

theorem Kept.heard_prefix (h : c.Kept isLog streams) : c.heard <+: c.lines :=
  ⟨c.unread ++ c.pending, by rw [← List.append_assoc, h.order]⟩

theorem Kept.read_prefix (h : c.Kept isLog streams) (hpast : c.past = before ++ d :: after) :
    before.flatMap Call.read ++ d.read <+: c.lines := by
  refine List.IsPrefix.trans ?_ h.heard_prefix
  rw [heard, hpast]
  simp

theorem split_of_shaped (hd : d.Shaped isLog streams) (hx : x ∈ d.read) :
    ∃ logs rest, d.read = logs ++ x :: rest ∧ ∀ y ∈ logs, isLog y.2 = true := by
  have hsplit (l : List (ℕ × μ)) (hl : ∀ y ∈ l, isLog y.2 = true) (hxl : x ∈ l) :
      ∃ logs rest, l = logs ++ x :: rest ∧ ∀ y ∈ logs, isLog y.2 = true := by
    obtain ⟨logs, rest, rfl⟩ := List.append_of_mem hxl
    exact ⟨logs, rest, rfl, (List.forall_mem_append.mp hl).1⟩
  unfold Call.Shaped at hd
  cases hstatus : d.status with
  | returned =>
    rw [hstatus] at hd
    obtain ⟨logs, y, hread, hlogs, -⟩ := hd
    rw [hread, List.mem_append, List.mem_singleton] at hx
    rcases hx with hx | rfl
    · obtain ⟨logs', rest, rfl, hlogs'⟩ := hsplit logs hlogs hx
      exact ⟨logs', rest ++ [y], by rw [hread, List.append_assoc, List.cons_append], hlogs'⟩
    · exact ⟨logs, [], hread, hlogs⟩
  | abandoned =>
    rw [hstatus] at hd
    exact hsplit _ hd hx
  | broken =>
    rw [hstatus] at hd
    exact hsplit _ hd hx

/-- A call that is over has read lines of the answer that comes next after the calls before it. -/
theorem Kept.number (h : c.Kept isLog streams) (hpast : c.past = before ++ d :: after)
    (hx : x ∈ d.read) : x.1 = finals isLog (before.flatMap Call.read) := by
  obtain ⟨logs, rest, hread, hlogs⟩ := split_of_shaped (h.past d (by simp [hpast])) hx
  have hprefix := h.read_prefix hpast
  rw [hread, List.append_cons, ← List.append_assoc, ← List.append_assoc] at hprefix
  rw [h.numbered (before.flatMap Call.read ++ logs) x ((List.prefix_append _ _).trans hprefix),
    finals_append, finals_of_logs hlogs, Nat.add_zero]

/-- The calls before a call that has returned have not met a failure. -/
theorem Kept.not_broken (h : c.Kept isLog streams) (hpast : c.past = before ++ d :: after)
    (hreturned : d.status = .returned) : ∀ e ∈ before, e.status ≠ .broken := by
  have hfallen := h.fallen
  rw [hpast, List.pairwise_append] at hfallen
  exact fun e he hb => hfallen.2.2 e he d List.mem_cons_self hb hreturned

theorem finals_read_le (hd : d.Shaped isLog streams) : finals isLog d.read ≤ 1 := by
  unfold Call.Shaped at hd
  cases hstatus : d.status with
  | returned =>
    rw [hstatus] at hd
    obtain ⟨logs, y, hread, hlogs, -⟩ := hd
    rw [hread, finals_append, finals_of_logs hlogs, Nat.zero_add]
    exact List.countP_le_length
  | abandoned =>
    rw [hstatus] at hd
    rw [finals_of_logs hd]
    exact Nat.zero_le 1
  | broken =>
    rw [hstatus] at hd
    rw [finals_of_logs hd]
    exact Nat.zero_le 1

theorem finals_le_length (hshaped : ∀ e ∈ before, e.Shaped isLog streams) :
    finals isLog (before.flatMap Call.read) ≤ before.length := by
  induction before with
  | nil => exact Nat.le_refl 0
  | cons e before ih =>
    rw [List.forall_mem_cons] at hshaped
    have he : finals isLog e.read ≤ 1 := finals_read_le hshaped.1
    have hrest := ih hshaped.2
    rw [List.flatMap_cons, finals_append, List.length_cons]
    omega

/-- A call that was abandoned has left the last line of an answer behind. -/
theorem finals_lt_length (hshaped : ∀ e ∈ before, e.Shaped isLog streams) (hd : d ∈ before)
    (hstatus : d.status = .abandoned) :
    finals isLog (before.flatMap Call.read) < before.length := by
  obtain ⟨l, l', rfl⟩ := List.append_of_mem hd
  obtain ⟨hl, hd, hl'⟩ : (∀ e ∈ l, e.Shaped isLog streams) ∧ d.Shaped isLog streams ∧
      ∀ e ∈ l', e.Shaped isLog streams := by
    simpa only [List.forall_mem_append, List.forall_mem_cons] using hshaped
  have hlogs : ∀ y ∈ d.read, isLog y.2 = true := by
    unfold Call.Shaped at hd
    rwa [hstatus] at hd
  have hbefore := finals_le_length hl
  have hafter := finals_le_length hl'
  rw [List.flatMap_append, List.flatMap_cons, finals_append, finals_append, finals_of_logs hlogs,
    List.length_append, List.length_cons]
  omega

theorem request_of_past (hpast : c.past = before ++ d :: after) :
    c.requests[before.length]? = some d.request := by
  simp [requests, hpast]

/-- A call that returns with the next answer is that far with it. -/
theorem Kept.finals_read (h : c.Kept isLog streams) (hpast : c.past = before ++ d :: after)
    (hreturned : d.status = .returned)
    (hbefore : finals isLog (before.flatMap Call.read) = before.length) :
    finals isLog d.read = 1 := by
  have hd : d.Shaped isLog streams := h.past d (by simp [hpast])
  unfold Call.Shaped at hd
  rw [hreturned] at hd
  obtain ⟨logs, x, hread, hlogs, hx⟩ := hd
  have hfinal : isLog x.2 = false := by
    cases hq : streams d.request with
    | true => simpa [hq] using hx
    | false =>
      have hmem : x ∈ d.read := by simp [hread]
      have hlines : x ∈ c.lines :=
        (h.read_prefix hpast).subset (List.mem_append_right _ hmem)
      obtain ⟨answer, hanswer, hm⟩ := served_of_mem_lines hlines
      rw [h.number hpast hmem, hbefore] at hanswer
      exact h.plain _ _ _ (request_of_past hpast) hanswer hq x.2 hm
  rw [hread, finals_concat_of_final hfinal, finals_of_logs hlogs]

theorem Kept.finals_eq (h : c.Kept isLog streams) (hpast : c.past = before ++ after)
    (hreturned : ∀ e ∈ before, e.status = .returned) :
    finals isLog (before.flatMap Call.read) = before.length := by
  induction before using List.reverseRecOn generalizing after with
  | nil => rfl
  | append_singleton before e ih =>
    rw [List.append_assoc] at hpast
    obtain ⟨hbefore, he⟩ := List.forall_mem_append.mp hreturned
    have hfinals := ih hpast hbefore
    rw [List.flatMap_append, finals_append, hfinals, List.flatMap_singleton,
      h.finals_read hpast (he e (List.mem_singleton.mpr rfl)) hfinals, List.length_append,
      List.length_singleton]

/-- The calls before a call that has returned have returned or were abandoned. -/
theorem Kept.returned (h : c.Kept isLog streams) (hpast : c.past = before ++ d :: after)
    (hreturned : d.status = .returned) (hleft : ∀ e ∈ before, e.status ≠ .abandoned) :
    ∀ e ∈ before, e.status = .returned := by
  intro e he
  have hbroken := h.not_broken hpast hreturned e he
  cases hs : e.status with
  | returned => rfl
  | abandoned => exact absurd hs (hleft e he)
  | broken => exact absurd hs hbroken

/-- A call that has returned has its own answer exactly when no call before it was abandoned. -/
theorem Kept.own_iff (h : c.Kept isLog streams) (hpast : c.past = before ++ d :: after)
    (hreturned : d.status = .returned) :
    Own before.length d ↔ ∀ e ∈ before, e.status ≠ .abandoned := by
  have hshaped : ∀ e ∈ before, e.Shaped isLog streams := fun e he =>
    h.past e (hpast ▸ List.mem_append_left _ he)
  constructor
  · intro hown e he hstatus
    have hd : d.Shaped isLog streams := h.past d (by simp [hpast])
    unfold Call.Shaped at hd
    rw [hreturned] at hd
    obtain ⟨logs, x, hread, -, -⟩ := hd
    have hmem : x ∈ d.read := by simp [hread]
    have hnumber := h.number hpast hmem
    rw [hown x hmem] at hnumber
    have hlt := finals_lt_length hshaped he hstatus
    omega
  · intro hleft x hx
    rw [h.number hpast hx, h.finals_eq hpast (h.returned hpast hreturned hleft)]

theorem filter_number (served : List (List μ)) (k : ℕ) :
    (number served).filter (fun x => x.1 = k) = (served[k]?.getD []).map (k, ·) := by
  unfold number
  induction served using List.reverseRecOn with
  | nil => simp
  | append_singleton served answer ih =>
    rw [List.zipIdx_append, List.flatMap_append, List.filter_append, ih]
    rcases Nat.lt_trichotomy k served.length with hk | rfl | hk
    · have hne : served.length ≠ k := by omega
      simp [List.getElem?_append_left hk, hne]
    · simp
    · have hne : served.length ≠ k := by omega
      have hnone : served[k]? = none := List.getElem?_eq_none (by omega)
      have hnone' : (served ++ [answer])[k]? = none := List.getElem?_eq_none (by simp; omega)
      simp [hne, hnone, hnone']

/-- A call that has returned with its own answer has read all of it, and nothing else. -/
theorem Kept.served_of_own (h : c.Kept isLog streams) (hpast : c.past = before ++ d :: after)
    (hreturned : d.status = .returned) (hown : Own before.length d) :
    c.served[before.length]? = some (d.read.map Prod.snd) := by
  have hbefore := h.returned hpast hreturned ((h.own_iff hpast hreturned).mp hown)
  have hlast : d.read ≠ [] := by
    have hfinals := h.finals_read hpast hreturned (h.finals_eq hpast hbefore)
    intro hnil
    simp [hnil, finals] at hfinals
  obtain ⟨x, hx⟩ := List.exists_mem_of_ne_nil _ hlast
  obtain ⟨answer, hanswer, -⟩ :=
    served_of_mem_lines ((h.read_prefix hpast).subset (List.mem_append_right _ hx))
  rw [hown x hx] at hanswer
  -- the lines of the answer are those of the call
  obtain ⟨rest, hlines⟩ := h.read_prefix hpast
  have hfilter : c.lines.filter (fun y => y.1 = before.length) =
      answer.map (before.length, ·) := by
    rw [lines, filter_number, hanswer, Option.getD_some]
  have hno : (before.flatMap Call.read).filter (fun y => y.1 = before.length) = [] := by
    rw [List.filter_eq_nil_iff]
    intro y hy
    obtain ⟨e, he, hye⟩ := List.mem_flatMap.mp hy
    obtain ⟨l, l', rfl⟩ := List.append_of_mem he
    have hnumber := h.number (by rw [hpast, List.append_assoc, List.cons_append]) hye
    have hle := finals_le_length fun e he =>
      h.past e (hpast ▸ List.mem_append_left _ (List.mem_append_left _ he))
    simp only [List.length_append, List.length_cons, decide_eq_true_eq]
    omega
  have hrest : rest.filter (fun y => y.1 = before.length) = [] := by
    rw [List.filter_eq_nil_iff]
    intro y hy
    obtain ⟨l, l', rfl⟩ := List.append_of_mem hy
    have hnumber := h.numbered (before.flatMap Call.read ++ d.read ++ l) y
      ⟨l', by rw [← hlines]; simp⟩
    rw [finals_append, finals_append, h.finals_eq hpast hbefore,
      h.finals_read hpast hreturned (h.finals_eq hpast hbefore)] at hnumber
    simp only [decide_eq_true_eq]
    omega
  rw [← hlines, List.filter_append, List.filter_append, hno, hrest, List.nil_append,
    List.append_nil, List.filter_eq_self.mpr fun y hy => decide_eq_true (hown y hy)] at hfilter
  rw [hanswer, hfilter]
  simp [Function.comp_def]

end Conn

end Kept

end MbTools.Calls
