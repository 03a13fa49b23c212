import MbTools.Lib.Chunks
import MbTools.Lib.Decimal
import MbTools.Lib.Percent
import MbTools.Names.PutBody

/-! # The names service over HTTP

From the line and the headers of a request to the verb that handles it, and back to the answers
that are sent.
-/

namespace MbTools.Names

open Chunks Store Text

inductive Method where
  | get
  | put
  | delete
  deriving DecidableEq, Repr

/-- A request that `http.server` has parsed: its path, its `Content-Length`, and what is still to
come behind its headers. -/
structure HttpRequest where
  method : Method
  path : Str
  contentLength : Option String
  rfile : Source UInt8

/-- What a handler's thread meets on its way: the value of a body, the times of its two sections and
the other threads between them, whether the callbacks raise, and whether the `n`-th answer cannot be
sent. -/
structure HttpWorld where
  loads : List UInt8 → Body
  now : ℕ
  later : ℕ
  meanwhile : Store → Store
  setRaises : Bool
  clearRaises : Bool
  sendRaises : ℕ → Bool

/-- The answers that were begun, by their status, the table after them and what was not read. -/
structure Exchange where
  answers : List ℕ
  store : Store
  rfile : Source UInt8

def maxBody : ℕ := 64 * 1024

def namePrefix : Str := "/names/".toList

/-- `_extract_name`; a segment behind the prefix, unescaped. -/
def extractName (path : Str) : Option Str :=
  let path := path.takeWhile (· ≠ '?')
  if namePrefix.isPrefixOf path then
    let raw := path.drop namePrefix.length
    if raw.isEmpty || raw.contains '/' then none else some (Percent.unquote raw)
  else none

/-- How `_read_body` ends. -/
inductive ReadBody where
  | body (bytes : List UInt8)
  | refused (status : ℕ)
  /-- The connection is reset. -/
  | raised
  deriving DecidableEq, Repr

def readBody (r : HttpRequest) : ReadBody × Source UInt8 :=
  match Json.parseInt ((r.contentLength.filter (· ≠ "")).getD "0") with
  | none => (.refused 400, r.rfile)
  | some length =>
    if length < 0 then (.refused 400, r.rfile)
    else if maxBody < length then (.refused 413, r.rfile)
    else if length = 0 then (.body [], r.rfile)
    else
      match readExact length.toNat r.rfile with
      | (some bytes, rfile) => (.body bytes, rfile)
      | (none, rfile) => (.raised, rfile)

section Handlers

variable (w : HttpWorld) (s : Store)

/-- A callback that raises is an exception of the handler, which no answer is known of. -/
def published (raises : Bool) : Option ℕ := if raises then none else some 200

/-- `handle_get` to its end. -/
def runGet (name : String) : Option ℕ × Store :=
  match handleGet s w.now name with
  | .error _ => (some 400, s)
  | .ok (s', some (.publishSet _)) => (published w.setRaises, s')
  | .ok (s', _) => (some 200, s')

/-- `handle_put` to its end. -/
def runPut (name : String) (bytes : List UInt8) : Option ℕ × Store :=
  match handlePutBody s w.now name (w.loads bytes) with
  | .error .invalidRequest => (some 400, s)
  | .error .raised => (none, s)
  | .ok (s', _) => (published w.setRaises, s')

/-- `handle_delete` to its end, with the other threads between its two sections. -/
def runDelete (name : String) : Option ℕ × Store :=
  match handleDelete s name with
  | .error _ => (some 400, s)
  | .ok (s', _) =>
    if w.clearRaises then (none, s')
    else
      match (w.meanwhile s').resolve w.later name with
      | .ok (s', _) => (published w.setRaises, s')
      | .error _ => (none, w.meanwhile s')

/-- `_dispatch`. An answer that refuses a body is sent inside the `try`, and is followed by another
one where it cannot be sent. -/
def dispatch (r : HttpRequest) : Exchange :=
  let answered (rfile : Source UInt8) (x : Option ℕ × Store) : Exchange :=
    ⟨[x.1.getD 500], x.2, rfile⟩
  match extractName r.path with
  | none => ⟨[404], s, r.rfile⟩
  | some name =>
    match r.method with
    | .get => answered r.rfile (runGet w s (String.ofList name))
    | .delete => answered r.rfile (runDelete w s (String.ofList name))
    | .put =>
      match readBody r with
      | (.body bytes, rfile) => answered rfile (runPut w s (String.ofList name) bytes)
      | (.raised, rfile) => answered rfile (none, s)
      | (.refused status, rfile) =>
        ⟨if w.sendRaises 0 then [status, 500] else [status], s, rfile⟩

end Handlers

/-- A `PUT` for a name, escaped by an encoder, with a body of so many bytes. -/
def putRequest (safe : UInt8 → Bool) (name query : Str) (length : ℕ) (rfile : Source UInt8) :
    HttpRequest where
  method := .put
  path := namePrefix ++ Percent.quote safe name ++ query
  contentLength := some (toString length)
  rfile := rfile

/-- An encoder for one segment of a path. -/
structure Segment (safe : UInt8 → Bool) : Prop where
  plain : Percent.Plain safe
  slash : safe 47 = false
  question : safe 63 = false

section Paths

variable {safe : UInt8 → Bool} {name query : Str}

theorem ne_of_mem_quote {c : Char} {b : UInt8} (hs : Percent.Plain safe) (hb : safe b = false)
    (hp : Char.ofNat b.toNat ≠ '%') (hx : hexDigit (Char.ofNat b.toNat) = none)
    (hn : (Char.ofNat b.toNat).toNat = b.toNat) (h : c ∈ Percent.quote safe name) :
    c ≠ Char.ofNat b.toNat := by
  rintro rfl
  rcases (Percent.mem_quote hs h).2 with hc | ⟨n, hc⟩ | ⟨b', hb', hc⟩
  · exact hp hc
  · rw [hx] at hc
    cases hc
  · rw [hn, UInt8.toNat_inj] at hc
    rw [← hc, hb] at hb'
    cases hb'

theorem quote_ne_nil (h : name ≠ []) : Percent.quote safe name ≠ [] := by
  intro hq
  have henc : Utf8.encode name = [] := by
    by_contra hne
    obtain ⟨b, bs, hb⟩ := List.exists_cons_of_ne_nil hne
    rw [Percent.quote, hb, List.flatMap_cons] at hq
    split at hq
    · cases hq
    · cases hq
  have hdec := Utf8.decode?_encode name
  rw [henc] at hdec
  exact h (Option.some.inj (hdec.symm.trans (Utf8.decode?_encode [])))

theorem extractName_quote (hs : Segment safe) (hne : name ≠ [])
    (hq : query = [] ∨ query.head? = some '?') :
    extractName (namePrefix ++ Percent.quote safe name ++ query) = some name := by
  have hquestion : ∀ c ∈ namePrefix ++ Percent.quote safe name, (c ≠ '?' : Bool) = true := by
    intro c hc
    rw [decide_eq_true_iff]
    rcases List.mem_append.mp hc with hc | hc
    · rintro rfl
      revert hc
      decide
    · exact ne_of_mem_quote (b := 63) hs.plain hs.question (by decide) (by decide) rfl hc
  have htake : (namePrefix ++ Percent.quote safe name ++ query).takeWhile (· ≠ '?') =
      namePrefix ++ Percent.quote safe name := by
    rw [List.takeWhile_append_of_pos hquestion]
    rcases hq with rfl | hq
    · simp
    · obtain ⟨rest, rfl⟩ := List.head?_eq_some_iff.mp hq
      simp
  have hslash : (Percent.quote safe name).contains '/' = false := by
    rw [← Bool.not_eq_true, List.contains_iff_mem]
    exact fun hc =>
      ne_of_mem_quote (b := 47) hs.plain hs.slash (by decide) (by decide) rfl hc rfl
  have hnil : (Percent.quote safe name).isEmpty = false := by
    rw [← Bool.not_eq_true, List.isEmpty_iff]
    exact quote_ne_nil hne
  unfold extractName
  dsimp only
  rw [htake, if_pos (by simp), List.drop_left, hnil, hslash, Percent.unquote_quote hs.plain]
  rfl

end Paths

section Bodies

variable {r : HttpRequest} {body trailing bytes : List UInt8}

theorem parseInt_length (hle : body.length ≤ maxBody) :
    Json.parseInt (toString body.length) = some (body.length : ℤ) := by
  refine Json.parseInt_toString ?_
  calc body.length ≤ maxBody := hle
    _ < 10 ^ 5 := by decide
    _ ≤ 10 ^ Json.maxStrDigits := Nat.pow_le_pow_right (by decide) (by decide)

/-- A body that is announced by its length is read to its last byte and no further. -/
theorem readBody_spec (hl : r.contentLength = some (toString body.length))
    (hle : body.length ≤ maxBody) (hi : r.rfile.items = body ++ trailing) :
    ∃ rfile, readBody r = (.body body, rfile) ∧ rfile.items = trailing := by
  have hne : toString body.length ≠ "" := by
    intro h
    have hnum := parseInt_length hle
    rw [h] at hnum
    cases hnum
  have hparse : Json.parseInt ((r.contentLength.filter (· ≠ "")).getD "0") =
      some (body.length : ℤ) := by
    rw [hl, Option.filter_some, if_pos (decide_eq_true hne)]
    exact parseInt_length hle
  unfold readBody
  rw [hparse]
  dsimp only
  rw [if_neg (by omega), if_neg (by omega)]
  split
  · rename_i hzero
    obtain rfl : body = [] := List.length_eq_zero_iff.mp (by omega)
    exact ⟨r.rfile, rfl, hi⟩
  · have htakes := takes_readExact body.length r.rfile
    obtain ⟨got, rfile, hr⟩ : ∃ got rfile, readExact body.length r.rfile = (got, rfile) :=
      ⟨_, _, rfl⟩
    rw [hr] at htakes
    have hgot := htakes.got
    have hleft := htakes.left
    rw [hi, if_neg (by simp), List.take_left] at hgot
    rw [hi, List.drop_left] at hleft
    dsimp only at hgot hleft
    refine ⟨rfile, ?_, hleft⟩
    rw [Int.toNat_natCast, hr, hgot]

/-- However a body is announced, no more than the most of it is taken. -/
theorem readBody_takes (r : HttpRequest) : ∃ taken,
    r.rfile.items = taken ++ (readBody r).2.items ∧ taken.length ≤ maxBody := by
  have hnone : ∃ taken, r.rfile.items = taken ++ r.rfile.items ∧ taken.length ≤ maxBody :=
    ⟨[], rfl, Nat.zero_le _⟩
  unfold readBody
  split
  · exact hnone
  · rename_i length _
    split
    · exact hnone
    · split
      · exact hnone
      · rename_i hneg hle
        split
        · exact hnone
        · have htakes := takes_readExact length.toNat r.rfile
          refine ⟨r.rfile.items.take length.toNat, ?_, ?_⟩
          · split
            · rename_i hr
              rw [hr] at htakes
              rw [htakes.left, List.take_append_drop]
            · rename_i hr
              rw [hr] at htakes
              rw [htakes.left, List.take_append_drop]
          · rw [List.length_take]
            omega

end Bodies

section Tables

variable {w : HttpWorld} {s : Store} {name : String}

/-- The names that are not this one are as they were. -/
def Spares (name : String) (s s' : Store) : Prop :=
  ∀ k, Naming.validate name ≠ .ok k → s'.pairOf k = s.pairOf k

theorem Spares.of_writes {s' : Store} {rest : Rest}
    (hv : rest.about = (Naming.validate name).toOption) (h : Writes s s' rest) :
    Spares name s s' := by
  obtain ⟨n, hn, -, hk⟩ := h
  intro k hne
  refine hk k ?_
  rintro rfl
  rw [hv] at hn
  cases hval : Naming.validate name with
  | error e =>
    rw [hval] at hn
    cases hn
  | ok m =>
    rw [hval] at hn hne
    exact hne (congrArg Except.ok (Option.some.inj hn))

theorem Spares.trans {s' s'' : Store} (h : Spares name s s') (h' : Spares name s' s'') :
    Spares name s s'' := fun k hk => (h' k hk).trans (h k hk)

theorem spares_of_resolve {now : ℕ} {s' : Store} {e : Entry}
    (h : s.resolve now name = .ok (s', e)) : Spares name s s' := by
  cases hv : Naming.validate name with
  | error err =>
    rw [resolve_of_invalid hv] at h
    cases h
  | ok n =>
    obtain ⟨t, e', hr, hw, hname⟩ := @resolve_writes s now name n hv
    obtain ⟨rfl, rfl⟩ := Prod.mk.inj (Except.ok.inj (hr.symm.trans h))
    exact .of_writes (by rw [hv, Rest.about, hname]; rfl) hw

theorem spares_of_handleGet {now : ℕ} {s' : Store} {rest : Option Rest}
    (h : handleGet s now name = .ok (s', rest)) : Spares name s s' := by
  unfold handleGet at h
  cases hg : s.getName name with
  | error err => simp [hg, bind, Except.bind] at h
  | ok existing =>
    cases hr : s.resolve now name with
    | error err => simp [hg, hr, bind, Except.bind] at h
    | ok x =>
      simp only [hg, hr, bind, Except.bind, pure, Except.pure, Except.ok.injEq,
        Prod.mk.injEq] at h
      obtain ⟨rfl, -⟩ := h
      exact spares_of_resolve hr

theorem spares_of_handlePutBody {now : ℕ} {s' : Store} {rest : Option Rest} {b : Body}
    (h : handlePutBody s now name b = .ok (s', rest)) : Spares name s s' := by
  obtain ⟨body, hput⟩ : ∃ body, handlePut s now name body = .ok (s', rest) := by
    unfold handlePutBody at h
    split at h
    · exact ⟨_, h⟩
    · exact ⟨_, h⟩
    · cases h
  obtain ⟨p, -, hset⟩ := handlePut_spec hput
  obtain ⟨n, hv, hs, -⟩ := setThenPublish_spec hset
  exact .of_writes (by rw [hv]; rfl) (writes_of_set hv hs)

theorem spares_of_clear {s' : Store} (h : s.clear name = .ok s') : Spares name s s' := by
  have habout : (Rest.publishClear name).about = (Naming.validate name).toOption := rfl
  exact .of_writes habout (writes_of_clear habout h)

/-- What a verb refuses it has not touched. -/
structure Refuses (s : Store) (x : Option ℕ × Store) : Prop where
  untouched : x.1 = some 400 → x.2 = s
  status : x.1 = none ∨ x.1 = some 200 ∨ x.1 = some 400

theorem Refuses.of_store (status : Option ℕ) (h : status = none ∨ status = some 400) :
    Refuses s (status, s) := ⟨fun _ => rfl, h.imp_right .inr⟩

theorem Refuses.of_published (raises : Bool) (s' : Store) : Refuses s (published raises, s') := by
  cases raises with
  | true => exact ⟨nofun, .inl rfl⟩
  | false => exact ⟨nofun, .inr (.inl rfl)⟩

theorem runGet_spec (w : HttpWorld) (s : Store) (name : String) :
    Refuses s (runGet w s name) ∧ Spares name s (runGet w s name).2 := by
  unfold runGet
  split
  · exact ⟨.of_store _ (.inr rfl), fun _ _ => rfl⟩
  · rename_i s' e h
    exact ⟨.of_published _ s', spares_of_handleGet h⟩
  · rename_i s' rest _ h
    exact ⟨.of_published false s', spares_of_handleGet h⟩

theorem runPut_spec (w : HttpWorld) (s : Store) (name : String) (bytes : List UInt8) :
    Refuses s (runPut w s name bytes) ∧ Spares name s (runPut w s name bytes).2 := by
  unfold runPut
  split
  · exact ⟨.of_store _ (.inr rfl), fun _ _ => rfl⟩
  · exact ⟨.of_store _ (.inl rfl), fun _ _ => rfl⟩
  · rename_i s' rest h
    exact ⟨.of_published _ s', spares_of_handlePutBody h⟩

theorem clear_of_handleDelete {s' : Store} {rest : Option Rest}
    (h : handleDelete s name = .ok (s', rest)) : s.clear name = .ok s' := by
  unfold handleDelete at h
  cases hc : s.clear name with
  | error err => simp [hc, bind, Except.bind] at h
  | ok t =>
    simp only [hc, bind, Except.bind, pure, Except.pure, Except.ok.injEq, Prod.mk.injEq] at h
    rw [h.1]

/-- A `DELETE` touches its own name only, with nothing between its sections. -/
theorem runDelete_spec (w : HttpWorld) (s : Store) (name : String) :
    Refuses s (runDelete w s name) ∧
      ((∀ t, w.meanwhile t = t) → Spares name s (runDelete w s name).2) := by
  unfold runDelete
  split
  · exact ⟨.of_store _ (.inr rfl), fun _ _ _ => rfl⟩
  · rename_i s' rest h
    have hspares := spares_of_clear (clear_of_handleDelete h)
    split
    · exact ⟨.of_published true s', fun _ => hspares⟩
    · split
      · rename_i t e hr
        refine ⟨.of_published _ t, fun hm => ?_⟩
        rw [hm] at hr
        exact hspares.trans (spares_of_resolve hr)
      · refine ⟨.of_published true _, fun hm => ?_⟩
        rw [hm]
        exact hspares

/-- Without a callback that raises a `PUT` is answered as `answerPut` says. -/
theorem runPut_eq (hw : w.setRaises = false) (bytes : List UInt8) :
    (runPut w s name bytes).1.getD 500 = (answerPut s w.now name (w.loads bytes)).status ∧
      (runPut w s name bytes).2 = (answerPut s w.now name (w.loads bytes)).store := by
  unfold runPut answerPut
  cases handlePutBody s w.now name (w.loads bytes) with
  | error e => cases e <;> exact ⟨rfl, rfl⟩
  | ok x =>
    obtain ⟨s', rest⟩ := x
    rw [hw]
    exact ⟨rfl, rfl⟩

end Tables

/-- The pair that a `PUT` gives for any name, escaped by any encoder, is what its handler makes of
that name and of exactly the bytes that were announced, however they arrive; what stands behind them
is not read. -/
theorem http_put_is_answerPut {safe : UInt8 → Bool} (hs : Segment safe) (w : HttpWorld)
    (hw : w.setRaises = false) (s : Store) {name query : Str} (hne : name ≠ [])
    (hq : query = [] ∨ query.head? = some '?') {body trailing : List UInt8} {rfile : Source UInt8}
    (hle : body.length ≤ maxBody) (hi : rfile.items = body ++ trailing) :
    ∃ left, dispatch w s (putRequest safe name query body.length rfile) =
        ⟨[(answerPut s w.now (String.ofList name) (w.loads body)).status],
          (answerPut s w.now (String.ofList name) (w.loads body)).store, left⟩ ∧
      left.items = trailing := by
  obtain ⟨left, hread, hleft⟩ :=
    readBody_spec (r := putRequest safe name query body.length rfile) rfl hle hi
  refine ⟨left, ?_, hleft⟩
  have hname : extractName (putRequest safe name query body.length rfile).path = some name :=
    extractName_quote hs hne hq
  obtain ⟨hstatus, hstore⟩ := @runPut_eq w s (String.ofList name) hw body
  rw [← hstatus, ← hstore]
  unfold dispatch
  rw [hname, hread]
  rfl

theorem segment_letters : Segment fun b => 97 ≤ b && b ≤ 122 where
  plain := by
    intro b hb
    rw [Bool.and_eq_true, decide_eq_true_iff, decide_eq_true_iff, UInt8.le_iff_toNat_le,
      UInt8.le_iff_toNat_le] at hb
    obtain ⟨hlo, hhi⟩ := hb
    change 97 ≤ b.toNat at hlo
    change b.toNat ≤ 122 at hhi
    omega
  slash := rfl
  question := rfl

/-- A body of three bytes, which arrives in two pieces with a line behind it. -/
theorem http_put_is_answerPut_vevov :
    let pair : Json := .obj [("channel", .int 3), ("group", .int 4)]
    let w : HttpWorld := ⟨fun bytes => ⟨if bytes = [1, 2, 3] then some pair else none, .done⟩, 5, 6,
      id, false, false, fun _ => false⟩
    ∃ left, dispatch w Store.empty (putRequest (fun b => 97 ≤ b && b ≤ 122) "vevov".toList
        "?a=b".toList 3 (.closing [(1, [2]), (3, [13, 10])])) =
      ⟨[200], { Store.empty with
        nameRegistry := Store.empty.nameRegistry.put (setEntry "vevov" (3, 4) 5) }, left⟩ ∧
      left.items = [13, 10] :=
  http_put_is_answerPut segment_letters _ rfl Store.empty (by decide) (.inr rfl)
    (show ([1, 2, 3] : List UInt8).length ≤ maxBody by decide) rfl

/-- What a request comes to at most. -/
structure Contained (w : HttpWorld) (s : Store) (r : HttpRequest) (x : Exchange) : Prop where
  /-- It is answered, and a second time only where a body was refused and that was not sent. -/
  once : (∃ status, x.answers = [status]) ∨ r.method = .put ∧ w.sendRaises 0 = true ∧
    (x.answers = [400, 500] ∨ x.answers = [413, 500])
  status : ∀ status ∈ x.answers.head?, status ∈ [200, 400, 404, 413, 500]
  refused : ∀ status ∈ x.answers.head?, status ∈ [400, 404, 413] → x.store = s
  takes : ∃ taken, r.rfile.items = taken ++ x.rfile.items ∧ taken.length ≤ maxBody
  /-- With nothing between the sections of a `DELETE` only the name in the path is touched. -/
  spares : (∀ t, w.meanwhile t = t) → ∀ k, (∀ name, extractName r.path = some name →
    Naming.validate (String.ofList name) ≠ .ok k) → x.store.pairOf k = s.pairOf k

section Containment

variable {w : HttpWorld} {s : Store} {r : HttpRequest} {name : Str} {rfile : Source UInt8}

theorem contained_of_verb {x : Option ℕ × Store} (hname : extractName r.path = some name)
    (hx : Refuses s x) (hs : (∀ t, w.meanwhile t = t) → Spares (String.ofList name) s x.2)
    (ht : ∃ taken, r.rfile.items = taken ++ rfile.items ∧ taken.length ≤ maxBody) :
    Contained w s r ⟨[x.1.getD 500], x.2, rfile⟩ where
  once := .inl ⟨_, rfl⟩
  status := by
    rcases hx.status with h | h | h <;> simp [h]
  refused := by
    intro status hstatus hmem
    refine hx.untouched ?_
    rcases hx.status with h | h | h
    · simp [h] at hstatus
      simp [← hstatus] at hmem
    · simp [h] at hstatus
      simp [← hstatus] at hmem
    · exact h
  takes := ht
  spares := fun hm k hk => hs hm k (hk name hname)

theorem contained_of_refusal {answers : List ℕ}
    (ho : (∃ status, answers = [status]) ∨ r.method = .put ∧ w.sendRaises 0 = true ∧
      (answers = [400, 500] ∨ answers = [413, 500]))
    (hs : ∀ status ∈ answers.head?, status ∈ [200, 400, 404, 413, 500])
    (ht : ∃ taken, r.rfile.items = taken ++ rfile.items ∧ taken.length ≤ maxBody) :
    Contained w s r ⟨answers, s, rfile⟩ :=
  ⟨ho, hs, fun _ _ _ => rfl, ht, fun _ _ _ => rfl⟩

theorem status_of_refused {status : ℕ} (h : readBody r = (.refused status, rfile)) :
    status = 400 ∨ status = 413 := by
  unfold readBody at h
  split at h
  · obtain ⟨⟨⟩, -⟩ := Prod.mk.inj h
    exact .inl rfl
  · split at h
    · obtain ⟨⟨⟩, -⟩ := Prod.mk.inj h
      exact .inl rfl
    · split at h
      · obtain ⟨⟨⟩, -⟩ := Prod.mk.inj h
        exact .inr rfl
      · split at h
        · cases h
        · split at h
          · cases h
          · cases h

/-- The answer to a body that is refused, with another one where it cannot be sent. -/
theorem contained_of_refused {status : ℕ} (hm : r.method = .put)
    (hstatus : status = 400 ∨ status = 413)
    (ht : ∃ taken, r.rfile.items = taken ++ rfile.items ∧ taken.length ≤ maxBody) :
    Contained w s r ⟨if w.sendRaises 0 then [status, 500] else [status], s, rfile⟩ := by
  by_cases hsend : w.sendRaises 0 = true
  · rw [if_pos hsend]
    refine contained_of_refusal (.inr ⟨hm, hsend, ?_⟩) ?_ ht
    · rcases hstatus with rfl | rfl
      · exact .inl rfl
      · exact .inr rfl
    · rcases hstatus with rfl | rfl <;> simp
  · rw [if_neg hsend]
    refine contained_of_refusal (.inl ⟨status, rfl⟩) ?_ ht
    rcases hstatus with rfl | rfl <;> simp

end Containment

/-- Whatever is asked of it, the service answers, touches no name but the one in the path, nothing
at all where it refuses, and takes no more of a body than the most. -/
theorem http_request_is_contained (w : HttpWorld) (s : Store) (r : HttpRequest) :
    Contained w s r (dispatch w s r) := by
  have hwhole : ∃ taken, r.rfile.items = taken ++ r.rfile.items ∧ taken.length ≤ maxBody :=
    ⟨[], rfl, Nat.zero_le _⟩
  have htakes := readBody_takes r
  unfold dispatch
  cases hname : extractName r.path with
  | none => exact contained_of_refusal (.inl ⟨404, rfl⟩) (by simp) hwhole
  | some name =>
    cases hm : r.method with
    | get =>
      obtain ⟨hx, hs⟩ := runGet_spec w s (String.ofList name)
      exact contained_of_verb hname hx (fun _ => hs) hwhole
    | delete =>
      obtain ⟨hx, hs⟩ := runDelete_spec w s (String.ofList name)
      exact contained_of_verb hname hx hs hwhole
    | put =>
      obtain ⟨got, rfile, hr⟩ : ∃ got rfile, readBody r = (got, rfile) := ⟨_, _, rfl⟩
      rw [hr] at htakes ⊢
      cases got with
      | body bytes =>
        obtain ⟨hx, hs⟩ := runPut_spec w s (String.ofList name) bytes
        exact contained_of_verb hname hx (fun _ => hs) htakes
      | raised =>
        exact contained_of_refusal (.inl ⟨500, rfl⟩) (by simp) htakes
      | refused status => exact contained_of_refused hm (status_of_refused hr) htakes

end MbTools.Names
