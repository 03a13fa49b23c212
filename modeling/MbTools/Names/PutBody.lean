import MbTools.Names.Requests

/-! # The body of a `PUT`

Which bodies assign a pair. The two numbers go through `int` before they are
compared with their ranges, so what `int` makes of a value decides, and so do
the exceptions that it and the decoder raise.
-/

namespace MbTools.Names

open Store

/-- How far `json.loads` gets with a body. -/
inductive Decoding where
  | done
  /-- There is an integer with more digits than `int` reads, which is a `ValueError`. -/
  | tooManyDigits
  /-- The values are nested deeper than the interpreter goes, which is a `RecursionError`. -/
  | tooDeep
  deriving DecidableEq, Repr

/-- The body of a request: the value that it is the text of, if it is JSON, and how far the decoder
gets. An empty body is read as an empty object. -/
structure Body where
  value : Option Json
  decoding : Decoding

/-- `NamesAPI.handle_put`, from the bytes of its body. -/
def handlePutBody (s : Store) (now : ℕ) (name : String) (b : Body) :
    Except OpError (Store × Option Rest) :=
  match b.decoding with
  | .done => handlePut s now name b.value
  | .tooManyDigits => handlePut s now name none
  | .tooDeep => .error .raised

/-- The status line of the answer, the table after it and the event it publishes. -/
structure Answer where
  status : ℕ
  store : Store
  event : Option Entry
  deriving DecidableEq

/-- The entry that is published as set. -/
def Rest.entry? : Rest → Option Entry
  | .publishSet e => some e
  | _ => none

/-- What the server answers; an exception that a handler lets through is a 500. -/
def answerPut (s : Store) (now : ℕ) (name : String) (b : Body) : Answer :=
  match handlePutBody s now name b with
  | .ok (s', rest) => ⟨200, s', rest.bind Rest.entry?⟩
  | .error .invalidRequest => ⟨400, s, none⟩
  | .error .raised => ⟨500, s, none⟩

/-- The body is an object whose channel and group are these integers, in their ranges. -/
structure Body.Gives (b : Body) (p : ℤ × ℤ) : Prop where
  fields : ∃ fields, b.value = some (.obj fields) ∧ (Json.obj fields).get "channel" = .int p.1 ∧
    (Json.obj fields).get "group" = .int p.2
  inRange : InRange p

/-- A pair that is given, for a name that is well formed, is stored; nothing else is, and all else
is refused as a bad request. -/
structure ExactPut (s : Store) (now : ℕ) (name : String) (b : Body) : Prop where
  stores : ∀ n p, Naming.validate name = .ok n → b.Gives p → answerPut s now name b =
    ⟨200, { s with nameRegistry := s.nameRegistry.put (setEntry n p now) },
      some (setEntry n p now)⟩
  refuses : (¬ ∃ n p, Naming.validate name = .ok n ∧ b.Gives p) →
    answerPut s now name b = ⟨400, s, none⟩

def isInfinite : Json → Bool
  | .float (.inf _) => true
  | _ => false

/-- Where both fields are there, neither is infinite where it is looked at, and what `int` makes a
pair of are integers already. -/
def Body.Plain (name : String) (b : Body) : Prop :=
  match b.decoding with
  | .done => ∀ fields, b.value = some (.obj fields) →
      (Json.obj fields).hasKey "channel" = true → (Json.obj fields).hasKey "group" = true →
      let channel := (Json.obj fields).get "channel"
      let group := (Json.obj fields).get "group"
      isInfinite channel = false ∧ (channel.toInt.isOk = true → isInfinite group = false) ∧
        ((Naming.validate name).isOk = true → ∀ p, channel.toInt = .ok p.1 →
          group.toInt = .ok p.2 → InRange p → channel = .int p.1 ∧ group = .int p.2)
  | .tooManyDigits => (Naming.validate name).isOk = true → ¬ ∃ p, b.Gives p
  | .tooDeep => False

section Pairs

variable {v : Json} {n : ℤ} {p : ℤ × ℤ} {fields : List (String × Json)}

theorem wholeNumber_eq_ok_iff : wholeNumber v = .ok n ↔ v.toInt = .ok n := by
  unfold wholeNumber
  cases v.toInt with
  | ok m => simp
  | error e => cases e <;> simp

theorem wholeNumber_eq_overflow_iff : wholeNumber v = .error .overflow ↔ isInfinite v = true := by
  unfold wholeNumber
  cases v with
  | float x => cases x <;> simp [Json.toInt, isInfinite]
  | str t =>
    simp only [Json.toInt, isInfinite]
    cases Json.parseInt t <;> simp
  | _ => simp [Json.toInt, isInfinite]

theorem parsePair_obj (hc : (Json.obj fields).hasKey "channel" = true)
    (hg : (Json.obj fields).hasKey "group" = true) : parsePair (some (.obj fields)) = (do
      let channel ← wholeNumber ((Json.obj fields).get "channel")
      let group ← wholeNumber ((Json.obj fields).get "group")
      if ¬ (channelMin ≤ channel ∧ channel ≤ channelMax) then throw (.channel channel)
      if ¬ (groupMin ≤ group ∧ group ≤ groupMax) then throw (.group group)
      return (channel, group)) := by
  simp only [parsePair, hc, hg]
  rfl

theorem parsePair_of_ints (hc : (Json.obj fields).hasKey "channel" = true)
    (hg : (Json.obj fields).hasKey "group" = true)
    (hpc : wholeNumber ((Json.obj fields).get "channel") = .ok p.1)
    (hpg : wholeNumber ((Json.obj fields).get "group") = .ok p.2) :
    parsePair (some (.obj fields)) = .ok p ∧ InRange p ∨
      (parsePair (some (.obj fields)) = .error (.channel p.1) ∨
        parsePair (some (.obj fields)) = .error (.group p.2)) ∧ ¬ InRange p := by
  rw [parsePair_obj hc hg, hpc, hpg]
  unfold InRange
  by_cases h1 : channelMin ≤ p.1 ∧ p.1 ≤ channelMax
  · by_cases h2 : groupMin ≤ p.2 ∧ p.2 ≤ groupMax
    · exact Or.inl ⟨by simp [h1, h2, bind, Except.bind, pure, Except.pure], h1, h2⟩
    · refine Or.inr ⟨Or.inr ?_, fun h => h2 h.2⟩
      simp only [h1, h2, bind, Except.bind, throw, throwThe, MonadExceptOf.throw, pure, Except.pure]
      rfl
  · refine Or.inr ⟨Or.inl ?_, fun h => h1 h.1⟩
    simp [h1, bind, Except.bind, throw, throwThe, MonadExceptOf.throw]

theorem parsePair_eq_ok_iff (hc : (Json.obj fields).hasKey "channel" = true)
    (hg : (Json.obj fields).hasKey "group" = true) : parsePair (some (.obj fields)) = .ok p ↔
      ((Json.obj fields).get "channel").toInt = .ok p.1 ∧
        ((Json.obj fields).get "group").toInt = .ok p.2 ∧ InRange p := by
  rw [← wholeNumber_eq_ok_iff, ← wholeNumber_eq_ok_iff]
  constructor
  · intro h
    cases hpc : wholeNumber ((Json.obj fields).get "channel") with
    | error e => simp [parsePair_obj hc hg, hpc, bind, Except.bind] at h
    | ok c =>
      cases hpg : wholeNumber ((Json.obj fields).get "group") with
      | error e => simp [parsePair_obj hc hg, hpc, hpg, bind, Except.bind] at h
      | ok g =>
        rcases parsePair_of_ints (p := (c, g)) hc hg hpc hpg with ⟨he, hr⟩ | ⟨he | he, -⟩
        · obtain rfl : (c, g) = p := Except.ok.inj (he.symm.trans h)
          exact ⟨rfl, rfl, hr⟩
        · cases he.symm.trans h
        · cases he.symm.trans h
  · rintro ⟨hpc, hpg, hr⟩
    rcases parsePair_of_ints hc hg hpc hpg with ⟨he, -⟩ | ⟨-, hn⟩
    · exact he
    · exact absurd hr hn

/-- An infinite channel is never caught, an infinite group where the channel is converted. -/
theorem parsePair_eq_overflow_iff (hc : (Json.obj fields).hasKey "channel" = true)
    (hg : (Json.obj fields).hasKey "group" = true) :
    parsePair (some (.obj fields)) = .error .overflow ↔
      isInfinite ((Json.obj fields).get "channel") = true ∨
        ((Json.obj fields).get "channel").toInt.isOk = true ∧
          isInfinite ((Json.obj fields).get "group") = true := by
  rw [← wholeNumber_eq_overflow_iff, ← wholeNumber_eq_overflow_iff]
  cases hpc : wholeNumber ((Json.obj fields).get "channel") with
  | error e =>
    have hno : ((Json.obj fields).get "channel").toInt.isOk = false := by
      cases hi : ((Json.obj fields).get "channel").toInt with
      | error _ => rfl
      | ok n => cases hpc.symm.trans (wholeNumber_eq_ok_iff.mpr hi)
    simp [parsePair_obj hc hg, hpc, hno, bind, Except.bind]
  | ok c =>
    rw [wholeNumber_eq_ok_iff.mp hpc]
    cases hpg : wholeNumber ((Json.obj fields).get "group") with
    | error e => simp [parsePair_obj hc hg, hpc, hpg, bind, Except.bind, Except.isOk, Except.toBool]
    | ok g =>
      rcases parsePair_of_ints (p := (c, g)) hc hg hpc hpg with ⟨he, -⟩ | ⟨he | he, -⟩ <;>
        simp [he]

theorem parsePair_of_missing (h : ¬ ((Json.obj fields).hasKey "channel" = true ∧
    (Json.obj fields).hasKey "group" = true)) :
    parsePair (some (.obj fields)) = .error .missing := by
  simp only [parsePair]
  rw [if_pos]
  simpa [Bool.or_eq_true, imp_iff_not_or] using h

end Pairs

section Answers

variable {s : Store} {now : ℕ} {name n : String} {b : Body} {p : ℤ × ℤ}
  {fields : List (String × Json)}

theorem answerPut_of_ok (hd : b.decoding = .done) (hp : parsePair b.value = .ok p)
    (hv : Naming.validate name = .ok n) : answerPut s now name b =
      ⟨200, { s with nameRegistry := s.nameRegistry.put (setEntry n p now) },
        some (setEntry n p now)⟩ := by
  have hset : s.set now name p.1 p.2 =
      .ok { s with nameRegistry := s.nameRegistry.put (setEntry n p now) } :=
    set_eq_ok_iff.mpr ⟨n, hv, rfl⟩
  simp only [answerPut, handlePutBody, hd, handlePut, hp, setThenPublish, hv, hset,
    Option.bind_some, Rest.entry?]

theorem answerPut_of_badName (hd : b.decoding = .done) (hp : parsePair b.value = .ok p)
    (hv : (Naming.validate name).isOk = false) : answerPut s now name b = ⟨400, s, none⟩ := by
  cases hn : Naming.validate name with
  | ok n => simp [hn, Except.isOk, Except.toBool] at hv
  | error e => simp only [answerPut, handlePutBody, hd, handlePut, hp, setThenPublish, hn]

theorem answerPut_of_overflow (hd : b.decoding = .done)
    (hp : parsePair b.value = .error .overflow) : answerPut s now name b = ⟨500, s, none⟩ := by
  simp only [answerPut, handlePutBody, hd, handlePut, hp]

theorem answerPut_of_error {e : PairError} (hd : b.decoding = .done)
    (hp : parsePair b.value = .error e) (he : e ≠ .overflow) :
    answerPut s now name b = ⟨400, s, none⟩ := by
  simp only [answerPut, handlePutBody, hd, handlePut, hp]

theorem answerPut_of_digits (hd : b.decoding = .tooManyDigits) :
    answerPut s now name b = ⟨400, s, none⟩ := by
  simp only [answerPut, handlePutBody, hd]
  rfl

theorem answerPut_of_depth (hd : b.decoding = .tooDeep) :
    answerPut s now name b = ⟨500, s, none⟩ := by
  simp only [answerPut, handlePutBody, hd]

theorem exactPut_of_refused (h : answerPut s now name b = ⟨400, s, none⟩) :
    ExactPut s now name b ↔ ((Naming.validate name).isOk = true → ¬ ∃ p, b.Gives p) := by
  constructor
  · rintro hexact hv ⟨p, hp⟩
    cases hn : Naming.validate name with
    | error e => simp [hn, Except.isOk, Except.toBool] at hv
    | ok n =>
      have hs := hexact.stores n p hn hp
      rw [h] at hs
      cases hs
  · intro hno
    refine ⟨fun n p hn hp => ?_, fun _ => h⟩
    exact absurd ⟨p, hp⟩ (hno (by rw [hn]; rfl))

theorem not_exactPut_of_raised (h : answerPut s now name b = ⟨500, s, none⟩) :
    ¬ ExactPut s now name b := by
  intro hexact
  by_cases hgiven : ∃ n p, Naming.validate name = .ok n ∧ b.Gives p
  · obtain ⟨n, p, hn, hp⟩ := hgiven
    have hs := hexact.stores n p hn hp
    rw [h] at hs
    cases hs
  · have hs := hexact.refuses hgiven
    rw [h] at hs
    cases hs

theorem gives_obj_iff (hb : b.value = some (.obj fields)) : b.Gives p ↔
    (Json.obj fields).get "channel" = .int p.1 ∧ (Json.obj fields).get "group" = .int p.2 ∧
      InRange p := by
  constructor
  · rintro ⟨⟨fields', hb', hc, hg⟩, hr⟩
    obtain rfl : fields = fields' := by simpa using hb.symm.trans hb'
    exact ⟨hc, hg, hr⟩
  · rintro ⟨hc, hg, hr⟩
    exact ⟨⟨fields, hb, hc, hg⟩, hr⟩

theorem exactPut_obj_iff (hd : b.decoding = .done) (hb : b.value = some (.obj fields))
    (hc : (Json.obj fields).hasKey "channel" = true)
    (hg : (Json.obj fields).hasKey "group" = true) : ExactPut s now name b ↔
      parsePair b.value ≠ .error .overflow ∧ ((Naming.validate name).isOk = true →
        ∀ p, parsePair b.value = .ok p → b.Gives p) := by
  cases hp : parsePair b.value with
  | error e =>
    by_cases he : e = .overflow
    · subst he
      exact iff_of_false (not_exactPut_of_raised (answerPut_of_overflow hd hp)) fun h => h.1 rfl
    · refine iff_of_true ((exactPut_of_refused (answerPut_of_error hd hp he)).mpr ?_)
        ⟨fun h => he (Except.error.inj h), fun _ _ h => nomatch h⟩
      rintro - ⟨p, hgives⟩
      obtain ⟨hci, hgi, hr⟩ := (gives_obj_iff hb).mp hgives
      rw [hb, (parsePair_eq_ok_iff hc hg).mpr ⟨by rw [hci]; rfl, by rw [hgi]; rfl, hr⟩] at hp
      cases hp
  | ok q =>
    rw [and_iff_right nofun]
    cases hv : Naming.validate name with
    | error e =>
      have hbad : (Naming.validate name).isOk = false := by rw [hv]; rfl
      refine iff_of_true ((exactPut_of_refused (answerPut_of_badName hd hp hbad)).mpr ?_) nofun
      intro hok
      cases hbad.symm.trans hok
    | ok n =>
      have hans : answerPut s now name b = _ := answerPut_of_ok hd hp hv
      constructor
      · rintro hexact - p ⟨⟩
        by_contra hno
        have hnone : ¬ ∃ n p, Naming.validate name = .ok n ∧ b.Gives p := by
          rintro ⟨-, p, -, hgives⟩
          obtain ⟨hci, hgi, hr⟩ := (gives_obj_iff hb).mp hgives
          rw [hb, (parsePair_eq_ok_iff hc hg).mpr ⟨by rw [hci]; rfl, by rw [hgi]; rfl, hr⟩] at hp
          exact hno (Except.ok.inj hp ▸ hgives)
        have hs := hexact.refuses hnone
        rw [hans] at hs
        cases hs
      · intro hgives
        have hq := hgives rfl q rfl
        refine ⟨fun n' p hn' hp' => ?_, fun hno => absurd ⟨n, q, hv, hq⟩ hno⟩
        obtain rfl : n = n' := Except.ok.inj (hv.symm.trans hn')
        obtain ⟨hci, hgi, -⟩ := (gives_obj_iff hb).mp hq
        obtain ⟨hci', hgi', -⟩ := (gives_obj_iff hb).mp hp'
        obtain rfl : q = p := Prod.ext (Json.int.inj (hci.symm.trans hci'))
          (Json.int.inj (hgi.symm.trans hgi'))
        exact hans

theorem exactPut_of_error {e : PairError} (hd : b.decoding = .done)
    (hp : parsePair b.value = .error e) (he : e ≠ .overflow) (hno : ¬ ∃ p, b.Gives p) :
    ExactPut s now name b :=
  (exactPut_of_refused (answerPut_of_error hd hp he)).mpr fun _ => hno

/-- `{"channel": 12.5, "group": "4"}`. -/
def halfChannel : Body where
  value := some (.obj [("channel", .float (.finite (25 / 2))), ("group", .str "4")])
  decoding := .done

end Answers

end MbTools.Names
