import MbTools.Lib.Lines
import MbTools.Lib.Regex
import MbTools.Lib.Text
import MbTools.Lib.Utf8

/-! # Reading a relay's banner

`Reader` keeps all that comes from a channel and matches terminated text only, so that the
cut of the stream into chunks has no say in what it finds. `_ask_hello` takes the first
match in the buffer at each attempt: one that spans white space is no identity and hides
the banners behind it.
-/

namespace MbTools.Protocol

open Lines Regex Text Utf8

def ascii (text : String) : List UInt8 := text.toList.map fun c => UInt8.ofNat c.toNat

def colon : UInt8 := 58

def isHex (b : UInt8) : Bool :=
  (48 ≤ b && b ≤ 57) || (65 ≤ b && b ≤ 70) || (97 ≤ b && b ≤ 102)

/-- `\s` for bytes. -/
def isBlankByte (b : UInt8) : Bool := (9 ≤ b && b ≤ 13) || b == 32

/-- `BANNER_RE`. -/
def bannerRe : Pattern :=
  .seq (lit (ascii "DEVICE:"))
    (.seq (.group "1" (.alt (lit (ascii "RADIOBRIDGE")) (lit (ascii "RADIORELAY"))))
      (.seq (lit (ascii ":relay:"))
        (.seq (.group "2" (.plus (· != colon)))
          (.seq (lit [colon]) (.group "3" (.plus isHex))))))

/-- One dialect of an identity: the fields between `sep`, of bytes of the class `field`. -/
def identityForm (head : List UInt8) (sep : UInt8) (field : UInt8 → Bool) (suffix : String) :
    Pattern :=
  .seq (lit head)
    (.seq (.group ("role" ++ suffix) (.plus isWord))
      (.seq (lit [sep])
        (.seq (.group ("common" ++ suffix) (.plus field))
          (.seq (lit [sep])
            (.seq (.group ("name" ++ suffix) (.plus field))
              (.seq (lit [sep]) (.group ("serial" ++ suffix) (.plus isHex))))))))

def colonForm : Pattern :=
  identityForm (ascii "DEVICE:") colon (fun b => !(b == colon || isBlankByte b)) ""

def spaceForm : Pattern :=
  .seq .boundary (identityForm (ascii "device ") 32 (fun b => !isBlankByte b) "_r")

/-- `IDENTITY_RE`. -/
def identityRe : Pattern := .alt colonForm spaceForm

structure BannerInfo where
  role : Str
  deviceName : Str
  serial : Str
  raw : List UInt8
  firmware : Str
  deriving DecidableEq

/-- `BannerInfo.parse`. -/
def parse (data : List UInt8) : Option BannerInfo :=
  (search identityRe none data).map fun m =>
    let group (name : String) := ((m.group name).or (m.group (name ++ "_r"))).getD []
    { role := decode replace (group "role")
      deviceName := decode replace (group "name")
      serial := decode replace (group "serial")
      raw := m.text
      firmware := [] }

/-- `Reader.complete_lines`. -/
def completeLines (buf : List UInt8) : List UInt8 := buf.rdropWhile (· ≠ newline)

/-- What happens while a sequence waits: the channel delivers, the wait looks at the buffer,
its time is up, or it looks at the buffer and then sees that the channel has failed. -/
inductive Event where
  | recv (data : List UInt8)
  | check
  | timeout
  | error
  deriving DecidableEq

inductive Waited where
  | found (m : Path)
  | nothing
  | failed

def look (pattern : Pattern) (buf : List UInt8) : Option Path :=
  search pattern none (completeLines buf)

/-- `Reader.wait_for`, with the buffer that it leaves and what is still to happen. -/
def waitFor (pattern : Pattern) :
    List UInt8 → List Event → Waited × List UInt8 × List Event
  | buf, [] => ((look pattern buf).elim .nothing .found, buf, [])
  | buf, .recv data :: es => waitFor pattern (buf ++ data) es
  | buf, .check :: es =>
    match look pattern buf with
    | some m => (.found m, buf, es)
    | none => waitFor pattern buf es
  | buf, .timeout :: es => ((look pattern buf).elim .nothing .found, buf, es)
  | buf, .error :: es => ((look pattern buf).elim .failed .found, buf, es)

inductive Asked where
  | answered (info : BannerInfo)
  | silent
  | failed
  deriving DecidableEq

/-- `RelayControl._ask_hello`: the buffer is not cleared between the attempts. -/
def askHello (pattern : Pattern) :
    ℕ → List UInt8 → List Event → Asked × List UInt8 × List Event
  | 0, buf, es => (.silent, buf, es)
  | attempts + 1, buf, es =>
    match waitFor pattern buf es with
    | (.found m, buf, es) =>
      match parse m.text with
      | some info => (.answered info, buf, es)
      | none => askHello pattern attempts buf es
    | (.nothing, buf, es) => askHello pattern attempts buf es
    | (.failed, buf, es) => (.failed, buf, es)

/-- All that the channel delivers. -/
def received : List Event → List UInt8
  | [] => []
  | .recv data :: es => data ++ received es
  | _ :: es => received es

/-- What it delivers before a wait is over for want of time or of the channel. -/
def window : List Event → List UInt8
  | [] => []
  | .recv data :: es => data ++ window es
  | .check :: es => window es
  | .timeout :: _ => []
  | .error :: _ => []

def Waited.match? : Waited → Option Path
  | .found m => some m
  | _ => none

def Asked.info? : Asked → Option BannerInfo
  | .answered info => some info
  | _ => none

variable {pattern : Pattern} {buf s w q : List UInt8} {es : List Event} {prev : Option UInt8}
  {x : Path}

/-! ### Terminated text -/

theorem completeLines_or (buf : List UInt8) :
    completeLines buf = [] ∨ ∃ w, completeLines buf = w ++ [newline] := by
  by_cases h : completeLines buf = []
  · exact .inl h
  · refine .inr ⟨(completeLines buf).dropLast, ?_⟩
    have hlast : (completeLines buf).getLast h = newline := by
      have := List.rdropWhile_last_not (fun b => decide (b ≠ newline)) buf h
      rwa [decide_eq_true_eq, not_not] at this
    conv_lhs => rw [← List.dropLast_append_getLast h, hlast]

theorem completeLines_append (buf data : List UInt8) :
    ∃ q, completeLines (buf ++ data) = completeLines buf ++ q := by
  obtain ⟨tail, htail⟩ := List.rdropWhile_prefix (fun b => decide (b ≠ newline)) (l := buf)
  by_cases h : completeLines data = []
  · refine ⟨[], ?_⟩
    rw [completeLines, List.rdropWhile_eq_nil_iff] at h
    rw [List.append_nil]
    exact rdropWhile_append_all h
  · refine ⟨tail ++ completeLines data, ?_⟩
    rw [completeLines, rdropWhile_append_of_ne_nil h, ← List.append_assoc, completeLines, htail]
    rfl

/-- What a pattern finds in terminated text it finds when there is more of it. -/
def Settled (pattern : Pattern) : Prop := ∀ prev w q x,
  search pattern prev (w ++ [newline]) = some x →
    search pattern prev (w ++ newline :: q) = some (x.more q)

/-- What counts of a match: its text and its groups. -/
def result (m : Path) : List UInt8 × List (String × List UInt8) := (m.text, m.groups)

/-- No match in terminated text is lost or becomes another when more text comes. -/
theorem look_append (hset : Settled pattern) (hend : ∀ prev, first pattern prev [] = none)
    {m : Path} (h : look pattern buf = some m) (data : List UInt8) :
    (look pattern (buf ++ data)).map result = some (result m) := by
  obtain ⟨q, hq⟩ := completeLines_append buf data
  rw [look] at h ⊢
  rw [hq]
  rcases completeLines_or buf with hnil | ⟨w, hw⟩
  · rw [hnil, search, hend] at h
    cases h
  · rw [hw] at h ⊢
    rw [List.append_assoc, List.singleton_append, hset none w q m h]
    rfl

theorem match?_elim (other : Waited) (h : other.match? = none) (m : Option Path) :
    (m.elim other .found).match? = m := by
  cases m with
  | none => exact h
  | some m => rfl

/-- The result of a wait is the match in all terminated lines that come before it is over,
whenever it looks and however they are cut. -/
theorem waitFor_found (hset : Settled pattern) (hend : ∀ prev, first pattern prev [] = none)
    (buf : List UInt8) (es : List Event) :
    (waitFor pattern buf es).1.match?.map result =
      (look pattern (buf ++ window es)).map result := by
  induction es generalizing buf with
  | nil => rw [waitFor, window, List.append_nil, match?_elim _ rfl]
  | cons e es ih =>
    cases e with
    | recv data => rw [waitFor, window, ih, List.append_assoc]
    | check =>
      rw [waitFor, window]
      cases h : look pattern buf with
      | none => exact ih buf
      | some m => exact (look_append hset hend h _).symm
    | timeout => rw [waitFor, window, List.append_nil, match?_elim _ rfl]
    | error => rw [waitFor, window, List.append_nil, match?_elim _ rfl]

variable {waited : Waited} {asked : Asked} {buf' : List UInt8} {es' : List Event}

theorem waitFor_spec (h : waitFor pattern buf es = (waited, buf', es')) :
    waited.match? = look pattern buf' ∧ buf' ++ received es' = buf ++ received es := by
  induction es generalizing buf with
  | nil =>
    rw [waitFor] at h
    cases h
    exact ⟨match?_elim _ rfl _, rfl⟩
  | cons e es ih =>
    cases e with
    | recv data =>
      rw [received, ← List.append_assoc]
      exact ih h
    | check =>
      rw [waitFor] at h
      cases hm : look pattern buf with
      | none =>
        rw [hm] at h
        exact ih h
      | some m =>
        rw [hm] at h
        cases h
        exact ⟨hm.symm, rfl⟩
    | timeout =>
      rw [waitFor] at h
      cases h
      exact ⟨match?_elim _ rfl _, rfl⟩
    | error =>
      rw [waitFor] at h
      cases h
      exact ⟨match?_elim _ rfl _, rfl⟩

/-- What `_ask_hello` returns it makes of the first match in the buffer that it leaves, if with no
attempts left there is nothing to make of the buffer. -/
theorem askHello_spec {attempts : ℕ}
    (hzero : attempts = 0 → (look pattern buf).bind (fun m => parse m.text) = none)
    (h : askHello pattern attempts buf es = (asked, buf', es')) :
    asked.info? = (look pattern buf').bind (fun m => parse m.text) ∧
      buf' ++ received es' = buf ++ received es := by
  induction attempts generalizing buf es with
  | zero =>
    rw [askHello] at h
    cases h
    exact ⟨(hzero rfl).symm, rfl⟩
  | succ attempts ih =>
    rw [askHello] at h
    split at h
    next m buf₁ es₁ hwait =>
      obtain ⟨hmatch, hbuf⟩ := waitFor_spec hwait
      have hmade : (look pattern buf₁).bind (fun m => parse m.text) = parse m.text := by
        rw [← hmatch]
        rfl
      rw [← hbuf]
      cases hinfo : parse m.text with
      | none =>
        rw [hinfo] at h
        exact ih (fun _ => hmade.trans hinfo) h
      | some info =>
        rw [hinfo] at h
        cases h
        exact ⟨(hmade.trans hinfo).symm, rfl⟩
    next buf₁ es₁ hwait =>
      obtain ⟨hmatch, hbuf⟩ := waitFor_spec hwait
      rw [← hbuf]
      exact ih (fun _ => by rw [← hmatch]; rfl) h
    next buf₁ es₁ hwait =>
      obtain ⟨hmatch, hbuf⟩ := waitFor_spec hwait
      cases h
      exact ⟨by rw [← hmatch]; rfl, hbuf⟩

/-! ### The two patterns -/

/-- What `BANNER_RE` matches. -/
structure Banner where
  role : List UInt8
  name : List UInt8
  serial : List UInt8
  role_relay : role = ascii "RADIOBRIDGE" ∨ role = ascii "RADIORELAY"
  name_ne : name ≠ []
  name_field : colon ∉ name
  serial_ne : serial ≠ []
  serial_hex : ∀ b ∈ serial, isHex b = true

namespace Banner
variable (b : Banner)

/-- The banner up to its name. -/
def head : List UInt8 := ascii "DEVICE:" ++ (b.role ++ ascii ":relay:")

def text : List UInt8 :=
  ascii "DEVICE:" ++ (b.role ++ (ascii ":relay:" ++ (b.name ++ ([colon] ++ b.serial))))

def path (rest : List UInt8) : Path :=
  ⟨b.text, [("1", b.role), ("2", b.name), ("3", b.serial)], rest⟩

/-- Its name is one that an identity may have. -/
def Clean : Prop := ∀ c ∈ b.name, isBlankByte c = false

/-- The same with more digits. -/
def digits (more : List UInt8) (h : ∀ c ∈ more, isHex c = true) : Banner where
  role := b.role
  name := b.name
  serial := b.serial ++ more
  role_relay := b.role_relay
  name_ne := b.name_ne
  name_field := b.name_field
  serial_ne := List.append_ne_nil_of_left_ne_nil b.serial_ne _
  serial_hex c hc := (List.mem_append.mp hc).elim (b.serial_hex c) (h c)

variable {b}

theorem text_eq : b.text = b.head ++ b.name ++ (colon :: b.serial) := by
  simp [text, head]

theorem digits_text {more : List UInt8} (h : ∀ c ∈ more, isHex c = true) :
    (b.digits more h).text = b.text ++ more := by
  simp [text, digits]

theorem newline_not_mem_tail : newline ∉ colon :: b.serial := by
  intro h
  rcases List.mem_cons.mp h with h | h
  · exact absurd h (by decide)
  · exact absurd (b.serial_hex _ h) (by decide)

theorem count_colon_head : b.head.count colon = 3 := by
  rcases b.role_relay with h | h <;> rw [head, h] <;> decide

theorem count_colon_name : (b.head ++ b.name).count colon = 3 := by
  rw [List.count_append, count_colon_head, List.count_eq_zero.mpr b.name_field]

theorem four_colons : 4 ≤ b.text.count colon := by
  rw [text_eq, List.count_append, count_colon_name, List.count_cons_self]
  omega

end Banner

theorem first_banner (b : Banner) (prev : Option UInt8) {rest : List UInt8}
    (h : rest.head?.any isHex = false) :
    first bannerRe prev (b.text ++ rest) = some (b.path rest) := by
  have hrole : ∀ prev s, first (.alt (lit (ascii "RADIOBRIDGE")) (lit (ascii "RADIORELAY"))) prev
      (b.role ++ s) = some ⟨b.role, [], s⟩ := by
    intro prev s
    rcases b.role_relay with hr | hr
    · rw [hr]
      exact first_alt_left _ (first_lit _ _ _)
    · rw [hr]
      refine first_alt_right ?_ (first_lit _ _ _)
      rw [paths_lit, if_neg]
      rintro ⟨u, hu⟩
      have hlit : ascii "RADIOB" ++ (ascii "RIDGE" ++ u) = ascii "RADIOR" ++ (ascii "ELAY" ++ s) :=
        hu
      have := (List.append_inj hlit rfl).1
      exact absurd this (by decide)
  have hname : ∀ c ∈ b.name, (c != colon) = true :=
    fun c hc => bne_iff_ne.mpr fun he => b.name_field (he ▸ hc)
  have hstop : ([colon] ++ (b.serial ++ rest)).head?.any (· != colon) = false := rfl
  rw [Banner.text]
  simp only [List.append_assoc]
  exact first_seq (first_lit _ _ _) (first_seq (first_group "1" (hrole _ _))
    (first_seq (first_lit _ _ _) (first_seq (first_group "2" (first_plus _ b.name_ne hname hstop))
      (first_seq (first_lit _ _ _) (first_group "3" (first_plus _ b.serial_ne b.serial_hex h))))))

/-- `BANNER_RE` matches banners only, and takes all digits of the serial. -/
theorem banner_of_first (h : first bannerRe prev s = some x) :
    ∃ b : Banner, x = b.path x.rest ∧ s = b.text ++ x.rest ∧ x.rest.head?.any isHex = false := by
  obtain ⟨x₁, y₁, hx₁, hy₁, rfl⟩ := mem_paths_seq (mem_of_first h)
  obtain ⟨x₂, y₂, hx₂, hy₂, rfl⟩ := mem_paths_seq hy₁
  obtain ⟨x₃, y₃, hx₃, hy₃, rfl⟩ := mem_paths_seq hy₂
  obtain ⟨x₄, y₄, hx₄, hy₄, rfl⟩ := mem_paths_seq hy₃
  obtain ⟨x₅, y₅, hx₅, hy₅, rfl⟩ := mem_paths_seq hy₄
  obtain ⟨role, hrole, rfl⟩ := List.mem_map.mp hx₂
  obtain ⟨name, hname, rfl⟩ := List.mem_map.mp hx₄
  obtain ⟨serial, hserial, rfl⟩ := List.mem_map.mp hy₅
  obtain ⟨hn, hnne, hncl⟩ := text_of_mem_runs hname
  obtain ⟨hs, hsne, hscl⟩ := text_of_mem_runs hserial
  have hrr : role.text = ascii "RADIOBRIDGE" ∨ role.text = ascii "RADIORELAY" := by
    rcases List.mem_append.mp hrole with hr | hr
    · exact .inl (congrArg Path.text (mem_paths_lit hr).1)
    · exact .inr (congrArg Path.text (mem_paths_lit hr).1)
  let b : Banner := ⟨role.text, name.text, serial.text, hrr, hnne,
    fun hc => by simpa using hncl _ hc, hsne, hscl⟩
  have hs₂ := text_of_mem_paths hrole
  have hb : s = b.text ++ serial.rest := by
    rw [(mem_paths_lit hx₁).2, hs₂, show role.rest = _ from (mem_paths_lit hx₃).2, hn,
      show name.rest = _ from (mem_paths_lit hx₅).2, hs, Banner.text]
    simp only [List.append_assoc]
    rfl
  -- the digits behind a shorter serial would have been taken
  have hmore : ∀ c ∈ serial.rest.takeWhile isHex, isHex c = true :=
    fun c hc => List.mem_takeWhile_imp hc
  have hrest : (serial.rest.dropWhile isHex).head?.any isHex = false := by
    have := List.head?_dropWhile_not isHex serial.rest
    cases hd : (serial.rest.dropWhile isHex).head? with
    | none => rfl
    | some c =>
      rw [hd] at this
      simpa using this
  have hfirst := first_banner (b.digits _ hmore) prev hrest
  rw [Banner.digits_text, List.append_assoc, List.takeWhile_append_dropWhile, ← hb, h] at hfirst
  have hx := Option.some.inj hfirst
  refine ⟨b.digits _ hmore, ?_, ?_, ?_⟩
  · rw [hx]
    rfl
  · rw [hx, Banner.digits_text, Banner.path, List.append_assoc, List.takeWhile_append_dropWhile]
    exact hb
  · rw [hx]
    exact hrest

/-- What ends with a byte that is not in the second part of a text lies in the first. -/
theorem prefix_of_append_eq {d : UInt8} {as bs rest : List UInt8} (hd : d ∉ bs)
    (h : as ++ bs = w ++ [d] ++ rest) : w ++ [d] <+: as := by
  rcases List.append_eq_append_iff.mp h with ⟨cs, hw, hbs⟩ | ⟨cs, has, -⟩
  · rcases List.eq_nil_or_concat cs with rfl | ⟨cs', c, rfl⟩
    · exact ⟨[], (List.append_nil _).trans (hw.trans (List.append_nil _))⟩
    · rw [List.concat_eq_append, ← List.append_assoc] at hw
      obtain ⟨-, hc⟩ := List.append_inj' hw rfl
      refine absurd ?_ hd
      rw [hbs, (List.cons.inj hc).1]
      simp
  · exact ⟨cs, has.symm⟩

theorem Banner.count_le {b : Banner} {rest : List UInt8} (h : b.text = w ++ [newline] ++ rest) :
    (w ++ [newline]).count colon ≤ 3 := by
  rw [Banner.text_eq] at h
  rw [← b.count_colon_name]
  exact (prefix_of_append_eq Banner.newline_not_mem_tail h).count_le colon

/-- A match that reaches over a newline has three colons only before it. -/
theorem first_banner_more (h : first bannerRe prev (w ++ newline :: q) = some x) :
    (∃ y, first bannerRe prev (w ++ [newline]) = some y ∧ x = y.more q) ∨
      (w ++ [newline]).count colon ≤ 3 := by
  obtain ⟨b, hx, hs, hrest⟩ := banner_of_first h
  rw [List.append_cons, List.append_eq_append_iff] at hs
  rcases hs with ⟨behind, htext, -⟩ | ⟨c, hs, hc⟩
  · exact .inr (Banner.count_le htext)
  · cases c with
    | nil =>
      rw [List.append_nil, ← List.append_nil (w ++ [newline])] at hs
      exact .inr (Banner.count_le hs.symm)
    | cons d c =>
      rw [hc] at hrest
      refine .inl ⟨b.path (d :: c), ?_, ?_⟩
      · rw [hs]
        exact first_banner b prev hrest
      · rw [hx, hc]
        rfl

theorem four_colons_of_search (h : search bannerRe prev s = some x) : 4 ≤ s.count colon := by
  obtain ⟨before, hs, hfirst⟩ := first_of_search h
  obtain ⟨b, hx, -, -⟩ := banner_of_first hfirst
  have hb := b.four_colons
  rw [hs, hx, List.count_append, List.count_append]
  exact Nat.le_trans hb (by simp only [Banner.path]; omega)

theorem settled_banner : Settled bannerRe := by
  intro prev w q x h
  induction w generalizing prev with
  | nil => exact absurd (four_colons_of_search h) (by decide)
  | cons b w ih =>
    have hcount := four_colons_of_search h
    rw [List.cons_append, search, Option.or_eq_some_iff] at h
    rw [List.cons_append, search, ← List.cons_append]
    cases hlong : first bannerRe prev (b :: w ++ newline :: q) with
    | some z =>
      rcases first_banner_more hlong with ⟨y, hy, hz⟩ | hle
      · rw [List.cons_append] at hy
        rw [hy] at h
        rcases h with h | ⟨h, -⟩
        · rw [Option.some_or, hz, Option.some.inj h]
        · cases h
      · omega
    | none =>
      rcases h with h | ⟨-, h⟩
      · obtain ⟨c, hx, hs, hrest⟩ := banner_of_first h
        have hne : x.rest ≠ [] := by
          intro hnil
          rw [hnil, List.append_nil, ← List.cons_append,
            ← List.append_nil (b :: w ++ [newline])] at hs
          have := Banner.count_le hs.symm
          omega
        have hmore : b :: w ++ newline :: q = c.text ++ (x.rest ++ q) := by
          rw [← List.append_assoc, ← hs]
          simp
        rw [hmore, first_banner c prev] at hlong
        · cases hlong
        · rwa [List.head?_append_of_ne_nil _ hne]
      · rw [Option.none_or]
        exact ih _ h

theorem paths_identityForm_nil {head : List UInt8} (hne : head ≠ []) (sep : UInt8)
    (field : UInt8 → Bool) (suffix : String) (prev : Option UInt8) :
    paths (identityForm head sep field suffix) prev [] = [] := by
  rw [identityForm, paths_seq, paths_lit, if_neg (by simpa using hne)]
  rfl

theorem first_identity_nil (prev : Option UInt8) : first identityRe prev [] = none := by
  have hspace : paths spaceForm prev [] = [] := by
    rw [spaceForm, paths_seq, paths_boundary]
    split
    · rfl
    · rw [List.flatMap_singleton, paths_identityForm_nil (by decide)]
      rfl
  rw [first, identityRe, paths_alt, hspace, colonForm, paths_identityForm_nil (by decide)]
  rfl

theorem bounded_identityForm {head : List UInt8} {sep : UInt8} {field : UInt8 → Bool}
    {suffix : String} (hhead : newline ∉ head) (hsep : newline ≠ sep)
    (hfield : field newline = false) : Bounded newline (identityForm head sep field suffix) := by
  have hs : Bounded newline (lit [sep]) := bounded_lit (by simpa using hsep)
  exact ⟨bounded_lit hhead, rfl, hs, hfield, hs, hfield, hs, rfl⟩

theorem settled_identity : Settled identityRe := by
  have hbound : Bounded newline identityRe :=
    ⟨bounded_identityForm (by decide) (by decide) rfl, trivial,
      bounded_identityForm (by decide) (by decide) rfl⟩
  intro prev w q x h
  exact search_more hbound first_identity_nil q h

/-! ### From a banner to its fields -/

/-- A field that a repetition takes as a whole. -/
def IsRun (p : UInt8 → Bool) (w : List UInt8) : Prop := w ≠ [] ∧ ∀ c ∈ w, p c = true

theorem first_identityForm {head : List UInt8} {sep : UInt8} {field : UInt8 → Bool}
    (hword : isWord sep = false) (hfield : field sep = false) (suffix : String)
    {role common name serial : List UInt8} (hrole : IsRun isWord role)
    (hcommon : IsRun field common) (hname : IsRun field name) (hserial : IsRun isHex serial)
    (prev : Option UInt8) :
    let text := head ++ (role ++ ([sep] ++ (common ++ ([sep] ++ (name ++ ([sep] ++ serial))))))
    first (identityForm head sep field suffix) prev text =
      some ⟨text, [("role" ++ suffix, role), ("common" ++ suffix, common),
        ("name" ++ suffix, name), ("serial" ++ suffix, serial)], []⟩ := by
  have hlast : ∀ prev, first (.plus isHex) prev serial = some ⟨serial, [], []⟩ := by
    intro prev
    have hall := first_plus (s := []) prev hserial.1 hserial.2 rfl
    rwa [List.append_nil] at hall
  have hstop : ∀ p : UInt8 → Bool, p sep = false → ∀ w, ([sep] ++ w).head?.any p = false :=
    fun _ hp _ => hp
  exact first_seq (first_lit _ _ _)
    (first_seq (first_group _ (first_plus _ hrole.1 hrole.2 (hstop _ hword _)))
      (first_seq (first_lit _ _ _)
        (first_seq (first_group _ (first_plus _ hcommon.1 hcommon.2 (hstop _ hfield _)))
          (first_seq (first_lit _ _ _)
            (first_seq (first_group _ (first_plus _ hname.1 hname.2 (hstop _ hfield _)))
              (first_seq (first_lit _ _ _) (first_group _ (hlast _))))))))

/-- What `BannerInfo` says of a banner. -/
def Banner.info (b : Banner) : BannerInfo where
  role := decode replace b.role
  deviceName := decode replace b.name
  serial := decode replace b.serial
  raw := b.text
  firmware := []

theorem parse_clean {b : Banner} (h : b.Clean) : parse b.text = some b.info := by
  have hrole : IsRun isWord b.role := by
    rcases b.role_relay with hr | hr <;> rw [hr] <;> exact ⟨by decide, by decide +kernel⟩
  have hrelay : IsRun (fun c => !(c == colon || isBlankByte c)) (ascii "relay") :=
    ⟨by decide, by decide +kernel⟩
  have hname : IsRun (fun c => !(c == colon || isBlankByte c)) b.name := by
    refine ⟨b.name_ne, fun c hc => ?_⟩
    have hne : c ≠ colon := fun he => b.name_field (he ▸ hc)
    simp [h c hc, hne]
  have hfirst := @first_identityForm (ascii "DEVICE:") colon _ rfl rfl "" _ _ _ _ hrole
    hrelay hname ⟨b.serial_ne, b.serial_hex⟩ none
  have hsearch := search_of_first (first_alt_left spaceForm hfirst)
  have htext : ascii "DEVICE:" ++ (b.role ++ ([colon] ++ (ascii "relay" ++ ([colon] ++
      (b.name ++ ([colon] ++ b.serial)))))) = b.text := rfl
  simp only [htext] at hsearch
  rw [parse, show search identityRe none b.text = _ from hsearch]
  rfl

/-- A clean banner in terminated text, with its whole serial. As its name has no newline it
lies within one of the lines. -/
def InLine (text : List UInt8) (b : Banner) : Prop :=
  b.Clean ∧ ∃ before behind, text = before ++ b.text ++ behind ∧
    behind.head?.any isHex = false

/-- The role, the name and the serial of a banner. -/
def Tells (info : BannerInfo) (b : Banner) : Prop :=
  info.role = decode replace b.role ∧ info.deviceName = decode replace b.name ∧
    info.serial = decode replace b.serial

/-- If there is a banner in a line, one is told. -/
def BannerRead (text : List UInt8) (info? : Option BannerInfo) : Prop :=
  (∃ b, InLine text b) → ∃ info b, info? = some info ∧ InLine text b ∧ Tells info b

/-- If there is a banner in a line, the first match of `BANNER_RE` in the text has a name
without white space, or the identity in it happens to be that of a banner in a line. -/
def FirstClean (text : List UInt8) : Prop :=
  (∃ b, InLine text b) → ∃ (b : Banner) (rest : List UInt8),
    search bannerRe none text = some (b.path rest) ∧
      (b.Clean ∨ ∃ info c, parse b.text = some info ∧ InLine text c ∧ Tells info c)

theorem search_of_inLine {text : List UInt8} {b : Banner} (h : InLine text b) :
    ∃ (c : Banner) (rest : List UInt8), search bannerRe none text = some (c.path rest) := by
  obtain ⟨-, before, behind, rfl, hbehind⟩ := h
  have hne : search bannerRe none (before ++ (b.text ++ behind)) ≠ none := by
    refine search_ne_none ?_
    rw [first_banner b _ hbehind]
    exact Option.some_ne_none _
  rw [← List.append_assoc] at hne
  obtain ⟨x, hx⟩ := Option.ne_none_iff_exists'.mp hne
  obtain ⟨before', -, hfirst⟩ := first_of_search hx
  obtain ⟨c, hc, -, -⟩ := banner_of_first hfirst
  exact ⟨c, x.rest, by rw [← hc]; exact hx⟩

theorem inLine_of_search {text rest : List UInt8} {b : Banner}
    (h : search bannerRe none text = some (b.path rest)) (hb : b.Clean) : InLine text b := by
  obtain ⟨before, htext, hfirst⟩ := first_of_search h
  obtain ⟨-, -, -, hrest⟩ := banner_of_first hfirst
  exact ⟨hb, before, rest, htext, hrest⟩

theorem bannerRead_iff (text : List UInt8) :
    BannerRead text ((search bannerRe none text).bind fun m => parse m.text) ↔
      FirstClean text := by
  constructor
  · intro h hline
    obtain ⟨b, hb⟩ := hline
    obtain ⟨c, rest, hsearch⟩ := search_of_inLine hb
    obtain ⟨info, d, hinfo, hd, htells⟩ := h ⟨b, hb⟩
    rw [hsearch, Option.bind_some] at hinfo
    exact ⟨c, rest, hsearch, .inr ⟨info, d, hinfo, hd, htells⟩⟩
  · intro h hline
    obtain ⟨c, rest, hsearch, hclean | ⟨info, d, hinfo, hd, htells⟩⟩ := h hline
    · rw [hsearch, Option.bind_some]
      exact ⟨c.info, c, parse_clean hclean, inLine_of_search hsearch hclean, rfl, rfl, rfl⟩
    · rw [hsearch, Option.bind_some]
      exact ⟨info, d, hinfo, hd, htells⟩

/-- A wait for either pattern finds what stands first in the lines that are terminated before
it is over, and nothing else, however the stream is cut and whenever the wait looks. And
`_ask_hello` tells a banner that lies in a line if and only if the first match of `BANNER_RE`
in the terminated text has a name without white space, or the identity in it is by chance
that of such a banner. -/
theorem banner_reading_iff (attempts : ℕ) (buf : List UInt8) (es : List Event)
    {asked : Asked} {buf' : List UInt8}
    (hrun : askHello bannerRe (max 1 attempts) buf es = (asked, buf', [])) :
    (∀ pattern ∈ [bannerRe, identityRe], ∀ buf es,
      (waitFor pattern buf es).1.match?.map result =
        (search pattern none (completeLines (buf ++ window es))).map result) ∧
    (BannerRead (completeLines (buf ++ received es)) asked.info? ↔
      FirstClean (completeLines (buf ++ received es))) := by
  constructor
  · intro pattern hpattern buf es
    rcases List.mem_pair.mp hpattern with rfl | rfl
    · exact waitFor_found settled_banner (fun _ => rfl) buf es
    · exact waitFor_found settled_identity first_identity_nil buf es
  · obtain ⟨n, hn⟩ : ∃ n, max 1 attempts = n + 1 := ⟨max 1 attempts - 1, by omega⟩
    rw [hn] at hrun
    obtain ⟨hinfo, hbuf⟩ := askHello_spec (by omega) hrun
    rw [received, List.append_nil] at hbuf
    rw [hinfo, ← hbuf, look, bannerRead_iff]

def getez : Banner where
  role := ascii "RADIOBRIDGE"
  name := ascii "getez"
  serial := ascii "1779042496"
  role_relay := .inl rfl
  name_ne := by decide
  name_field := by decide
  serial_ne := by decide
  serial_hex := by decide +kernel

theorem getez_clean : getez.Clean := by
  have hall : (ascii "getez").all (fun c => !isBlankByte c) = true := by decide +kernel
  intro c hc
  simpa using List.all_eq_true.mp hall c hc

/-- The banner comes in two chunks, with a look at the buffer after each. -/
def bannerInChunks : List Event :=
  [.recv (ascii "DEVICE:RADIOBRIDGE:relay:getez:17"), .check,
    .recv (ascii "79042496" ++ [newline]), .check]

theorem banner_reading_chunks :
    ∃ asked buf', askHello bannerRe (max 1 4) [] bannerInChunks = (asked, buf', []) ∧
      asked.info? = some getez.info ∧
      (∀ pattern ∈ [bannerRe, identityRe], ∀ buf es,
        (waitFor pattern buf es).1.match?.map result =
          (search pattern none (completeLines (buf ++ window es))).map result) ∧
      (BannerRead (completeLines ([] ++ received bannerInChunks)) asked.info? ↔
        FirstClean (completeLines ([] ++ received bannerInChunks))) := by
  have hrun : askHello bannerRe (max 1 4) [] bannerInChunks =
      (.answered getez.info, getez.text ++ [newline], []) := by decide +kernel
  exact ⟨_, _, hrun, rfl, banner_reading_iff 4 [] bannerInChunks hrun⟩

/-- A line with a blank in its name, and then the banner, in one chunk. -/
def garbledFirst : List Event :=
  [.recv (ascii "DEVICE:RADIOBRIDGE:relay:ge tez:1" ++ [newline] ++ getez.text ++ [newline]),
    .check, .check, .check, .check]

/-- All four attempts see the garbled line only. -/
theorem garbled_line_hides_banner :
    askHello bannerRe (max 1 4) [] garbledFirst = (.silent, received garbledFirst, []) ∧
      InLine (completeLines ([] ++ received garbledFirst)) getez ∧
      ¬ BannerRead (completeLines ([] ++ received garbledFirst)) Asked.silent.info? := by
  have hline : InLine (completeLines ([] ++ received garbledFirst)) getez :=
    ⟨getez_clean, ascii "DEVICE:RADIOBRIDGE:relay:ge tez:1" ++ [newline], [newline],
      by decide +kernel, rfl⟩
  refine ⟨by decide +kernel, hline, fun h => ?_⟩
  obtain ⟨info, -, hinfo, -⟩ := h ⟨getez, hline⟩
  cases hinfo

end MbTools.Protocol
