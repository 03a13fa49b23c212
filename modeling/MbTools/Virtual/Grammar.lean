import MbTools.Virtual.Registration

/-! # The grammar of a registration

The requests that the documentation lets register a board, and the requests
that the code lets. They differ at line feeds after a text, at the digits of
other scripts, and at ports of more digits than `int` reads.
-/

namespace MbTools.Virtual

/-- A letter, then 1 to 31 letters, digits or hyphens. -/
def IsName (l : List Char) : Prop :=
  ∃ c rest, l = c :: rest ∧ isLetter c = true ∧ 1 ≤ rest.length ∧ rest.length ≤ 31 ∧
    ∀ d ∈ rest, isLetter d = true ∨ isAsciiDigit d = true ∨ d = '-'

/-- 1 to 32 letters, digits, underscores or hyphens. -/
def IsRole (l : List Char) : Prop :=
  1 ≤ l.length ∧ l.length ≤ 32 ∧
    ∀ d ∈ l, isLetter d = true ∨ isAsciiDigit d = true ∨ d = '_' ∨ d = '-'

/-- 1 to 20 digits. -/
def IsSerial (l : List Char) : Prop :=
  1 ≤ l.length ∧ l.length ≤ 20 ∧ ∀ d ∈ l, isAsciiDigit d = true

/-- Whether a host with a colon in it may stand without brackets. -/
inductive HostRule where
  | anyText
  | ipv6InBrackets
  deriving DecidableEq, Repr

def HostRule.Allows : HostRule → List ℕ → Prop
  | .anyText, _ => True
  | .ipv6InBrackets, host => 58 ∈ host → bracketed host = true

/-- There is a host, inside of the brackets if it has them. -/
def IsHost (rule : HostRule) (host : List ℕ) : Prop :=
  host ≠ [] ∧ (bracketed host = true → 2 < host.length) ∧ rule.Allows host

/-- The number that digits write. -/
def numberOf (codes : List ℕ) : Option ℕ :=
  (codes.mapM decimal?).map (·.foldl (fun n d => n * 10 + d) 0)

def InPortRange (port : List ℕ) : Prop := ∃ n, numberOf port = some n ∧ 1 ≤ n ∧ n ≤ 65535

def isAsciiDigitCode (c : ℕ) : Bool := 48 ≤ c && c ≤ 57

/-- ASCII digits of a number from 1 to 65535. -/
def IsPort (port : List ℕ) : Prop := port.all isAsciiDigitCode = true ∧ InPortRange port

/-- The fields of a request, given what each of the texts may be. -/
structure Form (name role serial : List Char → Prop) (host port : List ℕ → Prop) (req : Json) :
    Prop where
  simulated : req.get "simulated" = .bool true
  name : ∃ s, req.get "name" = .str s ∧ name s.toList
  role : req.hasKey "role" = true → ∃ s, req.get "role" = .str s ∧ role s.toList
  serial : (∃ s, req.get "serial" = .str s ∧ serial s.toList) ∨
    ∃ n : ℕ, req.get "serial" = .int n ∧ serial (toString n).toList
  endpoint : ∃ codes h p, codesOf (req.get "endpoint") = some codes ∧ codes = h ++ 58 :: p ∧
    (∀ c ∈ codes, isSpace c = false) ∧ host h ∧ port p

/-- The requests of the documentation. -/
def Grammar (rule : HostRule) : Json → Prop := Form IsName IsRole IsSerial (IsHost rule) IsPort

/-- A text, or one with a line feed after it. -/
def Line (P : List Char → Prop) (l : List Char) : Prop := P l ∨ ∃ m, l = m ++ ['\n'] ∧ P m

/-- The requests whose fields are in order but for line feeds after the texts and the digits of the
port. -/
def Loose : Json → Prop :=
  Form (Line IsName) (Line IsRole) (Line IsSerial) (IsHost .anyText) InPortRange

section Texts

variable {P : List Char → Prop} {p : List Char → Bool} {l : List Char} {s : String}

theorem matchesLine_iff (h : ∀ l, p l = true ↔ P l) : matchesLine p s = true ↔ Line P s.toList := by
  unfold matchesLine Line
  rw [Bool.or_eq_true, h, Bool.and_eq_true, decide_eq_true_eq, h]
  constructor
  · rintro (hl | ⟨hlast, hl⟩)
    · exact Or.inl hl
    · obtain ⟨m, hm⟩ := List.getLast?_eq_some_iff.mp hlast
      rw [hm, List.dropLast_concat] at hl
      exact Or.inr ⟨m, hm, hl⟩
  · rintro (hl | ⟨m, hm, hl⟩)
    · exact Or.inl hl
    · rw [hm, List.getLast?_concat, List.dropLast_concat]
      exact Or.inr ⟨rfl, hl⟩

/-- Of texts without line feeds, those that do not end in one are meant as they stand. -/
theorem iff_of_line (hP : ∀ l, P l → '\n' ∉ l) (h : Line P l) : P l ↔ l.getLast? ≠ some '\n' := by
  constructor
  · intro hl hlast
    exact hP l hl (List.mem_of_getLast? hlast)
  · intro hlast
    rcases h with (hl | ⟨m, rfl, -⟩)
    · exact hl
    · exact absurd List.getLast?_concat hlast

theorem not_newline_of_letter {d : Char}
    (h : isLetter d = true ∨ isAsciiDigit d = true ∨ d = '_' ∨ d = '-') : d ≠ '\n' := by
  rintro rfl
  revert h
  decide

theorem IsName.newline (h : IsName l) : '\n' ∉ l := by
  obtain ⟨c, rest, rfl, hc, -, -, hrest⟩ := h
  intro hmem
  rcases List.mem_cons.mp hmem with (he | hmem)
  · exact not_newline_of_letter (Or.inl hc) he.symm
  · rcases hrest _ hmem with (h | h | h)
    · exact not_newline_of_letter (Or.inl h) rfl
    · exact not_newline_of_letter (Or.inr (Or.inl h)) rfl
    · exact not_newline_of_letter (Or.inr (Or.inr (Or.inr h))) rfl

theorem IsRole.newline (h : IsRole l) : '\n' ∉ l := fun hmem =>
  not_newline_of_letter (h.2.2 _ hmem) rfl

theorem IsSerial.newline (h : IsSerial l) : '\n' ∉ l := fun hmem =>
  not_newline_of_letter (Or.inr (Or.inl (h.2.2 _ hmem))) rfl

theorem nameMatches_iff : nameMatches s = true ↔ Line IsName s.toList := by
  refine matchesLine_iff fun l => ?_
  cases l with
  | nil => exact iff_of_false nofun fun ⟨c, rest, h, _⟩ => nomatch h
  | cons c rest =>
    simp only [Bool.and_eq_true, decide_eq_true_eq, List.all_eq_true, Bool.or_eq_true, IsName,
      List.cons.injEq]
    constructor
    · rintro ⟨⟨hc, h1, h31⟩, hall⟩
      exact ⟨c, rest, ⟨rfl, rfl⟩, hc, h1, h31, fun d hd => or_assoc.mp (hall d hd)⟩
    · rintro ⟨c', rest', ⟨rfl, rfl⟩, hc, h1, h31, hall⟩
      exact ⟨⟨hc, h1, h31⟩, fun d hd => or_assoc.mpr (hall d hd)⟩

theorem roleMatches_iff : roleMatches s = true ↔ Line IsRole s.toList := by
  refine matchesLine_iff fun l => ?_
  simp only [Bool.and_eq_true, decide_eq_true_eq, List.all_eq_true, Bool.or_eq_true, IsRole,
    or_assoc, and_assoc]

theorem serialMatches_iff : serialMatches s = true ↔ Line IsSerial s.toList := by
  refine matchesLine_iff fun l => ?_
  simp only [Bool.and_eq_true, decide_eq_true_eq, List.all_eq_true, IsSerial, and_assoc]

theorem toString_newline (n : ℕ) : '\n' ∉ (toString n).toList := by
  intro h
  have hd : Char.isDigit '\n' = true :=
    Nat.isDigit_of_mem_toDigits (b := 10) (n := n) (by decide) (by decide) (by simpa using h)
  revert hd
  decide

end Texts

/-- What stands after the last colon. -/
def portOf (codes : List ℕ) : List ℕ := (codes.reverse.takeWhile (· ≠ 58)).reverse

/-- What stands before the last colon. -/
def hostOf (codes : List ℕ) : List ℕ := codes.take (codes.length - (portOf codes).length - 1)

section Endpoints

variable {codes h p : List ℕ} {n : ℕ} {v : Json} {intError : List ℕ → String}

theorem portOf_append (hp : 58 ∉ p) : portOf (h ++ 58 :: p) = p := by
  have hall : ∀ c ∈ p.reverse, decide (c ≠ 58) = true := by
    intro c hc
    exact decide_eq_true fun he => hp (he ▸ List.mem_reverse.mp hc)
  rw [portOf, List.reverse_append, List.reverse_cons, List.append_assoc,
    List.takeWhile_append_of_pos hall]
  simp

theorem hostOf_append (hp : 58 ∉ p) : hostOf (h ++ 58 :: p) = h := by
  have hlen : (h ++ 58 :: p).length - p.length - 1 = h.length := by
    simp only [List.length_append, List.length_cons]
    omega
  rw [hostOf, portOf_append hp, hlen, List.take_left]

theorem exists_split (hc : 58 ∈ codes) : ∃ h p, codes = h ++ 58 :: p ∧ 58 ∉ p := by
  induction codes with
  | nil => cases hc
  | cons c codes ih =>
    by_cases hmem : 58 ∈ codes
    · obtain ⟨h, p, rfl, hp⟩ := ih hmem
      exact ⟨c :: h, p, rfl, hp⟩
    · obtain rfl : 58 = c := (List.mem_cons.mp hc).resolve_right hmem
      exact ⟨[], codes, rfl, hmem⟩

theorem decimal_ne_colon {c d : ℕ} (h : decimal? c = some d) : c ≠ 58 := by
  rintro rfl
  have hn : decimal? 58 = none := by decide
  rw [hn] at h
  cases h

theorem mapM_decimal_isSome {ds : List ℕ} (h : p.mapM decimal? = some ds) {c : ℕ} (hc : c ∈ p) :
    ∃ d, decimal? c = some d := by
  induction p generalizing ds with
  | nil => cases hc
  | cons a p ih =>
    rw [List.mapM_cons] at h
    cases ha : decimal? a with
    | none => simp [ha] at h
    | some d =>
      cases hp : p.mapM decimal? with
      | none => simp [ha, hp] at h
      | some ds' =>
        rcases List.mem_cons.mp hc with (rfl | hc)
        · exact ⟨d, ha⟩
        · exact ih hp hc

theorem InPortRange.digits (h : InPortRange p) {c : ℕ} (hc : c ∈ p) : ∃ d, decimal? c = some d := by
  obtain ⟨n, hn, -⟩ := h
  obtain ⟨ds, hds, -⟩ := Option.map_eq_some_iff.mp hn
  exact mapM_decimal_isSome hds hc

theorem InPortRange.colon (h : InPortRange p) : 58 ∉ p := fun hc => by
  obtain ⟨d, hd⟩ := h.digits hc
  exact decimal_ne_colon hd rfl

theorem InPortRange.ne_nil (h : InPortRange p) : p ≠ [] := by
  rintro rfl
  obtain ⟨n, hn, h1, -⟩ := h
  obtain rfl : 0 = n := by simpa [numberOf] using hn
  omega

theorem inner_isEmpty_iff (h : List ℕ) :
    (if bracketed h then (h.drop 1).dropLast else h).isEmpty = false ↔
      h ≠ [] ∧ (bracketed h = true → 2 < h.length) := by
  by_cases hb : bracketed h = true
  · have hne : h ≠ [] := by
      rintro rfl
      revert hb
      decide
    rw [if_pos hb, and_iff_right hne, imp_iff_right hb, List.isEmpty_eq_false_iff,
      ← List.length_pos_iff, List.length_dropLast, List.length_drop]
    omega
  · rw [if_neg hb, List.isEmpty_eq_false_iff]
    exact ⟨fun hne => ⟨hne, fun h => absurd h hb⟩, fun hne => hne.1⟩

theorem parseEndpoint_split (hv : codesOf v = some (h ++ 58 :: p)) (hp : 58 ∉ p) :
    (parseEndpoint intError v).isOk = true ↔
      (∀ c ∈ h ++ 58 :: p, isSpace c = false) ∧ (h ≠ [] ∧ (bracketed h = true → 2 < h.length)) ∧
        (p ≠ [] ∧ p.all isDigit = true) ∧ ∃ n, intOfDigits p = some n ∧ 1 ≤ n ∧ n ≤ 65535 := by
  have hport : ((h ++ 58 :: p).reverse.takeWhile (· ≠ 58)).reverse = p := portOf_append hp
  have hhost : (h ++ 58 :: p).take ((h ++ 58 :: p).length - p.length - 1) = h := by
    have hh := hostOf_append (h := h) hp
    rwa [hostOf, portOf_append hp] at hh
  have hmem : 58 ∈ h ++ 58 :: p := by simp
  simp only [parseEndpoint, hv, hport, hhost, ← inner_isEmpty_iff]
  split
  · rename_i hbad
    refine iff_of_false nofun ?_
    rintro ⟨hsp, hin, ⟨hpne, hdig⟩, -⟩
    have hsp' : (h ++ 58 :: p).any isSpace = false := List.any_eq_false.mpr fun c hc => by
      rw [hsp c hc]
      nofun
    have hne : h.isEmpty = false := List.isEmpty_eq_false_iff.mpr ((inner_isEmpty_iff h).mp hin).1
    have hpe : p.isEmpty = false := List.isEmpty_eq_false_iff.mpr hpne
    simp only [hsp', hne, hpe, hdig, hmem, Bool.or_false, Bool.not_true,
      not_true_eq_false, decide_false] at hbad
    cases hbad
  · rename_i hgood
    simp only [Bool.or_eq_true, not_or, Bool.not_eq_true, Bool.not_eq_false', decide_eq_true_eq,
      not_not] at hgood
    obtain ⟨⟨⟨⟨hsp, -⟩, -⟩, hpe⟩, hdig⟩ := hgood
    have hsp' : ∀ c ∈ h ++ 58 :: p, isSpace c = false := by
      intro c hc
      simpa using List.any_eq_false.mp hsp c hc
    have hpne : p ≠ [] := List.isEmpty_eq_false_iff.mp hpe
    rw [and_iff_right hsp', and_iff_right (show _ ∧ _ from ⟨hpne, hdig⟩)]
    generalize (if bracketed h then (h.drop 1).dropLast else h) = inner
    cases hin : inner.isEmpty with
    | true => exact iff_of_false nofun fun hn => nomatch hn.1
    | false =>
      rw [and_iff_right rfl, if_neg nofun]
      cases hi : intOfDigits p with
      | none => exact iff_of_false nofun fun ⟨n, hn, _⟩ => nomatch hn
      | some n =>
        simp only [Option.some.injEq, exists_eq_left']
        split
        · rename_i hr
          exact iff_of_true rfl hr
        · rename_i hr
          exact iff_of_false nofun hr

theorem parseEndpoint_isOk_iff : (parseEndpoint intError v).isOk = true ↔
    ∃ codes h p, codesOf v = some codes ∧ codes = h ++ 58 :: p ∧
      (∀ c ∈ codes, isSpace c = false) ∧ IsHost .anyText h ∧
        (p.length ≤ Json.maxStrDigits ∧ InPortRange p) := by
  have hdigits : ∀ p, (p ≠ [] ∧ p.all isDigit = true) ∧
      (∃ n, intOfDigits p = some n ∧ 1 ≤ n ∧ n ≤ 65535) ↔
      p.length ≤ Json.maxStrDigits ∧ InPortRange p := by
    intro p
    unfold intOfDigits
    split
    · rename_i hlen
      rw [and_iff_right hlen]
      refine and_iff_right_of_imp fun hr => ⟨InPortRange.ne_nil hr, List.all_eq_true.mpr ?_⟩
      intro c hc
      obtain ⟨d, hd⟩ := InPortRange.digits hr hc
      simp [isDigit, hd]
    · rename_i hlen
      exact iff_of_false (fun ⟨_, _, hn, _⟩ => nomatch hn) fun hn => hlen hn.1
  cases hv : codesOf v with
  | none =>
    refine iff_of_false ?_ fun ⟨_, _, _, hn, _⟩ => nomatch hn
    simp only [parseEndpoint, hv]
    nofun
  | some codes =>
    by_cases hc : 58 ∈ codes
    · obtain ⟨h, p, rfl, hp⟩ := exists_split hc
      rw [parseEndpoint_split hv hp, hdigits]
      constructor
      · rintro ⟨hsp, hh, hr⟩
        exact ⟨_, h, p, rfl, rfl, hsp, ⟨hh.1, hh.2, trivial⟩, hr⟩
      · rintro ⟨codes, h', p', hcodes, rfl, hsp, hh, hlen, hr⟩
        have he : h ++ 58 :: p = h' ++ 58 :: p' := Option.some.inj hcodes
        have hport := portOf_append (h := h) hp
        rw [he, portOf_append hr.colon] at hport
        have hhost := hostOf_append (h := h) hp
        rw [he, hostOf_append hr.colon] at hhost
        subst hport hhost
        exact ⟨hsp, ⟨hh.1, hh.2.1⟩, hlen, hr⟩
    · refine iff_of_false ?_ ?_
      · simp only [parseEndpoint, hv, hc, not_false_eq_true, decide_true, Bool.true_or,
          Bool.or_true, if_true]
        nofun
      · rintro ⟨codes', h, p, hcodes, rfl, -⟩
        obtain rfl : codes = h ++ 58 :: p := Option.some.inj hcodes
        exact hc (by simp)

end Endpoints

section Requests

variable {intError : List ℕ → String} {req : Json}

theorem validateRegistration_isOk_iff_fields :
    (validateRegistration intError req).isOk = true ↔
      (∃ s, req.get "name" = .str s ∧ nameMatches s = true) ∧
        (parseEndpoint intError (req.get "endpoint")).isOk = true ∧
        (∃ s, roleOf req = .str s ∧ roleMatches s = true) ∧
        (∃ s, serialOf req = .str s ∧ serialMatches s = true) ∧
        req.get "simulated" = .bool true := by
  unfold validateRegistration
  split
  · rename_i name hname
    simp only [hname, Json.str.injEq, exists_eq_left']
    split
    · rename_i hn
      rw [and_iff_right hn]
      cases he : parseEndpoint intError (req.get "endpoint") with
      | error e => exact iff_of_false nofun fun h => nomatch h.1
      | ok endpoint =>
        dsimp only
        rw [and_iff_right (show (Except.ok endpoint : Except String _).isOk = true from rfl)]
        split
        · rename_i role hrole
          simp only [hrole, Json.str.injEq, exists_eq_left']
          split
          · rename_i hr
            rw [and_iff_right hr]
            split
            · rename_i serial hserial
              simp only [hserial, Json.str.injEq, exists_eq_left']
              split
              · rename_i hs
                rw [and_iff_right hs]
                split
                · rename_i hsim
                  exact iff_of_true rfl hsim
                · rename_i hsim
                  exact iff_of_false nofun hsim
              · rename_i hs
                exact iff_of_false nofun fun h => hs h.1
            · rename_i hserial
              exact iff_of_false nofun fun h => hserial _ h.1.choose_spec.1
          · rename_i hr
            exact iff_of_false nofun fun h => hr h.1
        · rename_i hrole
          exact iff_of_false nofun fun h => hrole _ h.1.choose_spec.1
    · rename_i hn
      exact iff_of_false nofun fun h => hn h.1
  · rename_i hname
    exact iff_of_false nofun fun h => hname _ h.1.choose_spec.1

theorem roleOf_iff : (∃ s, roleOf req = .str s ∧ roleMatches s = true) ↔
    (req.hasKey "role" = true → ∃ s, req.get "role" = .str s ∧ Line IsRole s.toList) := by
  simp only [roleMatches_iff]
  unfold roleOf
  split
  · rename_i hk
    rw [imp_iff_right hk]
  · rename_i hk
    refine iff_of_true ⟨defaultRole, rfl, ?_⟩ fun h => absurd h hk
    exact roleMatches_iff.mp (by decide)

theorem serialOf_iff : (∃ s, serialOf req = .str s ∧ serialMatches s = true) ↔
    (∃ s, req.get "serial" = .str s ∧ Line IsSerial s.toList) ∨
      ∃ n : ℕ, req.get "serial" = .int n ∧ Line IsSerial (toString n).toList := by
  simp only [serialMatches_iff]
  unfold serialOf
  cases hv : req.get "serial" with
  | int n =>
    cases n with
    | ofNat n =>
      dsimp only
      rw [if_pos (show (0 : ℤ) ≤ Int.ofNat n from Int.natCast_nonneg n)]
      constructor
      · rintro ⟨s, ⟨⟩, hs⟩
        exact Or.inr ⟨n, rfl, hs⟩
      · rintro (⟨s, ⟨⟩, -⟩ | ⟨m, hm, hs⟩)
        obtain rfl : n = m := Int.ofNat.inj (Json.int.inj hm)
        exact ⟨_, rfl, hs⟩
    | negSucc n =>
      dsimp only
      rw [if_neg (show ¬ (0 : ℤ) ≤ Int.negSucc n by omega)]
      refine iff_of_false (fun ⟨s, hs, _⟩ => nomatch hs) ?_
      rintro (⟨s, ⟨⟩, -⟩ | ⟨m, hm, -⟩)
      have := Json.int.inj hm
      omega
  | str s => simp
  | _ => simp

theorem validateRegistration_isOk_iff : (validateRegistration intError req).isOk = true ↔
    Form (Line IsName) (Line IsRole) (Line IsSerial) (IsHost .anyText)
      (fun p => p.length ≤ Json.maxStrDigits ∧ InPortRange p) req := by
  rw [validateRegistration_isOk_iff_fields, parseEndpoint_isOk_iff, roleOf_iff, serialOf_iff]
  simp only [nameMatches_iff]
  exact ⟨fun ⟨hn, he, hr, hs, hsim⟩ => ⟨hsim, hn, hr, hs, he⟩,
    fun ⟨hsim, hn, hr, hs, he⟩ => ⟨hn, he, hr, hs, hsim⟩⟩

/-- The text of the field has a line feed at its end. -/
def EndsLine (v : Json) : Prop := ∃ s, v = .str s ∧ s.toList.getLast? = some '\n'

/-- The port is not longer than `int` reads. -/
def ShortPort (req : Json) : Prop :=
  ∀ codes, codesOf (req.get "endpoint") = some codes → (portOf codes).length ≤ Json.maxStrDigits

/-- No text ends in a line feed, the port is of ASCII digits and the host as the rule has it. -/
structure Clean (rule : HostRule) (req : Json) : Prop where
  name : ¬ EndsLine (req.get "name")
  role : ¬ EndsLine (req.get "role")
  serial : ¬ EndsLine (req.get "serial")
  endpoint : ∀ codes, codesOf (req.get "endpoint") = some codes →
    (portOf codes).all isAsciiDigitCode = true ∧ rule.Allows (hostOf codes)

/-- What the documentation lets register does, and all else is a `ValueError`. -/
structure ExactRegistration (intError : List ℕ → String) (rule : HostRule) (req : Json) : Prop where
  accepts : Grammar rule req → (validateRegistration intError req).isOk = true
  refuses : ¬ Grammar rule req → ∃ message, validateRegistration intError req = .error message

section Exact

variable {rule : HostRule}

theorem Form.mono {name role serial name' role' serial' : List Char → Prop}
    {host port host' port' : List ℕ → Prop} (h : Form name role serial host port req)
    (hn : ∀ l, name l → name' l) (hr : ∀ l, role l → role' l) (hs : ∀ l, serial l → serial' l)
    (hh : ∀ l, host l → host' l) (hp : ∀ l, port l → port' l) :
    Form name' role' serial' host' port' req where
  simulated := h.simulated
  name := h.name.imp fun s ⟨he, ht⟩ => ⟨he, hn _ ht⟩
  role := fun hk => (h.role hk).imp fun s ⟨he, ht⟩ => ⟨he, hr _ ht⟩
  serial := h.serial.imp (·.imp fun s ⟨he, ht⟩ => ⟨he, hs _ ht⟩)
    (·.imp fun n ⟨he, ht⟩ => ⟨he, hs _ ht⟩)
  endpoint := by
    obtain ⟨codes, h1, p, hc, he, hsp, hhost, hport⟩ := h.endpoint
    exact ⟨codes, h1, p, hc, he, hsp, hh _ hhost, hp _ hport⟩

theorem Grammar.loose (h : Grammar rule req) : Loose req :=
  h.mono (fun _ => Or.inl) (fun _ => Or.inl) (fun _ => Or.inl)
    (fun _ hh => ⟨hh.1, hh.2.1, trivial⟩) fun _ hp => hp.2

theorem text_iff {P : List Char → Prop} {v : Json} (hP : ∀ l, P l → '\n' ∉ l)
    (h : ∃ s, v = .str s ∧ Line P s.toList) :
    (∃ s, v = .str s ∧ P s.toList) ↔ ¬ EndsLine v := by
  obtain ⟨s, rfl, hl⟩ := h
  simp only [EndsLine, Json.str.injEq, exists_eq_left', iff_of_line hP hl]

/-- Of the requests in order but for the slips, the documented ones are those without them. -/
theorem Loose.grammar_iff (h : Loose req) : Grammar rule req ↔ Clean rule req := by
  obtain ⟨codes, host, port, hc, rfl, hsp, hh, hp⟩ := h.endpoint
  have hport := portOf_append (h := host) hp.colon
  have hhost := hostOf_append (h := host) hp.colon
  constructor
  · intro hg
    refine ⟨(text_iff (fun _ => IsName.newline) h.name).mp hg.name, ?_, ?_, ?_⟩
    · rintro ⟨s, hs, hlast⟩
      have hk : req.hasKey "role" = true := Json.hasKey_of_get (by rw [hs]; nofun)
      exact (text_iff (fun _ => IsRole.newline) (h.role hk)).mp (hg.role hk) ⟨s, hs, hlast⟩
    · rintro ⟨s, hs, hlast⟩
      rcases hg.serial with (⟨t, ht, hP⟩ | ⟨n, hn, -⟩)
      · obtain rfl : s = t := Json.str.inj (hs.symm.trans ht)
        exact hP.newline (List.mem_of_getLast? hlast)
      · cases hs.symm.trans hn
    · intro codes' hcodes
      obtain rfl := Option.some.inj (hc.symm.trans hcodes)
      obtain ⟨codes', host', port', hc', rfl, -, hh', hp'⟩ := hg.endpoint
      have he := Option.some.inj (hc.symm.trans hc')
      rw [he, portOf_append hp'.2.colon, hostOf_append hp'.2.colon]
      exact ⟨hp'.1, hh'.2.2⟩
  · rintro ⟨hn, hr, hs, he⟩
    obtain ⟨hascii, hallow⟩ := he _ hc
    rw [hport] at hascii
    rw [hhost] at hallow
    refine ⟨h.simulated, (text_iff (fun _ => IsName.newline) h.name).mpr hn,
      fun hk => (text_iff (fun _ => IsRole.newline) (h.role hk)).mpr hr, ?_,
      _, host, port, hc, rfl, hsp, ⟨hh.1, hh.2.1, hallow⟩, hascii, hp⟩
    rcases h.serial with (hs' | ⟨n, hint, hl⟩)
    · exact Or.inl ((text_iff (fun _ => IsSerial.newline) hs').mpr hs)
    · refine Or.inr ⟨n, hint, (iff_of_line (fun _ => IsSerial.newline) hl).mpr fun hlast => ?_⟩
      exact toString_newline n (List.mem_of_getLast? hlast)

theorem Loose.isOk_iff (h : Loose req) :
    (validateRegistration intError req).isOk = true ↔ ShortPort req := by
  obtain ⟨codes, host, port, hc, rfl, hsp, hh, hp⟩ := h.endpoint
  have hport := portOf_append (h := host) hp.colon
  rw [validateRegistration_isOk_iff]
  constructor
  · rintro ⟨-, -, -, -, codes', host', port', hc', rfl, -, -, hlen, hp'⟩ codes hcodes
    obtain rfl := Option.some.inj (hc'.symm.trans hcodes)
    rwa [portOf_append hp'.colon]
  · intro hshort
    have hlen := hshort _ hc
    rw [hport] at hlen
    exact ⟨h.simulated, h.name, h.role, h.serial, _, host, port, hc, rfl, hsp, hh, hlen, hp⟩

theorem loose_of_isOk (h : (validateRegistration intError req).isOk = true) : Loose req :=
  (validateRegistration_isOk_iff.mp h).mono (fun _ => id) (fun _ => id) (fun _ => id)
    (fun _ => id) fun _ hp => hp.2

/-- `tinybot` with a line feed after it, registered as a simulator. -/
def nameWithNewline : Json :=
  .obj [("name", .str "tinybot\n"), ("endpoint", .str "127.0.0.1:41234"),
    ("serial", .str "1198504156"), ("simulated", .bool true)]

end Exact

end Requests

end MbTools.Virtual
