import MbTools.Api.Exclusive
import MbTools.Dispatch.Staging
import MbTools.Dispatch.Terminal

/-! # The files of a connection

Along every run the paths of a connection, its files and what the log says of them are in
step, whatever the others do. So a flash burns what was uploaded, and a connection that has
ended has left nothing behind.
-/

namespace MbTools.Dispatch

open Api Virtual Runs

/-! ## What the log says -/

/-- The path is handed to the client, or its flash starts. -/
def Entry.About (i : ℕ) (path : String) : Entry → Prop
  | returned j p _ | started j p => j = i ∧ p = path
  | _ => False

/-- The last thing with the path on the connection is that it was returned, for these
bytes. -/
def Fresh (log : List Entry) (i : ℕ) (path : String) (raw : List UInt8) : Prop :=
  ∃ before after, log = before ++ .returned i path raw :: after ∧ ∀ e ∈ after, ¬ e.About i path

/-- The last thing with the path on the connection is the start of a flash, before which
it was fresh. -/
def InFlash (log : List Entry) (i : ℕ) (path : String) (raw : List UInt8) : Prop :=
  ∃ before after, log = before ++ .started i path :: after ∧ Fresh before i path raw ∧
    ∀ e ∈ after, ¬ e.About i path

/-- A path is returned for uploaded bytes. A flash starts with a fresh path, and reads the
bytes the path was returned for. -/
def Justified (before : List Entry) : Entry → Prop
  | .uploaded _ _ => True
  | .returned i _ raw => .uploaded i raw ∈ before
  | .started i path => ∃ raw, Fresh before i path raw
  | .burned i path data => ∃ raw, InFlash before i path raw ∧ data = some raw

def Sound (log : List Entry) : Prop :=
  ∀ before e after, log = before ++ e :: after → Justified before e

section Log

variable {log es : List Entry} {e : Entry} {i : ℕ} {path : String} {raw : List UInt8}

theorem Fresh.append (h : Fresh log i path raw) (hes : ∀ e ∈ es, ¬ e.About i path) :
    Fresh (log ++ es) i path raw := by
  obtain ⟨before, after, rfl, hafter⟩ := h
  exact ⟨before, after ++ es, by simp, List.forall_mem_append.mpr ⟨hafter, hes⟩⟩

theorem InFlash.append (h : InFlash log i path raw) (hes : ∀ e ∈ es, ¬ e.About i path) :
    InFlash (log ++ es) i path raw := by
  obtain ⟨before, after, rfl, hfresh, hafter⟩ := h
  exact ⟨before, after ++ es, by simp, hfresh, List.forall_mem_append.mpr ⟨hafter, hes⟩⟩

theorem fresh_returned (log : List Entry) (i : ℕ) (path : String) (raw : List UInt8) :
    Fresh (log ++ [.returned i path raw]) i path raw := ⟨log, [], rfl, nofun⟩

theorem Fresh.started (h : Fresh log i path raw) :
    InFlash (log ++ [.started i path]) i path raw := ⟨log, [], rfl, h, nofun⟩

theorem Sound.left (h : Sound (log ++ es)) : Sound log := by
  intro before e after heq
  exact h before e (after ++ es) (by rw [heq, List.append_assoc, List.cons_append])

theorem Fresh.uploaded (h : Fresh log i path raw) (hlog : Sound log) :
    Entry.uploaded i raw ∈ log := by
  obtain ⟨before, after, rfl, -⟩ := h
  have hmem : Entry.uploaded i raw ∈ before := hlog before (.returned i path raw) after rfl
  exact List.mem_append_left _ hmem

theorem InFlash.uploaded (h : InFlash log i path raw) (hlog : Sound log) :
    Entry.uploaded i raw ∈ log := by
  obtain ⟨before, after, rfl, hfresh, -⟩ := h
  exact List.mem_append_left _ (hfresh.uploaded hlog.left)

theorem sound_nil : Sound [] := fun before e after h => by simp at h

theorem Sound.concat (h : Sound log) (he : Justified log e) : Sound (log ++ [e]) := by
  intro before e' after heq
  rcases List.eq_nil_or_concat after with rfl | ⟨after', last, rfl⟩
  · obtain ⟨rfl, hlast⟩ := List.append_inj' heq rfl
    obtain rfl := List.singleton_inj.mp hlast
    exact he
  · rw [List.concat_eq_append, ← List.cons_append, ← List.append_assoc] at heq
    exact h before e' after' (List.append_inj' heq rfl).1

end Log

/-! ## What a connection keeps -/

namespace HexConn

/-- The path of a file that is not in the set yet. -/
def Apart (c : HexConn) (path : String) : Prop :=
  match c.mode with
  | .writing p _ | .unstaging p => path = p
  | _ => False

/-- The bytes that are on their way into the set, or to the client. -/
def Carries (c : HexConn) (raw : List UInt8) : Prop :=
  match c.mode with
  | .staging r | .writing _ r | .answering (some (_, r)) _ => raw = r
  | _ => False

/-- What the log says of a path in the set whose file has the bytes. -/
def Tells (log : List Entry) (i : ℕ) (c : HexConn) (path : String) (raw : List UInt8) : Prop :=
  match c.mode with
  | .answering (some (p, r)) _ => if path = p then raw = r else Fresh log i path raw
  | .flashing p => if path = p then InFlash log i path raw else Fresh log i path raw
  | .discarding p => path = p ∨ Fresh log i path raw
  | .ending _ | .ended => True
  | _ => Fresh log i path raw

/-- The set and the files of the connection are in step, and so are the files and the log. -/
structure Kept (files : Files) (log : List Entry) (i : ℕ) (c : HexConn) : Prop where
  holds : ∀ {path}, c.Holds path → ∃ data, files.lookup path = some ⟨some i, data⟩
  apart : ∀ {path}, c.Apart path → path ∉ c.staged
  flashing : ∀ {path}, c.mode = .flashing path → path ∈ c.staged
  sent : ∀ {raw}, c.Carries raw → Entry.uploaded i raw ∈ log
  told : ∀ {path raw}, path ∈ c.staged → files.lookup path = some ⟨some i, raw⟩ →
    c.Tells log i path raw

end HexConn

section Kept

variable {files files' : Files} {log es : List Entry} {i : ℕ} {c c' : HexConn} {op : FileOp}
  {path : String} {raw : List UInt8}

theorem HexMode.Calm.holds_iff (h : c.mode.Calm) : c.Holds path ↔ path ∈ c.staged := by
  obtain ⟨holder, authenticated, staged, mode⟩ := c
  cases mode with
  | answering p _ => cases p <;> rfl
  | reading => rfl
  | concluding => rfl
  | away => rfl
  | _ => exact h.elim

theorem HexMode.Calm.tells_iff (h : c.mode.Calm) :
    c.Tells log i path raw ↔ Fresh log i path raw := by
  obtain ⟨holder, authenticated, staged, mode⟩ := c
  cases mode with
  | answering p _ =>
    cases p with
    | none => rfl
    | some _ => exact h.elim
  | reading => rfl
  | concluding => rfl
  | away => rfl
  | _ => exact h.elim

theorem lookup_apply (op : FileOp) (i : ℕ) (files : Files) (path : String) :
    (op.apply i files).lookup path =
      match op with
      | .keep => files.lookup path
      | .put p data => if p = path then some ⟨some i, data⟩ else files.lookup path
      | .remove p => if p = path then none else files.lookup path := by
  cases op with
  | keep => rfl
  | put p data => exact Dict.lookup_insert files p ⟨some i, data⟩ path
  | remove p => exact Dict.lookup_erase files p path

/-- A step lets go of a path where it removes the file, and takes one where it makes it. -/
theorem HexConn.Moves.holds_iff (h : c.Moves files i c' op es)
    (hapart : ∀ path, c.Apart path → path ∉ c.staged) (path : String) :
    c'.Holds path ↔
      match op with
      | .keep => c.Holds path
      | .put p _ => c.Holds path ∨ path = p
      | .remove p => c.Holds path ∧ path ≠ p := by
  cases h with
  | @calm a mode h h' =>
    rw [h.holds_iff]
    exact HexMode.Calm.holds_iff (c := { c with authenticated := a, mode }) h'
  | ends h =>
    rcases h with h | ⟨raw, h⟩ | ⟨staged, handsOff, h⟩
    · exact h.holds_iff.symm
    · simp only [HexConn.Holds, h]
    · cases staged <;> simp only [HexConn.Holds, h]
  | receives h => simp only [HexConn.Holds, h]
  | starts h hpath =>
    simp only [HexConn.Holds, h]
    exact or_iff_left_of_imp fun heq => heq ▸ hpath
  | makes h hnew => simp only [HexConn.Holds, h]
  | writes h =>
    simp only [HexConn.Holds, h, List.mem_insert_iff]
    tauto
  | fails h => simp only [HexConn.Holds, h]
  | @unstages p h =>
    have hp : p ∉ c.staged := hapart p (by simp only [HexConn.Apart, h])
    simp only [HexConn.Holds, h]
    constructor
    · intro hmem
      exact ⟨Or.inl hmem, fun heq => hp (heq ▸ hmem)⟩
    · rintro ⟨hmem | heq, hne⟩
      · exact hmem
      · exact absurd heq hne
  | @returns p raw handsOff mode h h' =>
    simp only [HexConn.Holds, h]
    exact HexMode.Calm.holds_iff (c := { c with mode }) h'
  | burns h => rfl
  | flashes h =>
    simp only [HexConn.Holds, h]
    tauto
  | discards h => simp [HexConn.Holds, h]
  | unlinks h hpath => simp [HexConn.Holds, h]
  | closes h => simp [HexConn.Holds, h]

/-- The path whose file a step writes or removes is new or the connection's own. -/
theorem HexConn.Moves.own (h : c.Moves files i c' op es) :
    match op with
    | .keep => True
    | .put p _ => files.lookup p = none ∨ c.Holds p
    | .remove p => c.Holds p := by
  cases h with
  | makes h hnew => exact Or.inl hnew
  | writes h => exact Or.inr (by simp [HexConn.Holds, h])
  | unstages h => simp [HexConn.Holds, h]
  | flashes h => simp [HexConn.Holds, h]
  | unlinks h hpath => simpa only [HexConn.Holds, h] using hpath
  | _ => trivial

theorem HexConn.Moves.about (h : c.Moves files i c' op es) {j : ℕ} (hj : j ≠ i) :
    ∀ e ∈ es, ∀ path, ¬ e.About j path := by
  cases h with
  | starts _ _ => simp [Entry.About, hj.symm]
  | returns _ _ => simp [Entry.About, hj.symm]
  | receives _ => simp [Entry.About]
  | burns _ => simp [Entry.About]
  | _ => simp

theorem HexMode.Calm.not_apart (h : c.mode.Calm) : ¬ c.Apart path := by
  obtain ⟨holder, authenticated, staged, mode⟩ := c
  cases mode with
  | writing _ _ => exact h.elim
  | unstaging _ => exact h.elim
  | _ => exact id

theorem HexMode.Calm.not_carries (h : c.mode.Calm) : ¬ c.Carries raw := by
  obtain ⟨holder, authenticated, staged, mode⟩ := c
  cases mode with
  | staging _ => exact h.elim
  | writing _ _ => exact h.elim
  | answering p _ =>
    cases p with
    | none => exact id
    | some _ => exact h.elim
  | _ => exact id

theorem HexConn.Tells.append (h : c.Tells log i path raw) (hes : ∀ e ∈ es, ¬ e.About i path) :
    c.Tells (log ++ es) i path raw := by
  obtain ⟨holder, authenticated, staged, mode⟩ := c
  unfold HexConn.Tells at h ⊢
  cases mode with
  | answering p _ =>
    rcases p with _ | ⟨p, r⟩
    · exact Fresh.append h hes
    dsimp only at h ⊢
    split at h
    next heq =>
      rw [if_pos heq]
      exact h
    next hne =>
      rw [if_neg hne]
      exact h.append hes
  | flashing p =>
    dsimp only at h ⊢
    split at h
    next heq =>
      rw [if_pos heq]
      exact h.append hes
    next hne =>
      rw [if_neg hne]
      exact h.append hes
  | discarding p => exact Or.imp_right (fun h => Fresh.append h hes) h
  | ending _ => trivial
  | ended => trivial
  | _ => exact Fresh.append h hes

/-- What others do to their own files, and what the log says of others, is no matter. -/
theorem HexConn.Kept.frame (hk : c.Kept files log i)
    (hfiles : ∀ path data,
      files'.lookup path = some ⟨some i, data⟩ ↔ files.lookup path = some ⟨some i, data⟩)
    (hes : ∀ e ∈ es, ∀ path, ¬ e.About i path) : c.Kept files' (log ++ es) i where
  holds h := by
    obtain ⟨data, hdata⟩ := hk.holds h
    exact ⟨data, (hfiles _ data).mpr hdata⟩
  apart := hk.apart
  flashing := hk.flashing
  sent h := List.mem_append_left es (hk.sent h)
  told hpath hfile := (hk.told hpath ((hfiles _ _).mp hfile)).append fun e he => hes e he _

theorem HexConn.Kept.not_holds (hk : c.Kept files log i) (hnew : files.lookup path = none) :
    ¬ c.Holds path := by
  intro hheld
  obtain ⟨data, hdata⟩ := hk.holds hheld
  rw [hnew] at hdata
  cases hdata

theorem HexConn.Moves.holds (h : c.Moves files i c' op es) (hk : c.Kept files log i)
    (hpath : c'.Holds path) : ∃ data, (op.apply i files).lookup path = some ⟨some i, data⟩ := by
  have hiff := h.holds_iff (fun _ => hk.apart) path
  rw [lookup_apply]
  cases op with
  | keep => exact hk.holds (hiff.mp hpath)
  | put p data =>
    dsimp only
    split
    · exact ⟨data, rfl⟩
    next hne =>
      rcases hiff.mp hpath with hheld | heq
      · exact hk.holds hheld
      · exact absurd heq.symm hne
  | remove p =>
    obtain ⟨hheld, hne⟩ := hiff.mp hpath
    dsimp only
    rw [if_neg hne.symm]
    exact hk.holds hheld

theorem HexConn.Moves.apart (h : c.Moves files i c' op es) (hk : c.Kept files log i)
    (hpath : c'.Apart path) : path ∉ c'.staged := by
  cases h with
  | @calm a mode h h' =>
    exact absurd hpath (HexMode.Calm.not_apart (c := { c with authenticated := a, mode }) h')
  | @returns p raw handsOff mode h h' =>
    exact absurd hpath (HexMode.Calm.not_apart (c := { c with mode }) h')
  | makes h hnew =>
    obtain rfl : path = _ := hpath
    intro hmem
    exact hk.not_holds hnew (by simpa only [HexConn.Holds, h] using hmem)
  | fails h => exact hk.apart (by simpa only [HexConn.Apart, h] using hpath)
  | burns h => exact hk.apart hpath
  | _ => exact hpath.elim

theorem HexConn.Moves.flashing (h : c.Moves files i c' op es) (hk : c.Kept files log i)
    (hpath : c'.mode = .flashing path) : path ∈ c'.staged := by
  cases h with
  | calm h h' =>
    obtain rfl := hpath
    exact h'.elim
  | returns h h' =>
    obtain rfl := hpath
    exact h'.elim
  | starts h hmem =>
    cases hpath
    exact hmem
  | burns h => exact hk.flashing hpath
  | _ => cases hpath

theorem HexConn.Moves.sent (h : c.Moves files i c' op es) (hk : c.Kept files log i)
    (hraw : c'.Carries raw) : Entry.uploaded i raw ∈ log ++ es := by
  cases h with
  | @calm a mode h h' =>
    exact absurd hraw (HexMode.Calm.not_carries (c := { c with authenticated := a, mode }) h')
  | @returns p raw handsOff mode h h' =>
    exact absurd hraw (HexMode.Calm.not_carries (c := { c with mode }) h')
  | receives h =>
    obtain rfl : raw = _ := hraw
    exact List.mem_concat_self
  | makes h hnew =>
    exact List.mem_append_left [] (hk.sent (by simpa only [HexConn.Carries, h] using hraw))
  | writes h =>
    exact List.mem_append_left [] (hk.sent (by simpa only [HexConn.Carries, h] using hraw))
  | burns h => exact List.mem_append_left _ (hk.sent hraw)
  | _ => exact hraw.elim

theorem HexConn.Moves.told (h : c.Moves files i c' op es) (hk : c.Kept files log i)
    (hpath : path ∈ c'.staged)
    (hfile : (op.apply i files).lookup path = some ⟨some i, raw⟩) :
    c'.Tells (log ++ es) i path raw := by
  rw [lookup_apply] at hfile
  cases h with
  | @calm a mode h h' =>
    rw [HexMode.Calm.tells_iff (c := { c with authenticated := a, mode }) h', List.append_nil]
    exact h.tells_iff.mp (hk.told hpath hfile)
  | ends h => trivial
  | receives h =>
    have htold := hk.told hpath hfile
    simp only [HexConn.Tells, h] at htold
    exact htold.append (by simp [Entry.About])
  | @starts p h hmem =>
    have hfresh := hk.told hpath hfile
    simp only [HexConn.Tells, h] at hfresh ⊢
    split
    next heq =>
      subst heq
      exact hfresh.started
    next hne => exact hfresh.append (by simpa [Entry.About] using Ne.symm hne)
  | @makes p r h hnew =>
    have hnot : p ∉ c.staged := (HexConn.Moves.makes h hnew).apart hk rfl
    have hne : p ≠ path := fun heq => hnot (heq ▸ hpath)
    dsimp only at hfile
    rw [if_neg hne] at hfile
    have htold := hk.told hpath hfile
    simp only [HexConn.Tells, h] at htold
    rw [List.append_nil]
    exact htold
  | @writes p r h =>
    dsimp only at hfile
    simp only [HexConn.Tells, List.append_nil]
    split at hfile
    next heq =>
      rw [if_pos heq.symm]
      cases hfile
      rfl
    next hne =>
      rw [if_neg (Ne.symm hne)]
      have hmem : path ∈ c.staged := (List.mem_insert_iff.mp hpath).resolve_left (Ne.symm hne)
      have htold := hk.told hmem hfile
      simp only [HexConn.Tells, h] at htold
      exact htold
  | fails h =>
    have htold := hk.told hpath hfile
    simp only [HexConn.Tells, h] at htold
    rw [List.append_nil]
    exact htold
  | @unstages p h =>
    dsimp only at hfile
    split at hfile
    · cases hfile
    have htold := hk.told hpath hfile
    simp only [HexConn.Tells, h] at htold
    rw [List.append_nil]
    exact htold
  | @returns p r handsOff mode h h' =>
    rw [HexMode.Calm.tells_iff (c := { c with mode }) h']
    have htold := hk.told hpath hfile
    simp only [HexConn.Tells, h] at htold
    split at htold
    next heq =>
      subst heq htold
      exact fresh_returned log i path raw
    next hne => exact htold.append (by simpa [Entry.About] using Ne.symm hne)
  | burns h => exact (hk.told hpath hfile).append (by simp [Entry.About])
  | @flashes p h =>
    dsimp only at hfile
    split at hfile
    · cases hfile
    next hne =>
      have htold := hk.told hpath hfile
      simp only [HexConn.Tells, h, if_neg (Ne.symm hne)] at htold
      rw [List.append_nil]
      exact Or.inr htold
  | @discards p h =>
    obtain ⟨hmem, hne⟩ := List.mem_filter.mp hpath
    have htold := hk.told hmem hfile
    simp only [HexConn.Tells, h] at htold
    rw [List.append_nil]
    exact htold.resolve_left (of_decide_eq_true hne)
  | unlinks h _ => trivial
  | closes h => trivial

/-- A step of a connection keeps what its set, its files and the log have in common. -/
theorem HexConn.Moves.kept (h : c.Moves files i c' op es) (hk : c.Kept files log i) :
    c'.Kept (op.apply i files) (log ++ es) i :=
  ⟨h.holds hk, h.apart hk, h.flashing hk, h.sent hk, h.told hk⟩

/-- The entries of a step are justified by those before. -/
theorem HexConn.Moves.sound (h : c.Moves files i c' op es) (hk : c.Kept files log i)
    (hlog : Sound log) : Sound (log ++ es) := by
  cases h with
  | receives h => exact hlog.concat trivial
  | returns h h' => exact hlog.concat (hk.sent (by simp only [HexConn.Carries, h]))
  | @starts p h hmem =>
    obtain ⟨data, hdata⟩ := hk.holds (show c.Holds p by simpa only [HexConn.Holds, h] using hmem)
    have htold := hk.told hmem hdata
    simp only [HexConn.Tells, h] at htold
    exact hlog.concat ⟨data, htold⟩
  | @burns p h =>
    have hmem := hk.flashing h
    obtain ⟨data, hdata⟩ := hk.holds (show c.Holds p by simp [HexConn.Holds, h])
    have htold := hk.told hmem hdata
    simp only [HexConn.Tells, h, if_true] at htold
    refine hlog.concat ⟨data, htold, ?_⟩
    rw [hdata]
    rfl
  | _ =>
    rw [List.append_nil]
    exact hlog

end Kept

/-! ## What the server keeps -/

namespace HexServer

/-- Every connection is in step with its files, and no file is without its connection. -/
structure Kept (s : HexServer) : Prop where
  conns : ∀ {i c}, s.conns.lookup i = some c → c.Kept s.files s.log i
  owned : ∀ {path i data}, s.files.lookup path = some ⟨some i, data⟩ →
    ∃ c, s.conns.lookup i = some c ∧ c.Holds path
  sound : Sound s.log

variable {decode : String → Except String (List UInt8)} {authToken : Option String}
  {s s' : HexServer} {i j : ℕ} {c c' : HexConn} {op : FileOp} {es : List Entry}

theorem kept_new {files : Files} {log : List Entry} {holder : HolderRef} :
    HexConn.Kept files log i ⟨holder, false, [], .reading⟩ where
  holds h := absurd h List.not_mem_nil
  apart h := h.elim
  flashing h := by cases h
  sent h := h.elim
  told h := absurd h List.not_mem_nil

theorem kept_start : start.Kept where
  conns h := by simp [start] at h
  owned h := by simp [start] at h
  sound := sound_nil

theorem Kept.connect (hk : s.Kept) (hnew : s.conns.lookup i = none) (holder : HolderRef) :
    ({ s with conns := s.conns.insert i ⟨holder, false, [], .reading⟩ } : HexServer).Kept where
  conns {j c} h := by
    rcases Dict.lookup_insert_cases h with ⟨rfl, rfl⟩ | h
    · exact kept_new
    · exact hk.conns h
  owned {path j data} h := by
    obtain ⟨c, hc, hheld⟩ := hk.owned h
    have hne : i ≠ j := by
      rintro rfl
      rw [hnew] at hc
      cases hc
    exact ⟨c, by rwa [Dict.lookup_insert_of_ne hne], hheld⟩
  sound := hk.sound

theorem Kept.frame (hk : s.Kept) (hi : s.conns.lookup i = some c)
    (h : c.Moves s.files i c' op es) (hj : j ≠ i) (path : String) (data : List UInt8) :
    (op.apply i s.files).lookup path = some ⟨some j, data⟩ ↔
      s.files.lookup path = some ⟨some j, data⟩ := by
  have hown := h.own
  have hnot (hheld : c.Holds path) : s.files.lookup path ≠ some ⟨some j, data⟩ := by
    obtain ⟨d, hd⟩ := (hk.conns hi).holds hheld
    rw [hd]
    intro heq
    cases heq
    exact hj rfl
  rw [lookup_apply]
  cases op with
  | keep => rfl
  | put p d =>
    dsimp only at hown ⊢
    split
    next heq =>
      subst heq
      constructor
      · intro heq
        cases heq
        exact absurd rfl hj
      · intro hfile
        rcases hown with hnone | hheld
        · rw [hnone] at hfile
          cases hfile
        · exact absurd hfile (hnot hheld)
    · rfl
  | remove p =>
    dsimp only at hown ⊢
    split
    next heq =>
      subst heq
      exact ⟨nofun, fun hfile => absurd hfile (hnot hown)⟩
    · rfl

theorem Kept.moves (hk : s.Kept) (hi : s.conns.lookup i = some c)
    (h : c.Moves s.files i c' op es) :
    (⟨op.apply i s.files, s.conns.insert i c', s.log ++ es⟩ : HexServer).Kept where
  conns {j d} hd := by
    rw [Dict.lookup_insert] at hd
    split at hd
    next hj =>
      subst hj
      cases hd
      exact h.kept (hk.conns hi)
    next hj => exact (hk.conns hd).frame (hk.frame hi h (Ne.symm hj)) (h.about (Ne.symm hj))
  owned {path j data} hfile := by
    by_cases hj : j = i
    · subst hj
      refine ⟨c', Dict.lookup_insert_self, ?_⟩
      have hheld (hd : s.files.lookup path = some ⟨some j, data⟩) : c.Holds path := by
        obtain ⟨d, hd, hheld⟩ := hk.owned hd
        rw [hi] at hd
        cases hd
        exact hheld
      rw [h.holds_iff (fun _ => (hk.conns hi).apart)]
      rw [lookup_apply] at hfile
      cases op with
      | keep => exact hheld hfile
      | put p d =>
        dsimp only at hfile ⊢
        split at hfile
        next heq => exact Or.inr heq.symm
        · exact Or.inl (hheld hfile)
      | remove p =>
        dsimp only at hfile ⊢
        split at hfile
        · cases hfile
        next hne => exact ⟨hheld hfile, Ne.symm hne⟩
    · obtain ⟨d, hd, hheld⟩ := hk.owned ((hk.frame hi h hj path data).mp hfile)
      exact ⟨d, by rwa [Dict.lookup_insert_of_ne (Ne.symm hj)], hheld⟩
  sound := h.sound (hk.conns hi) hk.sound

theorem Kept.others {files : Files} (hk : s.Kept)
    (hfiles : ∀ i p data, files.lookup p = some ⟨some i, data⟩ ↔
      s.files.lookup p = some ⟨some i, data⟩) :
    ({ s with files } : HexServer).Kept where
  conns {j c} h := by
    have hframe : c.Kept files (s.log ++ []) j := (hk.conns h).frame (hfiles j) (by simp)
    rwa [List.append_nil] at hframe
  owned {p j data} h := hk.owned ((hfiles j p data).mp h)
  sound := hk.sound

theorem lookup_others {files : Files} {path : String} {f : Option HexFile}
    (h : (files.lookup path).all (·.owner = none)) (hf : f.all (·.owner = none)) (i : ℕ)
    (p : String) (data : List UInt8) :
    (if path = p then f else files.lookup p) = some ⟨some i, data⟩ ↔
      files.lookup p = some ⟨some i, data⟩ := by
  split
  next heq =>
    subst heq
    constructor
    · rintro rfl
      simp at hf
    · intro hfile
      simp [hfile] at h
  · rfl

theorem Kept.step {a : HexAction} (hk : s.Kept)
    (h : HexServer.step decode authToken s a = some s') : s'.Kept := by
  cases a with
  | connect i holder =>
    simp only [HexServer.step] at h
    split at h
    next hnew =>
      cases h
      exact hk.connect hnew holder
    · cases h
  | deed i d =>
    obtain ⟨c, hi, h⟩ := Option.bind_eq_some_iff.mp h
    obtain ⟨⟨c', op, es⟩, hd, rfl⟩ := Option.map_eq_some_iff.mp h
    exact hk.moves hi (moves_of_step hd)
  | others path data =>
    simp only [HexServer.step] at h
    split at h
    next howner =>
      cases data with
      | none =>
        cases h
        refine hk.others fun i p d => ?_
        rw [Dict.lookup_erase]
        exact lookup_others howner rfl i p d
      | some data =>
        cases h
        refine hk.others fun i p d => ?_
        rw [Dict.lookup_insert]
        exact lookup_others howner rfl i p d
    · cases h

/-- However the connections take turns and whatever fails on them, a flash starts only with a
path that the same connection was returned and has not flashed since, every read of it gets the
bytes that the connection uploaded, and a connection that has ended has no file left. -/
theorem staged_hex_confined {as : List HexAction}
    (h : exec (HexServer.step decode authToken) start as = some s) :
    (∀ before i path after, s.log = before ++ .started i path :: after →
      ∃ raw, Fresh before i path raw ∧ Entry.uploaded i raw ∈ before) ∧
    (∀ before i path data after, s.log = before ++ .burned i path data :: after →
      ∃ raw, InFlash before i path raw ∧ Entry.uploaded i raw ∈ before ∧ data = some raw) ∧
    ∀ i c, s.conns.lookup i = some c → c.mode = .ended →
      ∀ path f, s.files.lookup path = some f → f.owner ≠ some i := by
  have hk : s.Kept := inv_of_exec (fun _ _ _ hk hs => Kept.step hk hs) kept_start h
  refine ⟨fun before i path after heq => ?_, fun before i path data after heq => ?_, ?_⟩
  · have hsound := heq ▸ hk.sound
    obtain ⟨raw, hfresh⟩ : ∃ raw, Fresh before i path raw := hsound before _ after rfl
    exact ⟨raw, hfresh, hfresh.uploaded hsound.left⟩
  · have hsound := heq ▸ hk.sound
    obtain ⟨raw, hflash, hdata⟩ : ∃ raw, InFlash before i path raw ∧ data = some raw :=
      hsound before _ after rfl
    exact ⟨raw, hflash, hflash.uploaded hsound.left, hdata⟩
  · rintro i c hc hended path ⟨owner, data⟩ hfile rfl
    obtain ⟨d, hd, hheld⟩ := hk.owned hfile
    rw [hc] at hd
    cases hd
    rw [HexConn.Holds, hended] at hheld
    exact hheld

/-- The board with a flash lock of a remote client. -/
def lockedBoard : Boards :=
  let acts := [.act (.connect 0 .tcp System.laptop),
    .act (.lock 0 6 ⟨some "9900a", some "flash", none⟩)]
  (exec Boards.step (Boards.start .ascii System.oneBoard) acts).getD
    (Boards.start .ascii System.oneBoard)

def stagedPath : String := "/tmp/mbregistry-remote-hex-k3.hex"

/-- The client stages three bytes, flashes them and leaves. -/
def flashAndLeave : List HexAction :=
  let sendHex := Json.obj [("op", .str "send_hex"), ("data", .str "OjAw")]
  let flash := Json.obj [("op", .str "flash"), ("uid", .str "9900a"), ("hex_path", .str stagedPath)]
  .connect 0 System.laptop :: [.line (World.still (.value sendHex)) lockedBoard "",
    .mkstemp (.ok stagedPath), .wrote true, .answered true,
    .line (World.still (.value flash)) lockedBoard "", .burn, .flashed, .discard, .concluded true,
    .answered true, .leave, .close].map (.deed 0)

/-- What the text of that client decodes to. -/
def threeBytes : String → Except String (List UInt8) := fun _ => .ok [58, 48, 48]

theorem staged_hex_confined_flashed :
    ∃ s raw, exec (HexServer.step threeBytes none) start flashAndLeave = some s ∧
      InFlash (s.log.take 3) 0 stagedPath raw ∧ some [58, 48, 48] = some raw ∧
      ∀ path f, s.files.lookup path = some f → f.owner ≠ some 0 := by
  have hrun : (exec (HexServer.step threeBytes none) start flashAndLeave).any (fun s =>
      s.log = s.log.take 3 ++ [.burned 0 stagedPath (some [58, 48, 48])] &&
        (s.conns.lookup 0).any (fun c => c.mode = .ended)) = true := by decide +kernel
  obtain ⟨s, hs, hend⟩ := (Option.any_eq_true _ _).mp hrun
  rw [Bool.and_eq_true, decide_eq_true_iff, Option.any_eq_true] at hend
  obtain ⟨hlog, c, hc, hended⟩ := hend
  obtain ⟨-, hburned, hfiles⟩ := staged_hex_confined hs
  obtain ⟨raw, hflash, -, hdata⟩ := hburned _ 0 stagedPath _ [] hlog
  exact ⟨s, raw, hs, hflash, hdata, hfiles 0 c hc (of_decide_eq_true hended)⟩

end HexServer

end MbTools.Dispatch
