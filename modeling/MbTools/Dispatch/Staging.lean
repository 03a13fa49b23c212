import MbTools.Dispatch.Lines

/-! # Staged hex files

A connection of the remote port stages files with `send_hex` and flashes them by their
paths. The paths are kept in a set of the connection and the files in one directory for
all connections; other threads run between any two system calls. What the registry holds
when a line arrives, and what a request meets, is given with the line.
-/

namespace MbTools.Dispatch

open Api Virtual Outcome

/-! ## The two operations in parts -/

section Parts

variable (decode : String → Except String (List UInt8)) (w : World) (c : Caller) (b : Boards)
  (req : Json)

/-- The checks of `_op_send_hex`: the bytes to stage, or why there are none. -/
def vetHexData : Except String (List UInt8) :=
  match req.get "data" with
  | .str data =>
    if data = "" then .error "'send_hex' requires 'data' (base64)"
    else if maxHexB64Chars < data.length then .error tooLarge
    else
      match decode data with
      | .error e => .error s!"'data' is not valid base64: {e}"
      | .ok raw => if maxHexPayloadBytes < raw.length then .error tooLarge else .ok raw
  | .lone codes =>
    if maxHexB64Chars < codes.length then .error tooLarge
    else .error s!"'data' is not valid base64: {w.reason req}"
  | _ => .error "'send_hex' requires 'data' (base64)"

theorem opSendHex_eq (hdecode : ∀ data, w.b64decode data = (decode data).map List.length) :
    opSendHex w b req =
      match vetHexData decode w req with
      | .error e => refuse e b
      | .ok _ =>
        match w.stage with
        | .path p => answer (.staged p) b
        | .fails e => refuse s!"could not stage hex file: {e}" b
        | .raises e => raise e b := by
  unfold opSendHex vetHexData
  cases req.get "data" with
  | str data =>
    dsimp only
    split
    · rfl
    split
    · rfl
    rw [hdecode]
    cases decode data with
    | error e => rfl
    | ok raw =>
      dsimp only [Except.map]
      split <;> rfl
  | lone codes =>
    dsimp only
    split <;> rfl
  | _ => rfl

/-- What comes before the run of a remote flash: a refusal, an exception, or the start. -/
inductive Vetted where
  | refused (e : ApiError)
  | raised
  | starts (r : DeviceRecord) (hexPath : String)

/-- The checks of `RemoteAPIServer._op_flash`. -/
def vetFlash : Vetted :=
  match tokenOf w.text (req.get "uid"), tokenOf w.text (req.get "hex_path") with
  | .missing, _ => .refused flashMissing
  | _, .missing => .refused flashMissing
  | _, .lone => .refused notStaged
  | token, .text hexPath =>
    if hexPath ∉ c.staged then .refused notStaged
    else
      match token with
      | .text token =>
        match opFlashPrecheck .tcp b.sys.daemon (some token) (some hexPath) c.holder with
        | .error e => .refused e
        | .ok r => .starts r hexPath
      | _ => .raised

theorem opFlashRemote_eq : opFlashRemote w c b req =
    match vetFlash w c b req with
    | .refused e => answer (.flashError e) b
    | .raised => raise .unicodeError b
    | .starts r hexPath => flashStaged w c b r hexPath := by
  unfold opFlashRemote vetFlash
  cases tokenOf w.text (req.get "uid") with
  | missing => rfl
  | lone =>
    cases tokenOf w.text (req.get "hex_path") with
    | text hexPath =>
      dsimp only
      split <;> rfl
    | _ => rfl
  | text token =>
    cases tokenOf w.text (req.get "hex_path") with
    | text hexPath =>
      dsimp only
      split
      · rfl
      cases opFlashPrecheck .tcp b.sys.daemon (some token) (some hexPath) c.holder <;> rfl
    | _ => rfl

variable {w c b req}

theorem mem_staged_of_starts {r : DeviceRecord} {hexPath : String}
    (h : vetFlash w c b req = .starts r hexPath) : hexPath ∈ c.staged := by
  unfold vetFlash at h
  split at h
  · cases h
  · cases h
  · cases h
  split at h
  · cases h
  next hmem =>
    split at h
    · split at h
      · cases h
      · cases h
        exact not_not.mp hmem
    · cases h

end Parts

/-! ## One connection -/

/-- A file of the temporary directory, with the connection that made it. -/
structure HexFile where
  owner : Option ℕ
  data : List UInt8
  deriving DecidableEq, Repr

abbrev Files := Dict String HexFile

/-- Where a handler is. `staging` has the bytes and no file yet, `writing` a file that is
not written; then the path is in the set and the response on its way. A flash is followed
by the two halves of its `finally`, `unlink` and `discard`. `away` is a stream or a watch,
and `ending` has the paths that the handler's `finally` still has to unlink. -/
inductive HexMode where
  | reading
  | staging (raw : List UInt8)
  | writing (path : String) (raw : List UInt8)
  | unstaging (path : String)
  | answering (staged : Option (String × List UInt8)) (handsOff : Bool)
  | flashing (path : String)
  | discarding (path : String)
  | concluding
  | away
  | ending (left : List String)
  | ended
  deriving DecidableEq, Repr

structure HexConn where
  holder : HolderRef
  authenticated : Bool
  /-- `uploaded_hex_paths`. -/
  staged : List String
  mode : HexMode
  deriving DecidableEq, Repr

/-- What a client sends and is told, and what a flash does, in order. -/
inductive Entry where
  | uploaded (i : ℕ) (raw : List UInt8)
  | returned (i : ℕ) (path : String) (raw : List UInt8)
  | started (i : ℕ) (path : String)
  | burned (i : ℕ) (path : String) (data : Option (List UInt8))
  deriving DecidableEq, Repr

/-- What a request that leads there leaves in the log. -/
def HexMode.entries (i : ℕ) : HexMode → List Entry
  | .staging raw => [.uploaded i raw]
  | .flashing path => [.started i path]
  | _ => []

/-- What a step does to the files. -/
inductive FileOp where
  | keep
  | put (path : String) (data : List UInt8)
  | remove (path : String)

def FileOp.apply (i : ℕ) (files : Files) : FileOp → Files
  | keep => files
  | put path data => files.insert path ⟨some i, data⟩
  | remove path => files.erase path

/-- What a handler's thread does next. `burn` is a read of the hex file by the run of a
flash. -/
inductive Deed where
  | line (w : World) (b : Boards) (line : String)
  | mkstemp (made : Except Uncaught String)
  | wrote (ok : Bool)
  | unstage
  | answered (ok : Bool)
  | burn
  | flashed
  | discard
  | concluded (ok : Bool)
  | leave
  | unlink (path : String)
  | close

namespace HexConn

section Step

variable (decode : String → Except String (List UInt8)) (authToken : Option String) (i : ℕ)
  (c : HexConn)

/-- `_check_auth`: is the line let through? An exception of the decoder is not caught. -/
def checkAuth (w : World) (line : String) : Bool :=
  match w.loads line with
  | .value v =>
    match v.get "token" with
    | .str token => authToken = some token
    | _ => false
  | _ => false

/-- `_dispatch_line`, as far as the first system call. -/
def request (w : World) (b : Boards) (line : String) : HexMode :=
  match w.loads line with
  | .raises _ => .ending c.staged
  | .value (.obj fields) =>
    let req := Json.obj fields
    let caller : Caller := ⟨.remote, i, c.holder, c.staged⟩
    match verbOf .remote (req.get "op") with
    | none => .answering none false
    | some .sendHex =>
      match vetHexData decode w req with
      | .error _ => .answering none false
      | .ok raw => .staging raw
    | some .flash =>
      match vetFlash w caller b req with
      | .refused _ => .answering none false
      | .raised => .ending c.staged
      | .starts _ hexPath => .flashing hexPath
    | some verb =>
      match (perform w caller b req verb).result with
      | .error _ => .ending c.staged
      | .ok (_, .next) => .answering none false
      | .ok _ => .answering none true
  | _ => .answering none false

def step (files : Files) : Deed → Option (HexConn × FileOp × List Entry)
  | .line w b line =>
    if c.mode = .reading then
      if c.authenticated || authToken = none then
        let mode := c.request decode i w b line
        some ({ c with mode }, .keep, mode.entries i)
      else if checkAuth authToken w line then
        some ({ c with authenticated := true, mode := .answering none false }, .keep, [])
      else some ({ c with mode := .ending c.staged }, .keep, [])
    else none
  | .mkstemp made =>
    match c.mode, made with
    | .staging raw, .ok path =>
      -- the file is a new one
      if files.lookup path = none then
        some ({ c with mode := .writing path raw }, .put path [], [])
      else none
    | .staging _, .error _ => some ({ c with mode := .ending c.staged }, .keep, [])
    | _, _ => none
  | .wrote ok =>
    match c.mode with
    | .writing path raw =>
      if ok then
        let staged := c.staged.insert path
        some ({ c with staged, mode := .answering (some (path, raw)) false }, .put path raw, [])
      else some ({ c with mode := .unstaging path }, .keep, [])
    | _ => none
  | .unstage =>
    match c.mode with
    | .unstaging path => some ({ c with mode := .answering none false }, .remove path, [])
    | _ => none
  | .answered ok =>
    match c.mode with
    | .answering staged handsOff =>
      if ok then
        some ({ c with mode := if handsOff then .away else .reading }, .keep,
          staged.toList.map fun p => .returned i p.1 p.2)
      else some ({ c with mode := .ending c.staged }, .keep, [])
    | _ => none
  | .burn =>
    match c.mode with
    | .flashing path =>
      some (c, .keep, [.burned i path ((files.lookup path).map HexFile.data)])
    | _ => none
  | .flashed =>
    match c.mode with
    | .flashing path => some ({ c with mode := .discarding path }, .remove path, [])
    | _ => none
  | .discard =>
    match c.mode with
    | .discarding path =>
      some ({ c with staged := c.staged.filter (· ≠ path), mode := .concluding }, .keep, [])
    | _ => none
  | .concluded ok =>
    if c.mode = .concluding then
      some ({ c with mode := if ok then .answering none false else .ending c.staged }, .keep, [])
    else none
  | .leave =>
    if c.mode = .reading ∨ c.mode = .away then
      some ({ c with mode := .ending c.staged }, .keep, [])
    else none
  | .unlink path =>
    match c.mode with
    | .ending left =>
      if path ∈ left then
        some ({ c with mode := .ending (left.filter (· ≠ path)) }, .remove path, [])
      else none
    | _ => none
  | .close => if c.mode = .ending [] then some ({ c with mode := .ended }, .keep, []) else none

end Step

/-- The files that the connection has to remove. -/
def Holds (c : HexConn) (path : String) : Prop :=
  match c.mode with
  | .writing p _ | .unstaging p | .flashing p => path ∈ c.staged ∨ path = p
  | .discarding p => path ∈ c.staged ∧ path ≠ p
  | .ending left => path ∈ left
  | .ended => False
  | _ => path ∈ c.staged

end HexConn

/-! ## All of them -/

structure HexServer where
  files : Files
  conns : Dict ℕ HexConn
  log : List Entry
  deriving DecidableEq, Repr

/-- A connection comes, one goes on, or another program writes or removes a file of its
own. -/
inductive HexAction where
  | connect (i : ℕ) (holder : HolderRef)
  | deed (i : ℕ) (d : Deed)
  | others (path : String) (data : Option (List UInt8))

namespace HexServer

def start : HexServer := ⟨Table.empty, Table.empty, []⟩

def step (decode : String → Except String (List UInt8)) (authToken : Option String)
    (s : HexServer) : HexAction → Option HexServer
  | .connect i holder =>
    if s.conns.lookup i = none then
      some { s with conns := s.conns.insert i ⟨holder, false, [], .reading⟩ }
    else none
  | .deed i d =>
    (s.conns.lookup i).bind fun c =>
      (c.step decode authToken i s.files d).map fun (c, op, entries) =>
        ⟨op.apply i s.files, s.conns.insert i c, s.log ++ entries⟩
  | .others path data =>
    if (s.files.lookup path).all (·.owner = none) then
      match data with
      | none => some { s with files := s.files.erase path }
      | some data => some { s with files := s.files.insert path ⟨none, data⟩ }
    else none

end HexServer

/-! ## What one connection can do -/

/-- No path is under way. -/
def HexMode.Calm : HexMode → Prop
  | reading | answering none _ | concluding | away => True
  | _ => False

/-- The steps of a connection, with what they do to the files and leave in the log. -/
inductive HexConn.Moves (files : Files) (i : ℕ) (c : HexConn) :
    HexConn → FileOp → List Entry → Prop
  | calm {a : Bool} {mode : HexMode} (h : c.mode.Calm) (h' : mode.Calm) :
      Moves files i c { c with authenticated := a, mode } .keep []
  | ends (h : c.mode.Calm ∨ (∃ raw, c.mode = .staging raw) ∨
        ∃ staged handsOff, c.mode = .answering staged handsOff) :
      Moves files i c { c with mode := .ending c.staged } .keep []
  | receives {raw : List UInt8} (h : c.mode = .reading) :
      Moves files i c { c with mode := .staging raw } .keep [.uploaded i raw]
  | starts {path : String} (h : c.mode = .reading) (hpath : path ∈ c.staged) :
      Moves files i c { c with mode := .flashing path } .keep [.started i path]
  | makes {path : String} {raw : List UInt8} (h : c.mode = .staging raw)
      (hnew : files.lookup path = none) :
      Moves files i c { c with mode := .writing path raw } (.put path []) []
  | writes {path : String} {raw : List UInt8} (h : c.mode = .writing path raw) :
      Moves files i c
        { c with staged := c.staged.insert path, mode := .answering (some (path, raw)) false }
        (.put path raw) []
  | fails {path : String} {raw : List UInt8} (h : c.mode = .writing path raw) :
      Moves files i c { c with mode := .unstaging path } .keep []
  | unstages {path : String} (h : c.mode = .unstaging path) :
      Moves files i c { c with mode := .answering none false } (.remove path) []
  | returns {path : String} {raw : List UInt8} {handsOff : Bool} {mode : HexMode}
      (h : c.mode = .answering (some (path, raw)) handsOff) (h' : mode.Calm) :
      Moves files i c { c with mode } .keep [.returned i path raw]
  | burns {path : String} (h : c.mode = .flashing path) :
      Moves files i c c .keep [.burned i path ((files.lookup path).map HexFile.data)]
  | flashes {path : String} (h : c.mode = .flashing path) :
      Moves files i c { c with mode := .discarding path } (.remove path) []
  | discards {path : String} (h : c.mode = .discarding path) :
      Moves files i c { c with staged := c.staged.filter (· ≠ path), mode := .concluding } .keep []
  | unlinks {path : String} {left : List String} (h : c.mode = .ending left)
      (hpath : path ∈ left) :
      Moves files i c { c with mode := .ending (left.filter (· ≠ path)) } (.remove path) []
  | closes (h : c.mode = .ending []) : Moves files i c { c with mode := .ended } .keep []

section Moves

variable {decode : String → Except String (List UInt8)} {authToken : Option String}
  {files : Files} {i : ℕ} {c c' : HexConn} {op : FileOp} {es : List Entry}

theorem calm_of_eq {mode : HexMode} (h : c.mode = mode) (hmode : mode.Calm) : c.mode.Calm :=
  h ▸ hmode

/-- A request ends the connection, uploads bytes, starts a flash of a path in its set, or is
calm. -/
theorem moves_request (w : World) (b : Boards) (line : String) (h : c.mode = .reading) :
    c.Moves files i { c with mode := c.request decode i w b line } .keep
      ((c.request decode i w b line).entries i) := by
  have hcalm : c.mode.Calm := calm_of_eq h trivial
  have hanswer (handsOff : Bool) : c.Moves files i { c with mode := .answering none handsOff }
      .keep [] := .calm hcalm trivial
  have hend : c.Moves files i { c with mode := .ending c.staged } .keep [] := .ends (Or.inl hcalm)
  unfold HexConn.request
  split
  · exact hend
  next fields =>
    dsimp only
    split
    · exact hanswer false
    · split
      · exact hanswer false
      · exact .receives h
    · split
      · exact hanswer false
      · exact hend
      next hstarts => exact .starts h (mem_staged_of_starts hstarts)
    · split
      · exact hend
      · exact hanswer false
      · exact hanswer true
  · exact hanswer false

theorem moves_line {w : World} {b : Boards} {line : String}
    (h : c.step decode authToken i files (.line w b line) = some (c', op, es)) :
    c.Moves files i c' op es := by
  simp only [HexConn.step] at h
  split at h
  next hmode =>
    have hcalm : c.mode.Calm := calm_of_eq hmode trivial
    split at h
    · cases h
      exact moves_request w b line hmode
    split at h
    · cases h
      exact .calm hcalm trivial
    · cases h
      exact .ends (Or.inl hcalm)
  · cases h

/-- Once its answer is out, a connection reads on or hands off. -/
theorem moves_answered {ok : Bool}
    (h : c.step decode authToken i files (.answered ok) = some (c', op, es)) :
    c.Moves files i c' op es := by
  simp only [HexConn.step] at h
  split at h
  next staged handsOff hmode =>
    cases ok with
    | false =>
      cases h
      exact .ends (Or.inr (Or.inr ⟨_, _, hmode⟩))
    | true =>
      cases h
      have hcalm : (if handsOff then HexMode.away else .reading).Calm := by
        cases handsOff <;> trivial
      rcases staged with _ | ⟨path, raw⟩
      · exact .calm (calm_of_eq hmode trivial) hcalm
      · exact .returns hmode hcalm
  · cases h

theorem moves_of_step {d : Deed} (h : c.step decode authToken i files d = some (c', op, es)) :
    c.Moves files i c' op es := by
  cases d with
  | line w b line => exact moves_line h
  | answered ok => exact moves_answered h
  | mkstemp made =>
    simp only [HexConn.step] at h
    split at h
    next hmode =>
      split at h
      next hnew =>
        cases h
        exact .makes hmode hnew
      · cases h
    next hmode =>
      cases h
      exact .ends (Or.inr (Or.inl ⟨_, hmode⟩))
    · cases h
  | wrote ok =>
    simp only [HexConn.step] at h
    split at h
    next hmode =>
      split at h
      · cases h
        exact .writes hmode
      · cases h
        exact .fails hmode
    · cases h
  | unstage =>
    simp only [HexConn.step] at h
    split at h
    next hmode =>
      cases h
      exact .unstages hmode
    · cases h
  | burn =>
    simp only [HexConn.step] at h
    split at h
    next hmode =>
      cases h
      exact .burns hmode
    · cases h
  | flashed =>
    simp only [HexConn.step] at h
    split at h
    next hmode =>
      cases h
      exact .flashes hmode
    · cases h
  | discard =>
    simp only [HexConn.step] at h
    split at h
    next hmode =>
      cases h
      exact .discards hmode
    · cases h
  | concluded ok =>
    simp only [HexConn.step] at h
    split at h
    next hmode =>
      have hcalm : c.mode.Calm := calm_of_eq hmode trivial
      cases ok with
      | true =>
        cases h
        exact .calm hcalm trivial
      | false =>
        cases h
        exact .ends (Or.inl hcalm)
    · cases h
  | leave =>
    simp only [HexConn.step] at h
    split at h
    next hmode =>
      cases h
      rcases hmode with hmode | hmode
      · exact .ends (Or.inl (calm_of_eq hmode trivial))
      · exact .ends (Or.inl (calm_of_eq hmode trivial))
    · cases h
  | unlink path =>
    simp only [HexConn.step] at h
    split at h
    next hmode =>
      split at h
      next hpath =>
        cases h
        exact .unlinks hmode hpath
      · cases h
    · cases h
  | close =>
    simp only [HexConn.step] at h
    split at h
    next hmode =>
      cases h
      exact .closes hmode
    · cases h

end Moves

end MbTools.Dispatch
