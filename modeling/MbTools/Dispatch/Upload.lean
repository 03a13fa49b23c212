import MbTools.Dispatch.StagedFiles
import MbTools.Lib.Base64

/-! # Remote flashes, from file to board

`RemoteRegistryClient.flash` reads a file, sends its bytes in base64 and flashes the path
it gets back. The board gets those bytes, or the client is told that they are too many or
that there are none.
-/

namespace MbTools.Dispatch

open Api Virtual Runs

/-- `base64.b64decode`, with what the exception says. -/
def b64decode (why : String → String) (data : String) : Except String (List UInt8) :=
  match Base64.decode data.toList with
  | some bytes => .ok bytes
  | none => .error (why data)

/-- The first request of `RemoteRegistryClient.flash`. -/
def sendHexRequest (data : List UInt8) : Json :=
  .obj [("op", .str "send_hex"), ("data", .str (String.ofList (Base64.encode data)))]

section Vet

variable {why : String → String} {w : World} {req : Json} {data raw : List UInt8}

theorem b64decode_encode (why : String → String) (data : List UInt8) :
    b64decode why (String.ofList (Base64.encode data)) = .ok data := by
  rw [b64decode, String.toList_ofList, Base64.decode_encode]

theorem ofList_encode_eq_empty_iff :
    String.ofList (Base64.encode data) = "" ↔ data = [] := by
  rw [String.ofList_eq, String.toList_empty, ← List.length_eq_zero_iff, Base64.length_encode,
    ← List.length_eq_zero_iff]
  omega

/-- The cheap check of the text refuses nothing that the check of the bytes lets through. -/
theorem length_encode_le (h : data.length ≤ maxHexPayloadBytes) :
    (String.ofList (Base64.encode data)).length ≤ maxHexB64Chars := by
  rw [String.length_ofList, Base64.length_encode, maxHexB64Chars]
  omega

theorem vetHexData_sendHexRequest (why : String → String) (w : World) (data : List UInt8) :
    vetHexData (b64decode why) w (sendHexRequest data) =
      if data = [] then .error "'send_hex' requires 'data' (base64)"
      else if maxHexPayloadBytes < data.length then .error tooLarge
      else .ok data := by
  have hget : (sendHexRequest data).get "data" = .str (String.ofList (Base64.encode data)) := rfl
  rw [vetHexData, hget]
  dsimp only
  rw [b64decode_encode]
  simp only [ofList_encode_eq_empty_iff]
  split
  · rfl
  split
  next hlong =>
    -- where the text is too long, so are the bytes
    rw [if_pos (Nat.lt_of_not_le fun hle => absurd (length_encode_le hle) (by omega))]
  · rfl

theorem vetHexData_sendHexRequest_ok
    (h : vetHexData (b64decode why) w (sendHexRequest data) = .ok raw) :
    raw = data ∧ data ≠ [] ∧ data.length ≤ maxHexPayloadBytes := by
  rw [vetHexData_sendHexRequest] at h
  split at h
  · cases h
  next hne =>
    split at h
    · cases h
    next hlen =>
      cases h
      exact ⟨rfl, hne, Nat.le_of_not_lt hlen⟩

end Vet

/-! ## Runs -/

/-- A request to stage is that of `RemoteRegistryClient.flash` for one of the connection's
files. -/
def HexAction.Flashes (clientFiles : ℕ → List (List UInt8)) : HexAction → Prop
  | .deed i (.line w _ line) => ∀ fields, w.loads line = .value (.obj fields) →
      verbOf .remote ((Json.obj fields).get "op") = some .sendHex →
      ∃ data ∈ clientFiles i, .obj fields = sendHexRequest data
  | _ => True

/-- The bytes of one of the connection's files, not too many and not none. -/
def Flashable (clientFiles : ℕ → List (List UInt8)) (i : ℕ) (data : List UInt8) : Prop :=
  data ∈ clientFiles i ∧ data ≠ [] ∧ data.length ≤ maxHexPayloadBytes

/-- Only such bytes are uploaded. -/
def Uploads (clientFiles : ℕ → List (List UInt8)) (log : List Entry) : Prop :=
  ∀ i data, Entry.uploaded i data ∈ log → Flashable clientFiles i data

section Uploads

variable {why : String → String} {decode : String → Except String (List UInt8)}
  {authToken : Option String} {clientFiles : ℕ → List (List UInt8)} {files : Files}
  {i j : ℕ} {c c' : HexConn} {d : Deed} {op : FileOp} {es : List Entry} {raw : List UInt8}

/-- A request that stages bytes is a `send_hex` whose data are these bytes. -/
theorem HexConn.request_staging {w : World} {b : Boards} {line : String}
    (h : c.request decode i w b line = .staging raw) :
    ∃ fields, w.loads line = .value (.obj fields) ∧
      verbOf .remote ((Json.obj fields).get "op") = some .sendHex ∧
      vetHexData decode w (.obj fields) = .ok raw := by
  unfold HexConn.request at h
  split at h
  · cases h
  next fields hloads =>
    dsimp only at h
    split at h
    · cases h
    next hverb =>
      split at h
      · cases h
      next hvet =>
        cases h
        exact ⟨fields, hloads, hverb, hvet⟩
    · split at h <;> cases h
    · split at h <;> cases h
  · cases h

theorem HexConn.Moves.uploaded (h : c.Moves files i c' op es)
    (hmem : Entry.uploaded j raw ∈ es) :
    j = i ∧ c.mode = .reading ∧ c'.mode = .staging raw := by
  cases h with
  | receives h =>
    cases List.mem_singleton.mp hmem
    exact ⟨rfl, h, rfl⟩
  | _ => simp at hmem

theorem HexConn.line_of_uploaded (h : c.step decode authToken i files d = some (c', op, es))
    (hmem : Entry.uploaded j raw ∈ es) :
    j = i ∧ ∃ w b line, d = .line w b line ∧ c.request decode i w b line = .staging raw := by
  obtain ⟨rfl, hreading, hstaging⟩ := (moves_of_step h).uploaded hmem
  refine ⟨rfl, ?_⟩
  cases d with
  | line w b line =>
    simp only [HexConn.step, hreading, if_true] at h
    split at h
    · cases h
      exact ⟨w, b, line, rfl, hstaging⟩
    · split at h <;> cases h <;> cases hstaging
  | leave =>
    simp only [HexConn.step, hreading, true_or, if_true] at h
    cases h
    cases hstaging
  | _ => simp [HexConn.step, hreading] at h

theorem Uploads.append {log : List Entry} (h : Uploads clientFiles log)
    (hes : Uploads clientFiles es) : Uploads clientFiles (log ++ es) := by
  intro i data hmem
  exact (List.mem_append.mp hmem).elim (h i data) (hes i data)

theorem uploads_of_step (h : c.step (b64decode why) authToken i files d = some (c', op, es))
    (hd : (HexAction.deed i d).Flashes clientFiles) : Uploads clientFiles es := by
  intro j raw hmem
  obtain ⟨rfl, w, b, line, rfl, hrequest⟩ := HexConn.line_of_uploaded h hmem
  obtain ⟨fields, hloads, hverb, hvet⟩ := HexConn.request_staging hrequest
  obtain ⟨data, hfile, hfields⟩ := hd fields hloads hverb
  rw [hfields] at hvet
  obtain ⟨rfl, hne, hlen⟩ := vetHexData_sendHexRequest_ok hvet
  exact ⟨hfile, hne, hlen⟩

end Uploads

namespace HexServer

variable {why : String → String} {authToken : Option String}
  {clientFiles : ℕ → List (List UInt8)} {s s' : HexServer}

theorem uploads_step {a : HexAction} (hlog : Uploads clientFiles s.log)
    (ha : a.Flashes clientFiles) (h : HexServer.step (b64decode why) authToken s a = some s') :
    Uploads clientFiles s'.log := by
  cases a with
  | connect i holder =>
    simp only [HexServer.step] at h
    split at h
    · cases h
      exact hlog
    · cases h
  | deed i d =>
    obtain ⟨c, hi, h⟩ := Option.bind_eq_some_iff.mp h
    obtain ⟨⟨c', op, es⟩, hd, rfl⟩ := Option.map_eq_some_iff.mp h
    exact hlog.append (uploads_of_step hd ha)
  | others path data =>
    simp only [HexServer.step] at h
    split at h
    · cases data <;> cases h <;> exact hlog
    · cases h

/-- Where the connections send what `RemoteRegistryClient.flash` sends, a flash burns the bytes
of a file of its own connection, the one its path was last returned for, and no file that is
empty or over the limit, whatever else happens on the server; and the bytes of every other file are
accepted. -/
theorem burned_is_a_file {as : List HexAction} (hflash : ∀ a ∈ as, a.Flashes clientFiles)
    (h : exec (HexServer.step (b64decode why) authToken) start as = some s) :
    (∀ before i path data after, s.log = before ++ .burned i path data :: after →
      ∃ raw, data = some raw ∧ InFlash before i path raw ∧ Flashable clientFiles i raw) ∧
    ∀ w data, vetHexData (b64decode why) w (sendHexRequest data) =
      if data = [] then .error "'send_hex' requires 'data' (base64)"
      else if maxHexPayloadBytes < data.length then .error tooLarge
      else .ok data := by
  have hok : Meets (HexServer.step (b64decode why) authToken)
      (fun _ a => a.Flashes clientFiles) start as := meets_of_forall fun a ha _ => hflash a ha
  have hstep : ∀ s a s', s.Kept ∧ Uploads clientFiles s.log → a.Flashes clientFiles →
      HexServer.step (b64decode why) authToken s a = some s' →
      s'.Kept ∧ Uploads clientFiles s'.log :=
    fun s a s' hi ha hs => ⟨hi.1.step hs, uploads_step hi.2 ha hs⟩
  have hstart : start.Kept ∧ Uploads clientFiles start.log :=
    ⟨kept_start, fun i data hmem => absurd hmem List.not_mem_nil⟩
  obtain ⟨hkept, huploads⟩ := inv_of_meets hstep hstart hok h
  refine ⟨fun before i path data after heq => ?_,
    fun w data => vetHexData_sendHexRequest why w data⟩
  have hsound : Sound (before ++ .burned i path data :: after) := heq ▸ hkept.sound
  obtain ⟨raw, hin, hdata⟩ : ∃ raw, InFlash before i path raw ∧ data = some raw :=
    hsound before _ after rfl
  have hmem : Entry.uploaded i raw ∈ s.log := by
    rw [heq]
    exact List.mem_append_left _ (hin.uploaded hsound.left)
  exact ⟨raw, hdata, hin, huploads i raw hmem⟩

theorem flashAndLeave_flashes :
    ∀ a ∈ flashAndLeave, a.Flashes fun _ => [[58, 48, 48]] := by
  simp only [flashAndLeave, List.map_cons, List.map_nil, List.forall_mem_cons,
    HexAction.Flashes, World.still, true_and]
  refine ⟨fun fields hfields _ => ?_, fun fields hfields hverb => ?_, by simp⟩
  · cases hfields
    refine ⟨[58, 48, 48], List.mem_singleton.mpr rfl, ?_⟩
    have hencode : String.ofList (Base64.encode [58, 48, 48]) = "OjAw" := by decide +kernel
    rw [sendHexRequest, hencode]
  · cases hfields
    exact absurd hverb (by decide)

theorem burned_is_a_file_uploaded :
    ∃ s before after raw,
      exec (HexServer.step (b64decode fun _ => "Incorrect padding") none) start flashAndLeave =
        some s ∧
      s.log = before ++ .burned 0 stagedPath (some [58, 48, 48]) :: after ∧
      some [58, 48, 48] = some raw ∧ InFlash before 0 stagedPath raw ∧
      Flashable (fun _ => [[58, 48, 48]]) 0 raw := by
  have hrun : (exec (HexServer.step (b64decode fun _ => "Incorrect padding") none) start
      flashAndLeave).any (fun s =>
        s.log = s.log.take 3 ++ [.burned 0 stagedPath (some [58, 48, 48])]) = true := by
    decide +kernel
  obtain ⟨s, hs, hlog⟩ := (Option.any_eq_true _ _).mp hrun
  have hlog := of_decide_eq_true hlog
  obtain ⟨raw, hraw⟩ := (burned_is_a_file flashAndLeave_flashes hs).1 _ 0 stagedPath _ [] hlog
  exact ⟨s, _, [], raw, hs, hlog, hraw⟩

end HexServer

end MbTools.Dispatch
