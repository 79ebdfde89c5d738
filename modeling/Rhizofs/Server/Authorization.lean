import Rhizofs.Foundations.LineReader
import Rhizofs.Libc
import Mathlib.Data.List.TakeWhile

/-!
# Authorisation of clients

`auth_routine` of the server's `main.c`, the handler of ZeroMQ's authentication protocol. A client
with a CURVE key is let in when its key, written in Z85, is found in the file of authorised keys.
The file is read with `fgets` into a buffer for 40 characters, so a key is also found within a
longer line, at the multiples of 40 (`authorizes_iff`). The encoding is a parameter.
-/

namespace Rhizofs

/-- `zmq_z85_encode` on a key of 32 bytes: 40 characters, all of them printable. -/
structure Z85 where
  encode : Vector UInt8 32 → CString
  length_encode : ∀ key, (encode key).length = 40
  printable : ∀ key, ∀ c ∈ encode key, 33 ≤ c

namespace Zap

/-- `"CURVE"`. -/
def curve : CString := [67, 85, 82, 86, 69]

/-- `"1.0"`. -/
def zapVersion : CString := [49, 46, 48]

/-- `'\n'`. -/
def newline : UInt8 := 10

/-- `'\r'`. -/
def carriageReturn : UInt8 := 13

/-- The frames of a request. The client key is nothing when `receive_message` fails; otherwise it
has the 32 bytes that were asked for. -/
structure Request where
  version : CString
  requestId : CString
  domain : CString
  address : CString
  identityProperty : CString
  mechanism : CString
  clientKey : Option (Vector UInt8 32)

/-- The frames of a reply, of which the last two are empty. -/
structure Reply where
  version : CString
  requestId : CString
  statusCode : String
  statusMsg : String

/-- The C string in a buffer: what stands before the first NUL. -/
def cString (buf : List UInt8) : CString := buf.takeWhile (· ≠ 0)

/-- The loop over the file of authorised keys. -/
def found (clientKeyText : CString) (file : List UInt8) : Bool :=
  LineReader.fgetsAny newline 39 (fun buf => decide (cString buf = clientKeyText)) file

/-- The status code and message. `authorizedKeys` is the content of the file of authorised keys,
nothing when it cannot be opened. -/
def status (z85 : Z85) (authorizedKeys : Option (List UInt8)) (request : Request) :
    String × String :=
  if request.mechanism = curve then
    match request.clientKey with
    | none => ("300", "internal error")
    | some clientKey =>
      if request.version ≠ zapVersion then ("300", "invalid ZAP version")
      else if (z85.encode clientKey).length = 40 then
        match authorizedKeys with
        | none => ("300", "internal error")
        | some file =>
          if found (z85.encode clientKey) file then ("200", "OK") else ("400", "denied")
      else ("400", "denied")
  else if request.version ≠ zapVersion then ("300", "invalid ZAP version")
  else ("400", "denied")

/-- One round of `auth_routine`. -/
def authRoutine (z85 : Z85) (authorizedKeys : Option (List UInt8)) (request : Request) : Reply :=
  let (statusCode, statusMsg) := status z85 authorizedKeys request
  { version := zapVersion, requestId := request.requestId, statusCode := statusCode,
    statusMsg := statusMsg }

/-! ## Keys in the file -/

/-- The text is a line of the file, which ends with a newline, with a carriage return and a
newline, or with the file. -/
def WholeLine (file : List UInt8) (text : CString) : Prop :=
  ∃ line ∈ file.splitOn newline, line = text ∨ line = text ++ [carriageReturn]

/-- The text stands within a line of the file, at a multiple of 40. -/
def InLine (file : List UInt8) (text : CString) : Prop :=
  ∃ line ∈ file.splitOn newline, ∃ i, LineReader.piece 40 i line = text

variable {z85 : Z85} {key : Vector UInt8 32} {file : List UInt8}

theorem cString_of_printable {text : CString} (h : ∀ c ∈ text, 33 ≤ c) : cString text = text := by
  apply List.takeWhile_eq_self_iff.mpr
  intro c hc
  have hle := h c hc
  have hne : c ≠ 0 := by
    rintro rfl
    exact absurd hle (by decide)
  simpa using hne

theorem newline_notMem_of_printable {text : CString} (h : ∀ c ∈ text, 33 ≤ c) :
    newline ∉ text := fun hmem => absurd (h newline hmem) (by decide)

/-- A buffer for 40 characters holds a string of 40 characters only if it holds nothing else. -/
theorem cString_eq_iff {buf : List UInt8} (hbuf : buf.length ≤ 40) :
    cString buf = z85.encode key ↔ buf = z85.encode key := by
  constructor
  · intro h
    have hpre : cString buf <+: buf := List.takeWhile_prefix _
    have hlen := z85.length_encode key
    rw [← h] at hlen ⊢
    have hle := hpre.length_le
    exact (hpre.eq_of_length (by omega)).symm
  · rintro rfl
    exact cString_of_printable (z85.printable key)

/-- What the loop over the file finds. -/
theorem found_iff : found (z85.encode key) file = true ↔ InLine file (z85.encode key) := by
  have hp : ∀ buf : List UInt8, buf.length ≤ 39 + 1 →
      decide (cString buf = z85.encode key) = true → buf.length = 39 + 1 ∧ newline ∉ buf := by
    intro buf hbuf h
    obtain rfl := (cString_eq_iff hbuf).mp (of_decide_eq_true h)
    exact ⟨z85.length_encode key, newline_notMem_of_printable (z85.printable key)⟩
  rw [found, LineReader.fgetsAny_iff hp]
  have hlen : ∀ i line, (LineReader.piece (39 + 1) i line : List UInt8).length ≤ 40 := by
    intro i line
    rw [LineReader.piece, List.length_take]
    omega
  simp only [LineReader.HasPiece, InLine, decide_eq_true_eq, cString_eq_iff (hlen _ _)]

/-- A whole line is found, whatever its terminator is. -/
theorem inLine_of_wholeLine (h : WholeLine file (z85.encode key)) :
    InLine file (z85.encode key) := by
  have hlen := z85.length_encode key
  obtain ⟨line, hmem, rfl | rfl⟩ := h
  · refine ⟨_, hmem, 0, ?_⟩
    rw [LineReader.piece_zero, ← hlen, List.take_length]
  · refine ⟨_, hmem, 0, ?_⟩
    rw [LineReader.piece_zero, ← hlen, List.take_left]

theorem authorizes_iff {request : Request} (hkey : request.clientKey = some key) :
    (authRoutine z85 (some file) request).statusCode = "200" ↔
      request.version = zapVersion ∧ request.mechanism = curve ∧
        InLine file (z85.encode key) := by
  have hlen := z85.length_encode key
  rw [← found_iff]
  simp only [authRoutine, status, hkey, hlen]
  by_cases hmechanism : request.mechanism = curve
  · by_cases hversion : request.version = zapVersion
    · cases found (z85.encode key) file <;> simp [hmechanism, hversion]
    · simp [hmechanism, hversion]
  · by_cases hversion : request.version = zapVersion <;> simp [hmechanism, hversion]

/-- **When the authorisation is exact.** For a client key and the content of the file, whole lines
alone decide if and only if the key does not stand within a line at a multiple of 40, unless it is
a whole line as well. -/
theorem authorizes_whole_lines_iff (request : Request) (hkey : request.clientKey = some key) :
    ((authRoutine z85 (some file) request).statusCode = "200" ↔
      request.version = zapVersion ∧ request.mechanism = curve ∧
        WholeLine file (z85.encode key)) ↔
      (request.version = zapVersion → request.mechanism = curve →
        InLine file (z85.encode key) → WholeLine file (z85.encode key)) := by
  have hfound : WholeLine file (z85.encode key) → InLine file (z85.encode key) :=
    inLine_of_wholeLine
  rw [authorizes_iff hkey]
  tauto

/-! ## A revoked key -/

/-- Z85 on the key of 32 zero bytes, which it writes as 40 times the character `0`. -/
def zeroZ85 : Z85 where
  encode _ := List.replicate 40 48
  length_encode _ := List.length_replicate
  printable := by
    intro _ c hc
    obtain rfl := List.eq_of_mem_replicate hc
    decide

/-- The request of a client with that key. -/
def zeroRequest : Request :=
  { version := zapVersion, requestId := [49], domain := [], address := [], identityProperty := [],
    mechanism := curve, clientKey := some (Vector.replicate 32 0) }

/-- A file whose only line is the key with the remark ` old` behind it. -/
def revokedFile : List UInt8 := List.replicate 40 48 ++ [32, 111, 108, 100, 10]

/-- The key is accepted, although no line of the file is the key. -/
theorem authorizes_revoked :
    (authRoutine zeroZ85 (some revokedFile) zeroRequest).statusCode = "200" ∧
      ¬ WholeLine revokedFile (zeroZ85.encode (Vector.replicate 32 0)) := by
  constructor
  · apply (authorizes_iff rfl).mpr
    exact ⟨rfl, rfl, List.replicate 40 48 ++ [32, 111, 108, 100], by decide, 0, rfl⟩
  · unfold WholeLine
    decide

/-- With the key on a line of its own, the whole line decides. -/
theorem authorizes_whole_line :
    (authRoutine zeroZ85 (some (List.replicate 40 48 ++ [13, 10])) zeroRequest).statusCode = "200" ↔
      zeroRequest.version = zapVersion ∧ zeroRequest.mechanism = curve ∧
        WholeLine (List.replicate 40 48 ++ [13, 10])
          (zeroZ85.encode (Vector.replicate 32 0)) := by
  apply (authorizes_whole_lines_iff zeroRequest rfl).mpr
  intro _ _ _
  exact ⟨List.replicate 40 48 ++ [13], by decide, .inr rfl⟩

end Zap

end Rhizofs
