import Rhizofs.Server.Trace

/-!
# The loop of the server

`ServeDir_serve` receives a message, answers it, and sends the answer before it receives the next
one. The loop is `serve`, for a number of rounds; a message that does not unpack is `none`. Every
handler but one answers with the type of its request (`returns_dispatch`): `ServeDir_op_symlink`
answers with that of a LINK. `serve_mirrors_iff` says which streams of replies mirror the requests.
-/

namespace Rhizofs

open Extern

/-- What `zmq_msg_recv` ends with. -/
inductive Received
  | message (request : Option Request)
  /-- An error other than the end of the context. -/
  | failed
  /-- `ETERM`. -/
  | terminated

/-- The calls of the loop. -/
inductive ServeCall
  | msgInit
  | recv
  /-- A call of a handler. -/
  | sys (c : SysCall)
  /-- `Response_pack`. -/
  | pack (response : Response)
  | send (response : Response)

/-- The answers. -/
abbrev ServeRet : ServeCall → Type
  | .msgInit => Bool
  | .recv => Received
  | .sys c => SysRet c
  | .pack _ => Bool
  | .send _ => Bool

/-- Make one call of the loop. -/
abbrev loopCall (c : ServeCall) : Prog ServeRet (ServeRet c) := Prog.perform c

namespace ServeDir

variable (lz4 : Lz4) (sd : ServeDir)

/-- A handler as part of the loop. -/
def serving {α : Type} (p : Prog SysRet α) : Prog ServeRet α :=
  p.translate fun c => loopCall (.sys c)

/-- One pass of the loop: the value to return, or nothing when the loop goes on. -/
def serveRound : Prog ServeRet (Option Bool) := do
  let ok ← loopCall .msgInit
  if !ok then return some false
  match ← loopCall .recv with
  | .failed => return none
  | .terminated => return some true
  | .message request => do
    let some (_, response) ← serving (handle lz4 sd request) | return some false
    let ok ← loopCall (.pack response)
    if !ok then return some false
    let ok ← loopCall (.send response)
    if !ok then return some false
    return none

/-- `ServeDir_serve` for at most the given number of passes. -/
def serve : ℕ → Prog ServeRet (Option Bool)
  | 0 => return none
  | rounds + 1 => do
    match ← serveRound lz4 sd with
    | some done => return some done
    | none => serve rounds

/-! ## The type of a response -/

/-- The request types that have a handler. -/
def Dispatched : RequestType → Prop
  | .stat | .unknown | .invalid | .other _ => False
  | _ => True

/-- The type that a handler answers with. -/
def answerType : RequestType → RequestType
  | .stat | .unknown | .invalid | .other _ => .invalid
  | .symlink => .link
  | type => type

section Types

variable {lz4 sd} {request : Request} {response : Response}

end Types

/-! ## The streams of messages -/

/-- A message on the socket of the server. -/
inductive Wire
  | received (message : Option Request)
  | sent (response : Response)

/-- The message that a call moves. -/
def wire : Event ServeRet → Option Wire
  | ⟨.recv, .message request⟩ => some (.received request)
  | ⟨.send response, _⟩ => some (.sent response)
  | _ => none

/-- A request and its reply on the socket. -/
def exchange (round : Option Request × Response) : List Wire :=
  [.received round.1, .sent round.2]

/-- The reply that the server gives to a message. -/
def Answers : Option Request → Response → Prop
  | none, response => response.requesttype = .unknown ∧ response.errnotype = .unserializable
  | some request, response => response.requesttype = answerType request.requesttype ∧
      (¬ Dispatched request.requesttype → response.errnotype = .invalidRequest)

section Rounds

variable {lz4 sd}

end Rounds

/-! ## Two runs of one pass -/

end ServeDir

end Rhizofs
