import Rhizofs.Message

/-!
# Exchanging a request for a response

`socketpool.c` and `Rhizofs_communicate` of `rhizofs.c` over the calls of ZeroMQ, of thread-local
storage and of FUSE (`ZmqCall`). A call answers with what the function returns and, where the code
reads it, with the `errno` it leaves. Messages cross the wire as they are; the bytes of a received
message are nothing when they do not unpack to a response.
-/

namespace Rhizofs

open Extern

/-- A 0mq socket. -/
abbrev Sock : Type := ℕ

/-- The options that switch on encryption. -/
inductive CurveOption
  | serverkey | publickey | secretkey

/-- The bytes of a received message, as the response they unpack to. -/
abbrev Reply : Type := Option Response

/-- The external calls of `Rhizofs_communicate`. -/
inductive ZmqCall
  /-- `pthread_getspecific` of the socket pool's key. -/
  | getspecific
  | setspecific (sock : Option Sock)
  | socket
  | setsockopt (sock : Sock) (option : CurveOption) (key : CString)
  | connect (sock : Sock) (socketName : CString)
  | close (sock : Sock)
  /-- `Request_pack` into a new message. -/
  | pack (req : Request)
  | msgSend (sock : Sock) (req : Request)
  | usleep
  /-- `fuse_interrupted` or `fuse_exited`. -/
  | interrupted
  | msgInit
  /-- `zmq_poll`: whether the socket is readable, and `errno`. -/
  | poll (sock : Sock)
  | msgRecv (sock : Sock)

/-- The answers. A failing call answers with `errno`. -/
abbrev ZmqRet : ZmqCall → Type
  | .getspecific => Option Sock
  | .setspecific _ => Bool
  | .socket => Option Sock
  | .setsockopt _ _ _ => Bool
  | .connect _ _ => Bool
  | .close _ => Unit
  | .pack _ => Except ℤ Unit
  | .msgSend _ _ => Except ℤ Unit
  | .usleep => Unit
  | .interrupted => Bool
  | .msgInit => Bool
  | .poll _ => Bool × ℤ
  | .msgRecv _ => Except ℤ Reply

/-- Make one such call. -/
abbrev zmq (c : ZmqCall) : Prog ZmqRet (ZmqRet c) := Prog.perform c

/-! ## The socket pool -/

/-- `SocketPool`. Its sockets are kept in thread-local storage. -/
structure SocketPool where
  socketName : CString
  serverPublicKey : Option CString
  clientPublicKey : Option CString
  clientSecretKey : Option CString

namespace SocketPool

/-- The options `create_socket` sets, in order, or nothing when a client key is missing. -/
def curveOptions (sp : SocketPool) : Option (List (CurveOption × CString)) :=
  match sp.serverPublicKey with
  | none => some []
  | some serverPublicKey =>
    match sp.clientPublicKey, sp.clientSecretKey with
    | some clientPublicKey, some clientSecretKey =>
      some [(.serverkey, serverPublicKey), (.publickey, clientPublicKey),
        (.secretkey, clientSecretKey)]
    | _, _ => none

/-- Set options until one fails. -/
def setOptions (sock : Sock) : List (CurveOption × CString) → Prog ZmqRet Bool
  | [] => return true
  | (option, key) :: options => do
    let ok ← zmq (.setsockopt sock option key)
    if ok then setOptions sock options else return false

/-- The options of a new socket. -/
def configure (sp : SocketPool) (sock : Sock) : Prog ZmqRet Bool :=
  match sp.curveOptions with
  | none => return false
  | some options => setOptions sock options

/-- `SocketPool_socket_destroy`, and the result `NULL`. -/
def destroy (sock : Sock) : Prog ZmqRet (Option Sock) := do
  zmq (.close sock)
  return none

/-- `create_socket`. The results of setting the water marks and the linger time are ignored. -/
def createSocket (sp : SocketPool) : Prog ZmqRet (Option Sock) := do
  let some sock ← zmq .socket | return none
  let ok ← sp.configure sock
  if ok then return some sock else destroy sock

/-- `SocketPool_get_socket`. -/
def getSocket (sp : SocketPool) : Prog ZmqRet (Option Sock) := do
  match ← zmq .getspecific with
  | some sock => return some sock
  | none => do
    let some sock ← sp.createSocket | return none
    let ok ← zmq (.connect sock sp.socketName)
    if ok then do
      let ok ← zmq (.setspecific (some sock))
      if ok then return some sock else destroy sock
    else destroy sock

/-- `SocketPool_renew_socket`. -/
def renewSocket : Prog ZmqRet Unit := do
  match ← zmq .getspecific with
  | none => return ()
  | some sock => do
    zmq (.close sock)
    let _ ← zmq (.setspecific none)
    return ()

end SocketPool

/-! ## `Rhizofs_communicate` -/

/-- `TIMEOUT_DEFAULT`, in seconds. No option changes `settings.timeout`. -/
def TIMEOUT_DEFAULT : ℕ := 30

def SEND_SLEEP_USEC : ℕ := 1

/-- `seconds_waited`. The timeout is reached long before the 32-bit product wraps. -/
def secondsWaited (repetition : ℕ) : ℕ := repetition * SEND_SLEEP_USEC / (1000 * 1000)

/-- The test whether FUSE wants the operation to stop. -/
def fuseStop (checkFuseInterrupts : Bool) : Prog ZmqRet Bool :=
  if checkFuseInterrupts then zmq .interrupted else pure false

/-- The send loop from a given value of `repetition`. When it gives up it answers with the value
of `renew_socket` and the error. -/
def sendLoop (sock : Sock) (req : Request) (checkFuseInterrupts : Bool) (repetition : ℕ) :
    Prog ZmqRet (Except (Bool × ℤ) Unit) := do
  match ← zmq (.msgSend sock req) with
  | .ok _ => return .ok ()
  | .error errno =>
    if errno = EAGAIN ∨ errno = EFSM then do
      zmq .usleep
      let stop ← fuseStop checkFuseInterrupts
      if stop then return .error (true, EINTR)
      else if h : secondsWaited (repetition + 1) ≥ TIMEOUT_DEFAULT then
        return .error (true, EAGAIN)
      else sendLoop sock req checkFuseInterrupts (repetition + 1)
    else return .error (false, EIO)
termination_by TIMEOUT_DEFAULT * (1000 * 1000) - repetition
decreasing_by
  simp only [secondsWaited, SEND_SLEEP_USEC, TIMEOUT_DEFAULT] at h ⊢
  omega

/-- The part after the request was sent: the response or the error. All its errors renew the
socket. -/
def receive (sock : Sock) (checkFuseInterrupts : Bool) : Prog ZmqRet (Except ℤ Response) := do
  let ok ← zmq .msgInit
  if !ok then return .error ENOMEM
  match ← zmq (.poll sock) with
  | (true, _) => do
    match ← zmq (.msgRecv sock) with
    | .ok (some response) => return .ok response
    | .ok none => return .error EIO
    | .error _ => return .error EIO
  | (false, errno) => do
    let err := if errno = 0 then EIO else errno
    let stop ← fuseStop checkFuseInterrupts
    return .error (if stop then EINTR else err)

/-- The `error` exit of `Rhizofs_communicate`. -/
def giveUp (socketToUse : Option Sock) (renewSocket : Bool) (err : ℤ) :
    Prog ZmqRet (Option Response × ℤ) := do
  if renewSocket ∧ socketToUse.isNone then
    SocketPool.renewSocket
    return (none, err)
  return (none, err)

/-- `Rhizofs_communicate`: the response, if any, and `*err`. -/
def rhizofsCommunicate (sp : SocketPool) (req : Request) (socketToUse : Option Sock)
    (checkFuseInterrupts : Bool) : Prog ZmqRet (Option Response × ℤ) := do
  let sock ← match socketToUse with
    | some sock => pure (some sock)
    | none => sp.getSocket
  match sock with
  | none => giveUp socketToUse false ENOTSOCK
  | some sock => do
    match ← zmq (.pack req) with
    | .error errno => giveUp socketToUse false errno
    | .ok _ => do
      match ← sendLoop sock req checkFuseInterrupts 0 with
      | .error (renewSocket, err) => giveUp socketToUse renewSocket err
      | .ok _ => do
        match ← receive sock checkFuseInterrupts with
        | .error err => giveUp socketToUse true err
        | .ok response => return (some response, response.getErrno)

end Rhizofs
