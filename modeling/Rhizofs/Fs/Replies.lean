import Rhizofs.Foundations.Interleaving
import Rhizofs.Fs.Communicate
import Mathlib.Data.Set.Insert

/-!
# Replies are never mixed up

Client threads that call `Rhizofs_communicate` on pooled sockets, over a network that may delay
and lose messages. The world keeps what was ever sent (`wire`). Of ZeroMQ it has the documented
behaviour: a REQ socket sends only when it awaits no reply and receives only when it does, a reply
goes to the socket that sent the request, a closed socket sends and receives nothing.

`Rhizofs_communicate` is verified on the view that its thread has of the world (`communicate_wp`):
it leaves no socket in the slot of the thread that still awaits a reply. All interleavings follow
(`replies_match`).
-/

namespace Rhizofs

open Extern

namespace Network

variable {Tid : Type}

/-- A socket, with the message whose reply it awaits. -/
structure Socket (Tid : Type) where
  owner : Tid
  isOpen : Bool
  awaiting : Option ℕ

/-- A copy of a request on the wire. It was sent in a call, which is known by its thread and
number. -/
structure Sent (Tid : Type) where
  sock : Sock
  call : Tid × ℕ
  request : Request
  /-- What the server replied. -/
  answer : Option Reply
  /-- The reply reached the socket. -/
  arrived : Bool
  /-- The reply was received from the socket. -/
  received : Bool

/-- What a finished call returned. -/
structure Returned (Tid : Type) where
  call : Tid × ℕ
  request : Request
  response : Option Response

/-- The sockets, the messages ever sent, and for every thread its slot of the socket pool, the
number of its calls, and the reply received last. -/
structure World (Tid : Type) where
  sockets : Sock → Option (Socket Tid)
  wire : ℕ → Option (Sent Tid)
  slot : Tid → Option Sock
  calls : Tid → ℕ
  received : Tid → Option (ℕ × Reply)
  log : List (Returned Tid)

/-- Nothing has happened. -/
def World.init : World Tid :=
  { sockets := fun _ => none
    wire := fun _ => none
    slot := fun _ => none
    calls := fun _ => 0
    received := fun _ => none
    log := [] }

/-- Change a socket. -/
def World.setSocket (w : World Tid) (s : Sock) (socket : Socket Tid) : World Tid :=
  { w with sockets := Function.update w.sockets s (some socket) }

/-- Put a message on the wire, or change it. -/
def World.setSent (w : World Tid) (m : ℕ) (sent : Sent Tid) : World Tid :=
  { w with wire := Function.update w.wire m (some sent) }

@[simp] theorem sockets_setSocket_self (w : World Tid) (s : Sock) (socket : Socket Tid) :
    (w.setSocket s socket).sockets s = some socket := Function.update_self ..

theorem sockets_setSocket_of_ne (w : World Tid) {s s' : Sock} (socket : Socket Tid) (h : s' ≠ s) :
    (w.setSocket s socket).sockets s' = w.sockets s' := Function.update_of_ne h ..

@[simp] theorem wire_setSent_self (w : World Tid) (m : ℕ) (sent : Sent Tid) :
    (w.setSent m sent).wire m = some sent := Function.update_self ..

theorem wire_setSent_of_ne (w : World Tid) {m m' : ℕ} (sent : Sent Tid) (h : m' ≠ m) :
    (w.setSent m sent).wire m' = w.wire m' := Function.update_of_ne h ..

section Steps

variable [DecidableEq Tid]

/-- A call of the thread `t`. Everything that may fail may fail at any time. -/
inductive Act (t : Tid) : (c : ZmqCall) → World Tid → ZmqRet c → World Tid → Prop
  | getspecific (w : World Tid) : Act t .getspecific w (w.slot t) w
  | setspecific (w : World Tid) (sock : Option Sock) :
      Act t (.setspecific sock) w true { w with slot := Function.update w.slot t sock }
  | setspecificFails (w : World Tid) (sock : Option Sock) : Act t (.setspecific sock) w false w
  | socket {w : World Tid} {s : Sock} (fresh : w.sockets s = none) :
      Act t .socket w (some s) (w.setSocket s ⟨t, true, none⟩)
  | socketFails (w : World Tid) : Act t .socket w none w
  | setsockopt (w : World Tid) (s : Sock) (option : CurveOption) (key : CString) (ok : Bool) :
      Act t (.setsockopt s option key) w ok w
  | connect (w : World Tid) (s : Sock) (socketName : CString) (ok : Bool) :
      Act t (.connect s socketName) w ok w
  | close {w : World Tid} {s : Sock} {socket : Socket Tid} (exist : w.sockets s = some socket) :
      Act t (.close s) w () (w.setSocket s { socket with isOpen := false })
  | pack (w : World Tid) (req : Request) (r : Except ℤ Unit) : Act t (.pack req) w r w
  | msgSend {w : World Tid} {s : Sock} {socket : Socket Tid} {m : ℕ} (req : Request)
      (exist : w.sockets s = some socket) (isOpen : socket.isOpen = true)
      (idle : socket.awaiting = none) (fresh : w.wire m = none) :
      Act t (.msgSend s req) w (.ok ())
        ((w.setSocket s { socket with awaiting := some m }).setSent m
          ⟨s, (t, w.calls t), req, none, false, false⟩)
  | msgSendFails (w : World Tid) (s : Sock) (req : Request) (errno : ℤ) :
      Act t (.msgSend s req) w (.error errno) w
  | usleep (w : World Tid) : Act t .usleep w () w
  | interrupted (w : World Tid) (stop : Bool) : Act t .interrupted w stop w
  | msgInit (w : World Tid) (ok : Bool) : Act t .msgInit w ok w
  | poll (w : World Tid) (s : Sock) (readable : Bool) (errno : ℤ) :
      Act t (.poll s) w (readable, errno) w
  | msgRecv {w : World Tid} {s : Sock} {socket : Socket Tid} {m m' : ℕ} {sent : Sent Tid}
      {reply : Reply} (exist : w.sockets s = some socket) (isOpen : socket.isOpen = true)
      (awaits : socket.awaiting = some m') (there : w.wire m = some sent) (own : sent.sock = s)
      (answer : sent.answer = some reply) (arrived : sent.arrived = true)
      (new : sent.received = false) :
      Act t (.msgRecv s) w (.ok reply)
        { (w.setSocket s { socket with awaiting := none }).setSent m { sent with received := true }
          with received := Function.update w.received t (some (m, reply)) }
  | msgRecvFails (w : World Tid) (s : Sock) (errno : ℤ) : Act t (.msgRecv s) w (.error errno) w

omit [DecidableEq Tid] in
/-- The server replies to a message, and a reply reaches its socket. Either may never happen. -/
inductive Env : World Tid → World Tid → Prop
  | answer {w : World Tid} {m : ℕ} {sent : Sent Tid} (there : w.wire m = some sent)
      (once : sent.answer = none) (reply : Reply) :
      Env w (w.setSent m { sent with answer := some reply })
  | arrive {w : World Tid} {m : ℕ} {sent : Sent Tid} (there : w.wire m = some sent)
      (answered : sent.answer ≠ none) : Env w (w.setSent m { sent with arrived := true })

/-- Threads that call `Rhizofs_communicate` without a socket of their own. An operation is the
request and whether FUSE interrupts are checked. -/
def clients (Tid : Type) [DecidableEq Tid] (sp : SocketPool) :
    Concurrent Tid (Request × Bool) ZmqRet (Option Response × ℤ) (World Tid) where
  body op := rhizofsCommunicate sp op.1 none op.2
  start t _ w :=
    { w with
      calls := Function.update w.calls t (w.calls t + 1)
      received := Function.update w.received t none }
  act := Act
  finish t op result w := { w with log := ⟨(t, w.calls t), op.1, result.1⟩ :: w.log }
  env := Env

end Steps

/-! ## The view of one thread -/

/-- What a thread knows of one of its sockets. -/
inductive Status
  | closed
  | idle
  | awaiting (m : ℕ)

/-- The slot of the thread, its sockets, the copies of the request sent in the current call, and
the reply received in it. -/
structure View where
  slot : Option Sock
  status : Sock → Option Status
  sent : Set (ℕ × Request)
  received : Option (ℕ × Reply)

def View.setStatus (l : View) (s : Sock) (status : Status) : View :=
  { l with status := Function.update l.status s (some status) }

/-- **No outstanding request**: a socket in the slot of the thread awaits no reply. -/
def View.SlotIdle (l : View) : Prop :=
  ∀ s, l.slot = some s → l.status s = some .idle ∨ l.status s = some .closed

/-- What a call needs and does, as the thread sees it: it uses its own sockets only, and sends one
request in a call. -/
def pooled : Spec ZmqRet View where
  pre c l := match c with
    | .setspecific (some s) | .close s | .msgRecv s => l.status s ≠ none
    | .msgSend s _ => l.status s ≠ none ∧ l.sent = ∅
    | _ => True
  step c l r l' := match c with
    | .getspecific => r = l.slot ∧ l' = l
    | .setspecific sock => l' = if r then { l with slot := sock } else l
    | .socket => match r with
      | some s => l.status s = none ∧ l' = l.setStatus s .idle
      | none => l' = l
    | .close s => l' = l.setStatus s .closed
    | .msgSend s req => match r with
      | .ok _ => ∃ m, l.status s = some .idle ∧
          l' = { l.setStatus s (.awaiting m) with sent := {(m, req)} }
      | .error _ => l' = l
    | .msgRecv s => match r with
      | .ok reply => ∃ m, l.status s = some (.awaiting m) ∧
          l' = { l.setStatus s .idle with received := some (m, reply) }
      | .error _ => l' = l
    | _ => l' = l

/-- What holds when a call has returned. -/
structure Answered (req : Request) (result : Option Response × ℤ) (l : View) : Prop where
  slotIdle : l.SlotIdle
  request : ∀ p ∈ l.sent, p.2 = req
  response : ∀ response, result.1 = some response →
    ∃ m, (m, req) ∈ l.sent ∧ l.received = some (m, some response)

section Wp

variable {l : View}

theorem slotIdle_of_none (h : l.slot = none) : l.SlotIdle := by
  intro s hs
  rw [h] at hs
  cases hs

@[simp] theorem status_setStatus_self (l : View) (s : Sock) (status : Status) :
    (l.setStatus s status).status s = some status := Function.update_self ..

@[simp] theorem slot_setStatus (l : View) (s : Sock) (status : Status) :
    (l.setStatus s status).slot = l.slot := rfl

@[simp] theorem sent_setStatus (l : View) (s : Sock) (status : Status) :
    (l.setStatus s status).sent = l.sent := rfl

/-- Setting options changes nothing that the thread knows. -/
theorem setOptions_wp (sock : Sock) (options : List (CurveOption × CString))
    {Q : Bool → View → Prop} (hQ : ∀ ok, Q ok l) :
    (SocketPool.setOptions sock options).wp pooled Q l := by
  induction options with
  | nil => exact hQ true
  | cons option options ih =>
    refine ⟨trivial, ?_⟩
    rintro ok _ rfl
    cases ok with
    | true => exact ih
    | false => exact hQ false

theorem configure_wp (sp : SocketPool) (sock : Sock) {Q : Bool → View → Prop}
    (hQ : ∀ ok, Q ok l) : (sp.configure sock).wp pooled Q l := by
  unfold SocketPool.configure
  split
  · exact hQ false
  · exact setOptions_wp sock _ hQ

/-- Closing a socket that is not in the slot. -/
theorem destroy_wp {sock : Sock} (hown : l.status sock ≠ none) {Q : Option Sock → View → Prop}
    (hQ : Q none (l.setStatus sock .closed)) : (SocketPool.destroy sock).wp pooled Q l := by
  refine ⟨hown, ?_⟩
  rintro _ _ rfl
  exact hQ

/-- A new socket is idle, and not yet in the slot. -/
theorem createSocket_wp (sp : SocketPool) (hslot : l.slot = none) (hsent : l.sent = ∅) :
    sp.createSocket.wp pooled (fun r l' => l'.slot = none ∧ l'.sent = ∅ ∧
      ∀ s, r = some s → l'.status s = some .idle) l := by
  refine ⟨trivial, fun r l' hstep => ?_⟩
  cases r with
  | none =>
    obtain rfl : l = l' := hstep.symm
    exact ⟨hslot, hsent, fun s hs => by cases hs⟩
  | some s =>
    obtain ⟨-, rfl⟩ := hstep
    refine (Prog.wp_bind pooled _ (sp.configure s) _ _).mpr (configure_wp sp s fun ok => ?_)
    cases ok with
    | true => exact ⟨hslot, hsent, fun s' hs => by cases hs; simp⟩
    | false => exact destroy_wp (by simp) ⟨hslot, hsent, fun s' hs => by cases hs⟩

/-- `SocketPool_get_socket` answers with the socket in the slot, which awaits no reply. -/
theorem getSocket_wp (sp : SocketPool) (hidle : l.SlotIdle) (hsent : l.sent = ∅) :
    sp.getSocket.wp pooled (fun r l' => l'.SlotIdle ∧ l'.sent = ∅ ∧
      ∀ s, r = some s → l'.slot = some s) l := by
  refine ⟨trivial, ?_⟩
  rintro slot _ ⟨hslot, rfl⟩
  cases slot with
  | some s => exact ⟨hidle, hsent, fun s' hs => by cases hs; exact hslot.symm⟩
  | none =>
    refine (Prog.wp_bind pooled _ sp.createSocket _ _).mpr
      (Prog.wp_mono pooled ?_ (createSocket_wp sp hslot.symm hsent))
    rintro r l ⟨hslot, hsent, hr⟩
    have hnone : l.SlotIdle ∧ l.sent = ∅ ∧ ∀ s, none = some s → l.slot = some s :=
      ⟨slotIdle_of_none hslot, hsent, fun s hs => by cases hs⟩
    cases r with
    | none => exact hnone
    | some s =>
      have hs := hr s rfl
      have hclosed : (l.setStatus s .closed).SlotIdle ∧ (l.setStatus s .closed).sent = ∅ ∧
          ∀ s', none = some s' → (l.setStatus s .closed).slot = some s' :=
        ⟨slotIdle_of_none hslot, hsent, fun s hs => by cases hs⟩
      refine ⟨trivial, ?_⟩
      rintro ok _ rfl
      cases ok with
      | false => exact destroy_wp (by simp [hs]) hclosed
      | true =>
        refine ⟨by simp [pooled, hs], ?_⟩
        rintro ok _ rfl
        cases ok with
        | false => exact destroy_wp (by simp [hs]) hclosed
        | true =>
          refine ⟨fun s' hs' => ?_, hsent, fun s' hs' => by cases hs'; rfl⟩
          cases hs'
          exact .inl hs

theorem fuseStop_wp (checkFuseInterrupts : Bool) {Q : Bool → View → Prop} (hQ : ∀ stop, Q stop l) :
    (fuseStop checkFuseInterrupts).wp pooled Q l := by
  cases checkFuseInterrupts with
  | false => exact hQ false
  | true =>
    refine ⟨trivial, ?_⟩
    rintro stop _ rfl
    exact hQ stop

/-- Renewing leaves no outstanding request in the slot, whatever the socket awaited. -/
theorem renewSocket_wp {s : Sock} (hslot : l.slot = some s) (hown : l.status s ≠ none)
    {Q : Unit → View → Prop} (hQ : ∀ l' : View, l'.SlotIdle → l'.sent = l.sent → Q () l') :
    SocketPool.renewSocket.wp pooled Q l := by
  refine ⟨trivial, ?_⟩
  rintro slot _ ⟨rfl, rfl⟩
  rw [hslot]
  refine ⟨hown, ?_⟩
  rintro _ _ rfl
  refine ⟨trivial, ?_⟩
  rintro ok _ rfl
  cases ok with
  | true => exact hQ _ (slotIdle_of_none rfl) rfl
  | false =>
    refine hQ _ (fun s' hs' => .inr ?_) rfl
    obtain rfl : s = s' := Option.some.inj (hslot.symm.trans hs')
    exact status_setStatus_self ..

/-- The error exit after a failure that did not touch the socket. -/
theorem giveUp_wp_keep {req : Request} (err : ℤ) (hidle : l.SlotIdle) (hsent : l.sent = ∅) :
    (giveUp none false err).wp pooled (Answered req) l := by
  refine ⟨hidle, fun p hp => ?_, fun response hr => by cases hr⟩
  rw [hsent] at hp
  exact hp.elim

/-- The error exit that renews the socket. -/
theorem giveUp_wp_renew {req : Request} (err : ℤ) {s : Sock} (hslot : l.slot = some s)
    (hown : l.status s ≠ none) (hreq : ∀ p ∈ l.sent, p.2 = req) :
    (giveUp none true err).wp pooled (Answered req) l := by
  refine (Prog.wp_bind pooled _ SocketPool.renewSocket _ _).mpr
    (renewSocket_wp hslot hown fun l' hidle hsent => ?_)
  exact ⟨hidle, hsent ▸ hreq, fun response hr => by cases hr⟩

/-- The send loop sends the request once, or gives up and leaves everything as it was. -/
theorem sendLoop_wp {sock : Sock} (req : Request) (checkFuseInterrupts : Bool) (repetition : ℕ)
    (hown : l.status sock ≠ none) (hsent : l.sent = ∅) :
    (sendLoop sock req checkFuseInterrupts repetition).wp pooled (fun r l' => match r with
      | .ok _ => ∃ m, l' = { l.setStatus sock (.awaiting m) with sent := {(m, req)} }
      | .error _ => l' = l) l := by
  induction hn : TIMEOUT_DEFAULT * (1000 * 1000) - repetition using Nat.strong_induction_on
    generalizing repetition with
  | _ n ih =>
    unfold sendLoop
    refine ⟨⟨hown, hsent⟩, ?_⟩
    intro r l' hstep
    cases r with
    | ok =>
      obtain ⟨m, -, rfl⟩ := hstep
      exact ⟨m, rfl⟩
    | error errno =>
      obtain rfl : l = l' := hstep.symm
      dsimp only [Prog.bind]
      by_cases hretry : errno = EAGAIN ∨ errno = EFSM
      · rw [if_pos hretry]
        refine ⟨trivial, ?_⟩
        rintro _ _ rfl
        refine (Prog.wp_bind pooled _ (fuseStop checkFuseInterrupts) _ _).mpr
          (fuseStop_wp _ fun stop => ?_)
        split_ifs with hstop hwait
        · rfl
        · rfl
        · refine ih _ ?_ (repetition + 1) rfl
          simp only [secondsWaited, SEND_SLEEP_USEC, TIMEOUT_DEFAULT] at hwait hn ⊢
          omega
      · rw [if_neg hretry]
        rfl

/-- Receiving takes the reply to the message that the socket awaits, or fails. -/
theorem receive_wp {sock : Sock} (checkFuseInterrupts : Bool) {m : ℕ}
    (hstatus : l.status sock = some (.awaiting m)) :
    (receive sock checkFuseInterrupts).wp pooled (fun r l' => match r with
      | .ok response =>
        l' = { l.setStatus sock .idle with received := some (m, some response) }
      | .error _ => l'.slot = l.slot ∧ l'.sent = l.sent ∧ l'.status sock ≠ none) l := by
  have hfail : l.slot = l.slot ∧ l.sent = l.sent ∧ l.status sock ≠ none :=
    ⟨rfl, rfl, by simp [hstatus]⟩
  refine ⟨trivial, ?_⟩
  rintro ok l rfl
  cases ok with
  | false => exact hfail
  | true =>
    refine ⟨trivial, ?_⟩
    rintro ⟨readable, errno⟩ l rfl
    cases readable with
    | false =>
      refine (Prog.wp_bind pooled _ (fuseStop checkFuseInterrupts) _ _).mpr
        (fuseStop_wp _ fun stop => ?_)
      exact hfail
    | true =>
      refine ⟨by simp [pooled, hstatus], ?_⟩
      intro r l' hstep
      cases r with
      | error errno =>
        obtain rfl : l = l' := hstep.symm
        exact hfail
      | ok reply =>
        obtain ⟨m', hm', rfl⟩ := hstep
        rw [hstatus] at hm'
        cases hm'
        cases reply with
        | none => exact ⟨rfl, rfl, by simp [View.setStatus]⟩
        | some response => rfl

/-- **One call of `Rhizofs_communicate`**: it returns only the reply to its own request, sends at
most one copy of it, and leaves no socket with an outstanding request in the slot. -/
theorem communicate_wp (sp : SocketPool) (req : Request) (checkFuseInterrupts : Bool)
    (hidle : l.SlotIdle) (hsent : l.sent = ∅) :
    (rhizofsCommunicate sp req none checkFuseInterrupts).wp pooled (Answered req) l := by
  refine (Prog.wp_bind pooled _ sp.getSocket _ _).mpr
    (Prog.wp_mono pooled ?_ (getSocket_wp sp hidle hsent))
  rintro sock l ⟨hidle, hsent, hsock⟩
  cases sock with
  | none => exact giveUp_wp_keep ENOTSOCK hidle hsent
  | some sock =>
    have hslot := hsock sock rfl
    have hown : l.status sock ≠ none := by
      rcases hidle sock hslot with h | h <;> simp [h]
    refine ⟨trivial, ?_⟩
    rintro packed l rfl
    cases packed with
    | error errno => exact giveUp_wp_keep errno hidle hsent
    | ok =>
      refine (Prog.wp_bind pooled _ (sendLoop sock req checkFuseInterrupts 0) _ _).mpr
        (Prog.wp_mono pooled ?_ (sendLoop_wp req checkFuseInterrupts 0 hown hsent))
      intro r l' hr
      cases r with
      | error exit =>
        obtain ⟨renewSocket, err⟩ := exit
        obtain rfl : l = l' := hr.symm
        cases renewSocket with
        | false => exact giveUp_wp_keep err hidle hsent
        | true =>
          exact giveUp_wp_renew err hslot hown (by rw [hsent]; exact fun p hp => hp.elim)
      | ok =>
        obtain ⟨m, rfl⟩ := hr
        refine (Prog.wp_bind pooled _ (receive sock checkFuseInterrupts) _ _).mpr
          (Prog.wp_mono pooled ?_ (receive_wp checkFuseInterrupts
            (status_setStatus_self l sock (.awaiting m))))
        intro r l' hr
        cases r with
        | error err =>
          obtain ⟨hslot', hsent', hown'⟩ := hr
          apply giveUp_wp_renew err (hslot'.trans hslot) hown'
          rw [hsent']
          rintro p rfl
          rfl
        | ok response =>
          obtain rfl := hr
          refine ⟨fun s hs => .inl ?_, ?_, ?_⟩
          · obtain rfl : sock = s := Option.some.inj (hslot.symm.trans hs)
            exact status_setStatus_self ..
          · rintro p rfl
            rfl
          · rintro _ ⟨⟩
            exact ⟨m, rfl, rfl⟩

end Wp

/-! ## The world behind the views -/

def Socket.status (socket : Socket Tid) : Status :=
  if socket.isOpen then
    match socket.awaiting with
    | none => .idle
    | some m => .awaiting m
  else .closed

/-- The view of a thread. -/
def view [DecidableEq Tid] (t : Tid) (w : World Tid) : View :=
  { slot := w.slot t
    status := fun s => (w.sockets s).bind fun socket =>
      if socket.owner = t then some socket.status else none
    sent := {p | ∃ sent, w.wire p.1 = some sent ∧ sent.call = (t, w.calls t) ∧ sent.request = p.2}
    received := w.received t }

/-- What holds of the world in every interleaving. A message whose reply was not received is the one
that its socket awaits, unless the socket is closed. -/
structure Inv (w : World Tid) : Prop where
  outstanding : ∀ m sent, w.wire m = some sent → sent.received = false →
    ∃ socket, w.sockets sent.sock = some socket ∧
      (socket.awaiting = some m ∨ socket.isOpen = false)
  unique : ∀ m m' sent sent', w.wire m = some sent → w.wire m' = some sent' →
    sent.call = sent'.call → m = m'
  call_le : ∀ m sent, w.wire m = some sent → sent.call.2 ≤ w.calls sent.call.1
  received : ∀ t m reply, w.received t = some (m, reply) →
    ∃ sent, w.wire m = some sent ∧ sent.answer = some reply
  log : ∀ entry ∈ w.log, ∀ response, entry.response = some response →
    ∃ m sent, w.wire m = some sent ∧ sent.call = entry.call ∧ sent.request = entry.request ∧
      sent.answer = some (some response)

theorem inv_init : Inv (World.init : World Tid) where
  outstanding := fun _ _ h => by cases h
  unique := fun _ _ _ _ h => by cases h
  call_le := fun _ _ h => by cases h
  received := fun _ _ _ h => by cases h
  log := fun _ h => by cases h

section Inv

variable {w : World Tid} {s : Sock} {m : ℕ} {sent : Sent Tid}

/-- Changing a socket that no longer awaits the message of a missing reply keeps the invariant. -/
theorem Inv.setSocket (h : Inv w) (s : Sock) (socket : Socket Tid)
    (hout : ∀ m sent, w.wire m = some sent → sent.received = false → sent.sock = s →
      socket.awaiting = some m ∨ socket.isOpen = false) : Inv (w.setSocket s socket) where
  outstanding := by
    intro m sent hm hrec
    by_cases hs : sent.sock = s
    · exact ⟨socket, by rw [hs, sockets_setSocket_self], hout m sent hm hrec hs⟩
    · rw [sockets_setSocket_of_ne w socket hs]
      exact h.outstanding m sent hm hrec
  unique := h.unique
  call_le := h.call_le
  received := h.received
  log := h.log

/-- A message on the wire may be answered, arrive and be received. -/
theorem Inv.setSent (h : Inv w) (sent' : Sent Tid) (hm : w.wire m = some sent)
    (hcall : sent'.call = sent.call) (hreq : sent'.request = sent.request)
    (hsock : sent'.sock = sent.sock) (hrec : sent'.received = false → sent.received = false)
    (hanswer : ∀ reply, sent.answer = some reply → sent'.answer = some reply) :
    Inv (w.setSent m sent') := by
  have hwire : ∀ m' sent₁, (w.setSent m sent').wire m' = some sent₁ →
      ∃ sent₀, w.wire m' = some sent₀ ∧ sent₁.call = sent₀.call ∧ sent₁.sock = sent₀.sock ∧
        (sent₁.received = false → sent₀.received = false) := by
    intro m' sent₁ hm'
    by_cases he : m' = m
    · subst he
      rw [wire_setSent_self] at hm'
      cases hm'
      exact ⟨sent, hm, hcall, hsock, hrec⟩
    · rw [wire_setSent_of_ne w sent' he] at hm'
      exact ⟨sent₁, hm', rfl, rfl, id⟩
  have hkeep : ∀ m' sent₀, w.wire m' = some sent₀ →
      ∃ sent₁, (w.setSent m sent').wire m' = some sent₁ ∧ sent₁.call = sent₀.call ∧
        sent₁.request = sent₀.request ∧
        ∀ reply, sent₀.answer = some reply → sent₁.answer = some reply := by
    intro m' sent₀ hm'
    by_cases he : m' = m
    · subst he
      rw [hm] at hm'
      cases hm'
      exact ⟨sent', wire_setSent_self .., hcall, hreq, hanswer⟩
    · exact ⟨sent₀, by rw [wire_setSent_of_ne w sent' he, hm'], rfl, rfl, fun _ => id⟩
  refine ⟨?_, ?_, ?_, ?_, ?_⟩
  · intro m' sent₁ hm' hrec'
    obtain ⟨sent₀, hm₀, -, hs, hr⟩ := hwire m' sent₁ hm'
    rw [hs]
    exact h.outstanding m' sent₀ hm₀ (hr hrec')
  · intro m₁ m₂ sent₁ sent₂ h₁ h₂ hc
    obtain ⟨sent₁', h₁', hc₁, -⟩ := hwire m₁ sent₁ h₁
    obtain ⟨sent₂', h₂', hc₂, -⟩ := hwire m₂ sent₂ h₂
    exact h.unique m₁ m₂ sent₁' sent₂' h₁' h₂' (hc₁.symm.trans (hc.trans hc₂))
  · intro m' sent₁ hm'
    obtain ⟨sent₀, hm₀, hc, -⟩ := hwire m' sent₁ hm'
    rw [hc]
    exact h.call_le m' sent₀ hm₀
  · intro t m' reply hr
    obtain ⟨sent₀, hm₀, ha⟩ := h.received t m' reply hr
    obtain ⟨sent₁, hm₁, -, -, ha'⟩ := hkeep m' sent₀ hm₀
    exact ⟨sent₁, hm₁, ha' reply ha⟩
  · intro entry hentry response hr
    obtain ⟨m', sent₀, hm₀, hc, hq, ha⟩ := h.log entry hentry response hr
    obtain ⟨sent₁, hm₁, hc', hq', ha'⟩ := hkeep m' sent₀ hm₀
    exact ⟨m', sent₁, hm₁, hc'.trans hc, hq'.trans hq, ha' _ ha⟩

end Inv

section World

variable [DecidableEq Tid] {w w' : World Tid} {t t' : Tid} {s : Sock} {m : ℕ} {sent : Sent Tid}

theorem status_ne_none {socket : Socket Tid} (h : w.sockets s = some socket)
    (hown : (view t w).status s ≠ none) : socket.owner = t := by
  by_contra hne
  exact hown (by simp [view, h, hne])

theorem status_eq {socket : Socket Tid} (h : w.sockets s = some socket) (hown : socket.owner = t) :
    (view t w).status s = some socket.status := by
  simp [view, h, hown]

/-- Changing a socket of another thread does not change the view. -/
theorem view_setSocket_of_ne (w : World Tid) (s : Sock) (socket : Socket Tid)
    (hne : t' ≠ socket.owner)
    (hold : ∀ socket', w.sockets s = some socket' → socket'.owner = socket.owner) :
    view t' (w.setSocket s socket) = view t' w := by
  have hstatus : ∀ s', ((w.setSocket s socket).sockets s').bind (fun socket' =>
      if socket'.owner = t' then some socket'.status else none) =
      (w.sockets s').bind fun socket' =>
        if socket'.owner = t' then some socket'.status else none := by
    intro s'
    by_cases hs : s' = s
    · subst hs
      rw [sockets_setSocket_self, Option.bind_some, if_neg hne.symm]
      cases hsock : w.sockets s' with
      | none => rfl
      | some socket' =>
        rw [Option.bind_some, if_neg]
        rw [hold socket' hsock]
        exact hne.symm
    · rw [sockets_setSocket_of_ne w socket hs]
  simp only [view, hstatus]
  rfl

/-- Changing an own socket changes its status. -/
theorem view_setSocket_self (w : World Tid) (s : Sock) (socket : Socket Tid)
    (hown : socket.owner = t) :
    view t (w.setSocket s socket) = (view t w).setStatus s socket.status := by
  have hstatus : ∀ s', ((w.setSocket s socket).sockets s').bind (fun socket' =>
      if socket'.owner = t then some socket'.status else none) =
      Function.update (view t w).status s (some socket.status) s' := by
    intro s'
    by_cases hs : s' = s
    · subst hs
      rw [sockets_setSocket_self, Function.update_self, Option.bind_some, if_pos hown]
    · rw [sockets_setSocket_of_ne w socket hs, Function.update_of_ne hs]
      rfl
  simp only [view, hstatus]
  rfl

/-- What happens to a sent message does not change the views. -/
theorem view_setSent {sent' : Sent Tid} (hm : w.wire m = some sent) (hcall : sent'.call = sent.call)
    (hreq : sent'.request = sent.request) : view t (w.setSent m sent') = view t w := by
  have hset : ∀ p : ℕ × Request, (∃ s, (w.setSent m sent').wire p.1 = some s ∧
      s.call = (t, w.calls t) ∧ s.request = p.2) ↔
      ∃ s, w.wire p.1 = some s ∧ s.call = (t, w.calls t) ∧ s.request = p.2 := by
    intro p
    by_cases hp : p.1 = m
    · rw [hp, wire_setSent_self, hm]
      simp [hcall, hreq]
    · rw [wire_setSent_of_ne w sent' hp]
  simp only [view]
  congr 1
  exact Set.ext hset

/-- A new message goes out on a socket that awaits nothing, as the first of its call. -/
theorem Inv.send (h : Inv w) {socket : Socket Tid} (hs : w.sockets s = some socket)
    (hopen : socket.isOpen = true) (hidle : socket.awaiting = none) (hm : w.wire m = none)
    (hfirst : (view t w).sent = ∅) (req : Request) :
    Inv ((w.setSocket s { socket with awaiting := some m }).setSent m
      ⟨s, (t, w.calls t), req, none, false, false⟩) := by
  set w₁ := w.setSocket s { socket with awaiting := some m } with hw₁
  set new : Sent Tid := ⟨s, (t, w.calls t), req, none, false, false⟩ with hnew
  have hnone : ∀ sent m', w.wire m' = some sent → sent.call ≠ (t, w.calls t) := by
    intro sent m' hm' hc
    have hmem : (m', sent.request) ∈ (view t w).sent := ⟨sent, hm', hc, rfl⟩
    rw [hfirst] at hmem
    exact hmem
  have hold : ∀ m' sent, w.wire m' = some sent → (w₁.setSent m new).wire m' = some sent := by
    intro m' sent hm'
    rw [wire_setSent_of_ne w₁ new]
    · exact hm'
    · rintro rfl
      rw [hm] at hm'
      cases hm'
  have hwire : ∀ m' sent, (w₁.setSent m new).wire m' = some sent →
      m' = m ∧ sent = new ∨ w.wire m' = some sent := by
    intro m' sent hm'
    by_cases he : m' = m
    · rw [he, wire_setSent_self] at hm'
      cases hm'
      exact .inl ⟨he, rfl⟩
    · rw [wire_setSent_of_ne w₁ new he] at hm'
      exact .inr hm'
  refine ⟨?_, ?_, ?_, ?_, ?_⟩
  · intro m' sent hm' hrec
    rcases hwire m' sent hm' with ⟨rfl, rfl⟩ | hm'
    · exact ⟨_, sockets_setSocket_self .., .inl rfl⟩
    · obtain ⟨socket', hs', hout⟩ := h.outstanding m' sent hm' hrec
      have hne : sent.sock ≠ s := by
        rintro rfl
        rw [hs] at hs'
        cases hs'
        rcases hout with hout | hout
        · rw [hidle] at hout
          cases hout
        · rw [hopen] at hout
          cases hout
      exact ⟨socket', by rw [← hs', ← sockets_setSocket_of_ne w _ hne]; rfl, hout⟩
  · intro m₁ m₂ sent₁ sent₂ h₁ h₂ hc
    rcases hwire m₁ sent₁ h₁ with ⟨he₁, rfl⟩ | h₁' <;>
      rcases hwire m₂ sent₂ h₂ with ⟨he₂, rfl⟩ | h₂'
    · exact he₁.trans he₂.symm
    · exact absurd hc.symm (hnone sent₂ m₂ h₂')
    · exact absurd hc (hnone sent₁ m₁ h₁')
    · exact h.unique m₁ m₂ sent₁ sent₂ h₁' h₂' hc
  · intro m' sent hm'
    rcases hwire m' sent hm' with ⟨rfl, rfl⟩ | hm'
    · exact le_refl _
    · exact h.call_le m' sent hm'
  · intro t' m' reply hr
    obtain ⟨sent, hm', ha⟩ := h.received t' m' reply hr
    exact ⟨sent, hold m' sent hm', ha⟩
  · intro entry hentry response hr
    obtain ⟨m', sent, hm', hrest⟩ := h.log entry hentry response hr
    exact ⟨m', sent, hold m' sent hm', hrest⟩

theorem view_eq_of_fields (hslot : w'.slot t = w.slot t) (hsockets : w'.sockets = w.sockets)
    (hwire : w'.wire = w.wire) (hcalls : w'.calls t = w.calls t)
    (hrec : w'.received t = w.received t) : view t w' = view t w := by
  simp only [view, hslot, hsockets, hwire, hcalls, hrec]

/-- The awaited reply is received. -/
theorem Inv.receive (h : Inv w) {socket : Socket Tid} {reply : Reply}
    (hs : w.sockets s = some socket) (hopen : socket.isOpen = true)
    (hawait : socket.awaiting = some m) (hm : w.wire m = some sent)
    (hanswer : sent.answer = some reply) :
    Inv { (w.setSocket s { socket with awaiting := none }).setSent m { sent with received := true }
      with received := Function.update w.received t (some (m, reply)) } := by
  have hsent := h.setSent { sent with received := true } hm rfl rfl rfl
    (fun hr => by cases hr) fun _ => id
  have hinv := hsent.setSocket s { socket with awaiting := none } (by
    intro m' sent' hm' hrec' hsock'
    exfalso
    by_cases he : m' = m
    · rw [he, wire_setSent_self] at hm'
      cases hm'
      cases hrec'
    · rw [wire_setSent_of_ne w _ he] at hm'
      obtain ⟨socket', hs', hout⟩ := h.outstanding m' sent' hm' hrec'
      rw [hsock', hs] at hs'
      cases hs'
      rcases hout with hout | hout
      · exact he (Option.some.inj (hout.symm.trans hawait))
      · rw [hopen] at hout
        cases hout)
  refine ⟨hinv.outstanding, hinv.unique, hinv.call_le, ?_, hinv.log⟩
  intro t' m' reply' hr
  change Function.update w.received t (some (m, reply)) t' = some (m', reply') at hr
  by_cases ht : t' = t
  · subst ht
    rw [Function.update_self] at hr
    cases hr
    exact ⟨_, wire_setSent_self .., hanswer⟩
  · rw [Function.update_of_ne ht] at hr
    exact hinv.received t' m' reply' hr

/-- The view after a request was sent. -/
theorem view_send {socket : Socket Tid} (hopen : socket.isOpen = true) (hown : socket.owner = t)
    (hfirst : (view t w).sent = ∅) (req : Request) :
    view t ((w.setSocket s { socket with awaiting := some m }).setSent m
      ⟨s, (t, w.calls t), req, none, false, false⟩) =
      { (view t w).setStatus s (.awaiting m) with sent := {(m, req)} } := by
  have hstatus : ({ socket with awaiting := some m } : Socket Tid).status = .awaiting m := by
    simp [Socket.status, hopen]
  rw [← hstatus, ← view_setSocket_self w s { socket with awaiting := some m } hown]
  simp only [view]
  congr 1
  refine Set.ext fun p => ?_
  simp only [Set.mem_ofPred_eq, Set.mem_singleton_iff]
  constructor
  · rintro ⟨sent, hm, hc, hr⟩
    by_cases hp : p.1 = m
    · rw [hp, wire_setSent_self] at hm
      cases hm
      exact Prod.ext hp hr.symm
    · rw [wire_setSent_of_ne _ _ hp] at hm
      have hmem : p ∈ (view t w).sent := ⟨sent, hm, hc, hr⟩
      rw [hfirst] at hmem
      exact hmem.elim
  · rintro rfl
    exact ⟨_, wire_setSent_self .., rfl, rfl⟩

/-- The views of the other threads after a request was sent. -/
theorem view_send_of_ne {socket : Socket Tid} (hs : w.sockets s = some socket)
    (hown : socket.owner = t) (hm : w.wire m = none) (hne : t' ≠ t) (req : Request) :
    view t' ((w.setSocket s { socket with awaiting := some m }).setSent m
      ⟨s, (t, w.calls t), req, none, false, false⟩) = view t' w := by
  have hne' : t' ≠ socket.owner := by rwa [hown]
  rw [← view_setSocket_of_ne w s { socket with awaiting := some m } hne'
    fun socket' h => by rw [hs] at h; cases h; rfl]
  simp only [view]
  congr 1
  refine Set.ext fun p => ?_
  simp only [Set.mem_ofPred_eq]
  by_cases hp : p.1 = m
  · rw [hp, wire_setSent_self]
    simp only [Option.some.injEq, exists_eq_left', Prod.mk.injEq]
    constructor
    · rintro ⟨⟨he, -⟩, -⟩
      exact absurd he.symm hne
    · rintro ⟨sent, hm', -⟩
      rw [show (w.setSocket s { socket with awaiting := some m }).wire m = w.wire m from rfl,
        hm] at hm'
      cases hm'
  · rw [wire_setSent_of_ne _ _ hp]
    exact Iff.rfl

/-- One call of a thread. -/
theorem act_verified {c : ZmqCall} {r : ZmqRet c} (h : Inv w) (hpre : pooled.pre c (view t w))
    (hact : Act t c w r w') :
    Inv w' ∧ pooled.step c (view t w) r (view t w') ∧ ∀ t', t' ≠ t → view t' w' = view t' w := by
  cases hact with
  | getspecific => exact ⟨h, ⟨rfl, rfl⟩, fun _ _ => rfl⟩
  | setspecific sock =>
    refine ⟨⟨h.outstanding, h.unique, h.call_le, h.received, h.log⟩, ?_, fun t' hne => ?_⟩
    · simp [pooled, view]
    · exact view_eq_of_fields (Function.update_of_ne hne ..) rfl rfl rfl rfl
  | setspecificFails => exact ⟨h, rfl, fun _ _ => rfl⟩
  | socket fresh =>
    refine ⟨h.setSocket _ _ fun m sent hm hrec hsock => ?_, ⟨by simp [view, fresh], ?_⟩,
      fun t' hne => view_setSocket_of_ne _ _ _ hne fun socket' hs => ?_⟩
    · obtain ⟨socket', hs', -⟩ := h.outstanding m sent hm hrec
      rw [hsock, fresh] at hs'
      cases hs'
    · exact view_setSocket_self _ _ _ rfl
    · rw [fresh] at hs
      cases hs
  | socketFails => exact ⟨h, rfl, fun _ _ => rfl⟩
  | setsockopt => exact ⟨h, rfl, fun _ _ => rfl⟩
  | connect => exact ⟨h, rfl, fun _ _ => rfl⟩
  | close exist =>
    have hown := status_ne_none exist hpre
    refine ⟨h.setSocket _ _ fun m sent _ _ _ => .inr rfl, ?_,
      fun t' hne => view_setSocket_of_ne _ _ _ (by rw [hown]; exact hne) fun socket' hs => ?_⟩
    · exact view_setSocket_self _ _ _ hown
    · rw [exist] at hs
      cases hs
      rfl
  | pack => exact ⟨h, rfl, fun _ _ => rfl⟩
  | @msgSend _ s socket m req exist isOpen idle fresh =>
    obtain ⟨hpre, hfirst⟩ := hpre
    have hown := status_ne_none exist hpre
    refine ⟨h.send exist isOpen idle fresh hfirst req, ⟨m, ?_, ?_⟩, fun t' hne => ?_⟩
    · rw [status_eq exist hown]
      simp [Socket.status, isOpen, idle]
    · exact view_send isOpen hown hfirst req
    · exact view_send_of_ne exist hown fresh hne req
  | msgSendFails => exact ⟨h, rfl, fun _ _ => rfl⟩
  | usleep => exact ⟨h, rfl, fun _ _ => rfl⟩
  | interrupted => exact ⟨h, rfl, fun _ _ => rfl⟩
  | msgInit => exact ⟨h, rfl, fun _ _ => rfl⟩
  | poll => exact ⟨h, rfl, fun _ _ => rfl⟩
  | @msgRecv _ s socket m m' sent reply exist isOpen awaits there own answer arrived new =>
    have hown := status_ne_none exist hpre
    -- the only reply that can be received is the one to the awaited message
    have hm : m = m' := by
      obtain ⟨socket', hs', hout⟩ := h.outstanding m sent there new
      rw [own, exist] at hs'
      cases hs'
      rcases hout with hout | hout
      · exact Option.some.inj (hout.symm.trans awaits)
      · rw [isOpen] at hout
        cases hout
    subst hm
    have hview : ∀ t', view t' ((w.setSocket s { socket with awaiting := none }).setSent m
        { sent with received := true }) =
      view t' (w.setSocket s { socket with awaiting := none }) :=
      fun t' => view_setSent there rfl rfl
    refine ⟨h.receive exist isOpen awaits there answer, ⟨m, ?_, ?_⟩, fun t' hne => ?_⟩
    · rw [status_eq exist hown]
      simp [Socket.status, isOpen, awaits]
    · have hstatus : ({ socket with awaiting := none } : Socket Tid).status = .idle := by
        simp [Socket.status, isOpen]
      rw [← hstatus, ← view_setSocket_self w s { socket with awaiting := none } hown, ← hview t]
      simp [view]
    · have hne' : t' ≠ socket.owner := by rwa [hown]
      rw [← view_setSocket_of_ne w s { socket with awaiting := none } hne'
        fun socket' hs => by rw [exist] at hs; cases hs; rfl, ← hview t']
      exact view_eq_of_fields rfl rfl rfl rfl (Function.update_of_ne hne ..)
  | msgRecvFails => exact ⟨h, rfl, fun _ _ => rfl⟩

/-- A new call has sent nothing yet. -/
theorem view_start (h : Inv w) (sp : SocketPool) (op : Request × Bool) :
    view t ((clients Tid sp).start t op w) = { view t w with sent := ∅, received := none } := by
  simp only [view, clients, Function.update_self]
  congr 1
  apply Set.eq_empty_iff_forall_notMem.mpr
  rintro p ⟨sent, hm, hc, -⟩
  have hle := h.call_le p.1 sent hm
  rw [hc] at hle
  exact absurd hle (by simp)

theorem start_verified (h : Inv w) (sp : SocketPool) (op : Request × Bool)
    (hidle : (view t w).SlotIdle) :
    Inv ((clients Tid sp).start t op w) ∧
      ((clients Tid sp).body op).wp pooled (Answered op.1)
          (view t ((clients Tid sp).start t op w)) ∧
      ∀ t', t' ≠ t → view t' ((clients Tid sp).start t op w) = view t' w := by
  refine ⟨⟨h.outstanding, h.unique, ?_, ?_, h.log⟩, ?_, fun t' hne => ?_⟩
  · intro m sent hm
    apply (h.call_le m sent hm).trans
    by_cases ht : sent.call.1 = t
    · simp [clients, ht]
    · simp [clients, ht]
  · intro t' m reply hr
    by_cases ht : t' = t
    · simp [clients, ht] at hr
    · exact h.received t' m reply (by simpa [clients, ht] using hr)
  · rw [view_start h]
    exact communicate_wp sp op.1 op.2 hidle rfl
  · exact view_eq_of_fields rfl rfl rfl (Function.update_of_ne hne ..)
      (Function.update_of_ne hne ..)

theorem finish_verified (h : Inv w) (sp : SocketPool) (op : Request × Bool)
    (result : Option Response × ℤ) (hpost : Answered op.1 result (view t w)) :
    Inv ((clients Tid sp).finish t op result w) := by
  refine ⟨h.outstanding, h.unique, h.call_le, h.received, fun entry hentry response hr => ?_⟩
  rcases List.mem_cons.mp hentry with rfl | hold
  · obtain ⟨m, ⟨sent, hm, hc, hq⟩, hrec⟩ := hpost.response response hr
    obtain ⟨sent', hm', ha⟩ := h.received t m _ hrec
    rw [hm] at hm'
    cases hm'
    exact ⟨m, sent, hm, hc, hq, ha⟩
  · exact h.log entry hold response hr

theorem env_verified (h : Inv w) (henv : Env w w') : Inv w' ∧ ∀ t : Tid, view t w' = view t w := by
  cases henv with
  | answer there once reply =>
    refine ⟨h.setSent _ there rfl rfl rfl id fun reply' ha => ?_,
      fun t => view_setSent there rfl rfl⟩
    rw [once] at ha
    cases ha
  | arrive there answered =>
    exact ⟨h.setSent _ there rfl rfl rfl id fun _ => id, fun t => view_setSent there rfl rfl⟩

end World

section Clients

variable [DecidableEq Tid]

/-- The threads are verified one at a time. -/
def verification (sp : SocketPool) : Concurrent.Verification (clients Tid sp) View Inv view where
  spec := pooled
  idle := View.SlotIdle
  post op := Answered op.1
  start _ op _ h hidle := start_verified h sp op hidle
  act _ _ _ _ _ h hpre hact := act_verified h hpre hact
  finish _ op result _ h hpost :=
    ⟨finish_verified h sp op result hpost, hpost.slotIdle, fun _ _ => rfl⟩
  env _ _ h henv := env_verified h henv

/-- **Replies are never mixed up.** In every interleaving of calls by any threads, over a network
that delays and loses messages as it likes, a response that a call returned is the server's reply to
the request sent in that call; a call puts at most one copy of its request on the wire; and an idle
thread keeps no open socket on which a reply is outstanding. -/
theorem replies_match {sp : SocketPool}
    {config : Concurrent.Config Tid (Request × Bool) ZmqRet (Option Response × ℤ) (World Tid)}
    (h : Concurrent.Reachable (clients Tid sp) World.init config) :
    (∀ entry ∈ config.world.log, ∀ response, entry.response = some response →
      ∃ m sent, config.world.wire m = some sent ∧ sent.call = entry.call ∧
        sent.request = entry.request ∧ sent.answer = some (some response)) ∧
    (∀ m m' sent sent', config.world.wire m = some sent → config.world.wire m' = some sent' →
      sent.call = sent'.call → m = m') ∧
    ∀ t, config.threads t = none → ∀ s socket, config.world.slot t = some s →
      config.world.sockets s = some socket → socket.isOpen = true →
        ∀ m sent, config.world.wire m = some sent → sent.sock = s → sent.received = true := by
  have hv := h.verified (V := verification sp) inv_init fun t s hs => by cases hs
  refine ⟨hv.inv.log, hv.inv.unique, ?_⟩
  intro t ht s socket hslot hsock hopen m sent hm hs
  by_contra hrec
  obtain ⟨socket', hsock', hout⟩ := hv.inv.outstanding m sent hm (by simpa using hrec)
  rw [hs, hsock] at hsock'
  cases hsock'
  have hidle := hv.idle t ht s hslot
  have howner : socket.owner = t :=
    status_ne_none hsock (by rcases hidle with hi | hi <;> rw [hi] <;> exact Option.some_ne_none _)
  rw [status_eq hsock howner] at hidle
  rcases hout with hout | hout
  · simp [Socket.status, hopen, hout] at hidle
  · rw [hopen] at hout
    cases hout

end Clients

/-- The first attempt to send succeeds. -/
theorem advance_sendLoop [DecidableEq Tid] {t : Tid} {sock : Sock} {req : Request}
    {checkFuseInterrupts : Bool} {repetition : ℕ} {w w' : World Tid}
    (h : Act t (.msgSend sock req) w (.ok ()) w') :
    Concurrent.Advance (Act t) Env (.ret (.ok ())) w'
      (sendLoop sock req checkFuseInterrupts repetition) w := by
  unfold sendLoop
  exact .act (.ok ()) h .done

/-- One thread pings the server on a new socket and receives the reply. -/
theorem replies_match_ping : ∃ config,
    Concurrent.Reachable (clients ℕ ⟨[], none, none, none⟩) World.init config ∧
    ∃ entry ∈ config.world.log, ∃ response, entry.response = some response ∧
      ∃ m sent, config.world.wire m = some sent ∧ sent.call = entry.call ∧
        sent.request = entry.request ∧ sent.answer = some (some response) := by
  have hadv : ∃ w', Concurrent.Advance (Act 0) Env (.ret (some Response.initial, 0)) w'
      (rhizofsCommunicate ⟨[], none, none, none⟩ (.onPath .ping []) none true)
      ((clients ℕ ⟨[], none, none, none⟩).start 0 (.onPath .ping [], true) World.init) := by
    refine ⟨?w, .act none (.getspecific _) ?_⟩
    rotate_left
    refine .act (some 0) (.socket rfl) ?_
    refine .act true (.connect _ 0 [] true) ?_
    refine .act true (.setspecific _ (some 0)) ?_
    refine .act (.ok ()) (.pack _ _ _) ?_
    refine .bind (p := sendLoop 0 _ true 0)
      (advance_sendLoop (.msgSend (m := 0) _ rfl rfl rfl rfl)) ?_
    refine .act true (.msgInit _ true) ?_
    refine .act (true, 0) (.poll _ 0 true 0) ?_
    refine .env (.answer (m := 0) rfl rfl (some .initial)) ?_
    refine .env (.arrive (m := 0) rfl (Option.some_ne_none _)) ?_
    refine .act (.ok (some .initial)) (.msgRecv (m := 0) rfl rfl rfl rfl rfl rfl rfl rfl) ?_
    exact .done
  obtain ⟨w', hadv⟩ := hadv
  have hinit : Concurrent.Reachable (clients ℕ ⟨[], none, none, none⟩) World.init
      ⟨World.init, fun _ => none⟩ := .init
  have hreach := hinit.runs (t := 0) (.onPath .ping [], true) rfl hadv
  exact ⟨_, hreach, _, List.mem_cons_self .., .initial, rfl,
    (replies_match hreach).1 _ (List.mem_cons_self ..) .initial rfl⟩

end Network

end Rhizofs
