import Rhizofs.Fs.Communicate
import Rhizofs.Fs.Operations

/-!
# Which failures `Rhizofs_communicate` reports

`rhizofsCommunicate` takes the error of a failed `Request_pack` from `errno`. Here `Request_pack`
is opened up (`requestPack`), down to its `check` macros, which reset `errno` on the way out, and
the counter of the send loop is that of the code, a `uint32_t` (`sendLoop32`).

Whatever the calls answer and leave in `errno`, the call ends after a bounded number of attempts to
send, and it reports what happened unless `Request_pack` failed and left `errno` at 0
(`communicate_reports_iff`). Then `OP_COMMUNICATE` takes the failure for success
(`communicate_not_reporting`).
-/

namespace Rhizofs

open Extern

/-! ## The counter of the send loop -/

/-- `seconds_waited` as the code computes it. -/
def secondsWaited32 (repetition : UInt32) : UInt32 :=
  repetition * UInt32.ofNat SEND_SLEEP_USEC / (1000 * 1000)

/-- `settings.timeout`. -/
def settingsTimeout : UInt32 := UInt32.ofNat TIMEOUT_DEFAULT

/-- The most attempts to send. -/
def maxAttempts : ℕ := TIMEOUT_DEFAULT * (1000 * 1000)

theorem secondsWaited_lt_iff {repetition : ℕ} :
    secondsWaited repetition < TIMEOUT_DEFAULT ↔ repetition < maxAttempts := by
  unfold secondsWaited SEND_SLEEP_USEC maxAttempts TIMEOUT_DEFAULT
  omega

theorem secondsWaited32_toNat (repetition : UInt32) :
    (secondsWaited32 repetition).toNat = secondsWaited repetition.toNat := by
  have hlt := repetition.toNat_lt
  unfold secondsWaited32 secondsWaited
  rw [UInt32.toNat_div, UInt32.toNat_mul]
  simp only [SEND_SLEEP_USEC]
  change repetition.toNat * 1 % 2 ^ 32 / 1000000 = repetition.toNat * 1 / (1000 * 1000)
  omega

theorem settingsTimeout_le_iff {repetition : UInt32} :
    settingsTimeout ≤ secondsWaited32 repetition ↔
      TIMEOUT_DEFAULT ≤ secondsWaited repetition.toNat := by
  rw [UInt32.le_iff_toNat_le, secondsWaited32_toNat]
  rfl

/-- Below the timeout the counter does not wrap. -/
theorem succ_toNat {repetition : UInt32} (h : repetition.toNat < maxAttempts) :
    (repetition + 1).toNat = repetition.toNat + 1 := by
  have hmax : maxAttempts = 30000000 := rfl
  rw [UInt32.toNat_add]
  change (repetition.toNat + 1) % 2 ^ 32 = _
  omega

/-- The send loop, with the counter that the code has. -/
def sendLoop32 (sock : Sock) (req : Request) (checkFuseInterrupts : Bool) (repetition : UInt32) :
    Prog ZmqRet (Except (Bool × ℤ) Unit) := do
  match ← zmq (.msgSend sock req) with
  | .ok _ => return .ok ()
  | .error errno =>
    if errno = EAGAIN ∨ errno = EFSM then do
      zmq .usleep
      let stop ← fuseStop checkFuseInterrupts
      if stop then return .error (true, EINTR)
      else if h : secondsWaited32 (repetition + 1) ≥ settingsTimeout then
        return .error (true, EAGAIN)
      else sendLoop32 sock req checkFuseInterrupts (repetition + 1)
    else return .error (false, EIO)
termination_by maxAttempts - (repetition + 1).toNat
decreasing_by
  have hlt : (repetition + 1).toNat < maxAttempts := by
    rw [ge_iff_le, settingsTimeout_le_iff, not_le, secondsWaited_lt_iff] at h
    exact h
  rw [succ_toNat hlt]
  omega

/-- **The counter never wraps**: counting in `uint32_t` is counting. -/
theorem sendLoop32_eq (sock : Sock) (req : Request) (checkFuseInterrupts : Bool)
    {repetition : UInt32} (h : repetition.toNat < maxAttempts) :
    sendLoop32 sock req checkFuseInterrupts repetition =
      sendLoop sock req checkFuseInterrupts repetition.toNat := by
  induction hn : maxAttempts - repetition.toNat using Nat.strong_induction_on
    generalizing repetition with
  | _ n ih =>
    have hsucc := succ_toNat h
    unfold sendLoop32 sendLoop
    congr 1
    funext r
    cases r with
    | ok u => rfl
    | error errno =>
      dsimp only
      by_cases hretry : errno = EAGAIN ∨ errno = EFSM
      · rw [if_pos hretry, if_pos hretry]
        congr 1
        funext _
        congr 1
        funext stop
        by_cases hstop : stop = true
        · rw [if_pos hstop, if_pos hstop]
        · rw [if_neg hstop, if_neg hstop]
          by_cases hwait : TIMEOUT_DEFAULT ≤ secondsWaited (repetition.toNat + 1)
          · have hwait32 : settingsTimeout ≤ secondsWaited32 (repetition + 1) := by
              rwa [settingsTimeout_le_iff, hsucc]
            rw [dif_pos hwait32, dif_pos hwait]
          · have hwait32 : ¬ settingsTimeout ≤ secondsWaited32 (repetition + 1) := by
              rwa [settingsTimeout_le_iff, hsucc]
            have hlt : repetition.toNat + 1 < maxAttempts :=
              secondsWaited_lt_iff.mp (not_le.mp hwait)
            rw [dif_neg hwait32, dif_neg hwait, ih _ _ (by rwa [hsucc]) rfl, hsucc]
            omega
      · rw [if_neg hretry, if_neg hretry]

/-! ## `Request_pack` -/

/-- The calls of `Rhizofs_communicate`, with those of `Request_pack` in its place. -/
inductive LibCall
  | zmq (c : ZmqCall)
  /-- `zmq_msg_init_size` for the packed request. -/
  | msgInitSize (req : Request)
  /-- `rhizofs__request__pack`: whether it has written the number of bytes expected. -/
  | packRequest (req : Request)
  /-- `zmq_msg_close` after a failure: what it leaves in `errno`, which was 0. -/
  | msgClose

/-- The answers. -/
abbrev LibRet : LibCall → Type
  | .zmq c => ZmqRet c
  | .msgInitSize _ => Except ℤ Unit
  | .packRequest _ => Bool
  | .msgClose => ℤ

/-- Make one such call. -/
abbrev lib (c : LibCall) : Prog LibRet (LibRet c) := Prog.perform c

/-- The `error` exit of `Request_pack`, after `check` has set `errno` to 0. -/
def packFailed : Prog LibRet (Except ℤ Unit) := do
  let errno ← lib .msgClose
  return .error errno

/-- `Request_pack`: success, or what is in `errno` when it returns. -/
def requestPack (req : Request) : Prog LibRet (Except ℤ Unit) := do
  match ← lib (.msgInitSize req) with
  | .error _ => packFailed
  | .ok _ => do
    let packed ← lib (.packRequest req)
    if packed then return .ok () else packFailed

/-- A call of `Rhizofs_communicate`, with `Request_pack` opened up. -/
def openPack : (c : ZmqCall) → Prog LibRet (ZmqRet c)
  | .pack req => requestPack req
  | .getspecific => lib (.zmq .getspecific)
  | .setspecific sock => lib (.zmq (.setspecific sock))
  | .socket => lib (.zmq .socket)
  | .setsockopt sock option key => lib (.zmq (.setsockopt sock option key))
  | .connect sock socketName => lib (.zmq (.connect sock socketName))
  | .close sock => lib (.zmq (.close sock))
  | .msgSend sock req => lib (.zmq (.msgSend sock req))
  | .usleep => lib (.zmq .usleep)
  | .interrupted => lib (.zmq .interrupted)
  | .msgInit => lib (.zmq .msgInit)
  | .poll sock => lib (.zmq (.poll sock))
  | .msgRecv sock => lib (.zmq (.msgRecv sock))

/-- `Rhizofs_communicate` with `Request_pack`. -/
def communicateWithPack (sp : SocketPool) (req : Request) (socketToUse : Option Sock)
    (checkFuseInterrupts : Bool) : Prog LibRet (Option Response × ℤ) :=
  (rhizofsCommunicate sp req socketToUse checkFuseInterrupts).translate openPack

/-! ## What is noted of a run -/

/-- An attempt to send, or a failure of `Request_pack` with what it left in `errno`. -/
inductive Note
  | attempt
  | unpacked (errno : ℤ)
  deriving DecidableEq

/-- What is noted of a call. -/
def noteZmq : Event ZmqRet → Option Note
  | ⟨.msgSend _ _, _⟩ => some .attempt
  | ⟨.pack _, .error errno⟩ => some (.unpacked errno)
  | _ => none

/-- What is noted of a call when `Request_pack` is opened up. -/
def noteLib : Event LibRet → Option Note
  | ⟨.zmq (.msgSend _ _), _⟩ => some .attempt
  | ⟨.msgClose, errno⟩ => some (.unpacked errno)
  | _ => none

/-- The exchange ended as its caller expects: without a response and with an error, or with a
response and the error number in it. -/
def Conclusive (out : Option Response × ℤ) : Prop :=
  (out.1 = none ∧ out.2 ≠ 0) ∨ ∃ response, out = (some response, response.getErrno)

/-- How a call ends. -/
structure Ended (out : Option Response × ℤ) (notes : List Note) : Prop where
  attempts : notes.count .attempt ≤ maxAttempts
  reports : Conclusive out ↔ .unpacked 0 ∉ notes
  silent : .unpacked 0 ∈ notes → out = (none, 0)

/-- The calls of `Rhizofs_communicate`, whatever they answer. -/
abbrev notingZmq : Spec ZmqRet (List Note) := Prog.observing (fun _ _ => True) noteZmq

abbrev notingLib : Spec LibRet (List Note) := Prog.observing (fun _ _ => True) noteLib

section Wp

variable {α β : Type} {notes : List Note} {Q : α → List Note → Prop} {socketToUse : Option Sock}
  {checkFuseInterrupts : Bool} {req : Request}

/-- A call of which nothing is noted. -/
def Unnoted (c : ZmqCall) : Prop := ∀ r, noteZmq ⟨c, r⟩ = none

theorem wp_unnoted_bind {p : Prog ZmqRet β} {f : β → Prog ZmqRet α} (hp : p.Calls Unnoted)
    (hf : ∀ b, (f b).wp notingZmq Q notes) : (p >>= f).wp notingZmq Q notes :=
  hp.wp_observing_bind (fun _ hc => hc) hf

theorem renewSocket_unnoted : SocketPool.renewSocket.Calls Unnoted := by
  refine ⟨fun _ => rfl, fun slot => ?_⟩
  cases slot with
  | none => trivial
  | some sock => exact ⟨fun _ => rfl, fun _ => ⟨fun _ => rfl, fun _ => trivial⟩⟩

theorem destroy_unnoted (sock : Sock) : (SocketPool.destroy sock).Calls Unnoted :=
  ⟨fun _ => rfl, fun _ => trivial⟩

theorem setOptions_unnoted (sock : Sock) (options : List (CurveOption × CString)) :
    (SocketPool.setOptions sock options).Calls Unnoted := by
  induction options with
  | nil => trivial
  | cons option options ih =>
    refine ⟨fun _ => rfl, fun ok => ?_⟩
    cases ok with
    | false => trivial
    | true => exact ih

theorem createSocket_unnoted (sp : SocketPool) : sp.createSocket.Calls Unnoted := by
  refine ⟨fun _ => rfl, fun sock => ?_⟩
  cases sock with
  | none => trivial
  | some sock =>
    have hconfigure : (sp.configure sock).Calls Unnoted := by
      unfold SocketPool.configure
      split
      · trivial
      · exact setOptions_unnoted sock _
    refine hconfigure.bind fun ok => ?_
    cases ok with
    | false => exact destroy_unnoted sock
    | true => trivial

theorem getSocket_unnoted (sp : SocketPool) : sp.getSocket.Calls Unnoted := by
  refine ⟨fun _ => rfl, fun slot => ?_⟩
  cases slot with
  | some sock => trivial
  | none =>
    refine (createSocket_unnoted sp).bind fun sock => ?_
    cases sock with
    | none => trivial
    | some sock =>
      refine ⟨fun _ => rfl, fun ok => ?_⟩
      cases ok with
      | false => exact destroy_unnoted sock
      | true =>
        refine ⟨fun _ => rfl, fun ok => ?_⟩
        cases ok with
        | false => exact destroy_unnoted sock
        | true => trivial

theorem fuseStop_unnoted : (fuseStop checkFuseInterrupts).Calls Unnoted := by
  cases checkFuseInterrupts with
  | false => trivial
  | true => exact ⟨fun _ => rfl, fun _ => trivial⟩

/-- The error exit returns the error. -/
theorem wp_giveUp {renewSocket : Bool} {err : ℤ} {Q : Option Response × ℤ → List Note → Prop}
    (hQ : Q (none, err) notes) :
    (giveUp socketToUse renewSocket err).wp notingZmq Q notes := by
  unfold giveUp
  split_ifs
  · exact wp_unnoted_bind renewSocket_unnoted fun _ => hQ
  · exact hQ

/-- The send loop ends after a bounded number of attempts, and gives up with an error. -/
theorem wp_sendLoop {sock : Sock} {repetition : ℕ} (h : repetition < maxAttempts)
    (hnotes : notes = List.replicate repetition .attempt) :
    (sendLoop sock req checkFuseInterrupts repetition).wp notingZmq (fun r notes' =>
      (∃ n ≤ maxAttempts, notes' = List.replicate n .attempt) ∧
        ∀ renewSocket err, r = .error (renewSocket, err) → err ≠ 0) notes := by
  induction hn : maxAttempts - repetition using Nat.strong_induction_on
    generalizing repetition notes with
  | _ n ih =>
    subst hnotes
    unfold sendLoop
    refine Prog.wp_observing_bind fun r _ => ?_
    have hattempt : List.replicate repetition Note.attempt ++
        (noteZmq ⟨.msgSend sock req, r⟩).toList = List.replicate (repetition + 1) .attempt :=
      List.replicate_succ'.symm
    rw [hattempt]
    have hbound : ∃ n ≤ maxAttempts,
        List.replicate (repetition + 1) Note.attempt = List.replicate n .attempt :=
      ⟨repetition + 1, h, rfl⟩
    cases r with
    | ok u => exact ⟨hbound, fun renewSocket err heq => by cases heq⟩
    | error errno =>
      dsimp only
      by_cases hretry : errno = EAGAIN ∨ errno = EFSM
      · rw [if_pos hretry]
        refine Prog.wp_unobserved_bind (fun _ => rfl) fun _ _ => ?_
        refine wp_unnoted_bind fuseStop_unnoted fun stop => ?_
        split_ifs with hstop hwait
        · exact ⟨hbound, fun renewSocket err heq => by cases heq; decide⟩
        · exact ⟨hbound, fun renewSocket err heq => by cases heq; decide⟩
        · have hlt := secondsWaited_lt_iff.mp (not_le.mp hwait)
          exact ih _ (by omega) hlt rfl rfl
      · rw [if_neg hretry]
        exact ⟨hbound, fun renewSocket err heq => by cases heq; decide⟩

/-- Receiving fails with an error, also when `errno` says nothing. -/
theorem wp_receive {sock : Sock} :
    (receive sock checkFuseInterrupts).wp notingZmq (fun r notes' =>
      notes' = notes ∧ ∀ err, r = .error err → err ≠ 0) notes := by
  have hEIO : EIO ≠ 0 := by decide
  refine Prog.wp_unobserved_bind (fun _ => rfl) fun ok _ => ?_
  cases ok with
  | false => exact ⟨rfl, fun err heq => by cases heq; decide⟩
  | true =>
    refine Prog.wp_unobserved_bind (fun _ => rfl) ?_
    rintro ⟨readable, errno⟩ -
    cases readable with
    | false =>
      refine wp_unnoted_bind fuseStop_unnoted fun stop => ⟨rfl, fun err heq => ?_⟩
      cases heq
      split_ifs with hstop hzero
      · decide
      · exact hEIO
      · exact hzero
    | true =>
      refine Prog.wp_unobserved_bind (fun _ => rfl) fun reply _ => ?_
      match reply with
      | .ok (some response) => exact ⟨rfl, fun err heq => by cases heq⟩
      | .ok none => exact ⟨rfl, fun err heq => by cases heq; exact hEIO⟩
      | .error errno => exact ⟨rfl, fun err heq => by cases heq; exact hEIO⟩

theorem unpacked_notMem_replicate (n : ℕ) :
    Note.unpacked 0 ∉ List.replicate n Note.attempt := by
  intro hmem
  cases List.eq_of_mem_replicate hmem

/-- An end with an error, when `Request_pack` succeeded. -/
theorem ended_error {n : ℕ} (hn : n ≤ maxAttempts) {err : ℤ} (herr : err ≠ 0) :
    Ended (none, err) (List.replicate n .attempt) where
  attempts := by rwa [List.count_replicate_self]
  reports := iff_of_true (.inl ⟨rfl, herr⟩) (unpacked_notMem_replicate n)
  silent h := absurd h (unpacked_notMem_replicate n)

theorem ended_response {n : ℕ} (hn : n ≤ maxAttempts) (response : Response) :
    Ended (some response, response.getErrno) (List.replicate n .attempt) where
  attempts := by rwa [List.count_replicate_self]
  reports := iff_of_true (.inr ⟨response, rfl⟩) (unpacked_notMem_replicate n)
  silent h := absurd h (unpacked_notMem_replicate n)

/-- An end with what a failed `Request_pack` left in `errno`. -/
theorem ended_unpacked (errno : ℤ) : Ended (none, errno) [.unpacked errno] where
  attempts := Nat.zero_le _
  reports := by
    constructor
    · rintro (⟨-, herr⟩ | ⟨response, heq⟩) hmem
      · cases List.mem_singleton.mp hmem
        exact herr rfl
      · cases heq
    · intro hmem
      refine .inl ⟨rfl, ?_⟩
      rintro rfl
      exact hmem (List.mem_singleton_self _)
  silent hmem := by
    cases List.mem_singleton.mp hmem
    rfl

/-- **One call of `Rhizofs_communicate`**: the error is missing only when `Request_pack` failed and
left none. -/
theorem wp_communicate (sp : SocketPool) :
    (rhizofsCommunicate sp req socketToUse checkFuseInterrupts).wp notingZmq Ended [] := by
  unfold rhizofsCommunicate
  extract_lets exchangeOn
  have hexchange : ∀ sock, (exchangeOn sock).wp notingZmq Ended [] := by
    intro sock
    cases sock with
    | none => exact wp_giveUp (ended_error (n := 0) (Nat.zero_le _) (by decide))
    | some sock =>
      refine Prog.wp_observing_bind fun packed _ => ?_
      cases packed with
      | error errno => exact wp_giveUp (ended_unpacked errno)
      | ok u =>
        refine Prog.wp_seq _ (wp_sendLoop (by decide) rfl) ?_
        rintro r _ ⟨⟨n, hn, rfl⟩, herr⟩
        cases r with
        | error exit => exact wp_giveUp (ended_error hn (herr exit.1 exit.2 rfl))
        | ok u =>
          refine Prog.wp_seq _ wp_receive ?_
          rintro r _ ⟨rfl, herr⟩
          cases r with
          | error err => exact wp_giveUp (ended_error hn (herr err rfl))
          | ok response => exact ended_response hn response
  cases socketToUse with
  | some sock => exact hexchange (some sock)
  | none => exact wp_unnoted_bind (getSocket_unnoted sp) hexchange

theorem wp_packFailed :
    packFailed.wp notingLib (fun r notes' => notingZmq.step (.pack req) notes r notes') notes := by
  refine ⟨trivial, fun errno notes' hstep => ?_⟩
  obtain ⟨-, rfl⟩ := hstep
  exact ⟨trivial, rfl⟩

/-- Opening up `Request_pack` changes nothing of what is noted. -/
theorem wp_openPack (c : ZmqCall) (notes : List Note) :
    (openPack c).wp notingLib (fun r notes' => notingZmq.step c notes r notes') notes := by
  cases c with
  | pack req =>
    refine Prog.wp_observing_call fun r _ => ?_
    rw [show noteLib ⟨.msgInitSize req, r⟩ = none from rfl, Option.toList_none, List.append_nil]
    cases r with
    | error errno => exact wp_packFailed
    | ok u =>
      refine Prog.wp_observing_call fun packed _ => ?_
      rw [show noteLib ⟨.packRequest req, packed⟩ = none from rfl, Option.toList_none,
        List.append_nil]
      cases packed with
      | false => exact wp_packFailed
      | true => exact ⟨trivial, (List.append_nil notes).symm⟩
  | _ => exact ⟨trivial, fun r notes' hstep => hstep⟩

end Wp

/-! ## The runs -/

section Runs

variable {sp : SocketPool} {req : Request} {socketToUse : Option Sock} {checkFuseInterrupts : Bool}
  {tr : List (Event LibRet)}

theorem communicate_ended {out : Option Response × ℤ}
    (h : (communicateWithPack sp req socketToUse checkFuseInterrupts).Traces tr out) :
    Ended out (tr.filterMap noteLib) := by
  have hwp : (communicateWithPack sp req socketToUse checkFuseInterrupts).wp notingLib Ended [] :=
    Prog.wp_translate openPack (fun c notes _ => wp_openPack c notes) (wp_communicate sp)
  exact Prog.wp_observing_traces hwp h fun _ _ => trivial

/-- A response is returned with its error number. -/
theorem communicate_response {response : Response} {err : ℤ}
    (h : (communicateWithPack sp req socketToUse checkFuseInterrupts).Traces tr
      (some response, err)) : err = response.getErrno := by
  have hended := communicate_ended h
  have hpacked : .unpacked 0 ∉ tr.filterMap noteLib := by
    intro hmem
    cases hended.silent hmem
  rcases hended.reports.mpr hpacked with ⟨hnone, -⟩ | ⟨response', heq⟩
  · cases hnone
  · cases heq
    rfl

/-- A response that arrives in time is returned. -/
theorem communicate_delivered (sp : SocketPool) (req : Request) (sock : Sock)
    (checkFuseInterrupts : Bool) (response : Response) :
    (communicateWithPack sp req none checkFuseInterrupts).Traces
      [⟨.zmq .getspecific, some sock⟩, ⟨.msgInitSize req, .ok ()⟩, ⟨.packRequest req, true⟩,
        ⟨.zmq (.msgSend sock req), .ok ()⟩, ⟨.zmq .msgInit, true⟩, ⟨.zmq (.poll sock), (true, 0)⟩,
        ⟨.zmq (.msgRecv sock), .ok (some response)⟩] (some response, response.getErrno) := by
  refine ⟨some sock, _, rfl, .ok (), _, rfl, true, _, rfl, ?_⟩
  have hloop : ((sendLoop sock req checkFuseInterrupts 0).translate openPack).Traces
      [⟨.zmq (.msgSend sock req), .ok ()⟩] (.ok ()) := by
    unfold sendLoop
    exact ⟨.ok (), [], rfl, rfl, rfl⟩
  refine (Prog.traces_translate_bind (p := sendLoop sock req checkFuseInterrupts 0)
    openPack).mpr ⟨.ok (), _, _, List.singleton_append.symm, hloop, ?_⟩
  exact ⟨true, _, rfl, (true, 0), _, rfl, .ok (some response), _, rfl, rfl, rfl⟩

/-- `Request_pack` failed, and its `zmq_msg_close` left the 0 in `errno`. -/
def SilentPack (tr : List (Event LibRet)) : Prop := (⟨.msgClose, (0 : ℤ)⟩ : Event LibRet) ∈ tr

theorem silentPack_iff : SilentPack tr ↔ .unpacked 0 ∈ tr.filterMap noteLib := by
  rw [List.mem_filterMap]
  constructor
  · intro hmem
    exact ⟨_, hmem, rfl⟩
  · rintro ⟨⟨c, r⟩, hmem, hnote⟩
    cases c with
    | zmq c => cases c <;> cases hnote
    | msgClose =>
      cases hnote
      exact hmem
    | msgInitSize req | packRequest req => cases hnote

/-- **When `Rhizofs_communicate` reports a failure.** The counter of the send loop does not wrap,
and whatever the calls answer, the call ends after at most `maxAttempts` attempts to send. It
returns an error, or a response and its error number, unless `Request_pack` failed silently. -/
theorem communicate_reports_iff (sp : SocketPool) (req : Request) (socketToUse : Option Sock)
    (checkFuseInterrupts : Bool) :
    (∀ sock, sendLoop32 sock req checkFuseInterrupts 0 =
      sendLoop sock req checkFuseInterrupts 0) ∧
    (∀ (W : Type) (outcome : (c : LibCall) → W → LibRet c × W) (w : W), ∃ tr out w',
      (communicateWithPack sp req socketToUse checkFuseInterrupts).Traces tr out ∧
        Moves (fun c w r w' => (r, w') = outcome c w) tr w w') ∧
    ∀ tr out, (communicateWithPack sp req socketToUse checkFuseInterrupts).Traces tr out →
      (tr.filterMap noteLib).count .attempt ≤ maxAttempts ∧ (Conclusive out ↔ ¬ SilentPack tr) := by
  refine ⟨fun sock => sendLoop32_eq sock req checkFuseInterrupts (by decide), ?_, ?_⟩
  · intro W outcome w
    have hrun : (communicateWithPack sp req socketToUse checkFuseInterrupts).Runs
        (fun c w r w' => (r, w') = outcome c w) w _ _ :=
      Prog.runs_exec outcome (fun _ _ => rfl) _ w
    obtain ⟨tr, htr, hmoves⟩ := Prog.runs_iff_traces.mp hrun
    exact ⟨tr, _, _, htr, hmoves⟩
  · intro tr out h
    have hended := communicate_ended h
    exact ⟨hended.attempts, by rw [silentPack_iff, hended.reports]⟩

/-- A response that arrives is reported. -/
theorem communicate_reports_iff_delivered : ∃ tr,
    (communicateWithPack ⟨[], none, none, none⟩ (.onPath .ping []) none true).Traces tr
      (some .initial, 0) ∧ Conclusive (some .initial, 0) := by
  have htr := communicate_delivered ⟨[], none, none, none⟩ (.onPath .ping []) 0 true .initial
  obtain ⟨-, -, hreports⟩ :=
    communicate_reports_iff ⟨[], none, none, none⟩ (.onPath .ping []) none true
  refine ⟨_, htr, (hreports _ _ htr).2.mpr ?_⟩
  rw [SilentPack]
  intro hmem
  simp only [List.mem_cons, Sigma.mk.injEq, reduceCtorEq, false_and, List.not_mem_nil,
    or_self] at hmem

/-- The request of `Rhizofs_unlink` for `/a`. -/
def unlinkRequest : Request :=
  { Request.initial with path := some [47, 97], requesttype := .unlink }

/-- Without memory for the message nothing is sent and no error is returned, and
`Rhizofs_unlink` succeeds. -/
theorem communicate_not_reporting :
    (communicateWithPack ⟨[], none, none, none⟩ unlinkRequest none true).Traces
      [⟨.zmq .getspecific, some 0⟩, ⟨.msgInitSize unlinkRequest, .error ENOMEM⟩, ⟨.msgClose, 0⟩]
      (none, 0) ∧
    ¬ Conclusive (none, 0) ∧
    (rhizofsUnlink [47, 97]).Traces
      [⟨.alloc .record, true⟩, ⟨.communicate unlinkRequest, (none, 0)⟩] 0 := by
  refine ⟨⟨some 0, _, rfl, .error ENOMEM, _, rfl, (0 : ℤ), _, rfl, rfl, rfl⟩, ?_, ?_⟩
  · rintro (⟨-, herr⟩ | ⟨response, heq⟩)
    · exact herr rfl
    · cases heq
  · exact ⟨true, _, rfl, (none, 0), _, rfl, rfl, rfl⟩

end Runs

end Rhizofs
