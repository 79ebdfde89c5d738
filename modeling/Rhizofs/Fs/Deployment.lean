import Rhizofs.Fs.Replies
import Rhizofs.Server.Trace

/-!
# Calls across the network

The client threads of `Rhizofs.Fs.Replies` and the server behind the network. Workers, as many as
there are, receive requests, run their handlers and reply; the system calls of different handlers
come in any order. ZeroMQ hands a request to one worker, and only once.

`Deployment.Accounts` keeps book of the system calls: which request each of them was made for, and
what is left of its handler. So the calls made for a request are those of one run of its handler. A
call of `Rhizofs_communicate` that returns a response had its request handled once, after it began
and before it returned; any other one had it handled at most once (`handled_once`).
-/

namespace Rhizofs

open Extern

namespace Network

variable {Tid S : Type}

/-- What a finished call returned, and the number of system calls that had been made by then. -/
structure Ended (Tid : Type) extends Returned Tid where
  last : ℕ

/-- The clients and the network, and the server: its operating system, for every message that a
worker received what is left of the handler, and the system calls so far, each with the message it
was made for. `began` is the number of system calls made when a call began. -/
structure Deployment (Tid S : Type) where
  net : World Tid
  os : S
  handlings : ℕ → Option (Prog SysRet (Option (ℤ × Response)))
  events : List (ℕ × Event SysRet)
  began : Tid × ℕ → ℕ
  ended : List (Ended Tid)

namespace Deployment

/-- Nothing has happened. -/
def init (s : S) : Deployment Tid S :=
  { net := .init
    os := s
    handlings := fun _ => none
    events := []
    began := fun _ => 0
    ended := [] }

/-- The system calls made for a message. -/
def made (d : Deployment Tid S) (m : ℕ) : Trace := (d.events.filter (·.1 = m)).map (·.2)

/-- The handler of a message makes the system calls `evs` and gets as far as `rest`. -/
def advance (d : Deployment Tid S) (m : ℕ) (evs : Trace) (s : S)
    (rest : Prog SysRet (Option (ℤ × Response))) : Deployment Tid S :=
  { d with
    os := s
    handlings := Function.update d.handlings m (some rest)
    events := d.events ++ evs.map fun ev => (m, ev) }

section Advance

variable (d : Deployment Tid S) {m m' : ℕ} (evs : Trace) (s : S)
  (rest : Prog SysRet (Option (ℤ × Response)))

@[simp] theorem handlings_advance_self : (d.advance m evs s rest).handlings m = some rest :=
  Function.update_self ..

theorem handlings_advance_of_ne (h : m' ≠ m) :
    (d.advance m evs s rest).handlings m' = d.handlings m' :=
  Function.update_of_ne h ..

@[simp] theorem made_advance_self : (d.advance m evs s rest).made m = d.made m ++ evs := by
  have hall : (evs.map fun ev => (m, ev)).filter (·.1 = m) = evs.map fun ev => (m, ev) := by
    apply List.filter_eq_self.mpr
    intro e he
    obtain ⟨ev, -, rfl⟩ := List.mem_map.mp he
    exact decide_eq_true rfl
  rw [made, advance, List.filter_append, hall, List.map_append, List.map_map, made]
  exact congrArg (d.made m ++ ·) (List.map_id evs)

theorem made_advance_of_ne (h : m' ≠ m) : (d.advance m evs s rest).made m' = d.made m' := by
  have hnil : (evs.map fun ev => (m, ev)).filter (·.1 = m') = [] := by
    apply List.filter_eq_nil_iff.mpr
    intro e he hm
    obtain ⟨ev, -, rfl⟩ := List.mem_map.mp he
    exact h (of_decide_eq_true hm).symm
  rw [made, advance, List.filter_append, hnil, List.append_nil, made]

/-- The system calls after a step. -/
theorem getElem?_advance {i : ℕ} {ev : Event SysRet}
    (hev : (d.advance m evs s rest).events[i]? = some (m', ev)) :
    d.events[i]? = some (m', ev) ∨ d.events.length ≤ i ∧ m' = m := by
  by_cases hi : i < d.events.length
  · left
    rwa [advance, List.getElem?_append_left hi] at hev
  · right
    rw [advance, List.getElem?_append_right (Nat.le_of_not_lt hi), List.getElem?_map,
      Option.map_eq_some_iff] at hev
    obtain ⟨ev', -, heq⟩ := hev
    exact ⟨Nat.le_of_not_lt hi, (congrArg Prod.fst heq).symm⟩

end Advance

end Deployment

/-- What a worker may get out of a message: unpacking needs memory. -/
def Unpacked (sent : Sent Tid) (unpacked : Option Request) : Prop :=
  unpacked = some sent.request ∨ unpacked = none

section Steps

variable (lz4 : Lz4) (sd : ServeDir) (step : (c : SysCall) → S → SysRet c → S → Prop)

/-- A worker receives a message, its handler makes a system call, it replies, or a reply reaches its
socket. Any of this may never happen. -/
inductive ServerStep : Deployment Tid S → Deployment Tid S → Prop
  | receive {d : Deployment Tid S} {m : ℕ} {sent : Sent Tid} {unpacked : Option Request}
      (there : d.net.wire m = some sent) (once : d.handlings m = none)
      (unpack : Unpacked sent unpacked) :
      ServerStep d (d.advance m [] d.os (ServeDir.handle lz4 sd unpacked))
  | call {d : Deployment Tid S} {m : ℕ} {c : SysCall}
      {k : SysRet c → Prog SysRet (Option (ℤ × Response))} {r : SysRet c} {s : S}
      (running : d.handlings m = some (.call c k)) (answer : step c d.os r s) :
      ServerStep d (d.advance m [⟨c, r⟩] s (k r))
  | reply {d : Deployment Tid S} {m : ℕ} {sent : Sent Tid} {rc : ℤ} {response : Response}
      {reply : Reply} (there : d.net.wire m = some sent)
      (done : d.handlings m = some (.ret (some (rc, response)))) (once : sent.answer = none)
      (sound : reply = some response ∨ reply = none) :
      ServerStep d { d with net := d.net.setSent m { sent with answer := some reply } }
  | arrive {d : Deployment Tid S} {m : ℕ} {sent : Sent Tid} (there : d.net.wire m = some sent)
      (answered : sent.answer ≠ none) :
      ServerStep d { d with net := d.net.setSent m { sent with arrived := true } }

/-- The threads that call `Rhizofs_communicate`, and the server as their environment. -/
def deployment (Tid : Type) [DecidableEq Tid] (sp : SocketPool) :
    Concurrent Tid (Request × Bool) ZmqRet (Option Response × ℤ) (Deployment Tid S) where
  body := (clients Tid sp).body
  start t op d :=
    { d with
      net := (clients Tid sp).start t op d.net
      began := Function.update d.began (t, d.net.calls t + 1) d.events.length }
  act t c d r d' := Act t c d.net r d'.net ∧ d' = { d with net := d'.net }
  finish t op result d :=
    { d with
      net := (clients Tid sp).finish t op result d.net
      ended := ⟨⟨(t, d.net.calls t), op.1, result.1⟩, d.events.length⟩ :: d.ended }
  env := ServerStep lz4 sd step

end Steps

/-! ## What the server is accountable for -/

/-- The books of the server. -/
structure Deployment.Accounts (lz4 : Lz4) (sd : ServeDir)
    (step : (c : SysCall) → S → SysRet c → S → Prop) (s₀ : S) (d : Deployment Tid S) : Prop where
  made : ∀ m rest, d.handlings m = some rest → ∃ sent unpacked, d.net.wire m = some sent ∧
    Unpacked sent unpacked ∧ (ServeDir.handle lz4 sd unpacked).Leads (d.made m) rest
  known : ∀ m ev, (m, ev) ∈ d.events → d.handlings m ≠ none
  moves : Moves step (d.events.map (·.2)) s₀ d.os
  answered : ∀ m sent response, d.net.wire m = some sent → sent.answer = some (some response) →
    ∃ rc, d.handlings m = some (.ret (some (rc, response)))
  began_le : ∀ call, d.began call ≤ d.events.length
  after : ∀ m sent, d.net.wire m = some sent →
    ∀ i ev, d.events[i]? = some (m, ev) → d.began sent.call ≤ i
  ended : ∀ entry ∈ d.ended, ∀ response, entry.response = some response →
    ∃ m sent rc, d.net.wire m = some sent ∧ sent.call = entry.call ∧
      sent.request = entry.request ∧ d.handlings m = some (.ret (some (rc, response))) ∧
      ∀ i ev, d.events[i]? = some (m, ev) → i < entry.last

namespace World

/-- The messages on the wire stay the messages of their calls. -/
def Grows (w w' : World Tid) : Prop :=
  ∀ m sent, w.wire m = some sent → ∃ sent', w'.wire m = some sent' ∧ sent'.call = sent.call ∧
    sent'.request = sent.request

/-- All answers on the wire were there before. -/
def NoNewAnswer (w w' : World Tid) : Prop :=
  ∀ m sent' reply, w'.wire m = some sent' → sent'.answer = some reply →
    ∃ sent, w.wire m = some sent ∧ sent.answer = some reply

variable {w w' : World Tid} {m : ℕ} {sent' : Sent Tid}

theorem grows_of_wire_eq (h : w'.wire = w.wire) : w.Grows w' := by
  intro m sent hm
  exact ⟨sent, by rw [h, hm], rfl, rfl⟩

theorem noNewAnswer_of_wire_eq (h : w'.wire = w.wire) : w.NoNewAnswer w' := by
  intro m sent' reply hm hanswer
  exact ⟨sent', by rw [← h, hm], hanswer⟩

theorem grows_update (hwire : w'.wire = Function.update w.wire m (some sent'))
    (hold : ∀ sent, w.wire m = some sent →
      sent'.call = sent.call ∧ sent'.request = sent.request) : w.Grows w' := by
  intro m' sent hm'
  by_cases he : m' = m
  · subst he
    exact ⟨sent', by rw [hwire, Function.update_self], hold sent hm'⟩
  · exact ⟨sent, by rw [hwire, Function.update_of_ne he, hm'], rfl, rfl⟩

theorem noNewAnswer_update (hwire : w'.wire = Function.update w.wire m (some sent'))
    (hold : ∀ reply, sent'.answer = some reply →
      ∃ sent, w.wire m = some sent ∧ sent.answer = some reply) : w.NoNewAnswer w' := by
  intro m' sent₁ reply hm' hanswer
  by_cases he : m' = m
  · subst he
    rw [hwire, Function.update_self] at hm'
    obtain rfl := Option.some.inj hm'
    exact hold reply hanswer
  · rw [hwire, Function.update_of_ne he] at hm'
    exact ⟨sent₁, hm', hanswer⟩

theorem grows_of_act [DecidableEq Tid] {t : Tid} {c : ZmqCall} {r : ZmqRet c}
    (h : Act t c w r w') : w.Grows w' := by
  cases h with
  | msgSend req exist isOpen idle fresh =>
    refine grows_update rfl fun sent hm => ?_
    rw [fresh] at hm
    cases hm
  | msgRecv exist isOpen awaits there own answer arrived new =>
    refine grows_update rfl fun sent hm => ?_
    obtain rfl := Option.some.inj (hm.symm.trans there)
    exact ⟨rfl, rfl⟩
  | _ => exact grows_of_wire_eq rfl

theorem noNewAnswer_of_act [DecidableEq Tid] {t : Tid} {c : ZmqCall} {r : ZmqRet c}
    (h : Act t c w r w') : w.NoNewAnswer w' := by
  cases h with
  | msgSend => exact noNewAnswer_update rfl fun reply hanswer => by cases hanswer
  | msgRecv exist isOpen awaits there own answer arrived new =>
    exact noNewAnswer_update rfl fun reply hanswer => ⟨_, there, hanswer⟩
  | _ => exact noNewAnswer_of_wire_eq rfl

end World

namespace Deployment

variable {lz4 : Lz4} {sd : ServeDir} {step : (c : SysCall) → S → SysRet c → S → Prop} {s₀ : S}
  {d d' : Deployment Tid S}

theorem accounts_init (s : S) : (init s : Deployment Tid S).Accounts lz4 sd step s where
  made := fun _ _ h => by cases h
  known := fun _ _ h => by cases h
  moves := rfl
  answered := fun _ _ _ h => by cases h
  began_le := fun _ => Nat.le_refl 0
  after := fun _ _ h => by cases h
  ended := fun _ h => by cases h

namespace Accounts

variable (h : d.Accounts lz4 sd step s₀)

include h

/-- A message of which nothing is on the wire has caused no system call. -/
theorem notMem_of_wire {m : ℕ} (hm : d.net.wire m = none) (ev : Event SysRet) :
    (m, ev) ∉ d.events := by
  intro hmem
  obtain ⟨rest, hrest⟩ := Option.ne_none_iff_exists'.mp (h.known m ev hmem)
  obtain ⟨sent, -, hsent, -⟩ := h.made m rest hrest
  rw [hm] at hsent
  cases hsent

theorem made_eq_nil {m : ℕ} (hm : d.handlings m = none) : d.made m = [] := by
  rw [Deployment.made, List.map_eq_nil_iff, List.filter_eq_nil_iff]
  intro e he hem
  obtain rfl : e.1 = m := of_decide_eq_true hem
  exact h.known e.1 e.2 he hm

/-- The wire changes, and all answers on it are those of the handlers. -/
theorem rewire {net : World Tid} (hgrows : d.net.Grows net)
    (hanswered : ∀ m sent response, net.wire m = some sent →
      sent.answer = some (some response) →
      ∃ rc, d.handlings m = some (.ret (some (rc, response)))) :
    ({ d with net := net } : Deployment Tid S).Accounts lz4 sd step s₀ where
  made := by
    intro m rest hrest
    obtain ⟨sent, unpacked, hm, hunpacked, hleads⟩ := h.made m rest hrest
    obtain ⟨sent', hm', -, hreq⟩ := hgrows m sent hm
    exact ⟨sent', unpacked, hm', by rwa [Unpacked, hreq], hleads⟩
  known := h.known
  moves := h.moves
  answered := hanswered
  began_le := h.began_le
  after := by
    intro m sent' hm' i ev hev
    cases hm : d.net.wire m with
    | none => exact absurd (List.mem_of_getElem? hev) (h.notMem_of_wire hm ev)
    | some sent =>
      obtain ⟨sent₁, hm₁, hcall, -⟩ := hgrows m sent hm
      obtain rfl := Option.some.inj (hm'.symm.trans hm₁)
      rw [hcall]
      exact h.after m sent hm i ev hev
  ended := by
    intro entry hentry response hresponse
    obtain ⟨m, sent, rc, hm, hcall, hreq, hrest, hlast⟩ := h.ended entry hentry response hresponse
    obtain ⟨sent', hm', hcall', hreq'⟩ := hgrows m sent hm
    exact ⟨m, sent', rc, hm', hcall'.trans hcall, hreq'.trans hreq, hrest, hlast⟩

/-- The clients make a call, or a reply reaches its socket. -/
theorem grows {net : World Tid} (hgrows : d.net.Grows net) (hanswer : d.net.NoNewAnswer net) :
    ({ d with net := net } : Deployment Tid S).Accounts lz4 sd step s₀ := by
  apply h.rewire hgrows
  intro m sent' response hm' ha
  obtain ⟨sent, hm, ha'⟩ := hanswer m sent' _ hm' ha
  exact h.answered m sent response hm ha'

/-- A handler begins or goes on. -/
theorem advance {m : ℕ} {evs : Trace} {s : S} {rest : Prog SysRet (Option (ℤ × Response))}
    (hmoves : Moves step evs d.os s) (hrest : ∀ out, d.handlings m ≠ some (.ret (some out)))
    (hmade : ∃ sent unpacked, d.net.wire m = some sent ∧ Unpacked sent unpacked ∧
      (ServeDir.handle lz4 sd unpacked).Leads (d.made m ++ evs) rest) :
    (d.advance m evs s rest).Accounts lz4 sd step s₀ where
  made := by
    intro m' rest' hm'
    by_cases he : m' = m
    · subst he
      rw [handlings_advance_self] at hm'
      obtain rfl := Option.some.inj hm'
      rw [made_advance_self]
      exact hmade
    · rw [handlings_advance_of_ne d evs s rest he] at hm'
      rw [made_advance_of_ne d evs s rest he]
      exact h.made m' rest' hm'
  known := by
    intro m' ev hev
    by_cases he : m' = m
    · subst he
      simp
    · rw [handlings_advance_of_ne d evs s rest he]
      obtain ⟨i, hi⟩ := List.mem_iff_getElem?.mp hev
      rcases getElem?_advance d evs s rest hi with hold | ⟨-, heq⟩
      · exact h.known m' ev (List.mem_of_getElem? hold)
      · exact absurd heq he
  moves := by
    have hevs : (evs.map fun ev => (m, ev)).map (·.2) = evs := by
      rw [List.map_map]
      exact List.map_id evs
    rw [Deployment.advance, List.map_append, hevs]
    exact moves_append.mpr ⟨d.os, h.moves, hmoves⟩
  answered := by
    intro m' sent response hm' hanswer
    obtain ⟨rc, hended⟩ := h.answered m' sent response hm' hanswer
    have he : m' ≠ m := fun he => hrest _ (he ▸ hended)
    exact ⟨rc, by rw [handlings_advance_of_ne d evs s rest he, hended]⟩
  began_le := by
    intro call
    have hle := h.began_le call
    rw [Deployment.advance, List.length_append]
    exact Nat.le_add_right_of_le hle
  after := by
    intro m' sent hm' i ev hev
    rcases getElem?_advance d evs s rest hev with hold | ⟨hle, -⟩
    · exact h.after m' sent hm' i ev hold
    · exact (h.began_le sent.call).trans hle
  ended := by
    intro entry hentry response hresponse
    obtain ⟨m', sent, rc, hm', hcall, hreq, hended, hlast⟩ := h.ended entry hentry response hresponse
    have he : m' ≠ m := fun he => hrest _ (he ▸ hended)
    refine ⟨m', sent, rc, hm', hcall, hreq,
      by rw [handlings_advance_of_ne d evs s rest he, hended], fun i ev hev => ?_⟩
    rcases getElem?_advance d evs s rest hev with hold | ⟨-, heq⟩
    · exact hlast i ev hold
    · exact absurd heq he

/-- A worker receives a message. -/
theorem receive {m : ℕ} {sent : Sent Tid} {unpacked : Option Request}
    (there : d.net.wire m = some sent) (once : d.handlings m = none)
    (unpack : Unpacked sent unpacked) :
    (d.advance m [] d.os (ServeDir.handle lz4 sd unpacked)).Accounts lz4 sd step s₀ := by
  have hmoves : Moves step ([] : Trace) d.os d.os := rfl
  apply h.advance hmoves
  · intro out hout
    rw [once] at hout
    cases hout
  · refine ⟨sent, unpacked, there, unpack, ?_⟩
    rw [h.made_eq_nil once]
    rfl

/-- A handler makes a system call. -/
theorem call {m : ℕ} {c : SysCall} {k : SysRet c → Prog SysRet (Option (ℤ × Response))}
    {r : SysRet c} {s : S} (running : d.handlings m = some (.call c k))
    (answer : step c d.os r s) :
    (d.advance m [⟨c, r⟩] s (k r)).Accounts lz4 sd step s₀ := by
  obtain ⟨sent, unpacked, there, unpack, hleads⟩ := h.made m _ running
  have hmoves : Moves step [⟨c, r⟩] d.os s := ⟨s, answer, rfl⟩
  apply h.advance hmoves
  · intro out hout
    rw [running] at hout
    cases hout
  · exact ⟨sent, unpacked, there, unpack, hleads.call r⟩

/-- A worker replies. -/
theorem reply {m : ℕ} {sent : Sent Tid} {rc : ℤ} {response : Response} {reply : Reply}
    (there : d.net.wire m = some sent)
    (done : d.handlings m = some (.ret (some (rc, response))))
    (sound : reply = some response ∨ reply = none) :
    ({ d with net := d.net.setSent m { sent with answer := some reply } } :
      Deployment Tid S).Accounts lz4 sd step s₀ := by
  refine h.rewire (World.grows_update rfl fun sent' hm => ?_) fun m' sent' response' hm' ha => ?_
  · obtain rfl := Option.some.inj (hm.symm.trans there)
    exact ⟨rfl, rfl⟩
  · by_cases he : m' = m
    · subst he
      rw [wire_setSent_self] at hm'
      obtain rfl := Option.some.inj hm'
      rcases sound with rfl | rfl
      · cases ha
        exact ⟨rc, done⟩
      · cases ha
    · rw [wire_setSent_of_ne d.net _ he] at hm'
      exact h.answered m' sent' response' hm' ha

/-- A call of `Rhizofs_communicate` begins. -/
theorem start [DecidableEq Tid] (hinv : Inv d.net) (sp : SocketPool) (t : Tid)
    (op : Request × Bool) :
    ((deployment lz4 sd step Tid sp).start t op d).Accounts lz4 sd step s₀ := by
  have hwire : ((clients Tid sp).start t op d.net).wire = d.net.wire := rfl
  have hgrown := h.grows (World.grows_of_wire_eq hwire) (World.noNewAnswer_of_wire_eq hwire)
  refine ⟨hgrown.made, hgrown.known, hgrown.moves, hgrown.answered, ?_, ?_, hgrown.ended⟩
  · intro call
    by_cases hcall : call = (t, d.net.calls t + 1)
    · simp [deployment, hcall]
    · simpa [deployment, hcall] using h.began_le call
  · intro m sent hm i ev hev
    -- no message of the new call is on the wire
    have hcall : sent.call ≠ (t, d.net.calls t + 1) := by
      intro he
      have hle := hinv.call_le m sent hm
      rw [he] at hle
      exact absurd hle (Nat.not_succ_le_self _)
    have hbegan : ((deployment lz4 sd step Tid sp).start t op d).began sent.call =
        d.began sent.call := Function.update_of_ne hcall ..
    rw [hbegan]
    exact hgrown.after m sent hm i ev hev

/-- A call of `Rhizofs_communicate` returns. -/
theorem finish [DecidableEq Tid] (hinv : Inv d.net) (sp : SocketPool) {t : Tid}
    {op : Request × Bool} {result : Option Response × ℤ}
    (hpost : Answered op.1 result (view t d.net)) :
    ((deployment lz4 sd step Tid sp).finish t op result d).Accounts lz4 sd step s₀ := by
  have hwire : ((clients Tid sp).finish t op result d.net).wire = d.net.wire := rfl
  have hgrown := h.grows (World.grows_of_wire_eq hwire) (World.noNewAnswer_of_wire_eq hwire)
  refine ⟨hgrown.made, hgrown.known, hgrown.moves, hgrown.answered, hgrown.began_le,
    hgrown.after, ?_⟩
  intro entry hentry response hresponse
  rcases List.mem_cons.mp hentry with rfl | hold
  · obtain ⟨m, ⟨sent, hm, hcall, hreq⟩, hreceived⟩ := hpost.response response hresponse
    obtain ⟨sent', hm', hanswer⟩ := hinv.received t m _ hreceived
    obtain rfl := Option.some.inj (hm.symm.trans hm')
    obtain ⟨rc, hended⟩ := h.answered m sent response hm hanswer
    refine ⟨m, sent, rc, hm, hcall, hreq, hended, fun i ev hev => ?_⟩
    exact (List.getElem?_eq_some_iff.mp hev).1
  · exact h.ended entry hold response hresponse

/-- The server or the network makes a step. -/
theorem serverStep (hstep : ServerStep lz4 sd step d d') : d'.Accounts lz4 sd step s₀ := by
  cases hstep with
  | receive there once unpack => exact h.receive there once unpack
  | call running answer => exact h.call running answer
  | reply there done once sound => exact h.reply there done sound
  | arrive there answered =>
    refine h.grows (World.grows_update rfl fun sent' hm => ?_)
      (World.noNewAnswer_update rfl fun reply ha => ⟨_, there, ha⟩)
    obtain rfl := Option.some.inj (hm.symm.trans there)
    exact ⟨rfl, rfl⟩

end Accounts

end Deployment

/-- The server leaves the views of the threads as they are. -/
theorem serverStep_verified [DecidableEq Tid] {lz4 : Lz4} {sd : ServeDir}
    {step : (c : SysCall) → S → SysRet c → S → Prop} {d d' : Deployment Tid S} (hinv : Inv d.net)
    (hstep : ServerStep lz4 sd step d d') :
    Inv d'.net ∧ ∀ t, view t d'.net = view t d.net := by
  cases hstep with
  | receive there once unpack => exact ⟨hinv, fun _ => rfl⟩
  | call running answer => exact ⟨hinv, fun _ => rfl⟩
  | reply there done once sound => exact env_verified hinv (.answer there once _)
  | arrive there answered => exact env_verified hinv (.arrive there answered)

/-! ## All interleavings -/

section Deployment

variable [DecidableEq Tid] {lz4 : Lz4} {sd : ServeDir}
  {step : (c : SysCall) → S → SysRet c → S → Prop} {s₀ : S}

/-- The threads are verified on their views of the network, as without the server. -/
def deploymentVerification (lz4 : Lz4) (sd : ServeDir)
    (step : (c : SysCall) → S → SysRet c → S → Prop) (s₀ : S) (sp : SocketPool) :
    Concurrent.Verification (deployment lz4 sd step Tid sp) View
      (fun d => Inv d.net ∧ d.Accounts lz4 sd step s₀) fun t d => view t d.net where
  spec := pooled
  idle := View.SlotIdle
  post op := Answered op.1
  start := by
    intro t op d ⟨hinv, hacc⟩ hidle
    obtain ⟨hinv', hwp, hviews⟩ := start_verified hinv sp op hidle
    exact ⟨⟨hinv', hacc.start hinv sp t op⟩, hwp, hviews⟩
  act := by
    rintro t c d r d' ⟨hinv, hacc⟩ hpre ⟨hact, hd'⟩
    obtain ⟨hinv', hspec, hviews⟩ := act_verified hinv hpre hact
    have hacc' := hacc.grows (World.grows_of_act hact) (World.noNewAnswer_of_act hact)
    rw [← hd'] at hacc'
    exact ⟨⟨hinv', hacc'⟩, hspec, hviews⟩
  finish := by
    intro t op result d ⟨hinv, hacc⟩ hpost
    exact ⟨⟨finish_verified hinv sp op result hpost, hacc.finish hinv sp hpost⟩, hpost.slotIdle,
      fun _ _ => rfl⟩
  env := by
    intro d d' ⟨hinv, hacc⟩ hstep
    obtain ⟨hinv', hviews⟩ := serverStep_verified hinv hstep
    exact ⟨⟨hinv', hacc.serverStep hstep⟩, hviews⟩

/-- What the clients may rely on. The system calls made for a message are those of one run of its
handler, as far as the handler got (`run`), and the messages of different calls are different
(`one`), so a call has its request handled at most once, after it began (`after`). When it returned
a response the handler has run to its end, between the beginning and the end of the call, and has
made that response (`returned`). -/
structure Deployment.HandledOnce (lz4 : Lz4) (sd : ServeDir)
    (step : (c : SysCall) → S → SysRet c → S → Prop) (s₀ : S) (d : Deployment Tid S) : Prop where
  run : ∀ m, d.made m ≠ [] → ∃ sent unpacked rest, d.net.wire m = some sent ∧
    Unpacked sent unpacked ∧ (ServeDir.handle lz4 sd unpacked).Leads (d.made m) rest
  one : ∀ m m' sent sent', d.net.wire m = some sent → d.net.wire m' = some sent' →
    sent.call = sent'.call → m = m'
  after : ∀ m sent, d.net.wire m = some sent →
    ∀ i ev, d.events[i]? = some (m, ev) → d.began sent.call ≤ i
  returned : ∀ entry ∈ d.ended, ∀ response, entry.response = some response →
    ∃ m sent unpacked rc, d.net.wire m = some sent ∧ sent.call = entry.call ∧
      sent.request = entry.request ∧ Unpacked sent unpacked ∧
      (ServeDir.handle lz4 sd unpacked).Traces (d.made m) (some (rc, response)) ∧
      ∀ i ev, d.events[i]? = some (m, ev) → d.began entry.call ≤ i ∧ i < entry.last
  moves : Moves step (d.events.map (·.2)) s₀ d.os

/-- **A request is handled at most once**, and exactly once when its call returns a response. This
holds for any number of client threads and workers, whatever the operating system answers, however
the network delays and loses messages, and in every interleaving of the calls of
`Rhizofs_communicate` with the system calls of the handlers. -/
theorem handled_once {sp : SocketPool}
    {config : Concurrent.Config Tid (Request × Bool) ZmqRet (Option Response × ℤ)
      (Deployment Tid S)}
    (h : Concurrent.Reachable (deployment lz4 sd step Tid sp) (Deployment.init s₀) config) :
    config.world.HandledOnce lz4 sd step s₀ := by
  have hv := h.verified (V := deploymentVerification lz4 sd step s₀ sp)
    ⟨inv_init, Deployment.accounts_init s₀⟩ fun t s hs => by cases hs
  obtain ⟨hinv, hacc⟩ := hv.inv
  refine ⟨?_, hinv.unique, hacc.after, ?_, hacc.moves⟩
  · intro m hmade
    obtain ⟨rest, hrest⟩ := Option.ne_none_iff_exists'.mp (mt hacc.made_eq_nil hmade)
    obtain ⟨sent, unpacked, hm, hunpacked, hleads⟩ := hacc.made m rest hrest
    exact ⟨sent, unpacked, rest, hm, hunpacked, hleads⟩
  · intro entry hentry response hresponse
    obtain ⟨m, sent, rc, hm, hcall, hreq, hended, hlast⟩ :=
      hacc.ended entry hentry response hresponse
    obtain ⟨sent', unpacked, hm', hunpacked, hleads⟩ := hacc.made m _ hended
    obtain rfl := Option.some.inj (hm.symm.trans hm')
    refine ⟨m, sent, unpacked, rc, hm, hcall, hreq, hunpacked, hleads.traces, fun i ev hev => ?_⟩
    exact ⟨hcall ▸ hacc.after m sent hm i ev hev, hlast i ev hev⟩

end Deployment

/-- An operating system that counts the files removed. -/
def countUnlinks : (c : SysCall) → ℕ → SysRet c → ℕ → Prop
  | .path (.unlink _), n, _, n' => n' = n + 1
  | _, n, _, n' => n' = n

/-- A thread goes on with a call that its network answers. -/
theorem advance_client [DecidableEq Tid] {lz4 : Lz4} {sd : ServeDir}
    {step : (c : SysCall) → S → SysRet c → S → Prop} {sp : SocketPool} {t : Tid} {c : ZmqCall}
    {k : ZmqRet c → Prog ZmqRet (Option Response × ℤ)} {p : Prog ZmqRet (Option Response × ℤ)}
    {d d' : Deployment Tid S} {net : World Tid} (r : ZmqRet c) (answer : Act t c d.net r net)
    (rest : Concurrent.Advance ((deployment lz4 sd step Tid sp).act t) (ServerStep lz4 sd step) p d'
      (k r) { d with net := net }) :
    Concurrent.Advance ((deployment lz4 sd step Tid sp).act t) (ServerStep lz4 sd step) p d'
      (.call c k) d :=
  .act r ⟨answer, rfl⟩ rest

/-- The first attempt to send succeeds. -/
theorem advance_client_send [DecidableEq Tid] {lz4 : Lz4} {sd : ServeDir}
    {step : (c : SysCall) → S → SysRet c → S → Prop} {sp : SocketPool} {t : Tid} {sock : Sock}
    {req : Request} {checkFuseInterrupts : Bool} {repetition : ℕ}
    {f : Except (Bool × ℤ) Unit → Prog ZmqRet (Option Response × ℤ)}
    {p : Prog ZmqRet (Option Response × ℤ)} {d d' : Deployment Tid S} {net : World Tid}
    (answer : Act t (.msgSend sock req) d.net (.ok ()) net)
    (rest : Concurrent.Advance ((deployment lz4 sd step Tid sp).act t) (ServerStep lz4 sd step) p d'
      (f (.ok ())) { d with net := net }) :
    Concurrent.Advance ((deployment lz4 sd step Tid sp).act t) (ServerStep lz4 sd step) p d'
      (sendLoop sock req checkFuseInterrupts repetition >>= f) d := by
  unfold sendLoop
  exact advance_client (.ok ()) answer rest

/-- One thread removes `/x`. The response to it tells of one run of the handler, with one removal. -/
theorem handled_once_unlink : ∃ config,
    Concurrent.Reachable (deployment .onRun ⟨[47, 115]⟩ countUnlinks ℕ ⟨[], none, none, none⟩)
      (Deployment.init 0) config ∧
    config.world.os = 1 ∧
    ∃ entry ∈ config.world.ended, entry.request = .onPath .unlink [47, 120] ∧
      ∃ response, entry.response = some response ∧
        config.world.HandledOnce .onRun ⟨[47, 115]⟩ countUnlinks 0 := by
  set sys := deployment .onRun ⟨[47, 115]⟩ countUnlinks ℕ ⟨[], none, none, none⟩
  have hadv : ∃ d', d'.os = 1 ∧ Concurrent.Advance (sys.act 0) sys.env
      (.ret (some { Response.initial with requesttype := .unlink }, 0)) d'
      (rhizofsCommunicate ⟨[], none, none, none⟩ (.onPath .unlink [47, 120]) none true)
      (sys.start 0 (.onPath .unlink [47, 120], true) (Deployment.init 0)) := by
    refine ⟨?d', ?os, advance_client none (.getspecific _) ?_⟩
    rotate_left
    rotate_left
    refine advance_client (some 0) (.socket rfl) ?_
    refine advance_client true (.connect _ 0 [] true) ?_
    refine advance_client true (.setspecific _ (some 0)) ?_
    refine advance_client (.ok ()) (.pack _ _ _) ?_
    refine advance_client_send (.msgSend (m := 0) _ rfl rfl rfl rfl) ?_
    refine advance_client true (.msgInit _ true) ?_
    refine .env (.receive (m := 0) rfl rfl (.inl rfl)) ?_
    refine .env (.call (m := 0) (c := .alloc .record) (r := true) rfl rfl) ?_
    refine .env (.call (m := 0) (c := .alloc .record) (r := true) rfl rfl) ?_
    refine .env (.call (m := 0) (c := .alloc _) (r := true) rfl rfl) ?_
    refine .env (.call (m := 0) (c := .path (.unlink _)) (r := .ok ()) rfl rfl) ?_
    refine .env (.reply (m := 0) rfl rfl rfl (.inl rfl)) ?_
    refine .env (.arrive (m := 0) rfl (Option.some_ne_none _)) ?_
    refine advance_client (true, 0) (.poll _ 0 true 0) ?_
    refine advance_client (.ok (some _)) (.msgRecv (m := 0) rfl rfl rfl rfl rfl rfl rfl rfl) ?_
    exact .done
    rfl
  obtain ⟨d', hos, hadv⟩ := hadv
  have hinit : Concurrent.Reachable sys (Deployment.init 0) ⟨Deployment.init 0, fun _ => none⟩ :=
    .init
  have hreach := hinit.runs (t := 0) (.onPath .unlink [47, 120], true) rfl hadv
  exact ⟨_, hreach, hos, _, List.mem_cons_self .., rfl, _, rfl, handled_once hreach⟩

end Network

end Rhizofs
