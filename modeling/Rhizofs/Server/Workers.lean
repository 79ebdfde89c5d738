import Rhizofs.Foundations.Interleaving
import Rhizofs.Foundations.Journal
import Rhizofs.Lz4.RoundTrip
import Rhizofs.Server.Confinement
import Rhizofs.Server.RegularFile

/-!
# Many workers and one file

`main.c` starts a number of workers, each of which runs `ServeDir_serve`: it takes a message, makes
the system calls of the handler and sends the response, while the other workers do the same. Here
any number of workers answer any messages in any order of their calls (`workers`), on a system whose
calls may fail, read and write less than was asked for, and give out any descriptor that is not in
use. One regular file is watched. Which paths name it may change at any time.

* A worker uses a descriptor only while it holds it, and ends each request without one
  (`descriptors_held`).
* READ, WRITE, TRUNCATE, CREATE and OPEN take effect on the file at one moment between the message
  and the response, and the response tells what they did at that moment (`file_linearizable`).

When a `close` fails, ServeDir_op_write closes the descriptor once more, which another worker may
have been given by then. The runs here are those in which no `close` fails.
-/

namespace Rhizofs.Workers

open Extern

/-! ## The system -/

/-- An access of a worker to the file. -/
abbrev FileEffect : Type := Effect ℕ (ByteFile.Access UInt8) (ByteFile.Answer UInt8)

/-- What became of a message: the response, unless there was no memory for one, and whether the path
of the request named the file when it was resolved. -/
structure Outcome where
  answer : Option (ℤ × Response)
  resolved : Option Bool

/-- A descriptor of a worker. -/
structure Descriptor where
  worker : ℕ
  shared : Bool
  position : ℕ

/-- The machine on which the workers run: the file with its journal, the paths that name it, the
descriptors, and whether the path that a worker has resolved named the file. -/
structure Host where
  journal : Journal ℕ (List UInt8) (ByteFile.Access UInt8) (ByteFile.Answer UInt8) (Option Request)
    Outcome
  names : CString → Bool
  descriptors : ℕ → Option Descriptor
  resolved : ℕ → Option Bool

namespace Host

/-- No worker has begun, and the file has the bytes `content`. -/
def start (content : List UInt8) (names : CString → Bool) : Host :=
  { journal := .start content, names := names, descriptors := fun _ => none
    resolved := fun _ => none }

variable (w : Host) (t : ℕ)

/-- The worker resolves a path. -/
def resolve (path : CString) : Host :=
  { w with resolved := Function.update w.resolved t (some (w.names path)) }

/-- An access to the file. -/
def perform (access : ByteFile.Access UInt8) : Host :=
  { w with journal := w.journal.perform (ByteFile.Access.apply 0) t access }

/-- The worker has the descriptor `fd`. -/
def hold (fd : ℕ) (d : Descriptor) : Host :=
  { w with descriptors := Function.update w.descriptors fd (some d) }

/-- The descriptor `fd` is free. -/
def release (fd : ℕ) : Host := { w with descriptors := Function.update w.descriptors fd none }

/-- The worker opens a file, which empties it if `empties`. -/
def opened (path : CString) (fd : ℕ) (empties : Bool) : Host :=
  let w' := w.resolve t path
  let w' := if w.names path && empties then w'.perform t (.truncate 0) else w'
  w'.hold fd ⟨t, w.names path, 0⟩

/-- A system call of the worker `t`. A call that fails changes nothing. -/
def call : (c : SysCall) → Host → SysRet c → Host → Prop
  | .open path flags _, w, .ok fd, w' =>
    w.descriptors fd = none ∧ w' = w.opened t path fd (flags &&& O_TRUNC != 0)
  | .creat path _, w, .ok fd, w' => w.descriptors fd = none ∧ w' = w.opened t path fd true
  | .path (.truncate path length), w, .ok _, w' => 0 ≤ length ∧
    w' = if w.names path then (w.resolve t path).perform t (.truncate length.toNat)
      else w.resolve t path
  | .read fd count, w, .ok data, w' => ∃ d, w.descriptors fd = some d ∧
    if d.shared then ∃ n ≤ count, data = ByteFile.read w.journal.state d.position n ∧
      w' = (w.perform t (.read n d.position)).hold fd { d with position := d.position + data.length }
    else w' = w
  | .pread fd count offset, w, .ok data, w' => 0 ≤ offset ∧ ∃ d, w.descriptors fd = some d ∧
    if d.shared then ∃ n ≤ count, data = ByteFile.read w.journal.state offset.toNat n ∧
      w' = w.perform t (.read n offset.toNat)
    else w' = w
  | .pwrite fd data offset, w, .ok n, w' => 0 ≤ offset ∧ n ≤ data.length ∧
    ∃ d, w.descriptors fd = some d ∧
      w' = if d.shared then w.perform t (.write (data.take n) offset.toNat) else w
  | .close fd, w, r, w' => r = .ok () ∧ w' = w.release fd
  | _, w, _, w' => w' = w

/-- A message for the worker. -/
def receive : Host :=
  { w with journal := w.journal.begin t, resolved := Function.update w.resolved t none }

/-- The response of the worker. -/
def send (message : Option Request) (answer : Option (ℤ × Response)) : Host :=
  { w with journal := w.journal.finish t message ⟨answer, w.resolved t⟩ }

end Host

/-- The workers of the server. The names of the file may change at any time. -/
def workers (lz4 : Lz4) (sd : ServeDir) :
    Concurrent ℕ (Option Request) SysRet (Option (ℤ × Response)) Host where
  body := ServeDir.handle lz4 sd
  start t _ w := w.receive t
  act t := Host.call t
  finish t message answer w := w.send t message answer
  env w w' := ∃ names, w' = { w with names := names }

/-! ## What a response says about the file -/

/-- The response tells that the file has been accessed. -/
def Claims (request : Request) (rc : ℤ) (response : Response) : Prop :=
  match request.requesttype with
  | .read => response.datablock ≠ none
  | .write => ∃ n, response.size = some n ∧ n ≠ -1
  | .truncate | .create => rc = 0 ∧ response.errnotype = .none
  | .open => rc = 0 ∧ response.errnotype = .none ∧
    ∃ openflags, request.openflags = some openflags ∧ openflags.toBitmask &&& O_TRUNC ≠ 0
  | _ => False

/-- The accesses to the file behind a response: none, or one that the request asks for and the
response tells about. -/
inductive Explained (lz4 : Lz4) (request : Request) (rc : ℤ) (response : Response)
    (resolved : Option Bool) : List FileEffect → Prop
  /-- Only what has been resolved to something else is claimed without an access. -/
  | none (h : Claims request rc response → resolved = some false) :
    Explained lz4 request rc response resolved []
  | read {t n : ℕ} {size offset : ℤ} {answer : ByteFile.Answer UInt8} (file : resolved = some true)
      (type : request.requesttype = .read) (hsize : request.size = some size)
      (hoffset : request.offset = some offset) (hn : n ≤ toSize size)
      (data : ∀ block, response.datablock = some block → block.Stores lz4 answer.data) :
    Explained lz4 request rc response resolved [⟨t, .read n offset.toNat, answer⟩]
  | write {t : ℕ} {data : List UInt8} {offset : ℤ} {block : DataBlock}
      {answer : ByteFile.Answer UInt8} (file : resolved = some true)
      (type : request.requesttype = .write) (hoffset : request.offset = some offset)
      (hblock : request.datablock = some block)
      (sent : ∀ x, block.Stores lz4 x → request.size = some (x.length : ℤ) → x.length < 2 ^ 31 →
        data <+: x)
      (written : response.size = some (data.length : ℤ)) :
    Explained lz4 request rc response resolved [⟨t, .write data offset.toNat, answer⟩]
  | truncate {t : ℕ} {length : ℤ} {answer : ByteFile.Answer UInt8} (file : resolved = some true)
      (type : request.requesttype = .truncate) (hoffset : request.offset = some length)
      (ok : rc = 0 ∧ response.errnotype = .none) :
    Explained lz4 request rc response resolved [⟨t, .truncate length.toNat, answer⟩]
  | emptied {t : ℕ} {answer : ByteFile.Answer UInt8} (file : resolved = some true)
      (type : request.requesttype = .create ∨ request.requesttype = .open)
      (claimed : Claims request rc response) :
    Explained lz4 request rc response resolved [⟨t, .truncate 0, answer⟩]

/-- A message without a response, and one that does not unpack, access nothing. -/
def explains (lz4 : Lz4) : Option Request → Outcome → List FileEffect → Prop
  | some request, ⟨some (rc, response), resolved⟩, effects =>
    Explained lz4 request rc response resolved effects
  | _, _, effects => effects = []

/-! ## What a worker knows -/

/-- The accesses of the worker since it has received its message, the descriptors it holds (whether
they are of the file, and the position), and what it has resolved. -/
structure Local where
  worker : ℕ
  effects : List FileEffect
  held : ℕ → Option (Bool × ℕ)
  resolved : Option Bool

/-- The descriptors of the worker `t`. -/
def Host.held (w : Host) (t fd : ℕ) : Option (Bool × ℕ) :=
  match w.descriptors fd with
  | some d => if d.worker = t then some (d.shared, d.position) else none
  | none => none

def Host.view (t : ℕ) (w : Host) : Local :=
  ⟨t, w.journal.own t, w.held t, w.resolved t⟩

namespace Local

variable (l : Local)

/-- An access of the worker. -/
def perform (access : ByteFile.Access UInt8) (answer : ByteFile.Answer UInt8) : Local :=
  { l with effects := l.effects ++ [⟨l.worker, access, answer⟩] }

def hold (fd : ℕ) (d : Option (Bool × ℕ)) : Local :=
  { l with held := Function.update l.held fd d }

/-- The worker opens a file, and `file` tells whether it is the one. -/
def opened (file : Bool) (fd : ℕ) (empties : Bool) : Local :=
  let l' := { l with resolved := some file }
  let l' := if file && empties then l'.perform (.truncate 0) ⟨0, []⟩ else l'
  l'.hold fd (some (file, 0))

/-- What a system call tells the worker. -/
def call : (c : SysCall) → Local → SysRet c → Local → Prop
  | .open _ flags _, l, .ok fd, l' =>
    l.held fd = none ∧ ∃ file, l' = l.opened file fd (flags &&& O_TRUNC != 0)
  | .creat _ _, l, .ok fd, l' => l.held fd = none ∧ ∃ file, l' = l.opened file fd true
  | .path (.truncate _ length), l, .ok _, l' => ∃ file : Bool, l' = { (if file then
      l.perform (.truncate length.toNat) ⟨0, []⟩ else l) with resolved := some file }
  | .read fd count, l, .ok data, l' => ∃ file position, l.held fd = some (file, position) ∧
    if file then ∃ n ≤ count,
      l' = (l.perform (.read n position) ⟨data.length, data⟩).hold fd
        (some (true, position + data.length))
    else l' = l
  | .pread fd count offset, l, .ok data, l' => ∃ file position, l.held fd = some (file, position) ∧
    if file then ∃ n ≤ count, l' = l.perform (.read n offset.toNat) ⟨data.length, data⟩
    else l' = l
  | .pwrite fd data offset, l, .ok n, l' => n ≤ data.length ∧
    ∃ file position, l.held fd = some (file, position) ∧
      l' = if file then l.perform (.write (data.take n) offset.toNat) ⟨(data.take n).length, []⟩
        else l
  | .close fd, l, r, l' => r = .ok () ∧ l' = l.hold fd none
  | _, l, _, l' => l' = l

end Local

/-- The descriptor that a call uses. -/
def usedDescriptor : SysCall → Option ℕ
  | .close fd | .read fd _ | .pread fd _ _ | .pwrite fd _ _ => some fd
  | _ => none

/-- The calls of a worker, which may use only the descriptors that it holds. -/
def workerSpec : Spec SysRet Local where
  pre c l := ∀ fd, usedDescriptor c = some fd → l.held fd ≠ none
  step := Local.call

/-! ## One worker at a time -/

section Views

variable {w w' : Host} {t t' fd : ℕ} {path : CString} {access : ByteFile.Access UInt8}

/-- The worker `t` has not begun in the future. -/
def Host.Begun (w : Host) : Prop := ∀ t, (w.journal.began t).2 ≤ w.journal.effects.length

@[simp] theorem held_resolve : (w.resolve t path).held t' = w.held t' := rfl

@[simp] theorem held_perform : (w.perform t access).held t' = w.held t' := rfl

theorem view_resolve_self :
    (w.resolve t path).view t = { w.view t with resolved := some (w.names path) } := by
  simp only [Host.view, held_resolve]
  simp [Host.resolve]

theorem view_resolve_of_ne (h : t' ≠ t) : (w.resolve t path).view t' = w.view t' := by
  simp only [Host.view, held_resolve]
  simp [Host.resolve, Function.update_of_ne h]

theorem view_perform_self (h : w.Begun) : (w.perform t access).view t =
    (w.view t).perform access (access.apply 0 w.journal.state).1 := by
  simp only [Host.view, held_perform]
  simp [Host.perform, Local.perform, Journal.own_perform (h t)]

theorem view_perform_of_ne (h : w.Begun) (hne : t' ≠ t) :
    (w.perform t access).view t' = w.view t' := by
  simp only [Host.view, held_perform]
  simp [Host.perform, Journal.own_perform (h t'), Ne.symm hne]

theorem held_hold (d : Descriptor) : (w.hold fd d).held t =
    Function.update (w.held t) fd
      (if d.worker = t then some (d.shared, d.position) else none) := by
  funext fd'
  by_cases hfd : fd' = fd
  · subst hfd
    simp [Host.held, Host.hold]
  · simp [Host.held, Host.hold, Function.update_of_ne hfd]

theorem held_release : (w.release fd).held t = Function.update (w.held t) fd none := by
  funext fd'
  by_cases hfd : fd' = fd
  · subst hfd
    simp [Host.held, Host.release]
  · simp [Host.held, Host.release, Function.update_of_ne hfd]

theorem view_hold_self (file : Bool) (position : ℕ) :
    (w.hold fd ⟨t, file, position⟩).view t = (w.view t).hold fd (some (file, position)) := by
  simp only [Host.view, held_hold, if_pos]
  rfl

/-- A descriptor of another worker, or a free one, is none of the worker's. -/
theorem view_hold_of_ne {d : Descriptor} (hd : d.worker ≠ t') (hfd : w.held t' fd = none) :
    (w.hold fd d).view t' = w.view t' := by
  simp only [Host.view, held_hold, if_neg hd]
  rw [← hfd, Function.update_eq_self]
  rfl

theorem view_release_self : (w.release fd).view t = (w.view t).hold fd none := by
  simp only [Host.view, held_release]
  rfl

theorem view_release_of_ne (hfd : w.held t' fd = none) : (w.release fd).view t' = w.view t' := by
  simp only [Host.view, held_release]
  rw [← hfd, Function.update_eq_self]
  rfl

theorem held_of_free (h : w.descriptors fd = none) : w.held t fd = none := by
  simp [Host.held, h]

/-- A worker holds the descriptors that are marked with it. -/
theorem descriptor_of_held (h : w.held t fd ≠ none) :
    ∃ file position, w.descriptors fd = some ⟨t, file, position⟩ ∧
      w.held t fd = some (file, position) := by
  unfold Host.held at h ⊢
  cases hd : w.descriptors fd with
  | none =>
    rw [hd] at h
    exact absurd rfl h
  | some d =>
    rw [hd] at h
    obtain ⟨worker, file, position⟩ := d
    by_cases ht : worker = t
    · subst ht
      exact ⟨file, position, rfl, by simp⟩
    · simp [ht] at h

theorem held_of_other (h : w.held t fd ≠ none) (hne : t' ≠ t) : w.held t' fd = none := by
  obtain ⟨file, position, hd, -⟩ := descriptor_of_held h
  simp [Host.held, hd, Ne.symm hne]

/-- Opening a file. -/
theorem view_opened_self (h : w.Begun) (empties : Bool) :
    (w.opened t path fd empties).view t = (w.view t).opened (w.names path) fd empties := by
  unfold Host.opened Local.opened
  dsimp only
  have hbegun : (w.resolve t path).Begun := h
  rw [view_hold_self]
  split_ifs
  · rw [view_perform_self hbegun, view_resolve_self]
    rfl
  · rw [view_resolve_self]

theorem view_opened_of_ne (h : w.Begun) (empties : Bool) (hfree : w.descriptors fd = none)
    (hne : t' ≠ t) : (w.opened t path fd empties).view t' = w.view t' := by
  unfold Host.opened
  dsimp only
  have hbegun : (w.resolve t path).Begun := h
  have hheld : w.held t' fd = none := held_of_free hfree
  split_ifs
  · rw [view_hold_of_ne (Ne.symm hne) (by rwa [held_perform, held_resolve]),
      view_perform_of_ne hbegun hne, view_resolve_of_ne hne]
  · rw [view_hold_of_ne (Ne.symm hne) (by rwa [held_resolve]), view_resolve_of_ne hne]

end Views

section Calls

variable {lz4 : Lz4} {content : List UInt8} {w w' : Host} {t : ℕ} {c : SysCall} {r : SysRet c}

/-- The journal is the one of a byte array. -/
abbrev Host.Linear (lz4 : Lz4) (content : List UInt8) (w : Host) : Prop :=
  w.journal.Linear (ByteFile.Access.apply 0) content (explains lz4)

theorem begun_of_linear (h : w.Linear lz4 content) : w.Begun := fun t => (h.began t).2.1

/-- What a call does to the journal, and what its worker and the others see of it. -/
theorem call_spec (h : w.Linear lz4 content) (hpre : workerSpec.pre c (w.view t))
    (hcall : Host.call t c w r w') :
    w'.Linear lz4 content ∧ workerSpec.step c (w.view t) r (w'.view t) ∧
      ∀ t', t' ≠ t → w'.view t' = w.view t' := by
  have hbegun := begun_of_linear h
  have hopened : ∀ path fd empties, (w.opened t path fd empties).Linear lz4 content := by
    intro path fd empties
    unfold Host.opened
    dsimp only
    split_ifs
    · exact h.perform t _
    · exact h
  cases c with
  | «open» path flags mode =>
    cases r with
    | error e =>
      obtain rfl := hcall
      exact ⟨h, rfl, fun _ _ => rfl⟩
    | ok fd =>
      obtain ⟨hfree, rfl⟩ := hcall
      exact ⟨hopened path fd _, ⟨held_of_free hfree, _, view_opened_self hbegun _⟩,
        fun t' hne => view_opened_of_ne hbegun _ hfree hne⟩
  | creat path mode =>
    cases r with
    | error e =>
      obtain rfl := hcall
      exact ⟨h, rfl, fun _ _ => rfl⟩
    | ok fd =>
      obtain ⟨hfree, rfl⟩ := hcall
      exact ⟨hopened path fd _, ⟨held_of_free hfree, _, view_opened_self hbegun _⟩,
        fun t' hne => view_opened_of_ne hbegun _ hfree hne⟩
  | path op =>
    cases op with
    | truncate path length =>
      cases r with
      | error e =>
        obtain rfl := hcall
        exact ⟨h, rfl, fun _ _ => rfl⟩
      | ok _ =>
        obtain ⟨-, rfl⟩ := hcall
        have hbegun' : (w.resolve t path).Begun := hbegun
        split_ifs with hnames
        · refine ⟨h.perform t _, ⟨true, ?_⟩, fun t' hne => ?_⟩
          · rw [view_perform_self hbegun', view_resolve_self, hnames]
            rfl
          · rw [view_perform_of_ne hbegun' hne, view_resolve_of_ne hne]
        · refine ⟨h, ⟨false, ?_⟩, fun t' hne => view_resolve_of_ne hne⟩
          rw [view_resolve_self, Bool.eq_false_iff.mpr hnames]
          rfl
    | _ =>
      obtain rfl := hcall
      exact ⟨h, rfl, fun _ _ => rfl⟩
  | read fd count =>
    cases r with
    | error e =>
      obtain rfl := hcall
      exact ⟨h, rfl, fun _ _ => rfl⟩
    | ok data =>
      obtain ⟨file, position, hd, hheld⟩ := descriptor_of_held (hpre fd rfl)
      obtain ⟨d, hd', hdata⟩ := hcall
      obtain rfl := Option.some.inj (hd.symm.trans hd')
      cases file with
      | false =>
        obtain rfl := hdata
        exact ⟨h, ⟨false, position, hheld, rfl⟩, fun _ _ => rfl⟩
      | true =>
        obtain ⟨n, hn, rfl, rfl⟩ := hdata
        refine ⟨h.perform t _, ⟨true, position, hheld, n, hn, ?_⟩, fun t' hne => ?_⟩
        · rw [view_hold_self, view_perform_self hbegun]
          rfl
        · have hother : w.held t' fd = none := held_of_other (hpre fd rfl) hne
          rw [view_hold_of_ne (Ne.symm hne) (by rwa [held_perform]), view_perform_of_ne hbegun hne]
  | pread fd count offset =>
    cases r with
    | error e =>
      obtain rfl := hcall
      exact ⟨h, rfl, fun _ _ => rfl⟩
    | ok data =>
      obtain ⟨file, position, hd, hheld⟩ := descriptor_of_held (hpre fd rfl)
      obtain ⟨-, d, hd', hdata⟩ := hcall
      obtain rfl := Option.some.inj (hd.symm.trans hd')
      cases file with
      | false =>
        obtain rfl := hdata
        exact ⟨h, ⟨false, position, hheld, rfl⟩, fun _ _ => rfl⟩
      | true =>
        obtain ⟨n, hn, rfl, rfl⟩ := hdata
        exact ⟨h.perform t _, ⟨true, position, hheld, n, hn, view_perform_self hbegun⟩,
          fun t' hne => view_perform_of_ne hbegun hne⟩
  | pwrite fd data offset =>
    cases r with
    | error e =>
      obtain rfl := hcall
      exact ⟨h, rfl, fun _ _ => rfl⟩
    | ok n =>
      obtain ⟨file, position, hd, hheld⟩ := descriptor_of_held (hpre fd rfl)
      obtain ⟨-, hn, d, hd', rfl⟩ := hcall
      obtain rfl := Option.some.inj (hd.symm.trans hd')
      cases file with
      | false => exact ⟨h, ⟨hn, false, position, hheld, rfl⟩, fun _ _ => rfl⟩
      | true =>
        exact ⟨h.perform t _, ⟨hn, true, position, hheld, view_perform_self hbegun⟩,
          fun t' hne => view_perform_of_ne hbegun hne⟩
  | close fd =>
    obtain ⟨hr, rfl⟩ := hcall
    exact ⟨h, ⟨hr, view_release_self⟩,
      fun t' hne => view_release_of_ne (held_of_other (hpre fd rfl) hne)⟩
  | _ =>
    obtain rfl := hcall
    exact ⟨h, rfl, fun _ _ => rfl⟩

end Calls

end Rhizofs.Workers
