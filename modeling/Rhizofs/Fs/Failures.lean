import Rhizofs.Fs.CommunicateErrors
import Rhizofs.Fs.Payload
import Rhizofs.Server.Confinement

/-!
# How a failed system call reaches the caller

A handler stores the `errno` of its principal system call in the response (`handle_reflects`),
`Rhizofs_communicate` reads it from there into `returned_err` (`communicate_response`), and the
client operation returns the negation (`RemoteOp.run_failed`). So `failure_arrives`.
-/

namespace Rhizofs

open Extern

/-! ## The server -/

/-- The failure of the principal system call of a handler. -/
def principalFailure : RequestType → Event SysRet → Option Failure
  | .readdir, ⟨.opendir _, .error e⟩ => some e
  | .rmdir, ⟨.path (.rmdir _), .error e⟩ => some e
  | .unlink, ⟨.path (.unlink _), .error e⟩ => some e
  | .access, ⟨.path (.access _ _), .error e⟩ => some e
  | .rename, ⟨.path (.rename _ _), .error e⟩ => some e
  | .link, ⟨.path (.link _ _), .error e⟩ => some e
  | .symlink, ⟨.path (.symlink _ _), .error e⟩ => some e
  | .readlink, ⟨.readlink _ _, .error e⟩ => some e
  | .mkdir, ⟨.path (.mkdir _ _), .error e⟩ => some e
  | .getattr, ⟨.lstat _, .error e⟩ => some e
  | .open, ⟨.open _ _ _, .error e⟩ => some e
  | .read, ⟨.open _ _ _, .error e⟩ => some e
  | .read, ⟨.read _ _, .error e⟩ => some e
  | .read, ⟨.pread _ _ _, .error e⟩ => some e
  | .write, ⟨.open _ _ _, .error e⟩ => some e
  | .write, ⟨.pwrite _ _ _, .error e⟩ => some e
  | .create, ⟨.creat _ _, .error e⟩ => some e
  | .truncate, ⟨.path (.truncate _ _), .error e⟩ => some e
  | .chmod, ⟨.path (.chmod _ _), .error e⟩ => some e
  | .utimens, ⟨.path (.utimes _ _ _), .error e⟩ => some e
  | .mknod, ⟨.path (.mknod _ _), .error e⟩ => some e
  | .statfs, ⟨.statvfs _, .error e⟩ => some e
  | _, _ => none

/-- The server, noting the failures of the principal call. -/
abbrev failureSpec (type : RequestType) : Spec SysRet (List Failure) :=
  Prog.observing (fun _ _ => True) (principalFailure type)

/-- The response has the error number of every failure noted. -/
def Reflects (out : ℤ × Response) (failures : List Failure) : Prop :=
  ∀ e ∈ failures, out.2.errnotype = .fromLocal e.errno

/-- A call that is not the principal one. -/
def Aside (type : RequestType) (c : SysCall) : Prop := ∀ r, principalFailure type ⟨c, r⟩ = none

section Server

variable {α : Type} {type : RequestType} {lz4 : Lz4} {sd : ServeDir} {request : Request}
  {response : Response} {failures : List Failure}

theorem reflects_nil (out : ℤ × Response) : Reflects out [] := by
  intro e he
  cases he

theorem reflects_failed (rc : ℤ) {e : Failure} (h : response.errnotype = .fromLocal e.errno) :
    Reflects (rc, response) [e] := by
  intro e' he'
  rw [List.mem_singleton.mp he', ← h]

/-- Calls that are not principal note nothing. -/
theorem wp_aside {p : Prog SysRet α} {Q : α → List Failure → Prop} (hp : p.Calls (Aside type))
    (hQ : ∀ a, Q a failures) : p.wp (failureSpec type) Q failures :=
  hp.wp_observing (fun _ hc => hc) hQ

theorem wp_aside_bind {β : Type} {p : Prog SysRet β} {f : β → Prog SysRet α}
    {Q : α → List Failure → Prop} (hp : p.Calls (Aside type))
    (hf : ∀ b, (f b).wp (failureSpec type) Q failures) :
    (p >>= f).wp (failureSpec type) Q failures :=
  hp.wp_observing_bind (fun _ hc => hc) hf

theorem mem_aside (p : Prog MemRet α) : (mem p).Calls (Aside type) := by
  induction p with
  | ret a => trivial
  | call c k ih => exact ⟨fun r => by cases type <;> rfl, ih⟩

theorem fullpath_aside : (sd.fullpath request).Calls (Aside type) := by
  unfold ServeDir.fullpath
  split
  · trivial
  · exact mem_aside _

/-- The calls that operate on no path, where none of them is principal. -/
theorem aside_of_objects {c : SysCall} (htype : type ≠ .read ∧ type ≠ .write)
    (hc : c.objects = []) : Aside type c := by
  intro r
  cases c with
  | path op => cases op <;> cases hc
  | opendir path | lstat path | readlink path bufsize | statvfs path | «open» path flags mode
  | creat path mode => cases hc
  | _ =>
    cases type with
    | read => exact absurd rfl htype.1
    | write => exact absurd rfl htype.2
    | _ => rfl

/-- The handlers that make one call on a path. -/
theorem wp_onPath {op : CString → PathOp}
    (hop : ∀ path e, principalFailure type ⟨.path (op path), .error e⟩ = some e)
    (hok : ∀ path, principalFailure type ⟨.path (op path), .ok ()⟩ = none) :
    (sd.onPath request response op).wp (failureSpec type) Reflects [] := by
  refine wp_aside_bind fullpath_aside fun path => ?_
  cases path with
  | none => exact reflects_nil _
  | some path =>
    refine Prog.wp_observing_bind fun r _ => ?_
    cases r with
    | error e =>
      rw [hop path e]
      exact reflects_failed 0 rfl
    | ok u =>
      rw [hok path]
      exact reflects_nil _

/-- RENAME and LINK. -/
theorem wp_onTwoPaths {op : CString → CString → PathOp}
    (hop : ∀ path path' e, principalFailure type ⟨.path (op path path'), .error e⟩ = some e)
    (hok : ∀ path path', principalFailure type ⟨.path (op path path'), .ok ()⟩ = none) :
    (sd.onTwoPaths request response op).wp (failureSpec type) Reflects [] := by
  unfold ServeDir.onTwoPaths
  cases request.pathTo with
  | none => exact reflects_nil _
  | some pathTo =>
    refine wp_aside_bind (mem_aside _) fun path => ?_
    cases path with
    | none => exact reflects_nil _
    | some path => exact wp_onPath (fun _ => hop _ _) fun _ => hok _ _

theorem attrs_create_aside (htype : type ≠ .read ∧ type ≠ .write) (sb : Stat)
    (name : Option CString) : (Attrs.create sb name).Calls (Aside type) :=
  (attrs_create_calls sb name).mono fun _ hc => aside_of_objects htype hc

theorem fillEntries_aside (dirpath : CString) (names : List CString) (response : Response) :
    (ServeDir.fillEntries dirpath names response).Calls (Aside .readdir) := by
  induction names generalizing response with
  | nil => trivial
  | cons name names ih =>
    refine (mem_aside _).bind fun path => ?_
    cases path with
    | none => trivial
    | some path =>
      refine ⟨fun _ => rfl, fun r => ?_⟩
      cases r with
      | error e => exact ih _
      | ok sb =>
        refine (attrs_create_aside (by simp) _ _).bind fun attrs => ?_
        cases attrs with
        | none => trivial
        | some attrs => exact ih _

/-- A directory that could be opened is listed without a further `opendir`. -/
theorem wp_opReaddir :
    (ServeDir.opReaddir sd request response).wp (failureSpec .readdir) Reflects [] := by
  refine wp_aside_bind fullpath_aside fun path => ?_
  cases path with
  | none => exact reflects_nil _
  | some dirpath =>
    refine Prog.wp_observing_bind fun r _ => ?_
    cases r with
    | error e => exact reflects_failed 0 rfl
    | ok u =>
      refine wp_aside ⟨fun _ => rfl, fun counted => ⟨fun _ => rfl, fun ok => ?_⟩⟩ reflects_nil
      cases ok with
      | false => exact ⟨fun _ => rfl, fun _ => trivial⟩
      | true =>
        refine ⟨fun _ => rfl, fun _ => ⟨fun _ => rfl, fun names => ?_⟩⟩
        refine (fillEntries_aside _ _ _).bind fun filled => ?_
        exact ⟨fun _ => rfl, fun _ => trivial⟩

theorem wp_opReadlink :
    (ServeDir.opReadlink sd request response).wp (failureSpec .readlink) Reflects [] := by
  refine wp_aside_bind fullpath_aside fun path => ?_
  cases path with
  | none => exact reflects_nil _
  | some path =>
    refine Prog.wp_observing_bind fun r _ => ?_
    cases r with
    | error e => exact reflects_failed 0 rfl
    | ok linkTarget =>
      refine Prog.wp_observing_bind fun ok _ => ?_
      cases ok <;> exact reflects_nil _

theorem wp_opGetattr :
    (ServeDir.opGetattr sd request response).wp (failureSpec .getattr) Reflects [] := by
  refine wp_aside_bind fullpath_aside fun path => ?_
  cases path with
  | none => exact reflects_nil _
  | some path =>
    refine Prog.wp_observing_bind fun r _ => ?_
    cases r with
    | error e => exact reflects_failed 0 rfl
    | ok sb =>
      refine wp_aside_bind (attrs_create_aside ?_ _ _) fun attrs => ?_
      · simp
      · cases attrs <;> exact reflects_nil _

theorem wp_opStatfs :
    (ServeDir.opStatfs sd request response).wp (failureSpec .statfs) Reflects [] := by
  refine wp_aside_bind fullpath_aside fun path => ?_
  cases path with
  | none => exact reflects_nil _
  | some path =>
    refine Prog.wp_observing_bind fun r _ => ?_
    cases r with
    | error e => exact reflects_failed 0 rfl
    | ok stfs =>
      refine wp_aside_bind (mem_aside _) fun statfs => ?_
      cases statfs <;> exact reflects_nil _

theorem wp_opOpen :
    (ServeDir.opOpen sd request response).wp (failureSpec .open) Reflects [] := by
  unfold ServeDir.opOpen
  cases request.openflags with
  | none => exact reflects_nil _
  | some openflags =>
    refine wp_aside_bind fullpath_aside fun path => ?_
    cases path with
    | none => exact reflects_nil _
    | some path =>
      refine Prog.wp_observing_bind fun r _ => ?_
      cases r with
      | error e => exact reflects_failed (-1) rfl
      | ok fd => exact Prog.wp_observing_bind fun closed _ => reflects_nil _

theorem wp_opCreate :
    (ServeDir.opCreate sd request response).wp (failureSpec .create) Reflects [] := by
  unfold ServeDir.opCreate
  cases request.permissions with
  | none => exact reflects_nil _
  | some permissions =>
    refine wp_aside_bind fullpath_aside fun path => ?_
    cases path with
    | none => exact reflects_nil _
    | some path =>
      refine Prog.wp_observing_bind fun r _ => ?_
      cases r with
      | error e => exact reflects_failed (-1) rfl
      | ok fd => exact Prog.wp_observing_bind fun closed _ => reflects_nil _

/-- What READ does with an answer to `read` or `pread`. -/
theorem wp_readAt {fd : ℕ} {size offset : ℤ}
    {f : Except Failure (List UInt8) → Prog SysRet (ℤ × Response)}
    (hf : ∀ r, (f r).wp (failureSpec .read) Reflects
      (match r with | .error e => [e] | .ok _ => [])) :
    (ServeDir.readAt fd size offset >>= f).wp (failureSpec .read) Reflects [] := by
  unfold ServeDir.readAt
  split
  all_goals
    refine Prog.wp_observing_bind fun r _ => ?_
    have hr := hf r
    cases r <;> exact hr

theorem wp_opRead :
    (ServeDir.opRead lz4 sd request response).wp (failureSpec .read) Reflects [] := by
  unfold ServeDir.opRead
  cases request.size with
  | none => exact reflects_nil _
  | some size =>
  cases request.offset with
  | none => exact reflects_nil _
  | some offset =>
    refine wp_aside_bind fullpath_aside fun path => ?_
    cases path with
    | none => exact reflects_nil _
    | some path =>
      refine Prog.wp_observing_bind fun r _ => ?_
      cases r with
      | error e => exact reflects_failed 0 rfl
      | ok fd =>
        refine Prog.wp_observing_bind fun ok _ => ?_
        cases ok with
        | false => exact Prog.wp_observing_bind fun closed _ => reflects_nil _
        | true =>
          refine wp_readAt fun r => ?_
          cases r with
          | error e => exact Prog.wp_observing_bind fun closed _ => reflects_failed 0 rfl
          | ok databuf =>
            refine wp_aside_bind (mem_aside _) fun stored => ?_
            exact Prog.wp_observing_bind fun closed _ => reflects_nil _

/-- WRITE closes the file and sets its times after `pwrite`, and keeps the response. -/
theorem wp_writeEnd {fd : ℕ} {path : CString} (hout : ∀ rc, Reflects (rc, response) failures) :
    (do match ← sys (.close fd) with
      | .error _ => do
        let _ ← sys (.close fd)
        return (-1, response)
      | .ok _ => do
        let now ← sys .gettimeofday
        let _ ← sys (.path (.utimes path now now))
        return (0, response) : ServeDir.Handler).wp (failureSpec .write) Reflects failures := by
  refine Prog.wp_unobserved_bind (fun _ => rfl) fun closed _ => ?_
  cases closed with
  | error e => exact Prog.wp_unobserved_bind (fun _ => rfl) fun _ _ => hout (-1)
  | ok u =>
    refine Prog.wp_unobserved_bind (fun _ => rfl) fun now _ => ?_
    exact Prog.wp_unobserved_bind (fun _ => rfl) fun _ _ => hout 0

theorem wp_opWrite :
    (ServeDir.opWrite lz4 sd request response).wp (failureSpec .write) Reflects [] := by
  unfold ServeDir.opWrite
  cases request.size with
  | none => exact reflects_nil _
  | some size =>
  cases request.offset with
  | none => exact reflects_nil _
  | some offset =>
    dsimp only
    split_ifs
    · exact reflects_nil _
    cases request.datablock with
    | none => exact reflects_nil _
    | some datablock =>
      refine wp_aside_bind fullpath_aside fun path => ?_
      cases path with
      | none => exact reflects_nil _
      | some path =>
        refine Prog.wp_observing_bind fun r _ => ?_
        cases r with
        | error e => exact reflects_failed 0 rfl
        | ok fd =>
          refine wp_aside_bind (mem_aside _) fun data => ?_
          cases data with
          | none => exact Prog.wp_observing_bind fun closed _ => reflects_nil _
          | some data =>
            refine Prog.wp_observing_bind fun bytesWritten _ => ?_
            cases bytesWritten with
            | error e => exact wp_writeEnd fun rc => reflects_failed rc rfl
            | ok n => exact wp_writeEnd fun rc => reflects_nil _

/-- MKNOD refuses anything but a regular file before any system call. -/
theorem wp_opMknod :
    (ServeDir.opMknod sd request response).wp (failureSpec .mknod) Reflects [] := by
  unfold ServeDir.opMknod
  cases request.permissions with
  | none => exact reflects_nil _
  | some permissions =>
  cases request.filetype with
  | none => exact reflects_nil _
  | some filetype =>
    dsimp only
    split_ifs
    · exact wp_onPath (fun _ _ => rfl) fun _ => rfl
    · exact reflects_nil _

/-- Every handler stores the failure of its principal call. -/
theorem wp_dispatch : (ServeDir.dispatch lz4 sd request response).wp
    (failureSpec request.requesttype) Reflects [] := by
  unfold ServeDir.dispatch
  cases request.requesttype with
  | readdir => exact wp_opReaddir
  | rmdir | unlink => exact wp_onPath (fun _ _ => rfl) fun _ => rfl
  | access | mkdir | chmod =>
    dsimp only [ServeDir.opAccess, ServeDir.opMkdir, ServeDir.opChmod]
    cases request.permissions with
    | none => exact reflects_nil _
    | some permissions => exact wp_onPath (fun _ _ => rfl) fun _ => rfl
  | truncate =>
    unfold ServeDir.opTruncate
    cases request.offset with
    | none => exact reflects_nil _
    | some offset => exact wp_onPath (fun _ _ => rfl) fun _ => rfl
  | utimens =>
    unfold ServeDir.opUtimens
    cases request.timestamps with
    | none => exact reflects_nil _
    | some timestamps => exact wp_onPath (fun _ _ => rfl) fun _ => rfl
  | symlink =>
    unfold ServeDir.opSymlink
    cases request.pathTo with
    | none => exact reflects_nil _
    | some pathTo => exact wp_onPath (fun _ _ => rfl) fun _ => rfl
  | rename | link => exact wp_onTwoPaths (fun _ _ _ => rfl) fun _ _ => rfl
  | getattr => exact wp_opGetattr
  | «open» => exact wp_opOpen
  | read => exact wp_opRead
  | write => exact wp_opWrite
  | create => exact wp_opCreate
  | readlink => exact wp_opReadlink
  | mknod => exact wp_opMknod
  | statfs => exact wp_opStatfs
  | ping | stat | unknown | invalid | other n => exact reflects_nil _

/-- In every round of the server the response has the error number of the failed principal call. -/
theorem handle_reflects {trs : Trace} {opRc : ℤ}
    (h : (ServeDir.handle lz4 sd (some request)).Traces trs (some (opRc, response)))
    {ev : Event SysRet} (hev : ev ∈ trs) {e : Failure}
    (hfail : principalFailure request.requesttype ev = some e) :
    response.errnotype = .fromLocal e.errno := by
  have hwp : (ServeDir.handle lz4 sd (some request)).wp (failureSpec request.requesttype)
      (fun out failures => ∀ rc response, out = some (rc, response) →
        Reflects (rc, response) failures) [] := by
    refine wp_aside_bind (mem_aside _) fun created => ?_
    cases created with
    | none =>
      intro rc response hout
      cases hout
    | some created =>
      refine Prog.wp_seq _ wp_dispatch ?_
      rintro out failures hout rc response heq
      cases heq
      exact hout
  have hout := Prog.wp_observing_traces hwp h fun _ _ => trivial
  exact hout opRc response rfl e (List.mem_filterMap.mpr ⟨ev, hev, hfail⟩)

end Server

/-! ## The client -/

/-- The client operations that have a handler, with their arguments. -/
inductive RemoteOp
  | readdir (path : CString)
  | getattr (path : CString) (stbuf : Stat)
  | rmdir (path : CString)
  | mkdir (path : CString) (mode : ℕ)
  | unlink (path : CString)
  | access (path : CString) (mask : ℕ)
  | «open» (path : CString) (flags : ℕ)
  | create (path : CString) (createMode : ℕ)
  | read (path : CString) (buf : List UInt8) (offset : ℤ)
  | write (path : CString) (buf : List UInt8) (offset : ℤ)
  | truncate (path : CString) (offset : ℤ)
  | chmod (path : CString) (accessMode : ℕ)
  | utimens (path : CString) (tv : Option (Timespec × Timespec))
  | link (pathFrom pathTo : CString)
  | rename (pathFrom pathTo : CString)
  | symlink (pathTo pathFrom : CString)
  | readlink (path : CString) (linkTarget : List UInt8)
  | mknod (path : CString) (mode : ℕ)
  | statfs (path : CString) (svfs : StatVfs)

namespace RemoteOp

/-- The return value of an operation that also fills a buffer. -/
def status {β : Type} (p : Prog ClientRet (ℤ × β)) : Prog ClientRet ℤ := do
  let (ret, _) ← p
  return ret

/-- The operation and its return value. -/
def run (lz4 : Lz4) : RemoteOp → Prog ClientRet ℤ
  | readdir path => rhizofsReaddir path
  | getattr path stbuf => status (rhizofsGetattr path stbuf)
  | rmdir path => rhizofsRmdir path
  | mkdir path mode => rhizofsMkdir path mode
  | unlink path => rhizofsUnlink path
  | access path mask => rhizofsAccess path mask
  | «open» path flags => rhizofsOpen path flags
  | create path createMode => rhizofsCreate path createMode
  | read path buf offset => status (rhizofsRead lz4 path buf offset)
  | write path buf offset => rhizofsWrite lz4 path buf offset
  | truncate path offset => rhizofsTruncate path offset
  | chmod path accessMode => rhizofsChmod path accessMode
  | utimens path tv => rhizofsUtimens path tv
  | link pathFrom pathTo => rhizofsLink pathFrom pathTo
  | rename pathFrom pathTo => rhizofsRename pathFrom pathTo
  | symlink pathTo pathFrom => rhizofsSymlink pathTo pathFrom
  | readlink path linkTarget => status (rhizofsReadlink path linkTarget)
  | mknod path mode => rhizofsMknod path mode
  | statfs path svfs => status (rhizofsStatfs path svfs)

/-- The type of the request that the operation sends. -/
def requesttype : RemoteOp → RequestType
  | readdir _ => .readdir
  | getattr _ _ => .getattr
  | rmdir _ => .rmdir
  | mkdir _ _ => .mkdir
  | unlink _ => .unlink
  | access _ _ => .access
  | «open» _ _ => .open
  | create _ _ => .create
  | read _ _ _ => .read
  | write _ _ _ => .write
  | truncate _ _ => .truncate
  | chmod _ _ => .chmod
  | utimens _ _ => .utimens
  | link _ _ => .link
  | rename _ _ => .rename
  | symlink _ _ => .symlink
  | readlink _ _ => .readlink
  | mknod _ _ => .mknod
  | statfs _ _ => .statfs

end RemoteOp

/-- The exchange with the server: the request, the response, if any, and `returned_err`. -/
def exchange : Event ClientRet → Option (Request × Option Response × ℤ)
  | ⟨.communicate request, answer⟩ => some (request, answer)
  | _ => none

theorem exchange_of_quiet {ev : Event ClientRet} (h : Quiet ev.1) : exchange ev = none := by
  obtain ⟨c, r⟩ := ev
  cases c with
  | communicate request => exact absurd rfl (h request)
  | _ => rfl

/-- A request is filled in without an exchange, and has the type `type`. -/
structure Fills (type : RequestType) (p : Prog ClientRet (Option Request)) : Prop where
  quiet : p.Calls Quiet
  typed : p.Returns fun filled => ∀ request, filled = some request → request.requesttype = type

section Client

variable {type : RequestType} {fill : Request → Prog ClientRet (Option Request)} {tr : ClientTrace}
  {request : Request} {response : Option Response} {err : ℤ}

theorem fills_none : Fills type (.ret none) := by
  refine ⟨trivial, ?_⟩
  intro request h
  cases h

theorem fills_some (htype : request.requesttype = type) : Fills type (.ret (some request)) := by
  refine ⟨trivial, ?_⟩
  intro request' h
  rwa [← Option.some.inj h]

theorem fills_bind {β : Type} {p : Prog ClientRet β} {f : β → Prog ClientRet (Option Request)}
    (hp : p.Calls Quiet) (hf : ∀ b, Fills type (f b)) : Fills type (p >>= f) :=
  ⟨hp.bind fun b => (hf b).quiet, .then p fun b => (hf b).typed⟩

theorem fills_permissions {mode : ℕ} {set : Permissions → Request}
    (hset : ∀ permissions, (set permissions).requesttype = type) :
    Fills type (fillPermissions mode set) := by
  refine fills_bind (clientMem_quiet _) fun permissions => ?_
  cases permissions with
  | none => exact fills_none
  | some permissions => exact fills_some (hset permissions)

/-- **An operation whose exchange brought an error** ends at the label `error` with it. -/
theorem traces_operation_failed {α : Type} {failed : ℤ → α} {use : Response → ℤ → Prog ClientRet α}
    {a : α} (hfill : ∀ request, Fills type (fill request))
    (h : (operation fill failed use).Traces tr a)
    (hex : tr.findSome? exchange = some (request, response, err)) :
    request.requesttype = type ∧ (err ≠ 0 → a = failed err) := by
  obtain ⟨ok, tr, rfl, h⟩ := h
  cases ok with
  | false =>
    obtain ⟨rfl, -⟩ := h
    cases hex
  | true =>
    obtain ⟨filled, trf, trc, rfl, hf, h₁⟩ := (Prog.traces_bind (fill _) _ _ _).mp h
    have htrf : trf.findSome? exchange = none :=
      List.findSome?_eq_none_iff.mpr fun ev hev =>
        exchange_of_quiet ((hfill _).quiet.of_traces hf ev hev)
    change (trf ++ trc).findSome? exchange = some (request, response, err) at hex
    rw [List.findSome?_append, htrf, Option.none_or] at hex
    cases filled with
    | none =>
      obtain ⟨rfl, -⟩ := h₁
      cases hex
    | some request' =>
      obtain ⟨r, trc, tru, rfl, hc, h₂⟩ := (Prog.traces_bind (opCommunicate request') _ _ _).mp h₁
      obtain ⟨response', err', rfl, rfl⟩ := traces_opCommunicate hc
      cases hex
      refine ⟨(hfill _).typed.of_traces hf request rfl, fun herr => ?_⟩
      rw [if_pos herr] at h₂
      exact h₂.2

theorem traces_status {β : Type} {p : Prog ClientRet (ℤ × β)} {ret : ℤ}
    (h : (RemoteOp.status p).Traces tr ret) : ∃ b, p.Traces tr (ret, b) := by
  obtain ⟨⟨ret', b⟩, tr₁, tr₂, rfl, hp, rfl, rfl⟩ := (Prog.traces_bind _ _ _ _).mp h
  exact ⟨b, by simpa using hp⟩

theorem traces_buffered_failed {β : Type} {buf buf' : β}
    {use : Response → ℤ → Prog ClientRet (ℤ × β)} {ret : ℤ}
    (hfill : ∀ request, Fills type (fill request))
    (h : (operation fill (fun returnedErr => (-returnedErr, buf)) use).Traces tr (ret, buf'))
    (hex : tr.findSome? exchange = some (request, response, err)) :
    request.requesttype = type ∧ (err ≠ 0 → ret = -err) := by
  obtain ⟨htype, hout⟩ := traces_operation_failed hfill h hex
  exact ⟨htype, fun herr => congrArg Prod.fst (hout herr)⟩

/-- A cached status is returned without an exchange. -/
theorem getattr_failed {path : CString} {stbuf stbuf' : Stat} {ret : ℤ}
    (h : (rhizofsGetattr path stbuf).Traces tr (ret, stbuf'))
    (hex : tr.findSome? exchange = some (request, response, err)) :
    request.requesttype = .getattr ∧ (err ≠ 0 → ret = -err) := by
  obtain ⟨found, tr, rfl, h⟩ := h
  cases found with
  | some found =>
    obtain ⟨rfl, -⟩ := h
    cases hex
  | none =>
    refine traces_buffered_failed ?_ h hex
    exact fun _ => fills_some rfl

theorem utimensTimes_quiet (timestamps : TimeSet) (tv : Option (Timespec × Timespec)) :
    (utimensTimes timestamps tv).Calls Quiet := by
  cases tv with
  | none => exact ⟨(fun request h => by cases h), fun _ => trivial⟩
  | some times => trivial

theorem setData_returns (lz4 : Lz4) (request : Request) (data : List UInt8) :
    (request.setData lz4 data).Returns fun out => out.2.requesttype = request.requesttype := by
  unfold Request.setData
  split_ifs
  · rfl
  · refine .then _ fun datablock => ?_
    cases datablock <;> rfl

/-- Every operation whose exchange brought an error returns its negation. -/
theorem RemoteOp.run_failed {lz4 : Lz4} (op : RemoteOp) {ret : ℤ} (h : (op.run lz4).Traces tr ret)
    (hex : tr.findSome? exchange = some (request, response, err)) :
    request.requesttype = op.requesttype ∧ (err ≠ 0 → ret = -err) := by
  cases op with
  | readdir path =>
    refine traces_operation_failed ?_ h hex
    exact fun _ => fills_some rfl
  | getattr path stbuf =>
    obtain ⟨stbuf', h⟩ := traces_status h
    exact getattr_failed h hex
  | rmdir path | unlink path | truncate path offset | link pathFrom pathTo | rename pathFrom pathTo
  | symlink pathTo pathFrom =>
    refine traces_operation_failed ?_ h hex
    exact fun _ => fills_some rfl
  | mkdir path mode | access path mode | create path mode | chmod path mode =>
    refine traces_operation_failed ?_ h hex
    exact fun _ => fills_permissions fun _ => rfl
  | «open» path flags =>
    refine traces_operation_failed ?_ h hex
    refine fun request => fills_bind (clientMem_quiet _) fun openflags => ?_
    cases openflags with
    | none => exact fills_none
    | some openflags => exact fills_some rfl
  | utimens path tv =>
    refine traces_operation_failed ?_ h hex
    refine fun request => fills_bind (clientMem_quiet _) fun timestamps => ?_
    cases timestamps with
    | none => exact fills_none
    | some timestamps => exact fills_bind (utimensTimes_quiet _ _) fun _ => fills_some rfl
  | read path buf offset =>
    obtain ⟨buf', h⟩ := traces_status h
    refine traces_buffered_failed ?_ h hex
    exact fun _ => fills_some rfl
  | write path buf offset =>
    refine traces_operation_failed ?_ h hex
    refine fun request => ⟨(clientMem_quiet _).bind fun _ => trivial, ?_⟩
    refine ((setData_returns lz4 _ buf).translate _).bind ?_
    rintro ⟨_ | _, request'⟩ htype request'' heq
    · cases heq
    · cases heq
      exact htype
  | readlink path linkTarget =>
    obtain ⟨linkTarget', h⟩ := traces_status h
    refine traces_buffered_failed ?_ h hex
    exact fun _ => fills_some rfl
  | mknod path mode =>
    change (rhizofsMknod path mode).Traces tr ret at h
    unfold rhizofsMknod at h
    split_ifs at h
    · obtain ⟨rfl, -⟩ := h
      cases hex
    · refine traces_operation_failed ?_ h hex
      exact fun _ => fills_permissions fun _ => rfl
  | statfs path svfs =>
    obtain ⟨svfs', h⟩ := traces_status h
    refine traces_buffered_failed ?_ h hex
    exact fun _ => fills_some rfl

end Client

/-! ## From the system call to the caller -/

/-- The server handled the request with the calls `trs`, and `Rhizofs_communicate` returned its
response in `answer`. -/
def Served (lz4 : Lz4) (sd : ServeDir) (sp : SocketPool) (request : Request)
    (answer : Option Response × ℤ) (trs : Trace) : Prop :=
  ∃ opRc response, (ServeDir.handle lz4 sd (some request)).Traces trs (some (opRc, response)) ∧
    answer.1 = some response ∧ ∃ trz, (communicateWithPack sp request none true).Traces trz answer

/-- What the client reports for a local error number. -/
def reportedErrno (errno : ℤ) : ℤ := if errno ∈ errnoMap.map Prod.snd then errno else EIO

theorem reportedErrno_pos {errno : ℤ} (h : errno ≠ 0) : 0 < reportedErrno errno := by
  have hback := Errno.toLocal_fromLocal errno
  have hnonneg := Errno.toLocal_nonneg (.fromLocal errno)
  have hne : Errno.toLocal (.fromLocal errno) ≠ 0 := by
    rw [ne_eq, Errno.toLocal_eq_zero_iff, Errno.fromLocal_eq_none_iff]
    exact h
  rw [hback] at hnonneg hne
  exact lt_of_le_of_ne hnonneg hne.symm

/-- **System-call errors arrive intact.** When the principal call of a handler fails with `e`, and
the reply has reached the client, the client operation returns `-e` if `errno_map` lists `e`, and
`-EIO` otherwise; this is never 0 or positive. -/
theorem failure_arrives (lz4 : Lz4) (sd : ServeDir) (sp : SocketPool) (op : RemoteOp)
    {tr : ClientTrace} {ret : ℤ} (hrun : (op.run lz4).Traces tr ret) {request : Request}
    {answer : Option Response × ℤ} (hex : tr.findSome? exchange = some (request, answer))
    {trs : Trace} (hserved : Served lz4 sd sp request answer trs) {ev : Event SysRet}
    (hev : ev ∈ trs) {e : Failure} (hfail : principalFailure op.requesttype ev = some e) :
    ret = -reportedErrno e.errno ∧ ret < 0 := by
  obtain ⟨opRc, response, hhandle, hanswer, trz, hcommunicate⟩ := hserved
  obtain ⟨response', err⟩ := answer
  obtain rfl : response' = some response := hanswer
  obtain ⟨htype, hret⟩ := op.run_failed hrun hex
  rw [← htype] at hfail
  have herrnotype := handle_reflects hhandle hev hfail
  have herr : err = reportedErrno e.errno := by
    rw [communicate_response hcommunicate, Response.getErrno, herrnotype, Errno.toLocal_fromLocal]
    rfl
  have hpos := reportedErrno_pos e.ne
  have hfailed := hret (by omega)
  exact ⟨by rw [hfailed, herr], by omega⟩

/-- The run of an UNLINK of `/a` in the shared directory `/s` where there is no such file. -/
theorem failure_arrives_unlink : ∃ tr ret,
    ((RemoteOp.unlink [47, 97]).run .onRun).Traces tr ret ∧ ret = -ENOENT := by
  have hserved : Served .onRun ⟨[47, 115]⟩ ⟨[], none, none, none⟩ unlinkRequest
      (some (Response.setErrno { Response.initial with requesttype := .unlink } ENOENT), 2)
      [⟨.alloc .record, true⟩, ⟨.alloc .record, true⟩, ⟨.alloc (.bytes 5), true⟩,
        ⟨.path (.unlink [47, 115, 47, 97]), .error ⟨ENOENT, ENOENT_ne⟩⟩] :=
    ⟨0, _, ⟨true, _, rfl, true, _, rfl, true, _, rfl, .error ⟨ENOENT, ENOENT_ne⟩, _, rfl, rfl, rfl⟩,
      rfl, _, communicate_delivered ⟨[], none, none, none⟩ unlinkRequest 0 true _⟩
  have hrun : ((RemoteOp.unlink [47, 97]).run .onRun).Traces [⟨.alloc .record, true⟩,
      ⟨.communicate unlinkRequest,
        (some (Response.setErrno { Response.initial with requesttype := .unlink } ENOENT), 2)⟩]
      (-2) := ⟨true, _, rfl, (_, 2), _, rfl, rfl, rfl⟩
  have harrives := failure_arrives .onRun ⟨[47, 115]⟩ ⟨[], none, none, none⟩ (.unlink [47, 97]) hrun
    rfl hserved (List.mem_of_mem_getLast? rfl) (e := ⟨ENOENT, ENOENT_ne⟩) rfl
  exact ⟨_, _, hrun, harrives.1⟩

end Rhizofs
