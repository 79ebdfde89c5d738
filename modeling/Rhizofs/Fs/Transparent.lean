import Rhizofs.Fs.Coherence
import Rhizofs.Fs.Failures
import Rhizofs.Fs.FileData
import Rhizofs.Lz4.RoundTrip

/-!
# The mount is transparent

An operation of the client stands for system calls in the shared directory (`RemoteOp.direct`). Only
`getattr` and `readdir`, whose answers go through the attribute cache, are left out. When memory
does not run out and every exchange is completed, the operation shows its caller what these calls
answer and does to the served tree what they do, whatever the operating system of the server is
(`perform_eq`). So any operations of any clients, one after the other, are as good as the calls
(`mount_transparent`).
-/

namespace Rhizofs

open Extern

/-- What the caller of an operation gets: its return value, and the buffer passed, if any. -/
inductive Outcome
  | status (ret : ℤ)
  | attrs (ret : ℤ) (stbuf : Stat)
  | data (ret : ℤ) (buf : List UInt8)
  | statvfs (ret : ℤ) (svfs : StatVfs)

/-- The return value. -/
def Outcome.ret : Outcome → ℤ
  | status ret | attrs ret _ | data ret _ | statvfs ret _ => ret

/-- The flags of `open` that a message carries. -/
def sentFlags : ℕ := O_WRONLY ||| O_RDWR ||| O_CREAT ||| O_EXCL ||| O_TRUNC ||| O_APPEND

/-- The time that `Rhizofs_utimens` makes of one that it is passed. -/
def Timespec.toTimeval (t : Timespec) : Timeval := ⟨t.tvSec, toInt32 (t.tvNsec.tdiv 1000)⟩

namespace RemoteOp

/-- An operation whose caller gets the return value only. -/
def returned (p : Prog ClientRet ℤ) : Prog ClientRet Outcome := do
  let ret ← p
  return .status ret

/-- The operation, with everything that its caller gets. -/
def perform (lz4 : Lz4) : RemoteOp → Prog ClientRet Outcome
  | getattr path stbuf => do
    let (ret, stbuf) ← rhizofsGetattr path stbuf
    return .attrs ret stbuf
  | read path buf offset => do
    let (ret, buf) ← rhizofsRead lz4 path buf offset
    return .data ret buf
  | readlink path linkTarget => do
    let (ret, linkTarget) ← rhizofsReadlink path linkTarget
    return .data ret linkTarget
  | statfs path svfs => do
    let (ret, svfs) ← rhizofsStatfs path svfs
    return .statvfs ret svfs
  | op => returned (op.run lz4)

/-- The path that an operation removes from the cache when it succeeds. -/
def invalidates : RemoteOp → Option CString
  | rmdir path | unlink path | truncate path _ | chmod path _ | utimens path _ | write path _ _ =>
    some path
  | rename pathFrom _ => some pathFrom
  | _ => none

/-- The size of the buffer. -/
def size : RemoteOp → ℕ
  | read _ buf _ | write _ buf _ => buf.length
  | _ => 0

/-! ## The system calls that an operation stands for -/

/-- What an operation returns for the error of a system call. -/
def failed (e : Failure) : ℤ := -reportedErrno e.errno

/-- One call on paths. -/
def directPath (op : PathOp) : Prog SysRet Outcome := do
  match ← sys (.path op) with
  | .ok _ => return .status 0
  | .error e => return .status (failed e)

/-- Open a file and close it again. -/
def directOpen (opened : Prog SysRet (Except Failure ℕ)) : Prog SysRet Outcome := do
  match ← opened with
  | .error e => return .status (failed e)
  | .ok fd => do
    let _ ← sys (.close fd)
    return .status 0

/-- Bytes of an open file. -/
def bytesAt (fd count : ℕ) (offset : ℤ) : Prog SysRet (Except Failure (List UInt8)) :=
  if offset = 0 then sys (.read fd count) else sys (.pread fd count offset)

def directRead (path : CString) (buf : List UInt8) (offset : ℤ) : Prog SysRet Outcome := do
  match ← sys (.open path O_RDONLY 0) with
  | .error e => return .data (failed e) buf
  | .ok fd => do
    let got ← bytesAt fd buf.length offset
    let _ ← sys (.close fd)
    match got with
    | .error e => return .data (failed e) buf
    | .ok data => return .data data.length (memcpy buf data)

/-- Close a file that has been written. -/
def directClose (fd : ℕ) (path : CString) : Prog SysRet Unit := do
  match ← sys (.close fd) with
  | .error _ => do
    let _ ← sys (.close fd)
    return
  | .ok _ => do
    let now ← sys .gettimeofday
    let _ ← sys (.path (.utimes path now now))
    return

def directWrite (path : CString) (buf : List UInt8) (offset : ℤ) : Prog SysRet Outcome := do
  match ← sys (.open path (O_CREAT ||| O_WRONLY) defaultFileCreationPermissions) with
  | .error e => return .status (failed e)
  | .ok fd => do
    let written ← sys (.pwrite fd buf offset)
    directClose fd path
    match written with
    | .error e => return .status (failed e)
    | .ok n => return .status n

def directReadlink (path : CString) (linkTarget : List UInt8) : Prog SysRet Outcome := do
  match ← sys (.readlink path (PATH_MAX - 1)) with
  | .error e => return .data (failed e) linkTarget
  | .ok target => return .data 0 (copyTerminated target linkTarget.length)

def directStatfs (path : CString) (svfs : StatVfs) : Prog SysRet Outcome := do
  match ← sys (.statvfs path) with
  | .error e => return .statvfs (failed e) svfs
  | .ok stfs => return .statvfs 0 stfs

/-- The system calls in the shared directory that an operation stands for. `timeofday` is the time
at the client. -/
def direct (sd : ServeDir) (timeofday : Timeval) : RemoteOp → Option (Prog SysRet Outcome)
  | readdir _ | getattr _ _ => none
  | rmdir path => directPath (.rmdir (joined sd.directory path))
  | mkdir path mode => directPath (.mkdir (joined sd.directory path) (mode &&& 0o777))
  | unlink path => directPath (.unlink (joined sd.directory path))
  | access path mask => directPath (.access (joined sd.directory path) (mask &&& 0o777))
  | «open» path flags => directOpen (sys (.open (joined sd.directory path) (flags &&& sentFlags)
      defaultFileCreationPermissions))
  | create path createMode => directOpen (sys (.creat (joined sd.directory path)
      (createMode &&& 0o777 ||| S_IWUSR)))
  | read path buf offset => directRead (joined sd.directory path) buf offset
  | write path buf offset => directWrite (joined sd.directory path) buf offset
  | truncate path offset => directPath (.truncate (joined sd.directory path) offset)
  | chmod path accessMode => directPath (.chmod (joined sd.directory path) (accessMode &&& 0o777))
  | utimens path none => directPath (.utimes (joined sd.directory path)
      ⟨timeofday.tvSec, toInt32 timeofday.tvUsec⟩ ⟨timeofday.tvSec, toInt32 timeofday.tvUsec⟩)
  | utimens path (some (atime, mtime)) => directPath (.utimes (joined sd.directory path)
      atime.toTimeval mtime.toTimeval)
  | link pathFrom pathTo =>
    directPath (.link (joined sd.directory pathFrom) (joined sd.directory pathTo))
  | rename pathFrom pathTo =>
    directPath (.rename (joined sd.directory pathFrom) (joined sd.directory pathTo))
  | symlink pathTo pathFrom => directPath (.symlink pathTo (joined sd.directory pathFrom))
  | readlink path linkTarget => directReadlink (joined sd.directory path) linkTarget
  | mknod path mode =>
    if isFileType mode S_IFREG then
      directPath (.mknod (joined sd.directory path) (mode &&& 0o777 ||| S_IFREG))
    else some (return .status (-EPERM))
  | statfs path svfs => directStatfs (joined sd.directory path) svfs

end RemoteOp

/-- `read`, `pread` and `pwrite` transfer no more than they are asked to. -/
structure Transfers {S : Type} (os : (c : SysCall) → S → SysRet c × S) : Prop where
  read : ∀ fd count s data, (os (.read fd count) s).1 = .ok data → data.length ≤ count
  pread : ∀ fd count offset s data,
    (os (.pread fd count offset) s).1 = .ok data → data.length ≤ count
  pwrite : ∀ fd data offset s n, (os (.pwrite fd data offset) s).1 = .ok n → n ≤ data.length

namespace Mount

variable {S : Type} {m : Mount S} {w : Session S} {s : S} {request : Request} {path : CString}

/-! ## The server -/

/-- A program that only allocates leaves the server as it is. -/
theorem exec_mem {α : Type} (p : Prog MemRet α) (s : S) :
    (mem p).exec m.osAll s = ((p.exec allocAll ()).1, s) := by
  induction p with
  | ret a => rfl
  | call c k ih => exact ih true

theorem exec_fullpath (hpath : request.path = some path) (s : S) :
    (m.sd.fullpath request).exec m.osAll s = (some (joined m.sd.directory path), s) := by
  simp only [ServeDir.fullpath, hpath]
  rw [exec_mem, exec_pathJoin]

/-- The answer to a request whose handler makes one call on paths. -/
theorem exec_onPath {response : Response} {op : CString → PathOp} (hpath : request.path = some path)
    (s : S) : (m.sd.onPath request response op).exec m.osAll s =
      ((0, match (m.os (.path (op (joined m.sd.directory path))) s).1 with
        | .ok _ => response
        | .error e => response.setErrno e.errno),
      (m.os (.path (op (joined m.sd.directory path))) s).2) := by
  unfold ServeDir.onPath
  rw [Prog.exec_bind, exec_fullpath hpath]
  simp only [Prog.perform_bind, Prog.exec_call, osAll]
  rcases m.os (.path (op (joined m.sd.directory path))) s with ⟨r, s'⟩
  cases r <;> rfl

theorem getErrno_setErrno (response : Response) (errno : ℤ) :
    (response.setErrno errno).getErrno = reportedErrno errno := by
  rw [Response.getErrno, Response.setErrno, Errno.toLocal_fromLocal]
  rfl

/-- The server answers a request with the outcome of the calls `p`, and does what they do. -/
def Answers (m : Mount S) (request : Request) (p : Prog SysRet Outcome) : Prop :=
  ∀ s, p.exec m.os s = (.status (-(m.serve request s).1.getErrno), (m.serve request s).2)

/-- The requests whose handler makes one call on paths. -/
theorem answers_onPath {response : Response} (op : CString → PathOp)
    (hdispatch : ∀ s, (ServeDir.dispatch m.lz4 m.sd request .initial).exec m.osAll s =
      (m.sd.onPath request response op).exec m.osAll s)
    (hpath : request.path = some path) (hnone : response.errnotype = .none) :
    m.Answers request (RemoteOp.directPath (op (joined m.sd.directory path))) := by
  intro s
  rw [serve, hdispatch, exec_onPath hpath]
  simp only [RemoteOp.directPath, Prog.perform_bind, Prog.exec_call]
  rcases m.os (.path (op (joined m.sd.directory path))) s with ⟨r, s'⟩
  cases r with
  | ok u =>
    have hzero := Response.getErrno_eq_zero hnone
    simp [hzero]
  | error e => simp [getErrno_setErrno, RemoteOp.failed]

/-- RENAME and LINK. -/
theorem answers_onTwoPaths {response : Response} (op : CString → CString → PathOp)
    {pathTo : CString}
    (hdispatch : ServeDir.dispatch m.lz4 m.sd request .initial =
      m.sd.onTwoPaths request response op)
    (hpath : request.path = some path) (hpathTo : request.pathTo = some pathTo)
    (hnone : response.errnotype = .none) :
    m.Answers request
      (RemoteOp.directPath (op (joined m.sd.directory path) (joined m.sd.directory pathTo))) := by
  refine answers_onPath (op · (joined m.sd.directory pathTo)) (fun s => ?_) hpath hnone
  rw [hdispatch, ServeDir.onTwoPaths, hpathTo]
  dsimp only
  rw [Prog.exec_bind, exec_mem, exec_pathJoin]

/-- OPEN. -/
theorem answers_open {openflags : OpenFlags} (htype : request.requesttype = .open)
    (hopenflags : request.openflags = some openflags) (hpath : request.path = some path) :
    m.Answers request (RemoteOp.directOpen (sys (.open (joined m.sd.directory path)
      openflags.toBitmask defaultFileCreationPermissions))) := by
  intro s
  rw [serve, ServeDir.dispatch, htype]
  dsimp only
  rw [ServeDir.opOpen, hopenflags]
  dsimp only
  rw [Prog.exec_bind, exec_fullpath hpath]
  simp only [RemoteOp.directOpen, Prog.perform_bind, Prog.exec_call, osAll]
  rcases m.os (.open (joined m.sd.directory path) openflags.toBitmask
    defaultFileCreationPermissions) s with ⟨r, s'⟩
  cases r with
  | ok fd => rfl
  | error e => simp [getErrno_setErrno, RemoteOp.failed]

/-- CREATE. -/
theorem answers_create {permissions : Permissions} (htype : request.requesttype = .create)
    (hpermissions : request.permissions = some permissions) (hpath : request.path = some path) :
    m.Answers request (RemoteOp.directOpen (sys (.creat (joined m.sd.directory path)
      (permissions.toBitmask ||| S_IWUSR)))) := by
  intro s
  rw [serve, ServeDir.dispatch, htype]
  dsimp only
  rw [ServeDir.opCreate, hpermissions]
  dsimp only
  rw [Prog.exec_bind, exec_fullpath hpath]
  simp only [RemoteOp.directOpen, Prog.perform_bind, Prog.exec_call, osAll]
  rcases m.os (.creat (joined m.sd.directory path) (permissions.toBitmask ||| S_IWUSR)) s
    with ⟨r, s'⟩
  cases r with
  | ok fd => rfl
  | error e => simp [getErrno_setErrno, RemoteOp.failed]

/-- MKNOD of a regular file. -/
theorem answers_mknod {mode : ℕ} (hmode : isFileType mode S_IFREG)
    (htype : request.requesttype = .mknod)
    (hpermissions : request.permissions = some (.ofMode mode))
    (hfiletype : request.filetype = some (.fromLocal mode)) (hpath : request.path = some path) :
    m.Answers request (RemoteOp.directPath
      (.mknod (joined m.sd.directory path) (mode &&& 0o777 ||| S_IFREG))) := by
  have hlocal : (FileType.fromLocal mode).toLocal = S_IFREG :=
    FileType.toLocal_fromLocal (by decide) hmode
  have hregular : isFileType (mode &&& 0o777 ||| S_IFREG) S_IFREG = true := by
    rw [isFileType, Nat.or_comm, beq_iff_eq]
    exact FileType.toLocal_or_and_ifmt .regularFile mode
  have hdispatch : ServeDir.dispatch m.lz4 m.sd request .initial =
      m.sd.onPath request { Response.initial with requesttype := .mknod }
        (.mknod · (mode &&& 0o777 ||| S_IFREG)) := by
    rw [ServeDir.dispatch, htype]
    dsimp only
    rw [ServeDir.opMknod, hpermissions, hfiletype]
    dsimp only
    rw [hlocal, Permissions.toBitmask_ofMode, if_pos hregular]
  exact answers_onPath (.mknod · _) (fun s => congrArg (Prog.exec m.osAll · s) hdispatch) hpath rfl

theorem exec_readAt (htransfers : Transfers m.os) (fd : ℕ) {count : ℕ} (hcount : count < 2 ^ 31)
    (offset : ℤ) (s : S) :
    ∃ got s', (ServeDir.readAt fd count offset).exec m.osAll s = (got, s') ∧
      (RemoteOp.bytesAt fd count offset).exec m.os s = (got, s') ∧
      ∀ data, got = .ok data → data.length ≤ count := by
  unfold ServeDir.readAt RemoteOp.bytesAt
  rw [toSize_natCast_of_lt_int hcount]
  split_ifs
  · exact ⟨_, _, rfl, rfl, htransfers.read fd count s⟩
  · exact ⟨_, _, rfl, rfl, htransfers.pread fd count offset s⟩

/-- READ. The server answers with the error, or with a block that stores what was read. -/
theorem serve_read (htransfers : Transfers m.os) (path : CString) {buf : List UInt8}
    (hsize : buf.length < 2 ^ 31) (offset : ℤ) (s : S) :
    ∃ response s', m.serve (readRequest path buf.length offset) s = (response, s') ∧
      ((∃ e : Failure, response.getErrno = reportedErrno e.errno ∧
        (RemoteOp.directRead (joined m.sd.directory path) buf offset).exec m.os s =
          (.data (RemoteOp.failed e) buf, s')) ∨
      ∃ data datablock, response.errnotype = .none ∧ response.datablock = some datablock ∧
        datablock.Stores m.lz4 data ∧ data.length ≤ buf.length ∧
        (RemoteOp.directRead (joined m.sd.directory path) buf offset).exec m.os s =
          (.data data.length (memcpy buf data), s')) := by
  have hserve : m.serve (readRequest path buf.length offset) s =
      ((ServeDir.opRead m.lz4 m.sd (readRequest path buf.length offset) .initial).exec m.osAll
        s).map Prod.snd id := rfl
  rw [hserve]
  simp only [ServeDir.opRead, readRequest, RemoteOp.directRead]
  rw [Prog.exec_bind, exec_fullpath rfl]
  simp only [Prog.perform_bind, Prog.exec_call, osAll]
  rcases m.os (.open (joined m.sd.directory path) O_RDONLY 0) s with ⟨opened, s₁⟩
  cases opened with
  | error e => exact ⟨_, _, rfl, .inl ⟨e, getErrno_setErrno _ _, rfl⟩⟩
  | ok fd =>
    obtain ⟨got, s₂, hserver, hdirect, hlength⟩ := exec_readAt htransfers fd hsize offset s₁
    simp only [Prog.exec_call, osAll, Bool.not_true, Bool.false_eq_true, if_false,
      Prog.exec_bind, hserver, hdirect]
    cases got with
    | error e => exact ⟨_, _, rfl, .inl ⟨e, getErrno_setErrno _ _, rfl⟩⟩
    | ok data =>
      obtain ⟨datablock, hset, hstores⟩ := Response.exec_setData m.lz4
        { Response.initial with requesttype := .read } data rfl
      simp only [Prog.exec_bind, exec_mem, hset]
      exact ⟨_, _, rfl, .inr ⟨data, datablock, rfl, rfl, hstores, hlength data rfl, rfl⟩⟩

/-- WRITE. The server answers with the error, or with the number of bytes written. -/
theorem serve_write (hinv : m.lz4.Inverse) (htransfers : Transfers m.os) {buf : List UInt8}
    (hsize : buf.length < 2 ^ 31) {offset : ℤ} {datablock : DataBlock}
    (hstores : datablock.Stores m.lz4 buf) (request : Request)
    (htype : request.requesttype = .write)
    (hpath : request.path = some path) (hreqsize : request.size = some (buf.length : ℤ))
    (hreqoffset : request.offset = some offset) (hreqdata : request.datablock = some datablock)
    (s : S) :
    ∃ response s', m.serve request s = (response, s') ∧
      ((∃ e : Failure, response.getErrno = reportedErrno e.errno ∧
        (RemoteOp.directWrite (joined m.sd.directory path) buf offset).exec m.os s =
          (.status (RemoteOp.failed e), s')) ∨
      ∃ n : ℕ, response.errnotype = .none ∧ response.size = some (n : ℤ) ∧ n ≤ buf.length ∧
        (RemoteOp.directWrite (joined m.sd.directory path) buf offset).exec m.os s =
          (.status n, s')) := by
  have hhas : request.hasData ≠ -1 := by
    simp only [Request.hasData, hreqdata, hstores.size_eq]
    exact toInt32_natCast_ne_neg_one hsize
  have hserve : m.serve request s = ((ServeDir.opWrite m.lz4 m.sd request .initial).exec m.osAll
      s).map Prod.snd id := by
    rw [serve, ServeDir.dispatch, htype]
    rfl
  rw [hserve]
  simp only [ServeDir.opWrite, hreqsize, hreqoffset, if_neg hhas, hreqdata, RemoteOp.directWrite]
  rw [Prog.exec_bind, exec_fullpath hpath]
  simp only [Prog.perform_bind, Prog.exec_call, osAll]
  rcases m.os (.open (joined m.sd.directory path) (O_CREAT ||| O_WRONLY)
    defaultFileCreationPermissions) s with ⟨opened, s₁⟩
  cases opened with
  | error e => exact ⟨_, _, rfl, .inl ⟨e, getErrno_setErrno _ _, rfl⟩⟩
  | ok fd =>
    simp only [Prog.exec_bind, exec_mem, exec_writeData hinv hsize hstores]
    simp only [RemoteOp.directClose, Prog.perform_bind, Prog.exec_bind, Prog.exec_call, osAll]
    have hwritten := htransfers.pwrite fd buf offset s₁
    rcases hpwrite : m.os (.pwrite fd buf offset) s₁ with ⟨written, s₂⟩
    rw [hpwrite] at hwritten
    dsimp only
    rcases m.os (.close fd) s₂ with ⟨closed, s₃⟩
    cases written with
    | error e =>
      have herr : (Response.written { Response.initial with requesttype := .write }
          (.error e)).getErrno = reportedErrno e.errno := getErrno_setErrno .initial e.errno
      cases closed with
      | error e' => exact ⟨_, _, rfl, .inl ⟨e, herr, rfl⟩⟩
      | ok u => exact ⟨_, _, rfl, .inl ⟨e, herr, rfl⟩⟩
    | ok n =>
      have hn : n ≤ buf.length := hwritten n rfl
      have hcount : some (toInt32 n) = some (n : ℤ) := by
        rw [toInt32_natCast (by omega)]
      cases closed with
      | error e' => exact ⟨_, _, rfl, .inr ⟨n, rfl, hcount, hn, rfl⟩⟩
      | ok u => exact ⟨_, _, rfl, .inr ⟨n, rfl, hcount, hn, rfl⟩⟩

/-- READLINK. -/
theorem serve_readlink (m : Mount S) (path : CString) (linkTarget : List UInt8) (s : S) :
    ∃ response s', m.serve { Request.initial with path := some path, requesttype := .readlink } s =
        (response, s') ∧
      ((∃ e : Failure, response.getErrno = reportedErrno e.errno ∧
        (RemoteOp.directReadlink (joined m.sd.directory path) linkTarget).exec m.os s =
          (.data (RemoteOp.failed e) linkTarget, s')) ∨
      ∃ target, response.errnotype = .none ∧ response.linkTarget = some target ∧
        (RemoteOp.directReadlink (joined m.sd.directory path) linkTarget).exec m.os s =
          (.data 0 (copyTerminated target linkTarget.length), s')) := by
  have hserve : m.serve { Request.initial with path := some path, requesttype := .readlink } s =
      ((ServeDir.opReadlink m.sd { Request.initial with
        path := some path
        requesttype := .readlink } .initial).exec m.osAll s).map Prod.snd id := rfl
  rw [hserve]
  simp only [ServeDir.opReadlink, RemoteOp.directReadlink]
  rw [Prog.exec_bind, exec_fullpath rfl]
  simp only [Prog.perform_bind, Prog.exec_call, osAll]
  rcases m.os (.readlink (joined m.sd.directory path) (PATH_MAX - 1)) s with ⟨r, s₁⟩
  cases r with
  | error e => exact ⟨_, _, rfl, .inl ⟨e, getErrno_setErrno _ _, rfl⟩⟩
  | ok target => exact ⟨_, _, rfl, .inr ⟨target, rfl, rfl, rfl⟩⟩

/-- STATFS. -/
theorem serve_statfs (m : Mount S) (path : CString) (svfs : StatVfs) (s : S) :
    ∃ response s', m.serve { Request.initial with path := some path, requesttype := .statfs } s =
        (response, s') ∧
      ((∃ e : Failure, response.getErrno = reportedErrno e.errno ∧
        (RemoteOp.directStatfs (joined m.sd.directory path) svfs).exec m.os s =
          (.statvfs (RemoteOp.failed e) svfs, s')) ∨
      ∃ stfs statfs, response.errnotype = .none ∧ response.statfs = some statfs ∧
        statfs.toStatVfs = stfs ∧
        (RemoteOp.directStatfs (joined m.sd.directory path) svfs).exec m.os s =
          (.statvfs 0 stfs, s')) := by
  have hserve : m.serve { Request.initial with path := some path, requesttype := .statfs } s =
      ((ServeDir.opStatfs m.sd { Request.initial with
        path := some path
        requesttype := .statfs } .initial).exec m.osAll s).map Prod.snd id := rfl
  rw [hserve]
  simp only [ServeDir.opStatfs, RemoteOp.directStatfs]
  rw [Prog.exec_bind, exec_fullpath rfl]
  simp only [Prog.perform_bind, Prog.exec_call, osAll]
  rcases m.os (.statvfs (joined m.sd.directory path)) s with ⟨r, s₁⟩
  cases r with
  | error e => exact ⟨_, _, rfl, .inl ⟨e, getErrno_setErrno _ _, rfl⟩⟩
  | ok stfs => exact ⟨_, _, rfl, .inr ⟨stfs, _, rfl, rfl, rfl, rfl⟩⟩

/-! ## The client -/

/-- A program of the client that only allocates. -/
theorem exec_clientMem {α : Type} (p : Prog MemRet α) (w : Session S) :
    (clientMem p).exec m.ideal w = ((p.exec allocAll ()).1, w) := by
  induction p with
  | ret a => rfl
  | call c k ih => exact ih true

/-- The outcome `r` of system calls, shown to the caller of an operation. -/
def shown (op : RemoteOp) (w : Session S) (r : Outcome × S) : Outcome × Session S :=
  (r.1, ⟨if 0 ≤ r.1.ret then afterRemove op.invalidates w.cache else w.cache, r.2⟩)

theorem exec_plainOperation {fill : Request → Prog ClientRet (Option Request)}
    {invalidate : Option CString} (hfill : (fill .initial).exec m.ideal w = (some request, w)) :
    (plainOperation fill invalidate).exec m.ideal w =
      (-(m.serve request w.server).1.getErrno,
        ⟨if 0 ≤ -(m.serve request w.server).1.getErrno then afterRemove invalidate w.cache
          else w.cache, (m.serve request w.server).2⟩) := by
  have hnonneg := Errno.toLocal_nonneg (m.serve request w.server).1.errnotype
  unfold plainOperation
  rw [exec_operation m hfill]
  by_cases hzero : (m.serve request w.server).1.getErrno = 0
  · rw [if_neg (not_not_intro hzero), hzero, if_pos (by decide)]
    cases invalidate <;> rfl
  · have hneg : ¬ 0 ≤ -(m.serve request w.server).1.getErrno := by
      unfold Response.getErrno at hzero ⊢
      omega
    rw [if_pos hzero, if_neg hneg]

/-- The operations whose caller passes no buffer to fill. -/
theorem perform_plain {op : RemoteOp} {fill : Request → Prog ClientRet (Option Request)}
    {p : Prog SysRet Outcome}
    (hop : op.perform m.lz4 = RemoteOp.returned (plainOperation fill op.invalidates))
    (hfill : (fill .initial).exec m.ideal w = (some request, w)) (hp : m.Answers request p) :
    (op.perform m.lz4).exec m.ideal w = shown op w (p.exec m.os w.server) := by
  rw [hop, RemoteOp.returned, Prog.exec_bind, exec_plainOperation hfill, hp]
  rfl

theorem exec_permissions_create (mode : ℕ) :
    (Permissions.create mode).exec allocAll () = (some (.ofMode mode), ()) := rfl

theorem exec_fillPermissions {mode : ℕ} {set : Permissions → Request} :
    (fillPermissions mode set).exec m.ideal w = (some (set (.ofMode mode)), w) := by
  unfold fillPermissions
  rw [Prog.exec_bind, exec_clientMem, exec_permissions_create]
  rfl

/-- One of the flags of `open`. -/
theorem sent_flag (flags flag : ℕ) (hflag : ∃ i, flag = 2 ^ i) :
    (if (flags &&& flag != 0) = true then flag else 0) = flags &&& flag := by
  obtain ⟨i, rfl⟩ := hflag
  rw [Nat.and_two_pow]
  cases flags.testBit i <;> simp

/-- The flags of `open` survive the message. -/
theorem exec_fromBitmask (flags : ℕ) : ∃ openflags,
    (OpenFlags.fromBitmask flags).exec allocAll () = (some openflags, ()) ∧
      openflags.toBitmask = flags &&& sentFlags := by
  refine ⟨_, rfl, ?_⟩
  have hrdonly : (if (flags &&& O_RDONLY != 0) = true then O_RDONLY else 0) = 0 := ite_self _
  unfold OpenFlags.toBitmask sentFlags
  simp only [Nat.and_or_distrib_left, hrdonly, Nat.zero_or, sent_flag flags O_WRONLY ⟨0, rfl⟩,
    sent_flag flags O_RDWR ⟨1, rfl⟩, sent_flag flags O_CREAT ⟨6, rfl⟩,
    sent_flag flags O_EXCL ⟨7, rfl⟩, sent_flag flags O_TRUNC ⟨9, rfl⟩,
    sent_flag flags O_APPEND ⟨10, rfl⟩]

/-- An operation whose request the server has answered. -/
theorem exec_served {α : Type} {fill : Request → Prog ClientRet (Option Request)} {failed : ℤ → α}
    {use : Response → ℤ → Prog ClientRet α} {response : Response} {s' : S}
    (hserve : m.serve request w.server = (response, s'))
    (hfill : (fill .initial).exec m.ideal w = (some request, w)) :
    (operation fill failed use).exec m.ideal w =
      if response.getErrno ≠ 0 then (failed response.getErrno, ⟨w.cache, s'⟩)
      else (use response 0).exec m.ideal ⟨w.cache, s'⟩ := by
  rw [exec_operation m hfill, hserve]

theorem shown_of_none {op : RemoteOp} (hop : op.invalidates = none) (r : Outcome × S) :
    shown op w r = (r.1, ⟨w.cache, r.2⟩) := by
  rw [shown, hop, afterRemove, ite_self]

theorem errno_ne_zero {response : Response} {e : Failure}
    (h : response.getErrno = reportedErrno e.errno) : response.getErrno ≠ 0 := by
  rw [h]
  exact (reportedErrno_pos e.ne).ne'

theorem perform_read (hinv : m.lz4.Inverse) (htransfers : Transfers m.os) {buf : List UInt8}
    (hsize : buf.length < 2 ^ 31) (offset : ℤ) :
    ((RemoteOp.read path buf offset).perform m.lz4).exec m.ideal w =
      shown (.read path buf offset) w
        ((RemoteOp.directRead (joined m.sd.directory path) buf offset).exec m.os w.server) := by
  obtain ⟨response, s', hserve, h⟩ := serve_read htransfers path hsize offset w.server
  rw [shown_of_none rfl, RemoteOp.perform, Prog.exec_bind, rhizofsRead, exec_served hserve rfl]
  rcases h with ⟨e, herr, hdirect⟩ | ⟨data, datablock, hnone, hblock, hstores, hlength, hdirect⟩
  · rw [hdirect, if_pos (errno_ne_zero herr), herr]
    rfl
  · have hhas : response.hasData ≠ -1 := by
      rw [Response.hasData, hblock]
      dsimp only
      rw [hstores.size_eq]
      exact toInt32_natCast_ne_neg_one (by omega)
    rw [hdirect, if_neg (not_not_intro (Response.getErrno_eq_zero hnone)), hblock]
    dsimp only
    rw [if_neg hhas, exec_clientMem,
      DataBlock.getDataNoalloc_of_stores hinv (by omega) hstores hlength]
    rfl

theorem perform_readlink {linkTarget : List UInt8} :
    ((RemoteOp.readlink path linkTarget).perform m.lz4).exec m.ideal w =
      shown (.readlink path linkTarget) w
        ((RemoteOp.directReadlink (joined m.sd.directory path) linkTarget).exec m.os w.server) := by
  obtain ⟨response, s', hserve, h⟩ := serve_readlink m path linkTarget w.server
  rw [shown_of_none rfl, RemoteOp.perform, Prog.exec_bind, rhizofsReadlink, exec_served hserve rfl]
  rcases h with ⟨e, herr, hdirect⟩ | ⟨target, hnone, htarget, hdirect⟩
  · rw [hdirect, if_pos (errno_ne_zero herr), herr]
    rfl
  · rw [hdirect, if_neg (not_not_intro (Response.getErrno_eq_zero hnone)), htarget]
    rfl

theorem perform_statfs {svfs : StatVfs} :
    ((RemoteOp.statfs path svfs).perform m.lz4).exec m.ideal w =
      shown (.statfs path svfs) w
        ((RemoteOp.directStatfs (joined m.sd.directory path) svfs).exec m.os w.server) := by
  obtain ⟨response, s', hserve, h⟩ := serve_statfs m path svfs w.server
  rw [shown_of_none rfl, RemoteOp.perform, Prog.exec_bind, rhizofsStatfs, exec_served hserve rfl]
  rcases h with ⟨e, herr, hdirect⟩ | ⟨stfs, statfs, hnone, hstatfs, hback, hdirect⟩
  · rw [hdirect, if_pos (errno_ne_zero herr), herr]
    rfl
  · rw [hdirect, if_neg (not_not_intro (Response.getErrno_eq_zero hnone)), hstatfs, ← hback]
    rfl

/-- A failed operation leaves the cache as it is. -/
theorem shown_failed (op : RemoteOp) (e : Failure) (s : S) :
    shown op w (.status (RemoteOp.failed e), s) = (.status (RemoteOp.failed e), ⟨w.cache, s⟩) := by
  have hpos := reportedErrno_pos e.ne
  have hneg : ¬ 0 ≤ (Outcome.status (RemoteOp.failed e)).ret := by
    show ¬ 0 ≤ -reportedErrno e.errno
    omega
  rw [shown, if_neg hneg]

theorem perform_write (hinv : m.lz4.Inverse) (htransfers : Transfers m.os) {buf : List UInt8}
    (hsize : buf.length < 2 ^ 31) (offset : ℤ) :
    ((RemoteOp.write path buf offset).perform m.lz4).exec m.ideal w =
      shown (.write path buf offset) w
        ((RemoteOp.directWrite (joined m.sd.directory path) buf offset).exec m.os w.server) := by
  obtain ⟨datablock, hset, hstores⟩ :=
    Request.exec_setData m.lz4 (writeRequest path buf.length offset) buf rfl
  obtain ⟨response, s', hserve, h⟩ := serve_write hinv htransfers hsize hstores
    { writeRequest path buf.length offset with datablock := some datablock } rfl rfl rfl rfl rfl
    w.server
  change (RemoteOp.returned (rhizofsWrite m.lz4 path buf offset)).exec m.ideal w = _
  rw [RemoteOp.returned, Prog.exec_bind, rhizofsWrite, exec_served hserve]
  swap
  · -- the data is attached to the request
    rw [Prog.exec_bind, exec_clientMem]
    exact congrArg (fun out => (if out.1.1 = true then some out.1.2 else none, w)) hset
  rcases h with ⟨e, herr, hdirect⟩ | ⟨n, hnone, hcount, hle, hdirect⟩
  · rw [hdirect, if_pos (errno_ne_zero herr), herr, shown_failed]
    rfl
  · have hn : toInt32 (n : ℤ) = n := toInt32_natCast (by omega)
    have hpos : 0 ≤ (Outcome.status n).ret := Int.natCast_nonneg n
    rw [hdirect, if_neg (not_not_intro (Response.getErrno_eq_zero hnone)), shown, if_pos hpos]
    simp [ideal, hcount, hn, afterRemove, RemoteOp.invalidates]

/-- **One operation** shows what its system calls answer and does what they do. -/
theorem perform_eq (hinv : m.lz4.Inverse) (htransfers : Transfers m.os) {op : RemoteOp}
    (hsize : op.size < 2 ^ 31) {p : Prog SysRet Outcome}
    (hp : op.direct m.sd m.timeofday = some p) :
    (op.perform m.lz4).exec m.ideal w = shown op w (p.exec m.os w.server) := by
  cases op with
  | readdir path | getattr path stbuf => cases hp
  | rmdir path =>
    obtain rfl := Option.some.inj hp
    exact perform_plain rfl rfl (answers_onPath .rmdir (fun _ => rfl) rfl rfl)
  | unlink path =>
    obtain rfl := Option.some.inj hp
    exact perform_plain rfl rfl (answers_onPath .unlink (fun _ => rfl) rfl rfl)
  | mkdir path mode =>
    obtain rfl := Option.some.inj hp
    refine perform_plain rfl exec_fillPermissions ?_
    rw [← Permissions.toBitmask_ofMode]
    exact answers_onPath (.mkdir · _) (fun _ => rfl) rfl rfl
  | access path mask =>
    obtain rfl := Option.some.inj hp
    refine perform_plain rfl exec_fillPermissions ?_
    rw [← Permissions.toBitmask_ofMode]
    exact answers_onPath (.access · _) (fun _ => rfl) rfl rfl
  | chmod path mode =>
    obtain rfl := Option.some.inj hp
    refine perform_plain rfl exec_fillPermissions ?_
    rw [← Permissions.toBitmask_ofMode]
    exact answers_onPath (.chmod · _) (fun _ => rfl) rfl rfl
  | truncate path offset =>
    obtain rfl := Option.some.inj hp
    exact perform_plain rfl rfl (answers_onPath (.truncate · _) (fun _ => rfl) rfl rfl)
  | symlink pathTo pathFrom =>
    obtain rfl := Option.some.inj hp
    exact perform_plain rfl rfl (answers_onPath (.symlink pathTo) (fun _ => rfl) rfl rfl)
  | link pathFrom pathTo =>
    obtain rfl := Option.some.inj hp
    exact perform_plain rfl rfl (answers_onTwoPaths .link rfl rfl rfl rfl)
  | rename pathFrom pathTo =>
    obtain rfl := Option.some.inj hp
    exact perform_plain rfl rfl (answers_onTwoPaths .rename rfl rfl rfl rfl)
  | utimens path tv =>
    cases tv with
    | none =>
      obtain rfl := Option.some.inj hp
      exact perform_plain rfl rfl (answers_onPath (.utimes · _ _) (fun _ => rfl) rfl rfl)
    | some times =>
      obtain ⟨atime, mtime⟩ := times
      obtain rfl := Option.some.inj hp
      exact perform_plain rfl rfl (answers_onPath (.utimes · _ _) (fun _ => rfl) rfl rfl)
  | «open» path flags =>
    obtain rfl := Option.some.inj hp
    obtain ⟨openflags, hcreate, hflags⟩ := exec_fromBitmask flags
    rw [← hflags]
    apply perform_plain rfl
    · rw [Prog.exec_bind, exec_clientMem, hcreate]
      rfl
    · exact answers_open rfl rfl rfl
  | create path mode =>
    obtain rfl := Option.some.inj hp
    refine perform_plain rfl exec_fillPermissions ?_
    rw [← Permissions.toBitmask_ofMode]
    exact answers_create rfl rfl rfl
  | mknod path mode =>
    by_cases hmode : isFileType mode S_IFREG
    · obtain rfl := Option.some.inj ((if_pos hmode).symm.trans hp)
      have hrun : rhizofsMknod path mode = plainOperation (fun request =>
          fillPermissions mode fun permissions => { request with
            path := some path
            requesttype := .mknod
            filetype := some (.fromLocal mode)
            permissions := some permissions }) none := if_neg (by simp [hmode])
      exact perform_plain (congrArg RemoteOp.returned hrun) exec_fillPermissions
        (answers_mknod hmode rfl rfl rfl rfl)
    · obtain rfl := Option.some.inj ((if_neg hmode).symm.trans hp)
      have hrun : rhizofsMknod path mode = .ret (-EPERM) := if_pos (by simp [hmode])
      have hop : (RemoteOp.mknod path mode).perform m.lz4 = .ret (.status (-EPERM)) :=
        congrArg RemoteOp.returned hrun
      rw [hop]
      rfl
  | read path buf offset =>
    obtain rfl := Option.some.inj hp
    exact perform_read hinv htransfers hsize offset
  | write path buf offset =>
    obtain rfl := Option.some.inj hp
    exact perform_write hinv htransfers hsize offset
  | readlink path linkTarget =>
    obtain rfl := Option.some.inj hp
    exact perform_readlink
  | statfs path svfs =>
    obtain rfl := Option.some.inj hp
    exact perform_statfs

/-! ## Operations of several clients -/

end Mount

/-- An operation of the client `client` at the time `timeofday`. -/
structure ClientOp (ι : Type) where
  client : ι
  timeofday : Timeval
  op : RemoteOp

namespace ClientOp

variable {ι : Type}

/-- The system calls that the operations stand for. -/
def directAll (sd : ServeDir) : List (ClientOp ι) → Option (Prog SysRet (List Outcome))
  | [] => some (return [])
  | c :: ops => do
    let p ← c.op.direct sd c.timeofday
    let ps ← directAll sd ops
    some do
      let out ← p
      let outs ← ps
      return out :: outs

/-- The operations one after the other, each client with its own cache. -/
def performAll {S : Type} [DecidableEq ι] (m : Mount S) :
    List (ClientOp ι) → (ι → AttrCache) → S → List Outcome × S
  | [], _, s => ([], s)
  | c :: ops, caches, s =>
    let (out, w) := (c.op.perform m.lz4).exec { m with timeofday := c.timeofday }.ideal
      ⟨caches c.client, s⟩
    let (outs, s') := performAll m ops (Function.update caches c.client w.cache) w.server
    (out :: outs, s')

end ClientOp

namespace Mount

variable {S ι : Type} [DecidableEq ι] {m : Mount S}

/-- **The mount is transparent.** Operations of any clients, with the LZ4 library of `lz4.c`, show
what their system calls answer and do to the served tree what these do. -/
theorem mount_transparent {beyond : List UInt8} (hlz4 : m.lz4 = lz4Library beyond)
    (htransfers : Transfers m.os) (ops : List (ClientOp ι)) (hsize : ∀ c ∈ ops, c.op.size < 2 ^ 31)
    {p : Prog SysRet (List Outcome)} (hp : ClientOp.directAll m.sd ops = some p)
    (caches : ι → AttrCache) (s : S) : ClientOp.performAll m ops caches s = p.exec m.os s := by
  have hinv : m.lz4.Inverse := hlz4 ▸ lz4Library_inverse beyond
  induction ops generalizing p caches s with
  | nil =>
    obtain rfl := Option.some.inj hp
    rfl
  | cons c ops ih =>
    obtain ⟨hc, hops⟩ := List.forall_mem_cons.mp hsize
    obtain ⟨q, hq, h⟩ := Option.bind_eq_some_iff.mp hp
    obtain ⟨qs, hqs, h⟩ := Option.bind_eq_some_iff.mp h
    obtain rfl := Option.some.inj h
    have hone := perform_eq (m := { m with timeofday := c.timeofday })
      (w := ⟨caches c.client, s⟩) hinv htransfers hc hq
    rw [ClientOp.performAll, hone]
    simp only [shown, Prog.exec_bind]
    rw [ih hops hqs]
    rfl

theorem oneFile_transfers (path : CString) : Transfers (oneFile path) where
  read := by
    intro fd count s data h
    obtain rfl := Except.ok.inj h
    simp [ByteFile.read]
  pread := by
    intro fd count offset s data h
    obtain rfl := Except.ok.inj h
    simp [ByteFile.read]
  pwrite := by
    intro fd data offset s n h
    obtain rfl := Except.ok.inj h
    exact Nat.le_refl _

/-- One client writes, another one reads what was written. -/
theorem mount_transparent_read :
    ClientOp.performAll { single with lz4 := lz4Library [] }
      [⟨true, ⟨0, 0⟩, .write [47, 102] [7] 1⟩, ⟨false, ⟨0, 0⟩, .read [47, 102] [0, 0, 0] 0⟩,
        ⟨true, ⟨0, 0⟩, .unlink [47, 102]⟩] (fun _ => .init 1 1) [5] =
      ([.status 1, .data 2 [5, 7, 0], .status (-EACCES)], [5, 7]) := by
  rw [mount_transparent (m := { single with lz4 := lz4Library [] }) rfl (oneFile_transfers _) _
    (by simp [RemoteOp.size]) rfl]
  rfl

end Mount

end Rhizofs
