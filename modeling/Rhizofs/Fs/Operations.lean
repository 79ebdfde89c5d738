import Rhizofs.Fs.AttrCache
import Rhizofs.Message
import Rhizofs.Path

/-!
# The operations of the client

The FUSE operations of `rhizofs.c`, over the calls they make to the rest of the client and to their
surroundings (`ClientCall`): the exchange with the server, the attribute cache, the allocator, the
clock, the FUSE context and the directory filler. An operation returns its value and, where the
caller passed a buffer, that buffer afterwards.

They all have one shape, that of the macros `OP_INIT` and `OP_COMMUNICATE` with the label `error`;
it is `operation`. The variable `returned_err` that the macros share is passed along: it is `EIO`
while the request is filled in and what `Rhizofs_communicate` stored once that was called.
-/

namespace Rhizofs

open Extern

/-- What an operation of the client calls. -/
inductive ClientCall
  | alloc (c : Chunk)
  /-- `Rhizofs_communicate` with a pooled socket: the response, if any, and `returned_err`. -/
  | communicate (request : Request)
  | time
  | gettimeofday
  /-- The user and the group of the calling process. -/
  | fuseContext
  /-- The directory filler: whether it asks to stop. -/
  | filler (name : CString)
  | cacheCopyStat (path : CString)
  | cacheSet (path : CString) (cacheEntry : CacheEntry)
  | cacheRemove (path : CString)

/-- The answers. -/
abbrev ClientRet : ClientCall → Type
  | .alloc _ => Bool
  | .communicate _ => Option Response × ℤ
  | .time => ℤ
  | .gettimeofday => Timeval
  | .fuseContext => ℕ × ℕ
  | .filler _ => Bool
  | .cacheCopyStat _ => Option Stat
  | .cacheSet _ _ => Bool
  | .cacheRemove _ => Unit

/-- Make one call. -/
abbrev client (c : ClientCall) : Prog ClientRet (ClientRet c) := Prog.perform c

/-- Run a function that only allocates as part of the client. -/
def clientMem {α : Type} (p : Prog MemRet α) : Prog ClientRet α :=
  p.translate fun c => client (.alloc c)

@[simp] theorem clientMem_ret {α : Type} (a : α) : clientMem (.ret a) = .ret a := rfl

@[simp] theorem clientMem_call {α : Type} (c : Chunk) (k : MemRet c → Prog MemRet α) :
    clientMem (.call c k) = .call (.alloc c) fun ok => clientMem (k ok) := rfl

@[simp] theorem clientMem_bind {α β : Type} (p : Prog MemRet α) (f : α → Prog MemRet β) :
    clientMem (p >>= f) = clientMem p >>= fun a => clientMem (f a) := Prog.translate_bind _ p f

def OP_STD_RETURNED_ERR : ℤ := EIO

/-- `OP_COMMUNICATE`: the response, or the jump to `error`, with the value of `returned_err`. -/
def opCommunicate (request : Request) : Prog ClientRet (Option Response × ℤ) := do
  let (response, returnedErr) ← client (.communicate request)
  if returnedErr ≠ 0 then return (none, returnedErr)
  return (response, returnedErr)

/-- The shape of an operation: `OP_INIT`, filling in the request, `OP_COMMUNICATE`, and what is done
with the response. `failed` is the exit at the label `error`, for a value of `returned_err`. -/
def operation {α : Type} (fill : Request → Prog ClientRet (Option Request)) (failed : ℤ → α)
    (use : Response → ℤ → Prog ClientRet α) : Prog ClientRet α := do
  let some request ← clientMem Request.init | return failed ENOMEM
  let some request ← fill request | return failed OP_STD_RETURNED_ERR
  match ← opCommunicate request with
  | (none, returnedErr) => return failed returnedErr
  | (some response, returnedErr) => use response returnedErr

/-- The conversion of attributes for a calling process: success and the `struct stat`. -/
def Attrs.toStat (attrs : Attrs) (uid gid : ℕ) : Bool × Stat :=
  let (ok, stbuf) := attrs.copyToStat
  if !ok then (false, stbuf)
  else (true, { stbuf with
    stUid := if attrs.isOwner then uid else stbuf.stUid
    stGid := if attrs.isInGroup then gid else stbuf.stGid })

/-- `Rhizofs_convert_attrs_stat`. -/
def rhizofsConvertAttrsStat (attrs : Attrs) : Prog ClientRet (Bool × Stat) := do
  let (uid, gid) ← client .fuseContext
  return attrs.toStat uid gid

/-- `CacheEntry_create`. -/
def cacheEntryCreate : Prog ClientRet Bool := client (.alloc .record)

/-! ## Reading attributes -/

/-- What `Rhizofs_getattr_remote` does with the response. -/
def getattrRemoteUse (path : CString) (stbuf : Stat) (response : Response) (returnedErr : ℤ) :
    Prog ClientRet (ℤ × Stat) := do
  let some attrs := response.attrs | return (-returnedErr, stbuf)
  let (ok, stbuf) ← rhizofsConvertAttrsStat attrs
  if !ok then return (-returnedErr, stbuf)
  let ok ← client (.alloc (.bytes (path.length + 1)))
  if !ok then return (-returnedErr, stbuf)
  let ok ← cacheEntryCreate
  if !ok then return (-returnedErr, stbuf)
  let currentTime ← client .time
  if currentTime = -1 then return (-returnedErr, stbuf)
  let ok ← client (.cacheSet path ⟨stbuf, currentTime⟩)
  if !ok then return (-returnedErr, stbuf)
  return (0, stbuf)

/-- `Rhizofs_getattr_remote`: the return value and the buffer. -/
def rhizofsGetattrRemote (path : CString) (stbuf : Stat) : Prog ClientRet (ℤ × Stat) :=
  operation (fun request => return some { request with path := some path, requesttype := .getattr })
    (fun returnedErr => (-returnedErr, stbuf)) (getattrRemoteUse path stbuf)

/-- `Rhizofs_getattr`. -/
def rhizofsGetattr (path : CString) (stbuf : Stat) : Prog ClientRet (ℤ × Stat) := do
  match ← client (.cacheCopyStat path) with
  | none => rhizofsGetattrRemote path stbuf
  | some stbuf => return (0, stbuf)

/-- The second half of a round of the loop of `Rhizofs_readdir`: the entry is added to the cache,
or not. -/
def readdirCache (path : CString) (currentTime : ℤ) (attrs : Attrs) (name : CString) :
    Prog ClientRet Bool := do
  let some pathEntry ← clientMem (pathJoin path name) | return false
  let ok ← cacheEntryCreate
  if !ok then return false
  let (ok, statResult) ← rhizofsConvertAttrsStat attrs
  if !ok then return false
  client (.cacheSet pathEntry ⟨statResult, currentTime⟩)

/-- The loop of `Rhizofs_readdir`: whether it ended without a jump to `error`. -/
def readdirEntries (path : CString) (currentTime : ℤ) : List Attrs → Prog ClientRet Bool
  | [] => return true
  | attrs :: entries => do
    let some name := attrs.name | return false
    let stop ← client (.filler name)
    if stop then return true
    let ok ← readdirCache path currentTime attrs name
    if !ok then return false
    readdirEntries path currentTime entries

/-- `Rhizofs_readdir`. -/
def rhizofsReaddir (path : CString) : Prog ClientRet ℤ :=
  operation (fun request => return some { request with path := some path, requesttype := .readdir })
    (fun returnedErr => -returnedErr) fun response returnedErr => do
    let currentTime ← client .time
    if currentTime = -1 then return -returnedErr
    let ok ← readdirEntries path currentTime response.directoryEntries
    return if ok then 0 else -returnedErr

/-! ## Reading and writing files -/

/-- `Rhizofs_read` into the buffer `buf`. -/
def rhizofsRead (lz4 : Lz4) (path : CString) (buf : List UInt8) (offset : ℤ) :
    Prog ClientRet (ℤ × List UInt8) :=
  operation (fun request => return some { request with
      path := some path
      size := some buf.length
      offset := some offset
      requesttype := .read })
    (fun returnedErr => (-returnedErr, buf)) fun response returnedErr =>
    match response.datablock with
    | none => return (-returnedErr, buf)
    | some datablock =>
      if response.hasData = -1 then return (-returnedErr, buf)
      else clientMem (datablock.getDataNoalloc lz4 buf buf.length)

/-- `Rhizofs_write` of the bytes `buf`. -/
def rhizofsWrite (lz4 : Lz4) (path : CString) (buf : List UInt8) (offset : ℤ) : Prog ClientRet ℤ :=
  operation (fun request => do
      let (ok, request) ← clientMem (Request.setData lz4 { request with
        path := some path
        size := some buf.length
        offset := some offset
        requesttype := .write } buf)
      return if ok then some request else none)
    (fun returnedErr => -returnedErr) fun response returnedErr => do
    client (.cacheRemove path)
    let some size := response.size | return -returnedErr
    return toInt32 size

/-! ## The other operations on one path -/

/-- An operation whose response carries no payload. `invalidate` is the path it removes from the
cache on success. -/
def plainOperation (fill : Request → Prog ClientRet (Option Request))
    (invalidate : Option CString) : Prog ClientRet ℤ :=
  operation fill (fun returnedErr => -returnedErr) fun _ _ => do
    match invalidate with
    | none => return 0
    | some path => do
      client (.cacheRemove path)
      return 0

/-- Fill in a request that carries permissions. -/
def fillPermissions (mode : ℕ) (set : Permissions → Request) : Prog ClientRet (Option Request) := do
  let some permissions ← clientMem (Permissions.create mode) | return none
  return some (set permissions)

/-- `Rhizofs_rmdir`. -/
def rhizofsRmdir (path : CString) : Prog ClientRet ℤ :=
  plainOperation (fun request => return some { request with
    path := some path
    requesttype := .rmdir }) (some path)

/-- `Rhizofs_mkdir`. -/
def rhizofsMkdir (path : CString) (mode : ℕ) : Prog ClientRet ℤ :=
  plainOperation (fun request => fillPermissions mode fun permissions => { request with
    path := some path
    requesttype := .mkdir
    permissions := some permissions }) none

/-- `Rhizofs_unlink`. -/
def rhizofsUnlink (path : CString) : Prog ClientRet ℤ :=
  plainOperation (fun request => return some { request with
    path := some path
    requesttype := .unlink }) (some path)

/-- `Rhizofs_access`. -/
def rhizofsAccess (path : CString) (mask : ℕ) : Prog ClientRet ℤ :=
  plainOperation (fun request => fillPermissions mask fun permissions => { request with
    path := some path
    requesttype := .access
    permissions := some permissions }) none

/-- `Rhizofs_open`. -/
def rhizofsOpen (path : CString) (flags : ℕ) : Prog ClientRet ℤ :=
  plainOperation (fun request => do
    let some openflags ← clientMem (OpenFlags.fromBitmask flags) | return none
    return some { request with
      path := some path
      requesttype := .open
      openflags := some openflags }) none

/-- `Rhizofs_create`. -/
def rhizofsCreate (path : CString) (createMode : ℕ) : Prog ClientRet ℤ :=
  plainOperation (fun request => fillPermissions createMode fun permissions => { request with
    path := some path
    requesttype := .create
    permissions := some permissions }) none

/-- `Rhizofs_truncate`. -/
def rhizofsTruncate (path : CString) (offset : ℤ) : Prog ClientRet ℤ :=
  plainOperation (fun request => return some { request with
    path := some path
    offset := some offset
    requesttype := .truncate }) (some path)

/-- `Rhizofs_chmod`. -/
def rhizofsChmod (path : CString) (accessMode : ℕ) : Prog ClientRet ℤ :=
  plainOperation (fun request => fillPermissions accessMode fun permissions => { request with
    path := some path
    requesttype := .chmod
    permissions := some permissions }) (some path)

/-- The times of `Rhizofs_utimens`: those passed, or else the current time. -/
def utimensTimes (timestamps : TimeSet) : Option (Timespec × Timespec) → Prog ClientRet TimeSet
  | some (access, modify) => return { timestamps with
      accessSec := access.tvSec
      accessUsec := some (toInt32 (access.tvNsec.tdiv 1000))
      modifySec := modify.tvSec
      modifyUsec := some (toInt32 (modify.tvNsec.tdiv 1000)) }
  | none => do
    let now ← client .gettimeofday
    return { timestamps with
      accessSec := now.tvSec
      accessUsec := some (toInt32 now.tvUsec)
      modifySec := now.tvSec
      modifyUsec := some (toInt32 now.tvUsec) }

/-- `Rhizofs_utimens`. -/
def rhizofsUtimens (path : CString) (tv : Option (Timespec × Timespec)) : Prog ClientRet ℤ :=
  plainOperation (fun request => do
    let some timestamps ← clientMem TimeSet.create | return none
    let timestamps ← utimensTimes timestamps tv
    return some { request with
      path := some path
      requesttype := .utimens
      timestamps := some timestamps }) (some path)

/-- `Rhizofs_mknod`. -/
def rhizofsMknod (path : CString) (mode : ℕ) : Prog ClientRet ℤ :=
  if !isFileType mode S_IFREG then return -EPERM
  else plainOperation (fun request => fillPermissions mode fun permissions => { request with
    path := some path
    requesttype := .mknod
    filetype := some (.fromLocal mode)
    permissions := some permissions }) none

/-- `Rhizofs_chown`. -/
def rhizofsChown : Prog ClientRet ℤ := return -ENOTSUP

/-! ## Two paths -/

/-- `Rhizofs_link`. -/
def rhizofsLink (pathFrom pathTo : CString) : Prog ClientRet ℤ :=
  plainOperation (fun request => return some { request with
    path := some pathFrom
    pathTo := some pathTo
    requesttype := .link }) none

/-- `Rhizofs_rename`. -/
def rhizofsRename (pathFrom pathTo : CString) : Prog ClientRet ℤ :=
  plainOperation (fun request => return some { request with
    path := some pathFrom
    pathTo := some pathTo
    requesttype := .rename }) (some pathFrom)

/-- `Rhizofs_symlink`. -/
def rhizofsSymlink (pathTo pathFrom : CString) : Prog ClientRet ℤ :=
  plainOperation (fun request => return some { request with
    path := some pathFrom
    pathTo := some pathTo
    requesttype := .symlink }) none

/-! ## Other payloads -/

/-- `strncpy` of `src` into a buffer of `len` bytes, followed by a NUL in the last of them. -/
def copyTerminated (src : CString) (len : ℕ) : List UInt8 :=
  ((src ++ List.replicate len 0).take len).set (len - 1) 0

/-- `Rhizofs_readlink` into the buffer `linkTarget`. -/
def rhizofsReadlink (path : CString) (linkTarget : List UInt8) :
    Prog ClientRet (ℤ × List UInt8) :=
  operation
    (fun request => return some { request with path := some path, requesttype := .readlink })
    (fun returnedErr => (-returnedErr, linkTarget)) fun response returnedErr => do
    let some target := response.linkTarget | return (-returnedErr, linkTarget)
    return (0, copyTerminated target linkTarget.length)

/-- The `struct statvfs` of a response. -/
def StatFs.toStatVfs (statfs : StatFs) : StatVfs :=
  { fBsize := statfs.bsize
    fFrsize := statfs.frsize
    fBlocks := statfs.blocks
    fBfree := statfs.bfree
    fBavail := statfs.bavail
    fFiles := statfs.files
    fFfree := statfs.ffree
    fFavail := statfs.favail
    fFsid := statfs.fsid
    fFlag := statfs.flag
    fNamemax := statfs.namemax }

/-- `Rhizofs_statfs`. -/
def rhizofsStatfs (path : CString) (svfs : StatVfs) : Prog ClientRet (ℤ × StatVfs) :=
  operation (fun request => return some { request with path := some path, requesttype := .statfs })
    (fun returnedErr => (-returnedErr, svfs)) fun response returnedErr => do
    let some statfs := response.statfs | return (-returnedErr, svfs)
    return (0, statfs.toStatVfs)

end Rhizofs
