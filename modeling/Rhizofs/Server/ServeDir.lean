import Rhizofs.Message
import Rhizofs.Path

/-!
# The request handlers of the server

`servedir.c`. Each handler returns its return code and the response it has filled in. Most
handlers make a single call on one path; these are instances of `onPath`. `handle` is one round of
the loop of `ServeDir_serve`: from a received message to the response that is sent back.
-/

namespace Rhizofs

open Extern

/-- The shared directory, an absolute path from `realpath`. -/
structure ServeDir where
  directory : CString

/-- `PATH_MAX`. -/
def PATH_MAX : ℕ := 4096

/-- `default_file_creation_permissions`. -/
def defaultFileCreationPermissions : ℕ :=
  S_IRUSR ||| S_IWUSR ||| S_IRGRP ||| S_IWGRP ||| S_IROTH ||| S_IWOTH

/-- The exit of `REQ_HAS_OPTIONAL` and `REQ_HAS_OPTIONAL_PTR`. -/
def Response.refuse (response : Response) : ℤ × Response :=
  (-1, { response with errnotype := .invalidRequest })

/-- The response of `ServeDir_op_write` after `pwrite`. -/
def Response.written (response : Response) : Except Failure ℕ → Response
  | .ok bytesWritten => { response with size := some (toInt32 bytesWritten) }
  | .error e => { response.setErrno e.errno with size := some (-1) }

namespace ServeDir

/-- What a handler returns: its return code and the response. -/
abbrev Handler : Type := Prog SysRet (ℤ × Response)

/-- `ServeDir_fullpath`. -/
def fullpath (sd : ServeDir) (request : Request) : Prog SysRet (Option CString) :=
  match request.path with
  | none => return none
  | some path => mem (pathJoin sd.directory path)

/-- The common end of the handlers that make the call `op` on one path. -/
def onPath (sd : ServeDir) (request : Request) (response : Response) (op : CString → PathOp) :
    Handler := do
  let some path ← sd.fullpath request | return (-1, response)
  match ← sys (.path (op path)) with
  | .ok _ => return (0, response)
  | .error e => return (0, response.setErrno e.errno)

/-- The common end of `ServeDir_op_rename` and `ServeDir_op_link`. -/
def onTwoPaths (sd : ServeDir) (request : Request) (response : Response)
    (op : CString → CString → PathOp) : Handler := do
  let some pathTo := request.pathTo | return response.refuse
  let some pathTo ← mem (pathJoin sd.directory pathTo) | return (-1, response)
  sd.onPath request response fun pathFrom => op pathFrom pathTo

variable (lz4 : Lz4) (sd : ServeDir) (request : Request) (response : Response)

/-- `ServeDir_op_ping`. -/
def opPing : Handler := return (0, { response with requesttype := .ping })

/-- `ServeDir_op_invalid`. -/
def opInvalid : Handler :=
  return (0, { response with requesttype := .invalid, errnotype := .invalidRequest })

/-- The second loop of `ServeDir_op_readdir`: success and the response with the entries added. -/
def fillEntries (dirpath : CString) : List CString → Response → Prog SysRet (Bool × Response)
  | [], response => return (true, response)
  | name :: names, response => do
    let some entryFullpath ← mem (pathJoin dirpath name) | return (false, response)
    match ← sys (.lstat entryFullpath) with
    | .ok sb => do
      let some attrs ← Attrs.create sb (some name) | return (false, response)
      fillEntries dirpath names
        { response with directoryEntries := response.directoryEntries ++ [attrs] }
    | .error e => fillEntries dirpath names (response.setErrno e.errno)

/-- `ServeDir_op_readdir`. On failure the entries are freed, but still counted as present. -/
def opReaddir : Handler := do
  let response := { response with requesttype := .readdir, directoryEntries := [] }
  let some dirpath ← sd.fullpath request | return (-1, response)
  match ← sys (.opendir dirpath) with
  | .error e => return (0, response.setErrno e.errno)
  | .ok _ => do
    let (counted, _) ← sys (.readdir dirpath)
    let ok ← sys (.alloc (.entries counted.length))
    if !ok then
      sys (.closedir dirpath)
      return (-1, { response with errnotype := .nomem })
    sys (.rewinddir dirpath)
    let (names, _) ← sys (.readdir dirpath)
    let (done, response) ← fillEntries dirpath names response
    sys (.closedir dirpath)
    return (if done then 0 else -1, response)

/-- `ServeDir_op_rmdir`. -/
def opRmdir : Handler := sd.onPath request { response with requesttype := .rmdir } .rmdir

/-- `ServeDir_op_unlink`. -/
def opUnlink : Handler := sd.onPath request { response with requesttype := .unlink } .unlink

/-- `ServeDir_op_access`. -/
def opAccess : Handler :=
  let response := { response with requesttype := .access }
  match request.permissions with
  | none => return response.refuse
  | some permissions => sd.onPath request response (.access · permissions.toBitmask)

/-- `ServeDir_op_rename`. -/
def opRename : Handler := sd.onTwoPaths request { response with requesttype := .rename } .rename

/-- `ServeDir_op_link`. -/
def opLink : Handler := sd.onTwoPaths request { response with requesttype := .link } .link

/-- `ServeDir_op_symlink`, whose response has the type of a LINK. -/
def opSymlink : Handler :=
  let response := { response with requesttype := .link }
  match request.pathTo with
  | none => return response.refuse
  | some pathTo => sd.onPath request response (.symlink pathTo)

/-- `ServeDir_op_readlink`. -/
def opReadlink : Handler := do
  let response := { response with requesttype := .readlink }
  let some path ← sd.fullpath request | return (-1, response)
  match ← sys (.readlink path (PATH_MAX - 1)) with
  | .error e => return (0, response.setErrno e.errno)
  | .ok linkTarget => do
    let ok ← sys (.alloc (.bytes (linkTarget.length + 1)))
    if !ok then return (-1, response)
    return (0, { response with linkTarget := some linkTarget })

/-- `ServeDir_op_mkdir`. -/
def opMkdir : Handler :=
  let response := { response with requesttype := .mkdir }
  match request.permissions with
  | none => return response.refuse
  | some permissions => sd.onPath request response (.mkdir · permissions.toBitmask)

/-- `ServeDir_op_getattr`. -/
def opGetattr : Handler := do
  let response := { response with requesttype := .getattr }
  let some path ← sd.fullpath request | return (-1, response)
  match ← sys (.lstat path) with
  | .error e => return (0, response.setErrno e.errno)
  | .ok sb => do
    let some attrs ← Attrs.create sb none | return (-1, response)
    return (0, { response with attrs := some attrs })

/-- `ServeDir_op_open`. -/
def opOpen : Handler := do
  let response := { response with requesttype := .open }
  let some openflags := request.openflags | return response.refuse
  let some path ← sd.fullpath request | return (-1, response)
  match ← sys (.open path openflags.toBitmask defaultFileCreationPermissions) with
  | .error e => return (-1, response.setErrno e.errno)
  | .ok fd => do
    let _ ← sys (.close fd)
    return (0, response)

/-- The read of `ServeDir_op_read`: `read` at the beginning, `pread` elsewhere. -/
def readAt (fd : ℕ) (size offset : ℤ) : Prog SysRet (Except Failure (List UInt8)) :=
  if offset = 0 then sys (.read fd (toSize size)) else sys (.pread fd (toSize size) offset)

/-- `ServeDir_op_read`. -/
def opRead : Handler := do
  let response := { response with requesttype := .read }
  let some size := request.size | return response.refuse
  let some offset := request.offset | return response.refuse
  let some path ← sd.fullpath request | return (-1, response)
  match ← sys (.open path O_RDONLY 0) with
  | .error e => return (0, response.setErrno e.errno)
  | .ok fd => do
    let ok ← sys (.alloc (.bytes (toSize (toInt32 size))))
    if !ok then
      let _ ← sys (.close fd)
      return (-1, response)
    match ← readAt fd size offset with
    | .error e => do
      let _ ← sys (.close fd)
      return (0, response.setErrno e.errno)
    | .ok databuf => do
      let (ok, response) ← mem (response.setData lz4 databuf)
      let _ ← sys (.close fd)
      return (if ok then 0 else -1, response)

/-- The bytes `ServeDir_op_write` passes to `pwrite`, nothing when the block cannot be decoded or
does not have the requested size. -/
def writeData (datablock : DataBlock) (size : ℤ) : Prog MemRet (Option (List UInt8)) := do
  let (bytesInBlock, data) ← datablock.getData lz4
  return if bytesInBlock ≠ -1 ∧ bytesInBlock = size then data.map (·.take (toSize size)) else none

/-- `ServeDir_op_write`. -/
def opWrite : Handler := do
  let response := { response with requesttype := .write }
  let some size := request.size | return response.refuse
  let some offset := request.offset | return response.refuse
  if request.hasData = -1 then return response.refuse
  -- `hasData` is -1 without a block
  let some datablock := request.datablock | return response.refuse
  let some path ← sd.fullpath request | return (-1, response)
  match ← sys (.open path (O_CREAT ||| O_WRONLY) defaultFileCreationPermissions) with
  | .error e => return (0, response.setErrno e.errno)
  | .ok fd => do
    match ← mem (writeData lz4 datablock size) with
    | none => do
      let _ ← sys (.close fd)
      return (-1, response)
    | some data => do
      let bytesWritten ← sys (.pwrite fd data offset)
      let response := response.written bytesWritten
      match ← sys (.close fd) with
      | .error _ => do
        let _ ← sys (.close fd)
        return (-1, response)
      | .ok _ => do
        let now ← sys .gettimeofday
        let _ ← sys (.path (.utimes path now now))
        return (0, response)

/-- `ServeDir_op_create`, which lets the owner write to the new file. -/
def opCreate : Handler := do
  let response := { response with requesttype := .create }
  let some permissions := request.permissions | return response.refuse
  let some path ← sd.fullpath request | return (-1, response)
  match ← sys (.creat path (permissions.toBitmask ||| S_IWUSR)) with
  | .error e => return (-1, response.setErrno e.errno)
  | .ok fd => do
    let _ ← sys (.close fd)
    return (0, response)

/-- `ServeDir_op_truncate`. -/
def opTruncate : Handler :=
  let response := { response with requesttype := .truncate }
  match request.offset with
  | none => return response.refuse
  | some offset => sd.onPath request response (.truncate · offset)

/-- `ServeDir_op_chmod`. -/
def opChmod : Handler :=
  let response := { response with requesttype := .chmod }
  match request.permissions with
  | none => return response.refuse
  | some permissions => sd.onPath request response (.chmod · permissions.toBitmask)

/-- `ServeDir_op_utimens`. -/
def opUtimens : Handler :=
  let response := { response with requesttype := .utimens }
  match request.timestamps with
  | none => return response.refuse
  | some timestamps => sd.onPath request response (.utimes ·
      ⟨timestamps.accessSec, timestamps.accessUsec.getD 0⟩
      ⟨timestamps.modifySec, timestamps.modifyUsec.getD 0⟩)

/-- `ServeDir_op_mknod`, which makes regular files only. -/
def opMknod : Handler :=
  let response := { response with requesttype := .mknod }
  match request.permissions, request.filetype with
  | some permissions, some filetype =>
    let mode := permissions.toBitmask ||| filetype.toLocal
    if isFileType mode S_IFREG then sd.onPath request response (.mknod · mode)
    else return (0, response.setErrno EPERM)
  | _, _ => return response.refuse

/-- `ServeDir_op_statfs`. -/
def opStatfs : Handler := do
  let response := { response with requesttype := .statfs }
  let some path ← sd.fullpath request | return (-1, response)
  match ← sys (.statvfs path) with
  | .error e => return (0, response.setErrno e.errno)
  | .ok stfs => do
    let some statfs ← mem (StatFs.create stfs) | return (-1, response)
    return (0, { response with statfs := some statfs })

/-- The switch of `ServeDir_serve`. -/
def dispatch : Handler :=
  match request.requesttype with
  | .ping => opPing response
  | .readdir => opReaddir sd request response
  | .rmdir => opRmdir sd request response
  | .unlink => opUnlink sd request response
  | .access => opAccess sd request response
  | .rename => opRename sd request response
  | .mkdir => opMkdir sd request response
  | .getattr => opGetattr sd request response
  | .open => opOpen sd request response
  | .read => opRead lz4 sd request response
  | .write => opWrite lz4 sd request response
  | .create => opCreate sd request response
  | .truncate => opTruncate sd request response
  | .chmod => opChmod sd request response
  | .utimens => opUtimens sd request response
  | .link => opLink sd request response
  | .symlink => opSymlink sd request response
  | .readlink => opReadlink sd request response
  | .mknod => opMknod sd request response
  | .statfs => opStatfs sd request response
  | .stat | .unknown | .invalid | .other _ => opInvalid response

/-- One round of `ServeDir_serve` for a message, which is nothing when it does not unpack:
`op_rc` and the response sent back, or nothing when there is no memory for a response. -/
def handle : Option Request → Prog SysRet (Option (ℤ × Response))
  | none => do
    let some response ← mem Response.create | return none
    return some (0, { response with requesttype := .unknown, errnotype := .unserializable })
  | some request => do
    let some response ← mem Response.create | return none
    return some (← dispatch lz4 sd request response)

end ServeDir

end Rhizofs
