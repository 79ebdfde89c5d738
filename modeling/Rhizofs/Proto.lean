import Rhizofs.Libc

/-!
# The messages of the protocol

The messages of `proto/rhizofs.proto` as the C code sees them after unpacking: a required field is
a field, an optional one an `Option`, a repeated one a list. Unpacking does not check the range of
an enumeration, so each enumeration has a constructor `other` for the values outside it. Packing
and unpacking are inverse to each other, so a message that crosses the wire arrives as it is.
-/

namespace Rhizofs

/-- `enum RequestType`. -/
inductive RequestType
  | stat | mkdir | unknown | ping | readdir | invalid | rmdir | unlink | access | rename | getattr
  | «open» | read | write | create | truncate | chmod | utimens | link | symlink | readlink
  | mknod | statfs
  | other (n : ℤ)
  deriving DecidableEq

/-- `enum Errno`. -/
inductive Errno
  | none | unknown | perm | noent | nomem | acces | busy | exist | notdir | isdir | inval | fbig
  | nospc | rofs | spipe | invalidRequest | unserializable
  | other (n : ℤ)
  deriving DecidableEq

/-- `enum CompressionType`. -/
inductive CompressionType
  | none | lz4
  | other (n : ℤ)
  deriving DecidableEq

/-- `enum FileType`. -/
inductive FileType
  | directory | characterDevice | blockDevice | regularFile | fifo | socket | symlink
  | other (n : ℤ)
  deriving DecidableEq

/-- `message Version`. -/
structure Version where
  major : ℤ
  minor : ℤ
  patch : Option ℤ
  deriving DecidableEq

/-- `message PermissionSet`. -/
structure PermissionSet where
  read : Bool
  write : Bool
  execute : Bool
  deriving DecidableEq

/-- `message Permissions`. Its three fields are required, so an unpacked message has them all. -/
structure Permissions where
  owner : PermissionSet
  group : PermissionSet
  world : PermissionSet
  deriving DecidableEq

/-- `message OpenFlags`. -/
structure OpenFlags where
  rdonly : Bool
  wronly : Bool
  rdwr : Bool
  creat : Bool
  excl : Bool
  trunc : Bool
  append : Bool
  deriving DecidableEq

/-- `message TimeSet`. -/
structure TimeSet where
  accessSec : ℤ
  modifySec : ℤ
  creationSec : Option ℤ
  accessUsec : Option ℤ
  modifyUsec : Option ℤ
  creationUsec : Option ℤ
  deriving DecidableEq

/-- `message DataBlock`: `size` is the uncompressed size of the data. -/
structure DataBlock where
  size : ℤ
  data : List UInt8
  compression : CompressionType
  deriving DecidableEq

/-- `message Attrs`. -/
structure Attrs where
  size : ℤ
  isOwner : Bool
  isInGroup : Bool
  timestamps : TimeSet
  filetype : FileType
  permissions : Permissions
  name : Option CString
  deriving DecidableEq

/-- `message StatFs`. -/
structure StatFs where
  bsize : ℤ
  frsize : ℤ
  blocks : ℤ
  bfree : ℤ
  bavail : ℤ
  files : ℤ
  ffree : ℤ
  favail : ℤ
  fsid : ℤ
  flag : ℤ
  namemax : ℤ
  deriving DecidableEq

/-- `message Request`. -/
structure Request where
  requesttype : RequestType
  version : Version
  path : Option CString := .none
  permissions : Option Permissions := .none
  pathTo : Option CString := .none
  openflags : Option OpenFlags := .none
  datablock : Option DataBlock := .none
  size : Option ℤ := .none
  offset : Option ℤ := .none
  filetype : Option FileType := .none
  timestamps : Option TimeSet := .none
  deriving DecidableEq

/-- `message Response`. -/
structure Response where
  requesttype : RequestType
  version : Version
  errnotype : Errno
  directoryEntries : List Attrs := []
  attrs : Option Attrs := .none
  datablock : Option DataBlock := .none
  size : Option ℤ := .none
  linkTarget : Option CString := .none
  statfs : Option StatFs := .none
  deriving DecidableEq

/-- The version number of this code. -/
def RHI_VERSION : Version := ⟨0, 2, some 7⟩

end Rhizofs
