import Rhizofs.Proto
import Rhizofs.Server.Syscall

/-!
# Mapping between local and protocol values

`mapping.c` with the group lookup of `posix.c`: error numbers, permissions, open flags, file
types, file attributes and file system statistics, each in both directions where the code has
both.

* `Errno.fromLocal_eq_none_iff`, `Errno.toLocal_eq_zero_iff`: only the absence of an error is
  mapped to the absence of an error.
* `Errno.toLocal_fromLocal`: what becomes of an error number on its way.
-/

namespace Rhizofs

open Extern

/-! ## Error numbers -/

/-- `errno_map`: protocol value and local value, searched from the front. -/
def errnoMap : List (Errno × ℤ) :=
  [(.none, 0), (.perm, EPERM), (.noent, ENOENT), (.nomem, ENOMEM), (.acces, EACCES),
    (.busy, EBUSY), (.exist, EEXIST), (.notdir, ENOTDIR), (.isdir, EISDIR), (.inval, EINVAL),
    (.fbig, EFBIG), (.nospc, ENOSPC), (.rofs, EROFS), (.spipe, ESPIPE), (.unknown, EIO),
    (.invalidRequest, EINVAL), (.unserializable, EIO)]

/-- `Errno_from_local`. -/
def Errno.fromLocal (lerrno : ℤ) : Errno :=
  match errnoMap.find? fun pair => pair.2 == lerrno with
  | .some pair => pair.1
  | .none => .unknown

/-- `Errno_to_local`. -/
def Errno.toLocal (perrno : Errno) : ℤ :=
  match errnoMap.find? fun pair => pair.1 == perrno with
  | .some pair => pair.2
  | .none => EIO

theorem Errno.fromLocal_eq_none_iff (lerrno : ℤ) : fromLocal lerrno = .none ↔ lerrno = 0 := by
  constructor
  · intro h
    unfold fromLocal at h
    split at h
    · rename_i pair hfind
      have hmem := List.mem_of_find?_eq_some hfind
      have hval : pair.2 = lerrno := by simpa using List.find?_some hfind
      have hzero : ∀ q ∈ errnoMap, q.1 = .none → q.2 = 0 := by decide
      exact hval ▸ hzero pair hmem h
    · cases h
  · rintro rfl
    rfl

theorem Errno.toLocal_eq_zero_iff (perrno : Errno) : toLocal perrno = 0 ↔ perrno = .none := by
  constructor
  · intro h
    unfold toLocal at h
    split at h
    · rename_i pair hfind
      have hmem := List.mem_of_find?_eq_some hfind
      have hval : pair.1 = perrno := by simpa using List.find?_some hfind
      have hzero : ∀ q ∈ errnoMap, q.2 = 0 → q.1 = .none := by decide
      exact hval ▸ hzero pair hmem h
    · cases h
  · rintro rfl
    rfl

/-- The local error numbers of the table survive the message, and all others arrive as `EIO`. -/
theorem Errno.toLocal_fromLocal (lerrno : ℤ) :
    toLocal (fromLocal lerrno) = if lerrno ∈ errnoMap.map Prod.snd then lerrno else EIO := by
  unfold fromLocal
  split
  · rename_i pair hfind
    have hmem := List.mem_of_find?_eq_some hfind
    have hval : pair.2 = lerrno := by simpa using List.find?_some hfind
    have hback : ∀ q ∈ errnoMap, toLocal q.1 = q.2 := by decide
    rw [hback pair hmem, hval, if_pos (hval ▸ List.mem_map_of_mem hmem)]
  · rename_i hfind
    have hnot : lerrno ∉ errnoMap.map Prod.snd := by
      intro hmem
      obtain ⟨pair, hpair, hval⟩ := List.mem_map.mp hmem
      exact absurd (beq_iff_eq.mpr hval) (List.find?_eq_none.mp hfind pair hpair)
    rw [if_neg hnot]
    rfl

theorem Errno.toLocal_nonneg (perrno : Errno) : 0 ≤ toLocal perrno := by
  unfold toLocal
  split
  · rename_i pair hfind
    have hall : ∀ q ∈ errnoMap, 0 ≤ q.2 := by decide
    exact hall pair (List.mem_of_find?_eq_some hfind)
  · decide

/-! ## Permissions -/

/-- `PermissionSet_create`. -/
def PermissionSet.create : Prog MemRet (Option PermissionSet) := do
  let ok ← alloc .record
  if !ok then return none
  return some { read := false, write := false, execute := false }

/-- The bits `r`, `w` and `x` of `mode` stored in an initialized set. -/
def PermissionSet.ofBits (mode r w x : ℕ) : PermissionSet :=
  { read := mode &&& r != 0, write := mode &&& w != 0, execute := mode &&& x != 0 }

/-- The permission bits of `mode`. -/
def Permissions.ofMode (mode : ℕ) : Permissions :=
  { owner := .ofBits mode S_IRUSR S_IWUSR S_IXUSR
    group := .ofBits mode S_IRGRP S_IWGRP S_IXGRP
    world := .ofBits mode S_IROTH S_IWOTH S_IXOTH }

/-- `Permissions_create`. -/
def Permissions.create (mode : ℕ) : Prog MemRet (Option Permissions) := do
  let ok ← alloc .record
  if !ok then return none
  let some _ ← PermissionSet.create | return none
  let some _ ← PermissionSet.create | return none
  let some _ ← PermissionSet.create | return none
  return some (.ofMode mode)

/-- The bits of a permission set. -/
def PermissionSet.toBits (permset : PermissionSet) (r w x : ℕ) : ℕ :=
  (if permset.read then r else 0) ||| (if permset.write then w else 0) |||
    (if permset.execute then x else 0)

/-- `Permissions_to_bitmask`. It fails only on a missing set, and the sets are required fields. -/
def Permissions.toBitmask (permissions : Permissions) : ℕ :=
  permissions.owner.toBits S_IRUSR S_IWUSR S_IXUSR |||
    permissions.group.toBits S_IRGRP S_IWGRP S_IXGRP |||
    permissions.world.toBits S_IROTH S_IWOTH S_IXOTH

/-- Permissions survive the message. -/
theorem Permissions.toBitmask_ofMode (mode : ℕ) : (ofMode mode).toBitmask = mode &&& 0o777 := by
  have hmask : ofMode mode = ofMode (mode &&& 0o777) := by
    simp only [ofMode, PermissionSet.ofBits, Nat.and_assoc]
    rfl
  have hlt : mode &&& 0o777 < 512 := lt_of_le_of_lt Nat.and_le_right (by decide)
  rw [hmask]
  generalize mode &&& 0o777 = n at hlt
  revert n
  decide +kernel

/-! ## File types and open flags -/

/-- `FileType_to_local`. -/
def FileType.toLocal : FileType → ℕ
  | .directory => S_IFDIR
  | .characterDevice => S_IFCHR
  | .blockDevice => S_IFBLK
  | .fifo => S_IFIFO
  | .symlink => S_IFLNK
  | .regularFile => S_IFREG
  | .socket => S_IFSOCK
  | .other _ => S_IFREG

/-- `FileType_from_local`. -/
def FileType.fromLocal (mode : ℕ) : FileType :=
  if isFileType mode S_IFDIR then .directory
  else if isFileType mode S_IFLNK then .symlink
  else if isFileType mode S_IFBLK then .blockDevice
  else if isFileType mode S_IFIFO then .fifo
  else if isFileType mode S_IFSOCK then .socket
  else if isFileType mode S_IFREG then .regularFile
  else if isFileType mode S_IFCHR then .characterDevice
  else .regularFile

/-- The file types of POSIX. -/
def fileTypes : List ℕ := [S_IFSOCK, S_IFLNK, S_IFREG, S_IFBLK, S_IFDIR, S_IFCHR, S_IFIFO]

/-- A file type survives the message. -/
theorem FileType.toLocal_fromLocal {mode type : ℕ} (htype : type ∈ fileTypes)
    (h : isFileType mode type) : (fromLocal mode).toLocal = type := by
  have hmode : mode &&& S_IFMT = type := by simpa [isFileType] using h
  unfold fromLocal isFileType
  rw [hmode]
  clear h hmode
  revert type
  decide

theorem FileType.toLocal_and (filetype : FileType) :
    filetype.toLocal &&& S_IFMT = filetype.toLocal ∧ filetype.toLocal &&& 0o777 = 0 := by
  have h : ∀ type ∈ fileTypes, type &&& S_IFMT = type ∧ type &&& 0o777 = 0 := by decide
  cases filetype <;> exact h _ (by simp [toLocal, fileTypes])

/-- The type of a file and its permissions do not share bits. -/
theorem FileType.toLocal_or_and_ifmt (filetype : FileType) (mode : ℕ) :
    (filetype.toLocal ||| (mode &&& 0o777)) &&& S_IFMT = filetype.toLocal := by
  have hzero : (0o777 : ℕ) &&& S_IFMT = 0 := by decide
  rw [Nat.and_or_distrib_right, (FileType.toLocal_and filetype).1, Nat.and_assoc, hzero,
    Nat.and_zero, Nat.or_zero]

theorem FileType.toLocal_or_and_permissions (filetype : FileType) (mode : ℕ) :
    (filetype.toLocal ||| (mode &&& 0o777)) &&& 0o777 = mode &&& 0o777 := by
  rw [Nat.and_or_distrib_right, (FileType.toLocal_and filetype).2, Nat.zero_or, Nat.and_assoc,
    Nat.and_self]

/-- `OpenFlags_from_bitmask`. -/
def OpenFlags.fromBitmask (flags : ℕ) : Prog MemRet (Option OpenFlags) := do
  let ok ← alloc .record
  if !ok then return none
  return some {
    rdonly := flags &&& O_RDONLY != 0
    wronly := flags &&& O_WRONLY != 0
    rdwr := flags &&& O_RDWR != 0
    creat := flags &&& O_CREAT != 0
    excl := flags &&& O_EXCL != 0
    trunc := flags &&& O_TRUNC != 0
    append := flags &&& O_APPEND != 0 }

/-- `OpenFlags_to_bitmask`. -/
def OpenFlags.toBitmask (openflags : OpenFlags) : ℕ :=
  (if openflags.rdonly then O_RDONLY else 0) ||| (if openflags.wronly then O_WRONLY else 0) |||
    (if openflags.rdwr then O_RDWR else 0) ||| (if openflags.creat then O_CREAT else 0) |||
    (if openflags.excl then O_EXCL else 0) ||| (if openflags.trunc then O_TRUNC else 0) |||
    (if openflags.append then O_APPEND else 0)

/-! ## Attributes -/

/-- `TimeSet_create`. -/
def TimeSet.create : Prog MemRet (Option TimeSet) := do
  let ok ← alloc .record
  if !ok then return none
  return some {
    accessSec := 0
    modifySec := 0
    creationSec := none
    accessUsec := none
    modifyUsec := none
    creationUsec := none }

/-- The timestamps of a `struct stat`. -/
def TimeSet.ofStat (statResult : Stat) : TimeSet :=
  { accessSec := statResult.stAtim.tvSec
    modifySec := statResult.stMtim.tvSec
    creationSec := some statResult.stCtim.tvSec
    accessUsec := some (toInt32 (statResult.stAtim.tvNsec.tdiv 1000))
    modifyUsec := some (toInt32 (statResult.stMtim.tvNsec.tdiv 1000))
    creationUsec := some (toInt32 (statResult.stCtim.tvNsec.tdiv 1000)) }

/-- `posix_current_user_in_group`: whether the group is one of the process, nothing on failure.
The scanned array is zeroed, so entries the second call does not fill count as group 0. -/
def posixCurrentUserInGroup (gid : ℕ) : Prog SysRet (Option Bool) := do
  let .ok nGroups ← sys .ngroups | return none
  let ok ← sys (.alloc (.bytes (4 * nGroups)))
  if !ok then return none
  let .ok groups ← sys (.getgroups nGroups) | return none
  let groupIds := (groups ++ List.replicate nGroups 0).take nGroups
  return some (groupIds.contains gid)

/-- The fields of `message Attrs` computed from a `struct stat`. -/
def Attrs.ofStat (statResult : Stat) (permissions : Permissions) (uid : ℕ) (isInGroup : Bool)
    (name : Option CString) : Attrs :=
  { size := statResult.stSize
    isOwner := uid == statResult.stUid
    isInGroup := isInGroup
    timestamps := .ofStat statResult
    filetype := .fromLocal statResult.stMode
    permissions := permissions
    name := name }

/-- `strdup` where there is something to duplicate. -/
def dupName : Option CString → Prog MemRet Bool
  | some s => alloc (.bytes (s.length + 1))
  | none => return true

/-- `Attrs_create`. -/
def Attrs.create (statResult : Stat) (name : Option CString) : Prog SysRet (Option Attrs) := do
  let ok ← sys (.alloc .record)
  if !ok then return none
  let ok ← mem (dupName name)
  if !ok then return none
  let some permissions ← mem (Permissions.create statResult.stMode) | return none
  let some _ ← mem TimeSet.create | return none
  let uid ← sys .getuid
  let some isInGroup ← posixCurrentUserInGroup statResult.stGid | return none
  return some (.ofStat statResult permissions uid isInGroup name)

/-- Microseconds of a message as nanoseconds, computed in `int`. -/
def usecToNsec (usec : Option ℤ) : ℤ := toInt32 (usec.getD 0 * 1000)

/-- `Attrs_copy_to_stat`: success and the `struct stat`. -/
def Attrs.copyToStat (attrs : Attrs) : Bool × Stat :=
  let statResult := { Stat.zero with
    stSize := attrs.size
    stMode := attrs.filetype.toLocal ||| attrs.permissions.toBitmask
    stNlink := 1
    stAtim := ⟨attrs.timestamps.accessSec, 0⟩
    stMtim := ⟨attrs.timestamps.modifySec, 0⟩ }
  match attrs.timestamps.creationSec with
  | none => (false, statResult)
  | some creationSec => (true, { statResult with
      stAtim := ⟨attrs.timestamps.accessSec, usecToNsec attrs.timestamps.accessUsec⟩
      stMtim := ⟨attrs.timestamps.modifySec, usecToNsec attrs.timestamps.modifyUsec⟩
      stCtim := ⟨creationSec, usecToNsec attrs.timestamps.creationUsec⟩ })

theorem Attrs.copyToStat_fst (attrs : Attrs) :
    attrs.copyToStat.1 = attrs.timestamps.creationSec.isSome := by
  unfold copyToStat
  cases attrs.timestamps.creationSec <;> rfl

/-! ## File system statistics -/

/-- `StatFs_create`. -/
def StatFs.create (statvfsResult : StatVfs) : Prog MemRet (Option StatFs) := do
  let ok ← alloc .record
  if !ok then return none
  return some {
    bsize := statvfsResult.fBsize
    frsize := statvfsResult.fFrsize
    blocks := statvfsResult.fBlocks
    bfree := statvfsResult.fBfree
    bavail := statvfsResult.fBavail
    files := statvfsResult.fFiles
    ffree := statvfsResult.fFfree
    favail := statvfsResult.fFavail
    fsid := statvfsResult.fFsid
    flag := statvfsResult.fFlag
    namemax := statvfsResult.fNamemax }

end Rhizofs
