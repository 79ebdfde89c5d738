import Rhizofs.Foundations.Program
import Mathlib.Algebra.Group.Int.Defs
import Mathlib.Algebra.Group.Nat.Defs
import Mathlib.Data.Int.Basic

/-!
# What the code takes from C

The data the modules share with the C library: strings and byte buffers, the integer conversions,
the local `errno` numbers, `struct stat` and its relatives, and the allocations. A C string is the
list of its bytes before the terminating NUL. An allocation is an external call that either
succeeds or returns `NULL` (`MemRet`), so a function that allocates is a program over `MemRet` and
is verified for every pattern of failing allocations; `allocAll` is the handler with none.
-/

namespace Rhizofs

open Extern

/-- The bytes of a C string before its NUL. -/
abbrev CString := List UInt8

/-- The separator `'/'` of path components. -/
def PATH_SEP : UInt8 := 47

/-! ## Integer conversions -/

/-- Conversion to a signed 32-bit integer. -/
def toInt32 (n : ℤ) : ℤ := n.bmod (2 ^ 32)

/-- Conversion to an unsigned 64-bit `size_t`. -/
def toSize (n : ℤ) : ℕ := (n % 2 ^ 64).toNat

theorem toInt32_of_mem {n : ℤ} (h₁ : -2 ^ 31 ≤ n) (h₂ : n < 2 ^ 31) : toInt32 n = n :=
  Int.bmod_eq_of_le (by omega) (by omega)

theorem toInt32_eq (n : ℤ) :
    toInt32 n = if n % 2 ^ 32 < 2 ^ 31 then n % 2 ^ 32 else n % 2 ^ 32 - 2 ^ 32 := by
  rw [toInt32, Int.bmod_def]
  rfl

/-- On the 64-bit integers, the conversion through `int` does not shrink a size exactly when it
keeps it or makes it negative. -/
theorem toSize_le_toSize_toInt32_iff {n : ℤ} (h₁ : -2 ^ 63 ≤ n) (h₂ : n < 2 ^ 63) :
    toSize n ≤ toSize (toInt32 n) ↔ (-2 ^ 31 ≤ n ∧ n < 2 ^ 31) ∨ toInt32 n < 0 := by
  rw [toInt32_eq]
  unfold toSize
  split_ifs <;> omega

theorem toInt32_lt (n : ℤ) : toInt32 n < 2 ^ 31 := by
  have := Int.bmod_lt (x := n) (m := 2 ^ 32) (by decide)
  simpa [toInt32] using this

theorem toInt32_natCast_le (n : ℕ) : toInt32 n ≤ n := by
  rw [toInt32, Int.bmod_def]
  split <;> omega

theorem toInt32_natCast {n : ℕ} (h : n < 2 ^ 31) : toInt32 n = n :=
  toInt32_of_mem (by omega) (by exact_mod_cast h)

theorem toInt32_natCast_ne_neg_one {n : ℕ} (h : n < 2 ^ 31) : toInt32 n ≠ -1 := by
  rw [toInt32_natCast h]
  omega

theorem toSize_natCast {n : ℕ} (h : n < 2 ^ 64) : toSize n = n := by
  unfold toSize
  omega

theorem toSize_natCast_of_lt_int {n : ℕ} (h : n < 2 ^ 31) : toSize n = n :=
  toSize_natCast (by omega)

/-! ## Local errno values -/

def EPERM : ℤ := 1
def ENOENT : ℤ := 2
def EINTR : ℤ := 4
def EIO : ℤ := 5
def EAGAIN : ℤ := 11
def ENOMEM : ℤ := 12
def EACCES : ℤ := 13
def EBUSY : ℤ := 16
def EEXIST : ℤ := 17
def ENOTDIR : ℤ := 20
def EISDIR : ℤ := 21
def EINVAL : ℤ := 22
def EFBIG : ℤ := 27
def ENOSPC : ℤ := 28
def ESPIPE : ℤ := 29
def EROFS : ℤ := 30
def ENOTSOCK : ℤ := 88
def ENOTSUP : ℤ := 95
/-- ZeroMQ's `EFSM`, `ZMQ_HAUSNUMERO + 51`. -/
def EFSM : ℤ := 156384763

/-- The `errno` of a failed system call, which is never 0. -/
structure Failure where
  errno : ℤ
  ne : errno ≠ 0

theorem ENOENT_ne : ENOENT ≠ 0 := by
  decide

/-! ## The file mode -/

def S_IFMT : ℕ := 0o170000
def S_IFSOCK : ℕ := 0o140000
def S_IFLNK : ℕ := 0o120000
def S_IFREG : ℕ := 0o100000
def S_IFBLK : ℕ := 0o060000
def S_IFDIR : ℕ := 0o040000
def S_IFCHR : ℕ := 0o020000
def S_IFIFO : ℕ := 0o010000
def S_IRUSR : ℕ := 0o400
def S_IWUSR : ℕ := 0o200
def S_IXUSR : ℕ := 0o100
def S_IRGRP : ℕ := 0o040
def S_IWGRP : ℕ := 0o020
def S_IXGRP : ℕ := 0o010
def S_IROTH : ℕ := 0o004
def S_IWOTH : ℕ := 0o002
def S_IXOTH : ℕ := 0o001

/-- The test behind `S_ISDIR`, `S_ISREG` and the like. -/
def isFileType (mode type : ℕ) : Bool := mode &&& S_IFMT == type

/-! ## Open flags -/

def O_RDONLY : ℕ := 0
def O_WRONLY : ℕ := 1
def O_RDWR : ℕ := 2
def O_CREAT : ℕ := 0o100
def O_EXCL : ℕ := 0o200
def O_TRUNC : ℕ := 0o1000
def O_APPEND : ℕ := 0o2000

/-! ## Structures -/

/-- `struct timespec`. -/
structure Timespec where
  tvSec : ℤ
  tvNsec : ℤ
  deriving DecidableEq

/-- `struct timeval`. -/
structure Timeval where
  tvSec : ℤ
  tvUsec : ℤ
  deriving DecidableEq

/-- The fields of `struct stat` that the code reads or writes. -/
structure Stat where
  stMode : ℕ
  stNlink : ℕ
  stUid : ℕ
  stGid : ℕ
  stSize : ℤ
  stAtim : Timespec
  stMtim : Timespec
  stCtim : Timespec
  deriving DecidableEq

/-- A `struct stat` after `memset` to zero. -/
def Stat.zero : Stat :=
  { stMode := 0, stNlink := 0, stUid := 0, stGid := 0, stSize := 0,
    stAtim := ⟨0, 0⟩, stMtim := ⟨0, 0⟩, stCtim := ⟨0, 0⟩ }

/-- `struct statvfs`. -/
structure StatVfs where
  fBsize : ℤ
  fFrsize : ℤ
  fBlocks : ℤ
  fBfree : ℤ
  fBavail : ℤ
  fFiles : ℤ
  fFfree : ℤ
  fFavail : ℤ
  fFsid : ℤ
  fFlag : ℤ
  fNamemax : ℤ
  deriving DecidableEq

/-! ## Allocation -/

/-- What an allocation is asked for. -/
inductive Chunk
  /-- One structure. -/
  | record
  /-- A buffer of `n` bytes. -/
  | bytes (n : ℕ)
  /-- The array of `n` pointers of a directory listing. -/
  | entries (n : ℕ)
  deriving DecidableEq

/-- An allocation answers whether it succeeded. -/
abbrev MemRet : Chunk → Type := fun _ => Bool

/-- Allocate `c`; the answer is whether the result is not `NULL`. -/
def alloc (c : Chunk) : Prog MemRet Bool := Prog.perform c

/-- The handler under which every allocation succeeds. -/
def allocAll : (c : Chunk) → Unit → MemRet c × Unit := fun _ _ => (true, ())

end Rhizofs
