import Rhizofs.Libc

/-!
# The system calls of the server

The calls the handlers of `servedir.c` make, with their answers. A failing call answers with the
`errno` it leaves. A pass over a directory is one call: `readdir` answers with the names it yields
until it returns `NULL`, and with the `errno` when that was because of an error.

* `PathOp` groups the calls that only change or test the file tree and answer success or failure.
* `SysCall.objects` lists the paths a call operates on.
-/

namespace Rhizofs

open Extern

/-- The system calls on paths that answer only success or failure. -/
inductive PathOp
  | rmdir (path : CString)
  | unlink (path : CString)
  | access (path : CString) (mode : ℕ)
  | rename (pathFrom pathTo : CString)
  | link (pathFrom pathTo : CString)
  | symlink (target path : CString)
  | mkdir (path : CString) (mode : ℕ)
  | truncate (path : CString) (length : ℤ)
  | chmod (path : CString) (mode : ℕ)
  | utimes (path : CString) (atime mtime : Timeval)
  | mknod (path : CString) (mode : ℕ)

/-- The external calls of the server. -/
inductive SysCall
  | alloc (c : Chunk)
  | path (op : PathOp)
  | opendir (path : CString)
  | readdir (path : CString)
  | rewinddir (path : CString)
  | closedir (path : CString)
  | lstat (path : CString)
  | readlink (path : CString) (bufsize : ℕ)
  | statvfs (path : CString)
  | «open» (path : CString) (flags mode : ℕ)
  | creat (path : CString) (mode : ℕ)
  | close (fd : ℕ)
  | read (fd count : ℕ)
  | pread (fd count : ℕ) (offset : ℤ)
  | pwrite (fd : ℕ) (data : List UInt8) (offset : ℤ)
  | gettimeofday
  | getuid
  /-- `getgroups(0, NULL)`: the number of groups. -/
  | ngroups
  | getgroups (size : ℕ)

/-- The answers. -/
abbrev SysRet : SysCall → Type
  | .alloc _ => Bool
  | .path _ => Except Failure Unit
  | .opendir _ => Except Failure Unit
  | .readdir _ => List CString × Option Failure
  | .rewinddir _ => Unit
  | .closedir _ => Unit
  | .lstat _ => Except Failure Stat
  | .readlink _ _ => Except Failure CString
  | .statvfs _ => Except Failure StatVfs
  | .open _ _ _ => Except Failure ℕ
  | .creat _ _ => Except Failure ℕ
  | .close _ => Except Failure Unit
  | .read _ _ => Except Failure (List UInt8)
  | .pread _ _ _ => Except Failure (List UInt8)
  | .pwrite _ _ _ => Except Failure ℕ
  | .gettimeofday => Timeval
  | .getuid => ℕ
  | .ngroups => Except Failure ℕ
  | .getgroups _ => Except Failure (List ℕ)

/-- The paths a call on paths operates on. The text of a symbolic link is not one. -/
def PathOp.objects : PathOp → List CString
  | .rmdir p | .unlink p | .access p _ | .symlink _ p | .mkdir p _ | .truncate p _ | .chmod p _
  | .utimes p _ _ | .mknod p _ => [p]
  | .rename p q | .link p q => [p, q]

/-- The paths a system call operates on. -/
def SysCall.objects : SysCall → List CString
  | .path op => op.objects
  | .opendir p | .lstat p | .readlink p _ | .statvfs p | .open p _ _ | .creat p _ => [p]
  | _ => []

/-- Make one system call. -/
abbrev sys (c : SysCall) : Prog SysRet (SysRet c) := Prog.perform c

/-- Run a function that only allocates as part of the server. -/
def mem {α : Type} (p : Prog MemRet α) : Prog SysRet α := p.translate fun c => sys (.alloc c)

@[simp] theorem mem_ret {α : Type} (a : α) : mem (.ret a) = .ret a := rfl

@[simp] theorem mem_call {α : Type} (c : Chunk) (k : MemRet c → Prog MemRet α) :
    mem (.call c k) = .call (.alloc c) fun ok => mem (k ok) := rfl

@[simp] theorem mem_bind {α β : Type} (p : Prog MemRet α) (f : α → Prog MemRet β) :
    mem (p >>= f) = mem p >>= fun a => mem (f a) := Prog.translate_bind _ p f

end Rhizofs
