import Rhizofs.Foundations.ByteFile
import Rhizofs.Server.ServeDir

/-!
# Reading and writing one regular file

What `ServeDir_op_read`, `ServeDir_op_write` and `ServeDir_op_truncate` do to a regular file when
all their calls succeed. The operating system is a parameter; `RegularFile` is what POSIX says of
its calls on the file when they succeed and are complete, in terms of `ByteFile`. The three handlers
then read, write and truncate the byte array (`runs_opRead`, `runs_opWrite`, `runs_opTruncate`).
`oneFile` is an operating system with a single file.
-/

namespace Rhizofs

open Extern

variable {S : Type}

/-- The answer of a successful call. -/
def SysCall.Succeeded : (c : SysCall) → SysRet c → Prop
  | .alloc _, ok => ok = true
  | .path _, r => r.isOk
  | .opendir _, r => r.isOk
  | .readdir _, (_, err) => err = none
  | .lstat _, r => r.isOk
  | .readlink _ _, r => r.isOk
  | .statvfs _, r => r.isOk
  | .open _ _ _, r => r.isOk
  | .creat _ _, r => r.isOk
  | .close _, r => r.isOk
  | .read _ _, r => r.isOk
  | .pread _ _ _, r => r.isOk
  | .pwrite _ _ _, r => r.isOk
  | .ngroups, r => r.isOk
  | .getgroups _, r => r.isOk
  | .rewinddir _, _ | .closedir _, _ | .gettimeofday, _ | .getuid, _ => True

/-- The server's calls, where all of them succeed. -/
def succeeds (os : (c : SysCall) → S → SysRet c × S) : (c : SysCall) → S → SysRet c → S → Prop
  | .alloc _, s, ok, s' => ok = true ∧ s' = s
  | c, s, r, s' => (r, s') = os c s ∧ c.Succeeded r

/-- `path` names a regular file with the bytes `content`; `opened` holds of the descriptors that
were opened for it and not read from since. -/
structure RegularFile (os : (c : SysCall) → S → SysRet c × S) (path : CString)
    (content : S → List UInt8) (opened : ℕ → S → Prop) : Prop where
  «open» : ∀ {flags mode s fd s'}, flags &&& O_TRUNC = 0 →
    os (.open path flags mode) s = (.ok fd, s') → content s' = content s ∧ opened fd s'
  read : ∀ {fd count s data s'}, opened fd s → os (.read fd count) s = (.ok data, s') →
    content s' = content s ∧ data = ByteFile.read (content s) 0 count
  pread : ∀ {fd count s data s'} {offset : ℕ}, opened fd s →
    os (.pread fd count offset) s = (.ok data, s') →
    content s' = content s ∧ data = ByteFile.read (content s) offset count
  pwrite : ∀ {fd data s n s'} {offset : ℕ}, opened fd s →
    os (.pwrite fd data offset) s = (.ok n, s') →
    content s' = ByteFile.write 0 (content s) offset data ∧ n = data.length
  truncate : ∀ {s s'} {length : ℕ}, os (.path (.truncate path length)) s = (.ok (), s') →
    content s' = ByteFile.truncate 0 (content s) length
  utimes : ∀ {atime mtime s s'}, os (.path (.utimes path atime mtime)) s = (.ok (), s') →
    content s' = content s
  close : ∀ {fd s r s'}, os (.close fd) s = (r, s') → content s' = content s
  gettimeofday : ∀ {s r s'}, os .gettimeofday s = (r, s') → content s' = content s

variable {os : (c : SysCall) → S → SysRet c × S} {s s' : S}

/-! ## Successful runs -/

@[simp] theorem runs_alloc {α : Type} {c : Chunk} {k : Bool → Prog SysRet α} {a : α} :
    (Prog.call (.alloc c) k).Runs (succeeds os) s a s' ↔ (k true).Runs (succeeds os) s a s' := by
  constructor
  · rintro ⟨ok, s₁, ⟨rfl, rfl⟩, h⟩
    exact h
  · exact fun h => ⟨true, s, ⟨rfl, rfl⟩, h⟩

/-- A program that only allocates returns what it does with memory available. -/
@[simp] theorem runs_mem {α : Type} {p : Prog MemRet α} {a : α} :
    (mem p).Runs (succeeds os) s a s' ↔ a = (p.exec allocAll ()).1 ∧ s' = s := by
  induction p with
  | ret a => exact Iff.rfl
  | call c k ih =>
    rw [mem_call, runs_alloc, ih true]
    rfl

@[simp] theorem runs_mem_bind {α β : Type} {p : Prog MemRet α} {f : α → Prog SysRet β} {b : β} :
    (mem p >>= f).Runs (succeeds os) s b s' ↔
      (f (p.exec allocAll ()).1).Runs (succeeds os) s b s' := by
  simp [Prog.runs_bind]

theorem exec_pathJoin (path1 path2 : CString) :
    (pathJoin path1 path2).exec allocAll () = (some (joined path1 path2), ()) := by
  simp [pathJoin, alloc, allocAll, Prog.perform]

theorem runs_fullpath_bind {α : Type} {sd : ServeDir} {request : Request} {path : CString}
    (hpath : request.path = some path) {f : Option CString → Prog SysRet α} {a : α} :
    (sd.fullpath request >>= f).Runs (succeeds os) s a s' ↔
      (f (some (joined sd.directory path))).Runs (succeeds os) s a s' := by
  simp only [ServeDir.fullpath, hpath, runs_mem_bind, exec_pathJoin]

theorem runs_response_create_bind {α : Type} {f : Option Response → Prog SysRet α} {a : α} :
    (mem Response.create >>= f).Runs (succeeds os) s a s' ↔
      (f (some Response.initial)).Runs (succeeds os) s a s' := by
  rw [runs_mem_bind]
  rfl

/-! ## The handlers -/

section Handlers

variable {lz4 : Lz4} {sd : ServeDir} {request : Request} {response response' : Response}
  {path : CString} {content : S → List UInt8} {opened : ℕ → S → Prop} {rc : ℤ}

/-- Both branches of `ServeDir_op_read` read at the offset. -/
theorem runs_readAt_bind {α : Type}
    (hfile : RegularFile os (joined sd.directory path) content opened)
    {fd size offset : ℕ} (hopen : opened fd s) (hsize : size < 2 ^ 31)
    {f : Except Failure (List UInt8) → Prog SysRet α} {a : α}
    (h : (ServeDir.readAt fd size offset >>= f).Runs (succeeds os) s a s') :
    ∃ s₁, content s₁ = content s ∧
      (f (.ok (ByteFile.read (content s) offset size))).Runs (succeeds os) s₁ a s' := by
  have hcount : toSize size = size := toSize_natCast_of_lt_int hsize
  rw [ServeDir.readAt, hcount] at h
  by_cases h0 : (offset : ℤ) = 0
  · rw [if_pos h0] at h
    obtain rfl : offset = 0 := by exact_mod_cast h0
    obtain ⟨data, s₁, ⟨hos, hok⟩, h⟩ := h
    cases data with
    | error e => cases hok
    | ok data =>
      obtain ⟨hcontent, rfl⟩ := hfile.read hopen hos.symm
      exact ⟨s₁, hcontent, h⟩
  · rw [if_neg h0] at h
    obtain ⟨data, s₁, ⟨hos, hok⟩, h⟩ := h
    cases data with
    | error e => cases hok
    | ok data =>
      obtain ⟨hcontent, rfl⟩ := hfile.pread hopen hos.symm
      exact ⟨s₁, hcontent, h⟩

/-- `ServeDir_op_read` answers with a block that stores the bytes read. -/
theorem runs_opRead (hfile : RegularFile os (joined sd.directory path) content opened)
    {size offset : ℕ} (hsize : size < 2 ^ 31) (hpath : request.path = some path)
    (hreqsize : request.size = some (size : ℤ)) (hreqoffset : request.offset = some (offset : ℤ))
    (hnone : response.datablock = none)
    (h : (ServeDir.opRead lz4 sd request response).Runs (succeeds os) s (rc, response') s') :
    content s' = content s ∧ response'.errnotype = response.errnotype ∧
      ∃ datablock, response'.datablock = some datablock ∧
        datablock.Stores lz4 (ByteFile.read (content s) offset size) := by
  simp only [ServeDir.opRead, hreqsize, hreqoffset] at h
  obtain ⟨fd, s₁, ⟨hos, hok⟩, h⟩ := (runs_fullpath_bind hpath).mp h
  cases fd with
  | error e => cases hok
  | ok fd =>
    obtain ⟨hcontent₁, hopen⟩ := hfile.open rfl hos.symm
    replace h := runs_alloc.mp h
    obtain ⟨s₂, hcontent₂, h⟩ := runs_readAt_bind hfile hopen hsize h
    rw [hcontent₁] at h hcontent₂
    obtain ⟨datablock, hset, hstores⟩ := Response.exec_setData lz4
      { response with requesttype := .read } (ByteFile.read (content s) offset size) hnone
    replace h := runs_mem_bind.mp h
    rw [hset] at h
    obtain ⟨closed, s₃, ⟨hclose, -⟩, h⟩ := h
    obtain ⟨hout, rfl⟩ := h
    obtain ⟨-, rfl⟩ := Prod.mk.inj hout
    exact ⟨(hfile.close hclose.symm).trans hcontent₂, rfl, datablock, rfl, hstores⟩

/-- The bytes that the server takes out of the block of a WRITE are those that the client stored
there. -/
theorem exec_writeData (hinv : lz4.Inverse) {datablock : DataBlock} {data : List UInt8}
    (hsize : data.length < 2 ^ 31) (hstores : datablock.Stores lz4 data) :
    (ServeDir.writeData lz4 datablock data.length).exec allocAll () = (some data, ()) := by
  have hcount : toSize data.length = data.length := toSize_natCast_of_lt_int hsize
  have hne : (data.length : ℤ) ≠ -1 := by omega
  simp [ServeDir.writeData, DataBlock.getData_of_stores hinv hsize hstores, hcount, hne]

/-- `ServeDir_op_write` writes the data of the request at the offset and answers with its size. -/
theorem runs_opWrite (hinv : lz4.Inverse)
    (hfile : RegularFile os (joined sd.directory path) content opened) {data : List UInt8}
    {offset : ℕ} {datablock : DataBlock} (hsize : data.length < 2 ^ 31)
    (hpath : request.path = some path) (hreqsize : request.size = some (data.length : ℤ))
    (hreqoffset : request.offset = some (offset : ℤ))
    (hreqdata : request.datablock = some datablock) (hstores : datablock.Stores lz4 data)
    (h : (ServeDir.opWrite lz4 sd request response).Runs (succeeds os) s (rc, response') s') :
    content s' = ByteFile.write 0 (content s) offset data ∧
      response'.errnotype = response.errnotype ∧ response'.size = some (data.length : ℤ) := by
  have hhas : request.hasData ≠ -1 := by
    simp only [Request.hasData, hreqdata, hstores.size_eq]
    exact toInt32_natCast_ne_neg_one hsize
  simp only [ServeDir.opWrite, hreqsize, hreqoffset, if_neg hhas, hreqdata] at h
  obtain ⟨fd, s₁, ⟨hos, hok⟩, h⟩ := (runs_fullpath_bind hpath).mp h
  cases fd with
  | error e => cases hok
  | ok fd =>
    obtain ⟨hcontent₁, hopen⟩ := hfile.open rfl hos.symm
    replace h := runs_mem_bind.mp h
    rw [exec_writeData hinv hsize hstores] at h
    obtain ⟨written, s₂, ⟨hos₂, hok₂⟩, h⟩ := h
    cases written with
    | error e => cases hok₂
    | ok written =>
      obtain ⟨hcontent₂, rfl⟩ := hfile.pwrite hopen hos₂.symm
      obtain ⟨closed, s₃, ⟨hos₃, hok₃⟩, h⟩ := h
      cases closed with
      | error e => cases hok₃
      | ok closed =>
        obtain ⟨now, s₄, ⟨hos₄, -⟩, times, s₅, ⟨hos₅, hok₅⟩, h⟩ := h
        cases times with
        | error e => cases hok₅
        | ok times =>
          obtain ⟨hout, rfl⟩ := h
          obtain ⟨-, rfl⟩ := Prod.mk.inj hout
          refine ⟨?_, rfl, congrArg some (toInt32_natCast hsize)⟩
          rw [hfile.utimes hos₅.symm, hfile.gettimeofday hos₄.symm, hfile.close hos₃.symm,
            hcontent₂, hcontent₁]

/-- `ServeDir_op_truncate`. -/
theorem runs_opTruncate (hfile : RegularFile os (joined sd.directory path) content opened)
    {length : ℕ} (hpath : request.path = some path)
    (hreqoffset : request.offset = some (length : ℤ))
    (h : (ServeDir.opTruncate sd request response).Runs (succeeds os) s (rc, response') s') :
    content s' = ByteFile.truncate 0 (content s) length ∧
      response'.errnotype = response.errnotype := by
  simp only [ServeDir.opTruncate, hreqoffset, ServeDir.onPath] at h
  obtain ⟨r, s₁, ⟨hos, hok⟩, h⟩ := (runs_fullpath_bind hpath).mp h
  cases r with
  | error e => cases hok
  | ok r =>
    obtain ⟨hout, rfl⟩ := h
    obtain ⟨-, rfl⟩ := Prod.mk.inj hout
    exact ⟨hfile.truncate hos.symm, rfl⟩

end Handlers

/-! ## An operating system with one file -/

/-- The status of a regular file with the bytes `content`. -/
def statOfContent (content : List UInt8) : Stat :=
  { Stat.zero with stMode := S_IFREG ||| 0o644, stNlink := 1, stSize := content.length }

/-- The calls on a system whose only file is `path`, with the content as state. It has the
descriptor 3, and its links, directories and file systems are not accessible. -/
def oneFile (path : CString) : (c : SysCall) → List UInt8 → SysRet c × List UInt8
  | .path (.truncate path' length), content =>
    if path' = path then (.ok (), ByteFile.truncate 0 content length.toNat)
    else (.error ⟨ENOENT, by decide⟩, content)
  | .path (.utimes path' _ _), content | .path (.chmod path' _), content
  | .path (.access path' _), content =>
    (if path' = path then .ok () else .error ⟨ENOENT, by decide⟩, content)
  | .path _, content => (.error ⟨EACCES, by decide⟩, content)
  | .lstat path', content =>
    (if path' = path then .ok (statOfContent content) else .error ⟨ENOENT, by decide⟩, content)
  | .open path' flags _, content =>
    if path' = path then (.ok 3, if flags &&& O_TRUNC = 0 then content else [])
    else (.error ⟨ENOENT, by decide⟩, content)
  | .creat path' _, content =>
    if path' = path then (.ok 3, []) else (.error ⟨ENOENT, by decide⟩, content)
  | .close _, content => (.ok (), content)
  | .read _ count, content => (.ok (ByteFile.read content 0 count), content)
  | .pread _ count offset, content => (.ok (ByteFile.read content offset.toNat count), content)
  | .pwrite _ data offset, content =>
    (.ok data.length, ByteFile.write 0 content offset.toNat data)
  | .alloc _, content => (true, content)
  | .opendir _, content => (.error ⟨EACCES, by decide⟩, content)
  | .readdir _, content => (([], none), content)
  | .rewinddir _, content | .closedir _, content => ((), content)
  | .readlink _ _, content => (.error ⟨EINVAL, by decide⟩, content)
  | .statvfs _, content => (.error ⟨EACCES, by decide⟩, content)
  | .gettimeofday, content => (⟨0, 0⟩, content)
  | .getuid, content => (0, content)
  | .ngroups, content => (.ok 0, content)
  | .getgroups _, content => (.ok [], content)

theorem oneFile_regularFile (path : CString) :
    RegularFile (oneFile path) path id fun _ _ => True where
  «open» := by
    intro flags mode s fd s' hflags h
    simp only [oneFile, if_pos, hflags, Prod.mk.injEq] at h
    exact ⟨h.2.symm, trivial⟩
  read := by
    rintro fd count s data s' - h
    cases h
    exact ⟨rfl, rfl⟩
  pread := by
    rintro fd count s data s' offset - h
    cases h
    exact ⟨rfl, rfl⟩
  pwrite := by
    rintro fd data s n s' offset - h
    cases h
    exact ⟨rfl, rfl⟩
  truncate := by
    intro s s' length h
    simp only [oneFile, if_pos, Prod.mk.injEq] at h
    exact h.2.symm
  utimes := by
    intro atime mtime s s' h
    exact (congrArg Prod.snd h).symm
  close := by
    intro fd s r s' h
    exact (congrArg Prod.snd h).symm
  gettimeofday := by
    intro s r s' h
    exact (congrArg Prod.snd h).symm

end Rhizofs
