import Rhizofs.Fs.Session

/-!
# Remote file data

`Rhizofs_read`, `Rhizofs_write` and `Rhizofs_truncate` on one path refine the accesses to a byte
array (`ByteFile.Access`): in a run in which every allocation, exchange and system call succeeds,
the return values, the buffers read into and the file on the server are those of the array
(`runs_refine`).
-/

namespace Rhizofs

open Extern

/-- A call on the data of a file, with the buffer passed. -/
inductive FileCall
  | read (buf : List UInt8) (offset : ℕ)
  | write (buf : List UInt8) (offset : ℕ)
  | truncate (offset : ℕ)

namespace FileCall

/-- The operation of the client: its return value and the buffer read into. -/
def run (lz4 : Lz4) (path : CString) : FileCall → Prog ClientRet (ℤ × List UInt8)
  | read buf offset => rhizofsRead lz4 path buf offset
  | write buf offset => do
    let ret ← rhizofsWrite lz4 path buf offset
    return (ret, [])
  | truncate offset => do
    let ret ← rhizofsTruncate path offset
    return (ret, [])

/-- Calls made one after the other. -/
def runAll (lz4 : Lz4) (path : CString) : List FileCall → Prog ClientRet (List (ℤ × List UInt8))
  | [] => return []
  | call :: calls => do
    let out ← call.run lz4 path
    let outs ← runAll lz4 path calls
    return out :: outs

/-- The size passed. -/
def size : FileCall → ℕ
  | read buf _ | write buf _ => buf.length
  | truncate _ => 0

/-- The access to the byte array that the call stands for. -/
def access : FileCall → ByteFile.Access UInt8
  | read buf offset => .read buf.length offset
  | write buf offset => .write buf offset
  | truncate offset => .truncate offset

/-- The outcome of the call that shows the answer of the byte array. -/
def outcome : FileCall → ByteFile.Answer UInt8 → ℤ × List UInt8
  | read buf _, answer => (answer.count, memcpy buf answer.data)
  | write _ _, answer | truncate _, answer => (answer.count, [])

/-- Reads into the buffers `bufs`, each where the one before it ends. -/
def consecutive : ℕ → List (List UInt8) → List FileCall
  | _, [] => []
  | offset, buf :: bufs => read buf offset :: consecutive (offset + buf.length) bufs

theorem access_consecutive (offset : ℕ) (bufs : List (List UInt8)) :
    (consecutive offset bufs).map access =
      ByteFile.consecutive offset (bufs.map List.length) := by
  induction bufs generalizing offset with
  | nil => rfl
  | cons buf bufs ih => simp [consecutive, ByteFile.consecutive, access, ih]

end FileCall

namespace Mount

variable {S : Type} {m : Mount S} {w w' : Session S}

/-! ## Runs in which everything succeeds -/

/-- The calls of a client operation, where every allocation, exchange and system call succeeds. -/
def okStep (m : Mount S) : (c : ClientCall) → Session S → ClientRet c → Session S → Prop
  | .alloc _, w, ok, w' => ok = true ∧ w' = w
  | .communicate request, w, answer, w' => ∃ rc response,
    (ServeDir.handle m.lz4 m.sd (some request)).Runs (succeeds m.os) w.server
        (some (rc, response)) w'.server ∧
      answer = (some response, response.getErrno) ∧ w'.cache = w.cache
  | c, w, answer, w' => m.step c w answer w'

theorem osStep_of_succeeds {c : SysCall} {s s' : S} {r : SysRet c}
    (h : succeeds m.os c s r s') : m.osStep c s r s' := by
  cases c with
  | alloc chunk => exact h.2
  | _ => exact h.1

/-- A step in which everything succeeds is a step of the session. -/
theorem step_of_okStep {c : ClientCall} {r : ClientRet c} (h : m.okStep c w r w') :
    m.step c w r w' := by
  cases c with
  | alloc chunk => exact h.2
  | communicate request =>
    obtain ⟨rc, response, hserved, rfl, hcache⟩ := h
    exact ⟨.delivered (hserved.mono fun _ _ _ _ => osStep_of_succeeds), hcache⟩
  | _ => exact h

/-- A program of the client that only allocates returns what it does with memory available. -/
theorem runs_clientMem {α : Type} {p : Prog MemRet α} {a : α} :
    (clientMem p).Runs m.okStep w a w' ↔ a = (p.exec allocAll ()).1 ∧ w' = w := by
  induction p with
  | ret a => exact Iff.rfl
  | call c k ih =>
    constructor
    · rintro ⟨ok, w₁, ⟨rfl, rfl⟩, h⟩
      exact (ih true).mp h
    · exact fun h => ⟨true, w, ⟨rfl, rfl⟩, (ih true).mpr h⟩

/-- The server's handler for the request, in a run where everything succeeds. -/
def Served (m : Mount S) (request : Request) (s : S) (response : Response) (s' : S) : Prop :=
  ∃ rc, (ServeDir.dispatch m.lz4 m.sd request .initial).Runs (succeeds m.os) s (rc, response) s'

/-- An operation whose request the server answers without an error uses the response. -/
theorem runs_operation_ok {α : Type} {fill : Request → Prog ClientRet (Option Request)}
    {failed : ℤ → α} {use : Response → ℤ → Prog ClientRet α} {a : α}
    (h : (operation fill failed use).Runs m.okStep w a w') (request : Request)
    (hfill : ∀ filled w₁, (fill .initial).Runs m.okStep w filled w₁ →
      filled = some request ∧ w₁ = w)
    (hserve : ∀ response s', m.Served request w.server response s' → response.errnotype = .none) :
    ∃ response s', m.Served request w.server response s' ∧
      (use response 0).Runs m.okStep { w with server := s' } a w' := by
  obtain ⟨ok, _, ⟨rfl, rfl⟩, hinit⟩ := h
  obtain ⟨filled, w₁, hf, hcomm⟩ := (Prog.runs_bind m.okStep (fill .initial) _ _ _ _).mp hinit
  obtain ⟨rfl, rfl⟩ := hfill _ _ hf
  obtain ⟨answer, ⟨cache₂, server₂⟩, ⟨rc, response, hhandle, rfl, hcache⟩, h⟩ := hcomm
  obtain rfl : cache₂ = w₁.cache := hcache
  have hserved : m.Served request w₁.server response server₂ := by
    replace hhandle := runs_response_create_bind.mp hhandle
    obtain ⟨out, s₂, hrun, heq, rfl⟩ := (Prog.runs_bind _ _ _ _ _ _).mp hhandle
    obtain rfl := Option.some.inj heq
    exact ⟨rc, hrun⟩
  refine ⟨response, server₂, hserved, ?_⟩
  rw [Response.getErrno_eq_zero (hserve _ _ hserved)] at h
  exact h

/-! ## The requests -/

section Refine

variable {path : CString} {content : S → List UInt8} {opened : ℕ → S → Prop}

/-- The request of `Rhizofs_read`. -/
def readRequest (path : CString) (size offset : ℤ) : Request :=
  { Request.initial with
    path := some path
    size := some size
    offset := some offset
    requesttype := .read }

/-- The request of `Rhizofs_write`, before its data is attached. -/
def writeRequest (path : CString) (size offset : ℤ) : Request :=
  { Request.initial with
    path := some path
    size := some size
    offset := some offset
    requesttype := .write }

/-- The request of `Rhizofs_truncate`. -/
def truncateRequest (path : CString) (offset : ℤ) : Request :=
  { Request.initial with
    path := some path
    offset := some offset
    requesttype := .truncate }

variable {s s' : S} {response : Response} {offset : ℕ}

theorem served_read (hfile : RegularFile m.os (joined m.sd.directory path) content opened)
    {size : ℕ} (hsize : size < 2 ^ 31)
    (h : m.Served (readRequest path size offset) s response s') :
    content s' = content s ∧ response.errnotype = .none ∧
      ∃ datablock, response.datablock = some datablock ∧
        datablock.Stores m.lz4 (ByteFile.read (content s) offset size) := by
  obtain ⟨rc, hrun⟩ := h
  change (ServeDir.opRead m.lz4 m.sd (readRequest path size offset) .initial).Runs _ _ _ _ at hrun
  exact runs_opRead hfile hsize rfl rfl rfl rfl hrun

theorem served_write (hinv : m.lz4.Inverse)
    (hfile : RegularFile m.os (joined m.sd.directory path) content opened) {data : List UInt8}
    {datablock : DataBlock} (hsize : data.length < 2 ^ 31) (hstores : datablock.Stores m.lz4 data)
    (h : m.Served { writeRequest path data.length offset with datablock := some datablock }
      s response s') :
    content s' = ByteFile.write 0 (content s) offset data ∧ response.errnotype = .none ∧
      response.size = some (data.length : ℤ) := by
  obtain ⟨rc, hrun⟩ := h
  change (ServeDir.opWrite m.lz4 m.sd { writeRequest path data.length offset with
    datablock := some datablock } .initial).Runs _ _ _ _ at hrun
  exact runs_opWrite hinv hfile hsize rfl rfl rfl rfl hstores hrun

theorem served_truncate (hfile : RegularFile m.os (joined m.sd.directory path) content opened)
    (h : m.Served (truncateRequest path offset) s response s') :
    content s' = ByteFile.truncate 0 (content s) offset ∧ response.errnotype = .none := by
  obtain ⟨rc, hrun⟩ := h
  change (ServeDir.opTruncate m.sd (truncateRequest path offset) .initial).Runs _ _ _ _ at hrun
  exact runs_opTruncate hfile rfl rfl hrun

/-! ## One call -/

theorem runs_read (hinv : m.lz4.Inverse)
    (hfile : RegularFile m.os (joined m.sd.directory path) content opened) {buf : List UInt8}
    (hsize : buf.length < 2 ^ 31) {out : ℤ × List UInt8}
    (h : (rhizofsRead m.lz4 path buf offset).Runs m.okStep w out w') :
    content w'.server = content w.server ∧
      out = (((ByteFile.read (content w.server) offset buf.length).length : ℤ),
        memcpy buf (ByteFile.read (content w.server) offset buf.length)) := by
  obtain ⟨response, s', hserved, hu⟩ := runs_operation_ok h (readRequest path buf.length offset)
    (fun _ _ hf => hf) (fun _ _ hs => (served_read hfile hsize hs).2.1)
  obtain ⟨hcontent, -, datablock, hblock, hstores⟩ := served_read hfile hsize hserved
  have hlen : (ByteFile.read (content w.server) offset buf.length).length ≤ buf.length := by
    simp [ByteFile.read]
  have hhas : response.hasData ≠ -1 := by
    simp only [Response.hasData, hblock, hstores.size_eq]
    exact toInt32_natCast_ne_neg_one (by omega)
  simp only [hblock, if_neg hhas] at hu
  obtain ⟨rfl, rfl⟩ := runs_clientMem.mp hu
  refine ⟨hcontent, ?_⟩
  rw [DataBlock.getDataNoalloc_of_stores hinv (by omega) hstores hlen]
  rfl

/-- `Rhizofs_write` attaches its data to the request. -/
theorem runs_writeFill {buf : List UInt8} :
    ∃ datablock : DataBlock, datablock.Stores m.lz4 buf ∧ ∀ filled w₁,
      (clientMem ((writeRequest path buf.length offset).setData m.lz4 buf) >>=
        fun out => Prog.ret (if out.1 then some out.2 else none)).Runs m.okStep w filled w₁ →
      filled = some { writeRequest path buf.length offset with datablock := some datablock } ∧
        w₁ = w := by
  obtain ⟨datablock, hset, hstores⟩ :=
    Request.exec_setData m.lz4 (writeRequest path buf.length offset) buf rfl
  refine ⟨datablock, hstores, fun filled w₁ hf => ?_⟩
  obtain ⟨out, _, hrun, rfl, rfl⟩ := (Prog.runs_bind _ _ _ _ _ _).mp hf
  obtain ⟨rfl, rfl⟩ := runs_clientMem.mp hrun
  simp [hset]

theorem runs_write (hinv : m.lz4.Inverse)
    (hfile : RegularFile m.os (joined m.sd.directory path) content opened) {buf : List UInt8}
    (hsize : buf.length < 2 ^ 31) {ret : ℤ}
    (h : (rhizofsWrite m.lz4 path buf offset).Runs m.okStep w ret w') :
    content w'.server = ByteFile.write 0 (content w.server) offset buf ∧ ret = buf.length := by
  obtain ⟨datablock, hstores, hfill⟩ := runs_writeFill
  obtain ⟨response, s', hserved, hu⟩ := runs_operation_ok h _ hfill
    (fun _ _ hs => (served_write hinv hfile hsize hstores hs).2.1)
  obtain ⟨hcontent, -, hresponse⟩ := served_write hinv hfile hsize hstores hserved
  obtain ⟨_, w₁, rfl, hu⟩ := hu
  simp only [Prog.bind, hresponse] at hu
  obtain ⟨hret, rfl⟩ := hu
  exact ⟨hcontent, hret.trans (toInt32_natCast hsize)⟩

theorem runs_truncate (hfile : RegularFile m.os (joined m.sd.directory path) content opened)
    {ret : ℤ} (h : (rhizofsTruncate path offset).Runs m.okStep w ret w') :
    content w'.server = ByteFile.truncate 0 (content w.server) offset ∧ ret = 0 := by
  obtain ⟨response, s', hserved, hu⟩ := runs_operation_ok h (truncateRequest path offset)
    (fun _ _ hf => hf) (fun _ _ hs => (served_truncate hfile hs).2)
  obtain ⟨_, w₁, rfl, rfl, rfl⟩ := hu
  exact ⟨(served_truncate hfile hserved).1, rfl⟩

/-- One call shows the answer of the byte array and leaves the file that the array becomes. -/
theorem runs_call (hinv : m.lz4.Inverse)
    (hfile : RegularFile m.os (joined m.sd.directory path) content opened) {call : FileCall}
    (hsize : call.size < 2 ^ 31) {out : ℤ × List UInt8}
    (h : (call.run m.lz4 path).Runs m.okStep w out w') :
    out = call.outcome (call.access.apply 0 (content w.server)).1 ∧
      content w'.server = (call.access.apply 0 (content w.server)).2 := by
  cases call with
  | read buf offset =>
    obtain ⟨hcontent, rfl⟩ := runs_read hinv hfile hsize h
    exact ⟨rfl, hcontent⟩
  | write buf offset =>
    obtain ⟨ret, w₁, hrun, rfl, rfl⟩ := (Prog.runs_bind _ _ _ _ _ _).mp h
    obtain ⟨hcontent, rfl⟩ := runs_write hinv hfile hsize hrun
    exact ⟨rfl, hcontent⟩
  | truncate offset =>
    obtain ⟨ret, w₁, hrun, rfl, rfl⟩ := (Prog.runs_bind _ _ _ _ _ _).mp h
    obtain ⟨hcontent, rfl⟩ := runs_truncate hfile hrun
    exact ⟨rfl, hcontent⟩

/-! ## Any number of calls -/

/-- The calls show the answers of the byte array. -/
theorem runs_calls (hinv : m.lz4.Inverse)
    (hfile : RegularFile m.os (joined m.sd.directory path) content opened) {calls : List FileCall}
    (hsize : ∀ call ∈ calls, call.size < 2 ^ 31) {outs : List (ℤ × List UInt8)}
    (h : (FileCall.runAll m.lz4 path calls).Runs m.okStep w outs w') :
    outs = List.zipWith FileCall.outcome calls
        (ByteFile.Access.applyAll 0 (calls.map FileCall.access) (content w.server)).1 ∧
      content w'.server =
        (ByteFile.Access.applyAll 0 (calls.map FileCall.access) (content w.server)).2 := by
  induction calls generalizing w outs with
  | nil =>
    obtain ⟨rfl, rfl⟩ := h
    exact ⟨rfl, rfl⟩
  | cons call calls ih =>
    obtain ⟨hcall, hcalls⟩ := List.forall_mem_cons.mp hsize
    obtain ⟨out, w₁, hrun, h⟩ := (Prog.runs_bind _ _ _ _ _ _).mp h
    obtain ⟨outs, w₂, hruns, rfl, rfl⟩ := (Prog.runs_bind _ _ _ _ _ _).mp h
    obtain ⟨rfl, hcontent⟩ := runs_call hinv hfile hcall hrun
    obtain ⟨rfl, hend⟩ := ih hcalls hruns
    rw [hcontent] at hend ⊢
    exact ⟨rfl, hend⟩

/-- The bytes that consecutive reads placed in their buffers are those of the array. -/
theorem take_outcome_consecutive (file : List UInt8) (offset : ℕ) (bufs : List (List UInt8)) :
    (List.zipWith FileCall.outcome (FileCall.consecutive offset bufs)
        (ByteFile.Access.applyAll 0
          (ByteFile.consecutive offset (bufs.map List.length)) file).1).map
          (fun out => out.2.take out.1.toNat) =
      (ByteFile.Access.applyAll 0 (ByteFile.consecutive offset (bufs.map List.length)) file).1.map
        ByteFile.Answer.data := by
  induction bufs generalizing offset with
  | nil => rfl
  | cons buf bufs ih =>
    simpa [FileCall.consecutive, ByteFile.consecutive, ByteFile.Access.applyAll,
      ByteFile.Access.apply, FileCall.outcome, memcpy] using ih (offset + buf.length)

/-- **Remote file data refines a byte array**: calls in which everything succeeds return and read
what the same accesses to an array of bytes do, and leave that array on the server. Reads that
cover the file put it together again. -/
theorem runs_refine (hinv : m.lz4.Inverse)
    (hfile : RegularFile m.os (joined m.sd.directory path) content opened) (calls : List FileCall)
    (hsize : ∀ call ∈ calls, call.size < 2 ^ 31) {outs : List (ℤ × List UInt8)}
    (h : (FileCall.runAll m.lz4 path calls).Runs m.okStep w outs w') :
    outs = List.zipWith FileCall.outcome calls
        (ByteFile.Access.applyAll 0 (calls.map FileCall.access) (content w.server)).1 ∧
      content w'.server =
        (ByteFile.Access.applyAll 0 (calls.map FileCall.access) (content w.server)).2 ∧
      ∀ bufs : List (List UInt8), calls = FileCall.consecutive 0 bufs →
        (content w.server).length ≤ (bufs.map List.length).sum →
        (outs.map fun out => out.2.take out.1.toNat).flatten = content w.server := by
  obtain ⟨rfl, hend⟩ := runs_calls hinv hfile hsize h
  refine ⟨rfl, hend, ?_⟩
  rintro bufs rfl hlen
  rw [FileCall.access_consecutive, take_outcome_consecutive]
  exact (ByteFile.flatten_consecutive 0 (by omega)).2

end Refine

/-- Writing and reading back: the file with the byte 5 becomes 5, 7. -/
theorem runs_refine_single : ∃ outs w',
    (FileCall.runAll .onRun [47, 102] [.write [7] 1, .read [0, 0, 0] 0]).Runs single.okStep
      ⟨.init 1 1, [5]⟩ outs w' ∧ outs = [(1, []), (2, [5, 7, 0])] ∧ w'.server = [5, 7] := by
  have hrun : (FileCall.runAll .onRun [47, 102] [.write [7] 1, .read [0, 0, 0] 0]).Runs
      single.okStep ⟨.init 1 1, [5]⟩ [(1, []), (2, [5, 7, 0])]
        ⟨(AttrCache.init 1 1).remove [47, 102], [5, 7]⟩ :=
    -- the write: the request and its block, the exchange, the removal from the cache
    ⟨true, _, ⟨rfl, rfl⟩, true, _, ⟨rfl, rfl⟩, true, _, ⟨rfl, rfl⟩,
      _, ⟨_, [5, 7]⟩, ⟨0, _, ⟨true, _, ⟨rfl, rfl⟩, true, _, ⟨rfl, rfl⟩, true, _, ⟨rfl, rfl⟩,
        .ok 3, _, ⟨rfl, rfl⟩, true, _, ⟨rfl, rfl⟩, .ok 1, _, ⟨rfl, rfl⟩, .ok (), _, ⟨rfl, rfl⟩,
        ⟨0, 0⟩, _, ⟨rfl, trivial⟩, .ok (), _, ⟨rfl, rfl⟩, rfl, rfl⟩, rfl, rfl⟩, (), _, rfl,
      -- the read
      true, _, ⟨rfl, rfl⟩, _, ⟨_, [5, 7]⟩, ⟨0, _, ⟨true, _, ⟨rfl, rfl⟩, true, _, ⟨rfl, rfl⟩,
        true, _, ⟨rfl, rfl⟩, .ok 3, _, ⟨rfl, rfl⟩, true, _, ⟨rfl, rfl⟩, .ok [5, 7], _, ⟨rfl, rfl⟩,
        true, _, ⟨rfl, rfl⟩, true, _, ⟨rfl, rfl⟩, .ok (), _, ⟨rfl, rfl⟩, rfl, rfl⟩, rfl, rfl⟩,
      rfl, rfl⟩
  have hfile : RegularFile single.os (joined single.sd.directory [47, 102]) id fun _ _ => True :=
    oneFile_regularFile _
  obtain ⟨houts, hend, -⟩ :=
    runs_refine Lz4.onRun_inverse hfile _ (by simp [FileCall.size]) hrun
  exact ⟨_, _, hrun, houts, hend⟩

end Mount

end Rhizofs
