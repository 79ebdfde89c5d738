import Rhizofs.DataBlock
import Rhizofs.Mapping

/-!
# Requests and responses

`request.c` and `response.c`: creating the two messages, attaching file data, and reading and
writing the error number.
-/

namespace Rhizofs

open Extern

/-- A new data block holding `data`, compressed if that pays off. -/
def DataBlock.ofData (lz4 : Lz4) (data : List UInt8) : Prog MemRet (Option DataBlock) := do
  let some datablock ← create | return none
  let (ok, datablock) ← setData lz4 datablock data .lz4
  if !ok then return none
  return some datablock

theorem DataBlock.exec_ofData (lz4 : Lz4) (data : List UInt8) :
    ∃ datablock, (ofData lz4 data).exec allocAll () = (some datablock, ()) ∧
      Stores lz4 datablock data := by
  obtain ⟨datablock, hset, hstores⟩ := setData_stores lz4 data (.inr rfl)
  exact ⟨datablock, by simp [ofData, create, alloc, allocAll, Prog.perform] at hset ⊢; simp [hset],
    hstores⟩

/-! ## Requests -/

namespace Request

/-- A request before an operation has filled it in. The patch number is stored, but not marked as
present. -/
def initial : Request := { requesttype := .stat, version := { RHI_VERSION with patch := .none } }

/-- `Request_init`. -/
def init : Prog MemRet (Option Request) := do
  let ok ← alloc .record
  if !ok then return none
  return some initial

/-- `Request_set_data`. -/
def setData (lz4 : Lz4) (request : Request) (data : List UInt8) : Prog MemRet (Bool × Request) := do
  if request.datablock.isSome then return (false, request)
  let some datablock ← DataBlock.ofData lz4 data | return (false, request)
  return (true, { request with datablock := some datablock })

/-- With memory available the data of a request is attached. -/
theorem exec_setData (lz4 : Lz4) (request : Request) (data : List UInt8)
    (hnone : request.datablock = none) :
    ∃ datablock, (request.setData lz4 data).exec allocAll () =
      ((true, { request with datablock := some datablock }), ()) ∧
        datablock.Stores lz4 data := by
  obtain ⟨datablock, hdata, hstores⟩ := DataBlock.exec_ofData lz4 data
  exact ⟨datablock, by simp [setData, hnone, hdata], hstores⟩

/-- `Request_has_data`. -/
def hasData (request : Request) : ℤ :=
  match request.datablock with
  | some datablock => toInt32 datablock.size
  | none => -1

/-- A request with only a path. -/
def onPath (requesttype : RequestType) (path : CString) : Request :=
  { requesttype := requesttype, version := RHI_VERSION, path := some path }

end Request

/-! ## Responses -/

namespace Response

/-- The response before a handler has run. -/
def initial : Response := { requesttype := .stat, version := RHI_VERSION, errnotype := .none }

/-- `Response_create`. -/
def create : Prog MemRet (Option Response) := do
  let ok ← alloc .record
  if !ok then return none
  let ok ← alloc .record
  if !ok then return none
  return some initial

/-- `Response_set_data`. -/
def setData (lz4 : Lz4) (response : Response) (data : List UInt8) :
    Prog MemRet (Bool × Response) := do
  if response.datablock.isSome then return (false, response)
  let some datablock ← DataBlock.ofData lz4 data | return (false, response)
  return (true, { response with datablock := some datablock })

/-- With memory available the data of a response is attached. -/
theorem exec_setData (lz4 : Lz4) (response : Response) (data : List UInt8)
    (hnone : response.datablock = none) :
    ∃ datablock, (response.setData lz4 data).exec allocAll () =
      ((true, { response with datablock := some datablock }), ()) ∧
        datablock.Stores lz4 data := by
  obtain ⟨datablock, hdata, hstores⟩ := DataBlock.exec_ofData lz4 data
  exact ⟨datablock, by simp [setData, hnone, hdata], hstores⟩

/-- `Response_set_errno`. -/
def setErrno (response : Response) (eno : ℤ) : Response :=
  { response with errnotype := .fromLocal eno }

/-- `Response_get_errno`. -/
def getErrno (response : Response) : ℤ := response.errnotype.toLocal

/-- `Response_has_data`. -/
def hasData (response : Response) : ℤ :=
  match response.datablock with
  | some datablock => toInt32 datablock.size
  | none => -1

theorem getErrno_eq_zero {response : Response} (h : response.errnotype = .none) :
    response.getErrno = 0 := (Errno.toLocal_eq_zero_iff _).mpr h

theorem setErrno_errnotype_ne (response : Response) (e : Failure) :
    (response.setErrno e.errno).errnotype ≠ .none := by
  simp only [setErrno, ne_eq, Errno.fromLocal_eq_none_iff]
  exact e.ne

end Response

end Rhizofs
