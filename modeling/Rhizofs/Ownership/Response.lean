import Rhizofs.Foundations.Ownership
import Rhizofs.Server.Buffers

/-!
# The sub-objects of a response

The handlers of the server with an identity for the response and for everything that is attached to
it. A handler hands the response to `Response_pack`, which reads every sub-object, and
`Response_destroy` then frees the ones it knows of. The handlers not listed here attach nothing.
Without the identities a round is one of the functional model (`handle_erase`).
-/

namespace Rhizofs.Ownership

open Extern

/-! ## Attributes -/

/-- The blocks of a `Permissions`. -/
structure PermissionsBlocks where
  permissions : ℕ
  owner : ℕ
  group : ℕ
  world : ℕ

/-- All of them. -/
def PermissionsBlocks.all (b : PermissionsBlocks) : Multiset ℕ :=
  {b.owner} + {b.group} + {b.world} + {b.permissions}

/-- The blocks of an `Attrs`. -/
structure AttrsBlocks where
  attrs : ℕ
  name : Option ℕ
  permissions : PermissionsBlocks
  timestamps : ℕ

/-- All of them. -/
def AttrsBlocks.all (b : AttrsBlocks) : Multiset ℕ :=
  b.permissions.all + {b.timestamps} + Own.block b.name + {b.attrs}

/-- `Permissions_create`, which destroys what it has created when it fails. -/
def permissionsCreate : Own SysRet (Option PermissionsBlocks) := do
  let some permissions ← Own.allocate (sys (.alloc .record)) | return none
  let some owner ← Own.allocate (sys (.alloc .record)) | do
    Own.free {permissions}
    return none
  let some group ← Own.allocate (sys (.alloc .record)) | do
    Own.free ({owner} + {permissions})
    return none
  let some world ← Own.allocate (sys (.alloc .record)) | do
    Own.free ({owner} + {group} + {permissions})
    return none
  return some ⟨permissions, owner, group, world⟩

/-- `strdup` where there is something to duplicate: success and the block. -/
def dupName : Option CString → Own SysRet (Bool × Option ℕ)
  | none => return (true, none)
  | some s => do
    let name ← Own.allocate (sys (.alloc (.bytes (s.length + 1))))
    return (name.isSome, name)

/-- `Attrs_create`, which destroys what it has created when it fails. -/
def attrsCreate (statResult : Stat) (name : Option CString) :
    Own SysRet (Option (Attrs × AttrsBlocks)) := do
  let some attrs ← Own.allocate (sys (.alloc .record)) | return none
  let (ok, nameBlock) ← dupName name
  if !ok then
    Own.free (Own.block nameBlock + {attrs})
    return none
  let some permissions ← permissionsCreate | do
    Own.free (Own.block nameBlock + {attrs})
    return none
  let some timestamps ← Own.allocate (sys (.alloc .record)) | do
    Own.free (permissions.all + Own.block nameBlock + {attrs})
    return none
  let uid ← Own.lift (sys .getuid)
  let some isInGroup ← Own.lift (posixCurrentUserInGroup statResult.stGid) | do
    Own.free (permissions.all + {timestamps} + Own.block nameBlock + {attrs})
    return none
  return some (.ofStat statResult (.ofMode statResult.stMode) uid isInGroup name,
    ⟨attrs, nameBlock, permissions, timestamps⟩)

/-! ## Responses -/

/-- The blocks of a `DataBlock`. -/
structure DataBlockBlocks where
  dblk : ℕ
  data : Option ℕ

/-- Both of them. -/
def DataBlockBlocks.all (b : DataBlockBlocks) : Multiset ℕ := Own.block b.data + {b.dblk}

/-- The blocks of a `Response`. `entries` are those of `directory_entries[0 .. n_directory_entries)`
and `array` is `directory_entries` itself. A slot is filled at most once, so the blocks in the slots
are all that was ever attached. -/
structure ResponseBlocks where
  response : ℕ
  version : ℕ
  attrs : Option AttrsBlocks
  entries : List AttrsBlocks
  array : Option ℕ
  datablock : Option DataBlockBlocks
  linkTarget : Option ℕ
  statfs : Option ℕ

namespace ResponseBlocks

/-- The blocks of `attrs`, `directory_entries[i]` and `datablock`. -/
def payload (b : ResponseBlocks) : Multiset ℕ :=
  b.attrs.elim 0 AttrsBlocks.all + (b.entries.map AttrsBlocks.all).sum +
    b.datablock.elim 0 DataBlockBlocks.all

/-- The blocks of the response itself. -/
def own (b : ResponseBlocks) : Multiset ℕ := {b.version} + {b.response}

/-- The array of the entries, if there are any. -/
def usedArray (b : ResponseBlocks) : Multiset ℕ :=
  if b.entries = [] then 0 else Own.block b.array

/-- What `Response_pack` reads. -/
def packed (b : ResponseBlocks) : Multiset ℕ :=
  b.payload + b.usedArray + Own.block b.linkTarget + Own.block b.statfs + b.own

/-- What `Response_destroy` frees. -/
def destroyed (b : ResponseBlocks) : Multiset ℕ := b.payload + b.usedArray + b.own

/-- Everything that was ever attached. -/
def attached (b : ResponseBlocks) : Multiset ℕ :=
  b.payload + Own.block b.array + Own.block b.linkTarget + Own.block b.statfs + b.own

end ResponseBlocks

/-- `Response_destroy`. -/
def responseDestroy (b : ResponseBlocks) : Own SysRet Unit := do
  Own.free (b.attrs.elim 0 AttrsBlocks.all)
  Own.free ((b.entries.map AttrsBlocks.all).sum + b.usedArray)
  Own.free (b.datablock.elim 0 DataBlockBlocks.all)
  Own.free {b.version}
  Own.free {b.response}

/-- A response and its blocks. -/
structure OwnedResponse where
  response : Response
  blocks : ResponseBlocks

/-- A response to which nothing is attached. -/
def ResponseBlocks.fresh (response version : ℕ) : ResponseBlocks :=
  ⟨response, version, none, [], none, none, none, none⟩

/-- `Response_create`. -/
def responseCreate : Own SysRet (Option OwnedResponse) := do
  let some response ← Own.allocate (sys (.alloc .record)) | return none
  let some version ← Own.allocate (sys (.alloc .record)) | do
    Own.free {response}
    return none
  return some ⟨.initial, .fresh response version⟩

/-! ## The data of a response -/

/-- `set_lz4_compressed_data`: the return code, the block and its buffer. -/
def setLz4CompressedData (lz4 : Lz4) (dblk : DataBlock) (data : List UInt8) :
    Own SysRet (ℤ × DataBlock × Option ℕ) := do
  let extraMemSize := if data.length > 0 then data.length / 250 else 0
  let some buf ← Own.allocate (sys (.alloc (.bytes (data.length + extraMemSize)))) |
    return (-1, { dblk with data := [] }, none)
  let bytesCompressed := (lz4.compress data).length
  if bytesCompressed = 0 then
    Own.free {buf}
    return (-1, { dblk with data := [] }, none)
  return (toInt32 bytesCompressed, { dblk with data := lz4.compress data }, some buf)

/-- The fallback of `DataBlock_set_data`. -/
def setRawData (dblk : DataBlock) (data : List UInt8) :
    Own SysRet (Bool × DataBlock × Option ℕ) := do
  let some buf ← Own.allocate (sys (.alloc (.bytes data.length))) |
    return (false, { dblk with data := [] }, none)
  return (true, { size := data.length, data := data, compression := .none }, some buf)

/-- `DataBlock_set_data` with `COMPR_LZ4` on a new block. -/
def dataBlockSetData (lz4 : Lz4) (dblk : DataBlock) (data : List UInt8) :
    Own SysRet (Bool × DataBlock × Option ℕ) :=
  if data.length = 0 then return (true, { dblk with data := [] }, none)
  else if data.length > 100 then do
    let (rc, dblk, buf) ← setLz4CompressedData lz4 dblk data
    if rc ≠ -1 then return (true, { dblk with size := data.length, compression := .lz4 }, buf)
    setRawData dblk data
  else setRawData dblk data

/-- `Response_set_data`. -/
def responseSetData (lz4 : Lz4) (r : OwnedResponse) (data : List UInt8) :
    Own SysRet (Bool × OwnedResponse) := do
  if r.response.datablock.isSome then return (false, r)
  let some dblk ← Own.allocate (sys (.alloc .record)) | return (false, r)
  let (ok, datablock, buf) ← dataBlockSetData lz4 .init data
  if !ok then
    Own.free (Own.block buf + {dblk})
    return (false, r)
  return (true, {
    response := { r.response with datablock := some datablock }
    blocks := { r.blocks with datablock := some ⟨dblk, buf⟩ } })

/-! ## The handlers -/

section Handlers

variable (lz4 : Lz4) (sd : ServeDir) (request : Request) (r : OwnedResponse)

/-- The second loop of `ServeDir_op_readdir`. -/
def fillEntries (dirpath : CString) : List CString → OwnedResponse →
    Own SysRet (Bool × OwnedResponse)
  | [], r => return (true, r)
  | name :: names, r => do
    let some entryFullpath ← Own.lift (mem (pathJoin dirpath name)) | return (false, r)
    match ← Own.lift (sys (.lstat entryFullpath)) with
    | .ok sb => do
      let some (attrs, b) ← attrsCreate sb (some name) | return (false, r)
      fillEntries dirpath names {
        response := { r.response with directoryEntries := r.response.directoryEntries ++ [attrs] }
        blocks := { r.blocks with entries := r.blocks.entries ++ [b] } }
    | .error e => fillEntries dirpath names { r with response := r.response.setErrno e.errno }

/-- `ServeDir_op_readdir` once the array is allocated. The label `error` destroys the entries and
the array, but leaves the pointers and the count. -/
def readdirFill (dirpath : CString) : Own SysRet (ℤ × OwnedResponse) := do
  Own.lift (sys (.rewinddir dirpath))
  let (names, _) ← Own.lift (sys (.readdir dirpath))
  let (done, r) ← fillEntries dirpath names r
  if !done then
    Own.free ((r.blocks.entries.map AttrsBlocks.all).sum + Own.block r.blocks.array)
    Own.lift (sys (.closedir dirpath))
    return (-1, r)
  Own.lift (sys (.closedir dirpath))
  return (0, r)

/-- `ServeDir_op_readdir`. -/
def opReaddir : Own SysRet (ℤ × OwnedResponse) := do
  let response := { r.response with requesttype := .readdir, directoryEntries := [] }
  let r := { r with response := response, blocks := { r.blocks with entries := [] } }
  let some dirpath ← Own.lift (sd.fullpath request) | return (-1, r)
  match ← Own.lift (sys (.opendir dirpath)) with
  | .error e => return (0, { r with response := response.setErrno e.errno })
  | .ok _ => do
    let (counted, _) ← Own.lift (sys (.readdir dirpath))
    let some array ← Own.allocate (sys (.alloc (.entries counted.length))) | do
      Own.lift (sys (.closedir dirpath))
      return (-1, { r with response := { response with errnotype := .nomem } })
    readdirFill { r with blocks := { r.blocks with array := some array } } dirpath

/-- `ServeDir_op_readlink`. -/
def opReadlink : Own SysRet (ℤ × OwnedResponse) := do
  let response := { r.response with requesttype := .readlink }
  let some path ← Own.lift (sd.fullpath request) | return (-1, { r with response := response })
  match ← Own.lift (sys (.readlink path (PATH_MAX - 1))) with
  | .error e => return (0, { r with response := response.setErrno e.errno })
  | .ok linkTarget => do
    let some b ← Own.allocate (sys (.alloc (.bytes (linkTarget.length + 1)))) |
      return (-1, { r with response := response })
    return (0, {
      response := { response with linkTarget := some linkTarget }
      blocks := { r.blocks with linkTarget := some b } })

/-- `ServeDir_op_getattr`. -/
def opGetattr : Own SysRet (ℤ × OwnedResponse) := do
  let response := { r.response with requesttype := .getattr }
  let some path ← Own.lift (sd.fullpath request) | return (-1, { r with response := response })
  match ← Own.lift (sys (.lstat path)) with
  | .error e => return (0, { r with response := response.setErrno e.errno })
  | .ok sb => do
    let some (attrs, b) ← attrsCreate sb none | return (-1, { r with response := response })
    return (0, {
      response := { response with attrs := some attrs }
      blocks := { r.blocks with attrs := some b } })

/-- `ServeDir_op_read`, whose `databuf` is not attached. -/
def opRead : Own SysRet (ℤ × OwnedResponse) := do
  let response := { r.response with requesttype := .read }
  let r := { r with response := response }
  let some size := request.size | return (response.refuse.1, { r with response := response.refuse.2 })
  let some offset := request.offset |
    return (response.refuse.1, { r with response := response.refuse.2 })
  let some path ← Own.lift (sd.fullpath request) | return (-1, r)
  match ← Own.lift (sys (.open path O_RDONLY 0)) with
  | .error e => return (0, { r with response := response.setErrno e.errno })
  | .ok fd => do
    let ok ← Own.lift (sys (.alloc (.bytes (toSize (toInt32 size)))))
    if !ok then
      let _ ← Own.lift (sys (.close fd))
      return (-1, r)
    match ← Own.lift (ServeDir.readAt fd size offset) with
    | .error e => do
      let _ ← Own.lift (sys (.close fd))
      return (0, { r with response := response.setErrno e.errno })
    | .ok databuf => do
      let (ok, r) ← responseSetData lz4 r databuf
      let _ ← Own.lift (sys (.close fd))
      return (if ok then 0 else -1, r)

/-- `ServeDir_op_statfs`. -/
def opStatfs : Own SysRet (ℤ × OwnedResponse) := do
  let response := { r.response with requesttype := .statfs }
  let some path ← Own.lift (sd.fullpath request) | return (-1, { r with response := response })
  match ← Own.lift (sys (.statvfs path)) with
  | .error e => return (0, { r with response := response.setErrno e.errno })
  | .ok stfs => do
    let some (statfs, b) ← Own.create (mem (StatFs.create stfs)) |
      return (-1, { r with response := response })
    return (0, {
      response := { response with statfs := some statfs }
      blocks := { r.blocks with statfs := some b } })

/-- The switch of `ServeDir_serve`. The other handlers attach nothing to the response. -/
def dispatch : Own SysRet (ℤ × OwnedResponse) :=
  match request.requesttype with
  | .readdir => opReaddir sd request r
  | .readlink => opReadlink sd request r
  | .getattr => opGetattr sd request r
  | .read => opRead lz4 sd request r
  | .statfs => opStatfs sd request r
  | _ => do
    let (rc, response) ← Own.lift (ServeDir.dispatch lz4 sd request r.response)
    return (rc, { r with response := response })

/-- One round of `ServeDir_serve` up to `Response_pack`: `op_rc` and the response, or nothing when
there is no memory for a response. -/
def handle : Option Request → Own SysRet (Option (ℤ × OwnedResponse))
  | none => do
    let some r ← responseCreate | return none
    return some (0, { r with response :=
      { r.response with requesttype := .unknown, errnotype := .unserializable } })
  | some request => do
    let some r ← responseCreate | return none
    return some (← dispatch lz4 sd request r)

end Handlers

/-! ## The handlers without identities -/

section Erase

variable (lz4 : Lz4) (sd : ServeDir) (request : Request) (r : OwnedResponse)

theorem permissionsCreate_erase (mode : ℕ) :
    Own.Erases (Option.map fun _ => Permissions.ofMode mode) permissionsCreate
      (mem (Permissions.create mode)) := by
  apply Own.erases_allocate_bind _ (Own.erases_pure _ _)
  intro permissions
  apply Own.erases_allocate_bind _ (fun _ => rfl)
  intro owner
  apply Own.erases_allocate_bind _ (fun _ => rfl)
  intro group
  apply Own.erases_allocate_bind _ (fun _ => rfl)
  intro world
  exact Own.erases_pure _ _

theorem dupName_erase (name : Option CString) :
    Own.Erases Prod.fst (dupName name) (mem (Rhizofs.dupName name)) := by
  cases name with
  | none => exact Own.erases_pure _ _
  | some s => exact Own.erases_allocate_bind (fun _ => Own.erases_pure _ _) (Own.erases_pure _ _)

theorem attrsCreate_erase (sb : Stat) (name : Option CString) :
    Own.Erases (Option.map Prod.fst) (attrsCreate sb name) (Attrs.create sb name) := by
  apply Own.erases_allocate_bind _ (Own.erases_pure _ _)
  intro attrs
  apply Own.erases_bind (dupName_erase name)
  rintro ⟨_ | _, nameBlock⟩
  · exact Own.erases_free_bind (Own.erases_pure _ _)
  apply Own.erases_bind (permissionsCreate_erase sb.stMode)
  rintro (_ | permissions)
  · exact Own.erases_free_bind (Own.erases_pure _ _)
  apply Own.erases_allocate_bind _ (fun _ => rfl)
  intro timestamps
  apply Own.erases_lift_bind
  intro uid
  apply Own.erases_lift_bind
  rintro (_ | isInGroup)
  · exact Own.erases_free_bind (Own.erases_pure _ _)
  · exact Own.erases_pure _ _

theorem fillEntries_erase (dirpath : CString) (names : List CString) :
    Own.Erases (fun x => (x.1, x.2.response)) (fillEntries dirpath names r)
      (ServeDir.fillEntries dirpath names r.response) := by
  induction names generalizing r with
  | nil => exact Own.erases_pure _ _
  | cons name names ih =>
    apply Own.erases_lift_bind
    rintro (_ | entryFullpath)
    · exact Own.erases_pure _ _
    apply Own.erases_lift_bind
    rintro (e | sb)
    · exact ih { r with response := r.response.setErrno e.errno }
    apply Own.erases_bind (attrsCreate_erase sb (some name))
    rintro (_ | ⟨attrs, b⟩)
    · exact Own.erases_pure _ _
    · exact ih _

theorem opReaddir_erase :
    Own.Erases (fun x => (x.1, x.2.response)) (opReaddir sd request r)
      (ServeDir.opReaddir sd request r.response) := by
  apply Own.erases_lift_bind
  rintro (_ | dirpath)
  · exact Own.erases_pure _ _
  apply Own.erases_lift_bind
  rintro (e | ⟨⟩)
  · exact Own.erases_pure _ _
  apply Own.erases_lift_bind
  rintro ⟨counted, -⟩
  apply Own.erases_allocate_bind
  · intro array
    apply Own.erases_lift_bind
    intro _
    apply Own.erases_lift_bind
    rintro ⟨names, -⟩
    apply Own.erases_bind (fillEntries_erase _ dirpath names)
    rintro ⟨_ | _, r⟩
    · exact Own.erases_free_bind (Own.erases_lift_bind fun _ => Own.erases_pure _ _)
    · exact Own.erases_lift_bind fun _ => Own.erases_pure _ _
  · exact Own.erases_lift_bind fun _ => Own.erases_pure _ _

theorem opReadlink_erase :
    Own.Erases (fun x => (x.1, x.2.response)) (opReadlink sd request r)
      (ServeDir.opReadlink sd request r.response) := by
  apply Own.erases_lift_bind
  rintro (_ | path)
  · exact Own.erases_pure _ _
  apply Own.erases_lift_bind
  rintro (e | linkTarget)
  · exact Own.erases_pure _ _
  · exact Own.erases_allocate_bind (fun _ => Own.erases_pure _ _) (Own.erases_pure _ _)

theorem opGetattr_erase :
    Own.Erases (fun x => (x.1, x.2.response)) (opGetattr sd request r)
      (ServeDir.opGetattr sd request r.response) := by
  apply Own.erases_lift_bind
  rintro (_ | path)
  · exact Own.erases_pure _ _
  apply Own.erases_lift_bind
  rintro (e | sb)
  · exact Own.erases_pure _ _
  apply Own.erases_bind (attrsCreate_erase sb none)
  rintro (_ | ⟨attrs, b⟩)
  · exact Own.erases_pure _ _
  · exact Own.erases_pure _ _

theorem opStatfs_erase :
    Own.Erases (fun x => (x.1, x.2.response)) (opStatfs sd request r)
      (ServeDir.opStatfs sd request r.response) := by
  apply Own.erases_lift_bind
  rintro (_ | path)
  · exact Own.erases_pure _ _
  apply Own.erases_lift_bind
  rintro (e | stfs)
  · exact Own.erases_pure _ _
  · exact Own.erases_create_bind (fun _ _ => Own.erases_pure _ _) (Own.erases_pure _ _)

theorem setRawData_erase (dblk : DataBlock) (data : List UInt8) :
    Own.Erases (fun x => (x.1, x.2.1)) (setRawData dblk data) (mem (dblk.setRawData data)) :=
  Own.erases_allocate_bind (fun _ => Own.erases_pure _ _) (Own.erases_pure _ _)

theorem setLz4CompressedData_erase (dblk : DataBlock) (data : List UInt8) :
    Own.Erases (fun x => (x.1, x.2.1)) (setLz4CompressedData lz4 dblk data)
      (mem (dblk.setLz4CompressedData lz4 data)) := by
  apply Own.erases_allocate_bind _ (Own.erases_pure _ _)
  intro buf
  dsimp only
  by_cases hzero : (lz4.compress data).length = 0
  · simp only [hzero, if_true]
    exact fun _ => rfl
  · simp only [hzero, if_false]
    generalize toInt32 (lz4.compress data).length = bytesCompressed
    exact fun _ => rfl

theorem dataBlockSetData_erase (dblk : DataBlock) (data : List UInt8) :
    Own.Erases (fun x => (x.1, x.2.1)) (dataBlockSetData lz4 dblk data)
      (mem (dblk.setData lz4 data .lz4)) := by
  unfold dataBlockSetData DataBlock.setData
  split_ifs
  · exact Own.erases_pure _ _
  · rw [mem_bind]
    apply Own.erases_bind (setLz4CompressedData_erase lz4 dblk data)
    rintro ⟨rc, dblk', buf⟩
    by_cases hrc : rc = -1
    · simp only [hrc, ne_eq, not_true, if_false]
      exact setRawData_erase dblk' data
    · simp only [hrc, ne_eq, not_false_eq_true, if_true]
      exact Own.erases_pure _ _
  · exact setRawData_erase dblk data

theorem responseSetData_erase (data : List UInt8) :
    Own.Erases (fun x => (x.1, x.2.response)) (responseSetData lz4 r data)
      (mem (r.response.setData lz4 data)) := by
  unfold responseSetData Response.setData
  split_ifs
  · exact Own.erases_pure _ _
  rw [DataBlock.ofData, mem_bind, mem_bind, Prog.bind_assoc]
  apply Own.erases_allocate_bind _ (Own.erases_pure _ _)
  intro dblk
  change Own.Erases _ (dataBlockSetData lz4 .init data >>= _)
    (mem (DataBlock.init.setData lz4 data .lz4 >>= _) >>= _)
  rw [mem_bind, Prog.bind_assoc]
  apply Own.erases_bind (dataBlockSetData_erase lz4 .init data)
  rintro ⟨_ | _, datablock, buf⟩
  · exact fun _ => rfl
  · exact fun _ => rfl

theorem opRead_erase :
    Own.Erases (fun x => (x.1, x.2.response)) (opRead lz4 sd request r)
      (ServeDir.opRead lz4 sd request r.response) := by
  unfold opRead ServeDir.opRead
  cases request.size with
  | none => exact Own.erases_pure _ _
  | some size =>
    cases request.offset with
    | none => exact Own.erases_pure _ _
    | some offset =>
      apply Own.erases_lift_bind
      rintro (_ | path)
      · exact Own.erases_pure _ _
      apply Own.erases_lift_bind
      rintro (e | fd)
      · exact Own.erases_pure _ _
      apply Own.erases_lift_bind
      rintro (_ | _)
      · exact Own.erases_lift_bind fun _ => Own.erases_pure _ _
      apply Own.erases_lift_bind
      rintro (e | databuf)
      · exact Own.erases_lift_bind fun _ => Own.erases_pure _ _
      apply Own.erases_bind (responseSetData_erase lz4 _ databuf)
      rintro ⟨ok, r⟩
      exact Own.erases_lift_bind fun _ => Own.erases_pure _ _

theorem dispatch_erase :
    Own.Erases (fun x => (x.1, x.2.response)) (dispatch lz4 sd request r)
      (ServeDir.dispatch lz4 sd request r.response) := by
  unfold dispatch
  split
  next hc => simpa only [ServeDir.dispatch, hc] using opReaddir_erase sd request r
  next hc => simpa only [ServeDir.dispatch, hc] using opReadlink_erase sd request r
  next hc => simpa only [ServeDir.dispatch, hc] using opGetattr_erase sd request r
  next hc => simpa only [ServeDir.dispatch, hc] using opRead_erase lz4 sd request r
  next hc => simpa only [ServeDir.dispatch, hc] using opStatfs_erase sd request r
  next =>
    intro h
    rw [Own.lift_bind, Prog.bind_assoc]
    exact Prog.bind_ret _

theorem responseCreate_erase :
    Own.Erases (Option.map OwnedResponse.response) responseCreate (mem Response.create) := by
  apply Own.erases_allocate_bind _ (Own.erases_pure _ _)
  intro response
  apply Own.erases_allocate_bind _ (fun _ => rfl)
  intro version
  exact Own.erases_pure _ _

/-- **Without the identities**, a round is one of the functional model. -/
theorem handle_erase (request : Option Request) :
    Own.Erases (Option.map fun x => (x.1, x.2.response)) (handle lz4 sd request)
      (ServeDir.handle lz4 sd request) := by
  cases request with
  | none =>
    apply Own.erases_bind responseCreate_erase
    rintro (_ | r)
    · exact Own.erases_pure _ _
    · exact Own.erases_pure _ _
  | some request =>
    apply Own.erases_bind responseCreate_erase
    rintro (_ | r)
    · exact Own.erases_pure _ _
    · apply Own.erases_bind (dispatch_erase lz4 sd request r)
      intro x
      exact Own.erases_pure _ _

end Erase

/-! ## What the helpers leave behind -/

section Triples

theorem triple_permissionsCreate :
    Own.Triple 0 permissionsCreate fun r => r.elim 0 PermissionsBlocks.all := by
  apply Own.triple_allocate_bind
  · exact Own.triple_pure rfl
  intro permissions
  apply Own.triple_allocate_bind
  · exact Own.triple_free_bind 0 rfl (Own.triple_pure rfl)
  intro owner
  apply Own.triple_allocate_bind
  · exact Own.triple_free_bind 0 (by ac_rfl) (Own.triple_pure rfl)
  intro group
  apply Own.triple_allocate_bind
  · exact Own.triple_free_bind 0 (by ac_rfl) (Own.triple_pure rfl)
  intro world
  apply Own.triple_pure
  simp only [Option.elim_some, PermissionsBlocks.all, add_zero]
  ac_rfl

theorem triple_dupName (name : Option CString) :
    Own.Triple 0 (dupName name) fun r => Own.block r.2 := by
  cases name with
  | none => exact Own.triple_pure rfl
  | some s =>
    apply Own.triple_allocate_bind
    · exact Own.triple_pure rfl
    intro p
    exact Own.triple_pure rfl

/-- `Attrs_create` leaves the blocks of the attributes, or nothing. -/
theorem triple_attrsCreate (sb : Stat) (name : Option CString) :
    Own.Triple 0 (attrsCreate sb name) fun r => r.elim 0 fun x => x.2.all := by
  apply Own.triple_allocate_bind
  · exact Own.triple_pure rfl
  intro attrs
  apply Own.triple_frame_bind (triple_dupName name)
  rintro ⟨_ | _, nameBlock⟩
  · exact Own.triple_free_bind 0 (by simp) (Own.triple_pure rfl)
  apply Own.triple_frame_bind triple_permissionsCreate
  rintro (_ | permissions)
  · exact Own.triple_free_bind 0 (by simp) (Own.triple_pure rfl)
  apply Own.triple_allocate_bind
  · exact Own.triple_free_bind 0 (by simp [add_assoc]) (Own.triple_pure rfl)
  intro timestamps
  apply Own.triple_lift_bind
  intro uid
  apply Own.triple_lift_bind
  rintro (_ | isInGroup)
  · have hblocks : ({timestamps} : Multiset ℕ) + (permissions.all +
        (Own.block nameBlock + ({attrs} + 0))) =
          permissions.all + {timestamps} + Own.block nameBlock + {attrs} + 0 := by ac_rfl
    exact Own.triple_free_bind 0 hblocks (Own.triple_pure rfl)
  · apply Own.triple_pure
    simp only [Option.elim_some, AttrsBlocks.all, add_zero]
    ac_rfl

theorem triple_setRawData (dblk : DataBlock) (data : List UInt8) :
    Own.Triple 0 (setRawData dblk data) fun x => Own.block x.2.2 := by
  apply Own.triple_allocate_bind
  · exact Own.triple_pure rfl
  intro buf
  exact Own.triple_pure rfl

/-- Only a compression that fails leaves no buffer. -/
theorem triple_setLz4CompressedData (lz4 : Lz4) (dblk : DataBlock) (data : List UInt8) :
    Own.Triple 0 (setLz4CompressedData lz4 dblk data) fun x =>
      if x.1 = -1 then 0 else Own.block x.2.2 := by
  apply Own.triple_allocate_bind
  · exact Own.triple_pure rfl
  intro buf
  dsimp only
  split_ifs with hzero
  · exact Own.triple_free_bind 0 rfl (Own.triple_pure rfl)
  · have hcode := toInt32_natCast_ne_neg_one (lz4.length_compress_lt data)
    apply Own.triple_pure
    simp [hcode]

theorem triple_dataBlockSetData (lz4 : Lz4) (dblk : DataBlock) (data : List UInt8) :
    Own.Triple 0 (dataBlockSetData lz4 dblk data) fun x => Own.block x.2.2 := by
  unfold dataBlockSetData
  split_ifs
  · exact Own.triple_pure rfl
  · apply Own.triple_frame_bind (triple_setLz4CompressedData lz4 dblk data)
    rintro ⟨rc, dblk', buf⟩
    by_cases hrc : rc = -1
    · simp only [hrc, ne_eq, not_true, if_false, if_true, add_zero]
      exact triple_setRawData dblk' data
    · simp only [hrc, ne_eq, not_false_eq_true, if_true, if_false, add_zero]
      exact Own.triple_pure rfl
  · exact triple_setRawData dblk data

/-- `Response_set_data` leaves the blocks of the data it has attached. -/
theorem triple_responseSetData (lz4 : Lz4) {r : OwnedResponse} (data : List UInt8)
    (hnone : r.blocks.datablock = none) :
    Own.Triple 0 (responseSetData lz4 r data) fun x =>
      x.2.blocks.datablock.elim 0 DataBlockBlocks.all := by
  unfold responseSetData
  split_ifs
  · exact Own.triple_pure (by simp [hnone])
  apply Own.triple_allocate_bind
  · exact Own.triple_pure (by simp [hnone])
  intro dblk
  apply Own.triple_frame_bind (triple_dataBlockSetData lz4 .init data)
  rintro ⟨_ | _, datablock, buf⟩
  · exact Own.triple_free_bind 0 (by simp) (Own.triple_pure (by simp [hnone]))
  · exact Own.triple_pure (by simp [DataBlockBlocks.all])

/-- It attaches nothing else. -/
theorem blocks_responseSetData (lz4 : Lz4) {r : OwnedResponse} (data : List UInt8) (h : Heap) :
    (responseSetData lz4 r data h).Returns fun x =>
      ∃ datablock, x.1.2.blocks = { r.blocks with datablock := datablock } := by
  unfold responseSetData
  split_ifs
  · exact ⟨_, rfl⟩
  apply Prog.Returns.then
  rintro ⟨_ | dblk, h₁⟩
  · exact ⟨_, rfl⟩
  apply Prog.Returns.then
  rintro ⟨⟨_ | _, datablock, buf⟩, h₂⟩
  · exact ⟨_, rfl⟩
  · exact ⟨_, rfl⟩

end Triples

end Rhizofs.Ownership
