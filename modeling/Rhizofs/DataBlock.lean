import Rhizofs.Proto

/-!
# Data blocks

`datablock.c`: the container in which file data crosses the wire, stored raw or as an LZ4 stream.
Buffers are lists of bytes; a `memcpy` into a buffer that is too short leaves a list longer than
the buffer. The LZ4 library is a parameter (`Lz4`); `Lz4.Inverse` is what the code relies on.

`Stores lz4 dblk x` says that the block holds the bytes `x` in one of its two forms. It is what
`setData` establishes (`setData_stores`) and all that the two decoders need
(`getData_of_stores`, `getDataNoalloc_of_stores`).
-/

namespace Rhizofs

open Extern

/-- The two LZ4 entry points. `compress` is the stream `LZ4_compress` writes, empty when it
returns 0; its length is the `int` the function returns. `uncompress source dest osize` is the
value `LZ4_uncompress` returns and the destination buffer afterwards. -/
structure Lz4 where
  compress : List UInt8 → List UInt8
  length_compress_lt (x : List UInt8) : (compress x).length < 2 ^ 31
  uncompress : List UInt8 → List UInt8 → ℤ → ℤ × List UInt8

/-- Copy `src` to the beginning of the buffer `dest`. -/
def memcpy (dest src : List UInt8) : List UInt8 := src ++ dest.drop src.length

/-- `LZ4_uncompress` inverts `LZ4_compress`: on a non-empty stream for `x` it restores `x` and
consumes exactly the stream. -/
def Lz4.Inverse (lz4 : Lz4) : Prop :=
  ∀ x dest : List UInt8, x.length < 2 ^ 31 → x.length ≤ dest.length → lz4.compress x ≠ [] →
    lz4.uncompress (lz4.compress x) dest x.length =
      (((lz4.compress x).length : ℤ), memcpy dest x)

/-- 200 times the byte `a`, which LZ4 compresses well. -/
def run200 : List UInt8 := List.replicate 200 97

@[simp] theorem length_run200 : run200.length = 200 := List.length_replicate

/-- The library on the input `run200`: one literal, one match of 194 bytes at offset 1, and the
five last literals. It refuses every other input. -/
def Lz4.onRun : Lz4 where
  compress x := if x = run200 then [0x1F, 97, 1, 0, 175, 0x50, 97, 97, 97, 97, 97] else []
  length_compress_lt x := by split_ifs <;> simp
  uncompress source dest osize :=
    if source = [0x1F, 97, 1, 0, 175, 0x50, 97, 97, 97, 97, 97] ∧ osize = 200 then
      (11, memcpy dest run200)
    else (-1, dest)

theorem Lz4.onRun_inverse : Lz4.onRun.Inverse := by
  intro x dest _ _ hne
  have hx : x = run200 := by
    by_contra h
    exact hne (if_neg h)
  subst hx
  simp [Lz4.onRun]

namespace DataBlock

/-- A block as `rhizofs__data_block__init` leaves it. -/
def init : DataBlock := { size := 0, data := [], compression := .none }

/-- `DataBlock_create`. -/
def create : Prog MemRet (Option DataBlock) := do
  let ok ← alloc .record
  if !ok then return none
  return some init

variable (lz4 : Lz4)

/-- `set_lz4_compressed_data`: the return code and the block. -/
def setLz4CompressedData (dblk : DataBlock) (data : List UInt8) : Prog MemRet (ℤ × DataBlock) := do
  let extraMemSize := if data.length > 0 then data.length / 250 else 0
  let ok ← alloc (.bytes (data.length + extraMemSize))
  if !ok then return (-1, { dblk with data := [] })
  let bytesCompressed := (lz4.compress data).length
  if bytesCompressed = 0 then return (-1, { dblk with data := [] })
  return (toInt32 bytesCompressed, { dblk with data := lz4.compress data })

/-- The fallback of `DataBlock_set_data`: store the data as it is. -/
def setRawData (dblk : DataBlock) (data : List UInt8) : Prog MemRet (Bool × DataBlock) := do
  let ok ← alloc (.bytes data.length)
  if !ok then return (false, { dblk with data := [] })
  return (true, { size := data.length, data := data, compression := .none })

/-- `DataBlock_set_data`: success and the block. -/
def setData (dblk : DataBlock) (data : List UInt8) (compression : CompressionType) :
    Prog MemRet (Bool × DataBlock) :=
  -- `size` and `compression` keep their values when there is no data
  if data.length = 0 then return (true, { dblk with data := [] })
  else match (if data.length > 100 then compression else .none) with
  | .none => setRawData dblk data
  | .lz4 => do
    let (rc, dblk) ← setLz4CompressedData lz4 dblk data
    if rc ≠ -1 then return (true, { dblk with size := data.length, compression := .lz4 })
    setRawData dblk data
  | .other _ => return (false, { dblk with data := [] })

/-- The destination buffer of a decoder: a fresh zeroed one of `len` bytes, or `data`. -/
def destination (data : Option (List UInt8)) (len : ℕ) (doAlloc : Bool) :
    Prog MemRet (Option (List UInt8)) := do
  if !doAlloc then return data
  let ok ← alloc (.bytes len)
  if !ok then return none
  return some (List.replicate len 0)

/-- `get_uncompressed_data`: the return code and the destination buffer. -/
def getUncompressedData (dblk : DataBlock) (data : Option (List UInt8)) (doAlloc : Bool) :
    Prog MemRet (ℤ × Option (List UInt8)) := do
  let some buf ← destination data dblk.data.length doAlloc | return (-1, none)
  return (toInt32 dblk.data.length, some (memcpy buf dblk.data))

/-- `get_lz4_compressed_data`: the return code and the destination buffer. -/
def getLz4CompressedData (dblk : DataBlock) (data : Option (List UInt8)) (doAlloc : Bool) :
    Prog MemRet (ℤ × Option (List UInt8)) := do
  let len := toSize dblk.size
  let some buf ← destination data len doAlloc | return (-1, none)
  let (bytesUncompressed, buf) := lz4.uncompress dblk.data buf (toInt32 len)
  let complete := bytesUncompressed ≥ 0 ∧ dblk.data.length = toSize bytesUncompressed
  return (if complete then toInt32 len else -1, some buf)

/-- The decoder for the block's compression, or nothing for an unsupported one. -/
def decoder (dblk : DataBlock) (data : Option (List UInt8)) (doAlloc : Bool) :
    Prog MemRet (ℤ × Option (List UInt8)) :=
  match dblk.compression with
  | .none => getUncompressedData dblk data doAlloc
  | .lz4 => getLz4CompressedData lz4 dblk data doAlloc
  | .other _ => return (-1, data)

/-- `DataBlock_get_data`: the return code and the allocated buffer. -/
def getData (dblk : DataBlock) : Prog MemRet (ℤ × Option (List UInt8)) := do
  let (len, data) ← decoder lz4 dblk none true
  return if len > -1 then (len, data) else (-1, none)

/-- `DataBlock_get_data_noalloc` on a buffer `data` of `dataLen` bytes: the return code and the
buffer afterwards. -/
def getDataNoalloc (dblk : DataBlock) (data : List UInt8) (dataLen : ℕ) :
    Prog MemRet (ℤ × List UInt8) := do
  if ¬ dataLen ≥ toSize dblk.size then return (-1, data)
  let (len, buf) ← decoder lz4 dblk (some data) false
  return (if len > -1 then len else -1, buf.getD data)

/-- Decoding into a given buffer allocates nothing. -/
theorem getDataNoalloc_eq_ret (dblk : DataBlock) (data : List UInt8) (dataLen : ℕ) :
    ∃ out, getDataNoalloc lz4 dblk data dataLen = .ret out := by
  unfold getDataNoalloc
  split_ifs
  · cases hc : dblk.compression <;>
      exact ⟨_, by simp [decoder, hc, getUncompressedData, getLz4CompressedData, destination]; rfl⟩
  · exact ⟨_, rfl⟩

/-! ## What a block stores -/

/-- The block holds the bytes `x`, raw or compressed. -/
structure Stores (dblk : DataBlock) (x : List UInt8) : Prop where
  size_eq : dblk.size = x.length
  form : dblk.compression = .none ∧ dblk.data = x ∨
    dblk.compression = .lz4 ∧ dblk.data = lz4.compress x ∧ lz4.compress x ≠ []

theorem setRawData_stores (dblk : DataBlock) (x : List UInt8) :
    ∃ dblk', (setRawData dblk x).exec allocAll () = ((true, dblk'), ()) ∧ Stores lz4 dblk' x :=
  ⟨_, by simp [setRawData, alloc, allocAll]; rfl, ⟨rfl, .inl ⟨rfl, rfl⟩⟩⟩

theorem exec_setLz4CompressedData (dblk : DataBlock) {x : List UInt8} (hz : lz4.compress x ≠ []) :
    (setLz4CompressedData lz4 dblk x).exec allocAll () =
      ((toInt32 (lz4.compress x).length, { dblk with data := lz4.compress x }), ()) := by
  simp [setLz4CompressedData, alloc, allocAll, hz]

theorem exec_setLz4CompressedData_fail (dblk : DataBlock) {x : List UInt8}
    (hz : lz4.compress x = []) :
    (setLz4CompressedData lz4 dblk x).exec allocAll () = ((-1, { dblk with data := [] }), ()) := by
  simp [setLz4CompressedData, alloc, allocAll, hz]

/-- With memory available, `setData` on a fresh block succeeds and stores the data. -/
theorem setData_stores (x : List UInt8) {compression : CompressionType}
    (hc : compression = .none ∨ compression = .lz4) :
    ∃ dblk, (setData lz4 init x compression).exec allocAll () = ((true, dblk), ()) ∧
      Stores lz4 dblk x := by
  by_cases h0 : x.length = 0
  · have hx : x = [] := List.length_eq_zero_iff.mp h0
    exact ⟨_, by rw [setData, if_pos h0]; rfl, ⟨by simp [init, hx], .inl ⟨rfl, hx.symm⟩⟩⟩
  by_cases h100 : x.length > 100
  · rcases hc with rfl | rfl
    · simpa only [setData, if_neg h0, if_pos h100] using setRawData_stores lz4 init x
    · simp only [setData, if_neg h0, if_pos h100, Prog.exec_bind]
      by_cases hz : lz4.compress x = []
      · -- `LZ4_compress` returned 0 and the raw fallback stores the data
        rw [exec_setLz4CompressedData_fail lz4 init hz]
        exact setRawData_stores lz4 { init with data := [] } x
      · have hrc := toInt32_natCast_ne_neg_one (lz4.length_compress_lt x)
        rw [exec_setLz4CompressedData lz4 init hz]
        refine ⟨{ size := x.length, data := lz4.compress x, compression := .lz4 }, ?_,
          ⟨rfl, .inr ⟨rfl, rfl, hz⟩⟩⟩
        simp [hrc]
  · simpa only [setData, if_neg h0, if_neg h100] using setRawData_stores lz4 init x

variable {lz4}

/-- Both decoders put a stored string at the beginning of their destination buffer. -/
theorem decoder_of_stores (hinv : lz4.Inverse) {dblk : DataBlock} {x : List UInt8}
    (hx : x.length < 2 ^ 31) (hs : Stores lz4 dblk x) (data : Option (List UInt8))
    (doAlloc : Bool) {buf : List UInt8} (hlen : x.length ≤ buf.length)
    (hd : ∀ n, n = x.length → (destination data n doAlloc).exec allocAll () = (some buf, ())) :
    (decoder lz4 dblk data doAlloc).exec allocAll () =
      (((x.length : ℤ), some (memcpy buf x)), ()) := by
  have h32 : toInt32 x.length = x.length := toInt32_natCast hx
  obtain ⟨hsize, ⟨hc, hdata⟩ | ⟨hc, hdata, hne⟩⟩ := hs
  · simp [decoder, hc, getUncompressedData, hdata, hd, h32]
  · have hsz : toSize dblk.size = x.length := by
      rw [hsize]
      exact toSize_natCast_of_lt_int hx
    have hun := hinv x buf hx hlen hne
    have hback : toSize ((lz4.compress x).length : ℤ) = (lz4.compress x).length :=
      toSize_natCast_of_lt_int (lz4.length_compress_lt x)
    have hpos : (0 : ℤ) ≤ (lz4.compress x).length := by omega
    simp [decoder, hc, getLz4CompressedData, hdata, hsz, hd, h32, hun, hback, hpos]

theorem getData_of_stores (hinv : lz4.Inverse) {dblk : DataBlock} {x : List UInt8}
    (hx : x.length < 2 ^ 31) (hs : Stores lz4 dblk x) :
    (getData lz4 dblk).exec allocAll () = (((x.length : ℤ), some x), ()) := by
  have hlen : x.length ≤ (List.replicate x.length (0 : UInt8)).length := by simp
  have h := decoder_of_stores hinv hx hs none true hlen
    (by rintro n rfl; simp [destination, alloc, allocAll])
  have hpos : (-1 : ℤ) < x.length := by omega
  simp [getData, h, memcpy, hpos]

theorem getDataNoalloc_of_stores (hinv : lz4.Inverse) {dblk : DataBlock} {x buf : List UInt8}
    (hx : x.length < 2 ^ 31) (hs : Stores lz4 dblk x) (hlen : x.length ≤ buf.length) :
    (getDataNoalloc lz4 dblk buf buf.length).exec allocAll () =
      (((x.length : ℤ), x ++ buf.drop x.length), ()) := by
  have h := decoder_of_stores hinv hx hs (some buf) false hlen
    (by rintro n rfl; simp [destination])
  have hsz : toSize dblk.size = x.length := by
    rw [hs.size_eq]
    exact toSize_natCast_of_lt_int hx
  have hpos : (-1 : ℤ) < x.length := by omega
  simp [getDataNoalloc, hsz, hlen, h, memcpy, hpos]

/-- **Data blocks lose nothing**: data of fewer than `2 ^ 31` bytes set on a fresh block, with or
without compression, is what both decoders return, and its length is the block's size. -/
theorem setData_getData (hinv : lz4.Inverse) (x : List UInt8) (hx : x.length < 2 ^ 31)
    (compression : CompressionType) (hc : compression = .none ∨ compression = .lz4) :
    ∃ dblk, (setData lz4 init x compression).exec allocAll () = ((true, dblk), ()) ∧
      dblk.size = x.length ∧
      (getData lz4 dblk).exec allocAll () = (((x.length : ℤ), some x), ()) ∧
      ∀ buf : List UInt8, x.length ≤ buf.length →
        (getDataNoalloc lz4 dblk buf buf.length).exec allocAll () =
          (((x.length : ℤ), x ++ buf.drop x.length), ()) := by
  obtain ⟨dblk, hd, hs⟩ := setData_stores lz4 x hc
  exact ⟨dblk, hd, hs.size_eq, getData_of_stores hinv hx hs,
    fun buf hlen => getDataNoalloc_of_stores hinv hx hs hlen⟩

/-- The compressed form occurs: `run200` is stored as a stream of 11 bytes. -/
theorem setData_getData_run200 :
    Lz4.onRun.compress run200 ≠ [] ∧
    ∃ dblk, (setData Lz4.onRun init run200 .lz4).exec allocAll () = ((true, dblk), ()) ∧
      dblk.size = run200.length ∧
      (getData Lz4.onRun dblk).exec allocAll () = (((run200.length : ℤ), some run200), ()) ∧
      ∀ buf : List UInt8, run200.length ≤ buf.length →
        (getDataNoalloc Lz4.onRun dblk buf buf.length).exec allocAll () =
          (((run200.length : ℤ), run200 ++ buf.drop run200.length), ()) :=
  ⟨by simp [Lz4.onRun], setData_getData Lz4.onRun_inverse run200 (by simp) .lz4 (.inr rfl)⟩

/-! ## Blocks from the wire -/

section Bounded

variable {dblk : DataBlock} {buf : List UInt8}

/-- Decoding into a given buffer allocates nothing: it returns what the decoder does. -/
theorem traces_getDataNoalloc (hsize : toSize dblk.size ≤ buf.length) {len : ℤ}
    {buf' : List UInt8} (hdec : decoder lz4 dblk (some buf) false = .ret (len, some buf'))
    {tr : List (Event MemRet)} {out : ℤ × List UInt8} :
    (getDataNoalloc lz4 dblk buf buf.length).Traces tr out ↔
      tr = [] ∧ out = (if len > -1 then len else -1, buf') := by
  simp [getDataNoalloc, hsize, hdec]

end Bounded

end DataBlock

end Rhizofs
