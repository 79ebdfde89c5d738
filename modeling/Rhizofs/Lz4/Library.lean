import Rhizofs.DataBlock
import Rhizofs.Lz4.Compress
import Rhizofs.Lz4.Uncompress

/-!
# The buffers of the LZ4 library

The two functions of `lz4.c` are the library that `datablock.c` calls (`lz4Library`). Neither gets
the size of both of its buffers. `LZ4_compress` stores only into the memory that
`set_lz4_compressed_data` allocates (`setLz4CompressedData_stores_inside`). `LZ4_uncompress` loads
bytes behind the block unless its sequences are complete up to the place where the decoder stops
(`Inside`, `readsInside_iff`).
-/

namespace Rhizofs

open Extern Lz4Block

/-! ## The library -/

/-- The bytes of the destination that `LZ4_compress` returns the number of. -/
@[irreducible] def compressed (x : List UInt8) : List UInt8 :=
  let r := lz4Compress x (toInt32 x.length)
  (List.range r.1.toNat).map r.2.load

theorem length_compressed (x : List UInt8) :
    (compressed x).length = (lz4Compress x (toInt32 x.length)).1.toNat := by
  unfold compressed
  generalize lz4Compress x (toInt32 x.length) = r
  simp only [List.length_map, List.length_range]

/-- The memory that starts with the bytes of a buffer. -/
def Memory.ofList (buf : List UInt8) : Memory := fun i => buf.getD i 0

/-- The library of `lz4.c`. `beyond` are the bytes behind a block, which the packets of literals may
load. A decoder that goes further or whose length overflows has no result, which counts as -1. -/
def lz4Library (beyond : List UInt8) : Lz4 where
  compress := compressed
  length_compress_lt x := by
    have := lz4Compress_lt x (toInt32 x.length)
    rw [length_compressed]
    omega
  uncompress source dest osize :=
    match lz4Uncompress beyond source (.ofList dest) osize with
    | .ok (result, m) => (result, m.first dest.length)
    | .error _ => (-1, dest)

@[simp] theorem compress_lz4Library (beyond : List UInt8) :
    (lz4Library beyond).compress = compressed := rfl

/-! ## The compressor -/

namespace DataBlock

variable {beyond : List UInt8} {dblk dblk' : DataBlock} {data : List UInt8}
  {compression : CompressionType} {tr : List (Event MemRet)}

/-- The one allocation of `set_lz4_compressed_data`. -/
theorem traces_setLz4CompressedData {lz4 : Lz4} {out : ℤ × DataBlock}
    (h : (setLz4CompressedData lz4 dblk data).Traces tr out) :
    (∃ ok, tr = [⟨.bytes (data.length + data.length / 250), ok⟩]) ∧
      (out.1 ≠ -1 → out.2.data = lz4.compress data ∧ lz4.compress data ≠ []) := by
  have hextra : (if data.length > 0 then data.length / 250 else 0) = data.length / 250 := by
    split_ifs <;> omega
  unfold setLz4CompressedData at h
  rw [hextra] at h
  obtain ⟨ok, tr', rfl, h⟩ := h
  cases ok with
  | false =>
    obtain ⟨rfl, rfl⟩ := h
    exact ⟨⟨_, rfl⟩, fun hne => absurd rfl hne⟩
  | true =>
    by_cases hz : (lz4.compress data).length = 0
    · simp [hz] at h
      obtain ⟨rfl, rfl⟩ := h
      exact ⟨⟨_, rfl⟩, fun hne => absurd rfl hne⟩
    · simp [hz] at h
      obtain ⟨rfl, rfl⟩ := h
      exact ⟨⟨_, rfl⟩, fun _ => ⟨rfl, fun h => hz (by rw [h]; rfl)⟩⟩

/-- A block of more than 100 bytes that is stored as LZ4 has the bytes of the library. -/
theorem data_of_setData {lz4 : Lz4} {out : Bool × DataBlock}
    (h : (setData lz4 dblk data compression).Traces tr out) (hmin : 100 < data.length)
    (hok : out.1 = true) (hlz4 : out.2.compression = .lz4) :
    out.2.data = lz4.compress data ∧ lz4.compress data ≠ [] := by
  have hraw : ∀ {dblk : DataBlock} {tr}, ¬ (setRawData dblk data).Traces tr out := by
    intro dblk tr h
    obtain ⟨ok, tr', -, h⟩ := h
    cases ok with
    | false =>
      obtain ⟨-, rfl⟩ := h
      cases hok
    | true =>
      obtain ⟨-, rfl⟩ := h
      cases hlz4
  unfold setData at h
  rw [if_neg (by omega), if_pos hmin] at h
  cases compression with
  | none => exact absurd h hraw
  | other n =>
    obtain ⟨-, rfl⟩ := h
    cases hok
  | lz4 =>
    obtain ⟨⟨rc, dblk'⟩, tr₁, tr₂, -, hset, hrest⟩ := (Prog.traces_bind _ _ _ _).mp h
    dsimp only at hrest
    split_ifs at hrest with hrc
    · obtain ⟨-, rfl⟩ := hrest
      exact (traces_setLz4CompressedData hset).2 hrc
    · exact absurd hrest hraw

/-- **The compressor stays inside its buffer**: each of its stores is in the memory that is allocated
for it, its result is 0 or at least 99 bytes less than the data, and data that is stored as LZ4
gets smaller. -/
theorem setLz4CompressedData_stores_inside (beyond : List UInt8) (dblk : DataBlock)
    (data : List UInt8) (hmin : 100 < data.length) (hmax : data.length < 2 ^ 31) :
    (lz4Compress data data.length).2.Below (data.length + data.length / 250) ∧
    ((lz4Compress data data.length).1 = 0 ∨
      (lz4Compress data data.length).1 ≤ data.length - 99) ∧
    (∀ tr out, (setLz4CompressedData (lz4Library beyond) dblk data).Traces tr out →
      ∃ ok, tr = [⟨.bytes (data.length + data.length / 250), ok⟩]) ∧
    ∀ compression tr out, (setData (lz4Library beyond) dblk data compression).Traces tr out →
      out.1 = true → out.2.compression = .lz4 → out.2.data.length < data.length := by
  obtain ⟨hbelow, hresult⟩ := lz4Compress_spec data (by omega : 13 ≤ data.length) hmax
  refine ⟨hbelow, ?_, ?_, ?_⟩
  · rcases hresult with hzero | ⟨-, hle⟩
    · exact .inl hzero
    · exact .inr hle
  · intro tr out h
    exact (traces_setLz4CompressedData h).1
  · intro compression tr out h hok hlz4
    obtain ⟨hdata, -⟩ := data_of_setData h hmin hok hlz4
    have hlen := length_compressed data
    rw [toInt32_natCast hmax] at hlen
    rw [hdata, compress_lz4Library, hlen]
    omega

theorem setLz4CompressedData_stores_inside_run200 :
    100 < run200.length ∧ run200.length < 2 ^ 31 ∧
    (lz4Compress run200 run200.length).2.Below (run200.length + run200.length / 250) ∧
    ((lz4Compress run200 run200.length).1 = 0 ∨
      (lz4Compress run200 run200.length).1 ≤ run200.length - 99) ∧
    (∀ tr out, (setLz4CompressedData (lz4Library []) init run200).Traces tr out →
      ∃ ok, tr = [⟨.bytes (run200.length + run200.length / 250), ok⟩]) ∧
    ∀ compression tr out, (setData (lz4Library []) init run200 compression).Traces tr out →
      out.1 = true → out.2.compression = .lz4 → out.2.data.length < run200.length := by
  have hmin : 100 < run200.length := by simp
  have hmax : run200.length < 2 ^ 31 := by simp
  exact ⟨hmin, hmax, setLz4CompressedData_stores_inside [] init run200 hmin hmax⟩

end DataBlock

/-! ## The decoder -/

/-- The decoder that starts at `ip` and stores at `op` loads only what is in the source. It stops
behind literals that end near the end of the destination, at an offset that reaches before the
destination, or behind a match that ends at the end of the destination or behind it. -/
inductive Inside (oend : ℤ) : ℕ → List UInt8 → Prop
  | close {op n : ℕ} {tail ip : List UInt8} (literal : Decoder.Close oend op n tail ip) :
    Inside oend op ip
  | before {op : ℕ} {token lo hi : UInt8} {literals tail ip : List UInt8}
      (literal : Decoder.Wild 0 oend op token literals (lo :: hi :: tail) ip)
      (offset : op + literals.length < lo.toNat + 256 * hi.toNat) : Inside oend op ip
  | matched {op : ℕ} {s : Sequence} {rest ip : List UInt8}
      (head : Decoder.Matched 0 oend op s rest ip)
      (tail : ((op + s.literals.length + s.matchLength : ℕ) : ℤ) < oend →
        Inside oend (op + s.literals.length + s.matchLength) rest) : Inside oend op ip

section Inside

variable {oend : ℤ} {op : ℕ} {ip : List UInt8}

theorem run_of_inside (h : Inside oend op ip) (dest : Memory) :
    ∃ decoded, (decodeLoop [] oend).run ⟨ip, op, dest⟩ = .ok decoded := by
  induction h generalizing dest with
  | @close op n tail ip literal =>
    have hstep := Decoder.step_close [] (s := ⟨ip, op, dest⟩) literal
    exact ⟨_, (decodeLoop [] oend).run_of_stop hstep⟩
  | @before op token lo hi literals tail ip literal offset =>
    obtain ⟨dest', hstep⟩ := Decoder.step_before [] (s := ⟨ip, op, dest⟩) literal offset
    exact ⟨_, (decodeLoop [] oend).run_of_stop hstep⟩
  | @matched op s rest ip head tail ih =>
    obtain ⟨dest₁, dest₂, -, hstep⟩ :=
      Decoder.step_matched [] (s := ⟨ip, op, dest⟩) head
    dsimp only at hstep
    split_ifs at hstep with hbehind hend
    · exact ⟨_, (decodeLoop [] oend).run_of_stop hstep⟩
    · exact ⟨_, (decodeLoop [] oend).run_of_stop hstep⟩
    · rw [(decodeLoop [] oend).run_of_next hstep]
      exact ih (by omega) dest₂

/-- A step that loads only what is in the source, and what is left after it. -/
theorem inside_of_step {s : Decoder} (h : ∀ trap, Decoder.step [] oend s ≠ .inr (.error trap))
    (hnext : ∀ s', Decoder.step [] oend s = .inl s' → Inside oend s'.op s'.ip) :
    Inside oend s.op s.ip := by
  obtain ⟨n, tail, hclose⟩ | ⟨token, lo, hi, literals, ip, hwild, hoffset⟩ |
    ⟨sequence, rest, hmatched⟩ := Decoder.step_cases h
  · exact .close hclose
  · exact .before hwild hoffset
  · obtain ⟨dest₁, dest₂, -, hstep⟩ := Decoder.step_matched [] hmatched
    apply Inside.matched hmatched
    intro hlt
    rw [if_neg (by omega), if_neg (by omega)] at hstep
    exact hnext _ hstep

theorem inside_of_run (s : Decoder) (h : ∃ decoded, (decodeLoop [] oend).run s = .ok decoded) :
    Inside oend s.op s.ip := by
  revert h
  apply (decodeLoop [] oend).induct
    (motive := fun s r => (∃ decoded, r = .ok decoded) → Inside oend s.op s.ip)
  · intro s r hstop ⟨decoded, hr⟩
    apply inside_of_step
    · intro trap htrap
      rw [hr] at hstop
      cases hstop.symm.trans htrap
    · intro s' hnext
      cases hstop.symm.trans hnext
  · intro s s' hstep ih hrun
    apply inside_of_step
    · intro trap htrap
      cases hstep.symm.trans htrap
    · intro s'' hnext
      obtain rfl := Sum.inl.inj (hstep.symm.trans hnext)
      exact ih hrun

theorem lz4Uncompress_ok_iff {beyond source : List UInt8} {dest : Memory} {osize : ℤ} :
    (∃ r, lz4Uncompress beyond source dest osize = .ok r) ↔
      ∃ decoded, (decodeLoop beyond osize).run ⟨source, 0, dest⟩ = .ok decoded := by
  unfold lz4Uncompress
  cases (decodeLoop beyond osize).run ⟨source, 0, dest⟩ with
  | error trap =>
    constructor <;>
    · rintro ⟨r, hr⟩
      cases hr
  | ok decoded => exact ⟨fun _ => ⟨decoded, rfl⟩, fun _ => ⟨_, rfl⟩⟩

end Inside

namespace DataBlock

/-- The decoding that `get_lz4_compressed_data` starts with the destination `buf`. -/
def decoding (beyond : List UInt8) (dblk : DataBlock) (buf : List UInt8) :
    Except Trap (ℤ × Memory) :=
  lz4Uncompress beyond dblk.data (.ofList buf) (toInt32 (toSize dblk.size))

theorem uncompress_of_ok {buf : List UInt8} {result : ℤ} {m : Memory}
    (h : decoding beyond dblk buf = .ok (result, m)) :
    (lz4Library beyond).uncompress dblk.data buf (toInt32 (toSize dblk.size)) =
      (result, m.first buf.length) := by
  unfold decoding at h
  simp only [lz4Library, h]

theorem uncompress_of_error {buf : List UInt8} {trap : Trap}
    (h : decoding beyond dblk buf = .error trap) :
    (lz4Library beyond).uncompress dblk.data buf (toInt32 (toSize dblk.size)) = (-1, buf) := by
  unfold decoding at h
  simp only [lz4Library, h]

/-- Nothing is loaded behind the data of the block, and the length does not overflow, which would
leave it open what is loaded. -/
def ReadsInside (dblk : DataBlock) : Prop := ∀ buf, ∃ r, decoding [] dblk buf = .ok r

/-- **When only the received bytes are read**: the sequences are complete up to the place where the
decoder stops. -/
theorem readsInside_iff (dblk : DataBlock) :
    dblk.ReadsInside ↔ Inside (toInt32 (toSize dblk.size)) 0 dblk.data := by
  constructor
  · intro h
    exact inside_of_run _ (lz4Uncompress_ok_iff.mp (h []))
  · intro h buf
    exact lz4Uncompress_ok_iff.mpr (run_of_inside h (.ofList buf))

/-- A block that promises five literals and has none. -/
theorem not_readsInside :
    ¬ ∀ dblk : DataBlock, dblk.compression = .lz4 → dblk.ReadsInside := by
  intro h
  obtain ⟨r, hr⟩ := h { size := 5, data := [0x50], compression := .lz4 } rfl []
  obtain ⟨decoded, hrun⟩ := lz4Uncompress_ok_iff.mp ⟨r, hr⟩
  have hstop : Decoder.step [] 5 ⟨[0x50], 0, .ofList []⟩ = .inr (.error .outside) := rfl
  cases hrun.symm.trans ((decodeLoop [] 5).run_of_stop hstop)

end DataBlock

end Rhizofs
