import Rhizofs.Foundations.Loop
import Rhizofs.Libc
import Mathlib.Logic.Function.Basic
import Mathlib.Tactic.IntervalCases

/-!
# The LZ4 compressor

`LZ4_compress` of `lz4.c`, for a 64-bit machine with little-endian numbers. Its two variants differ
in their hash tables only (`Variant`). A pointer is an index into the source or the destination, and
`Out` keeps every byte that is stored into the destination, with its index.

A match of `m` bytes after a run of `l` literals saves at least one byte, and a long run costs one
byte for every 255 literals. So 256 bytes of source never make more than 255 bytes of output
(`Within`), as far as the last literals. The literals are copied in packets of eight bytes, which
end at most seven bytes behind the literals and therefore inside the destination
(`lz4Compress_spec`).
-/

namespace Rhizofs

open Extern

/-! ## Loads and stores -/

section Loads

variable (source : List UInt8)

/-- The byte at `source + p`. -/
def load8 (p : ℕ) : BitVec 8 := (source.getD p 0).toBitVec

/-- `A16(source + p)`. -/
def load16 (p : ℕ) : BitVec 16 := load8 source (p + 1) ++ load8 source p

/-- `A32(source + p)`. -/
def load32 (p : ℕ) : BitVec 32 := load16 source (p + 2) ++ load16 source p

/-- `A64(source + p)`. -/
def load64 (p : ℕ) : BitVec 64 := load32 source (p + 4) ++ load32 source p

end Loads

/-- The destination: the pointer `op`, and the stores so far with the latest first. -/
structure Out where
  op : ℕ
  stores : List (ℕ × UInt8)

namespace Out

/-- A destination into which nothing has been stored. -/
def start : Out := { op := 0, stores := [] }

/-- `dest[i] = b`. -/
def store (out : Out) (i : ℕ) (b : UInt8) : Out := { out with stores := (i, b) :: out.stores }

/-- `dest[i]`, which has been stored. -/
def load (out : Out) (i : ℕ) : UInt8 := ((out.stores.find? (·.1 = i)).map Prod.snd).getD 0

/-- `*op++ = b`. -/
def put (out : Out) (b : UInt8) : Out := { op := out.op + 1, stores := (out.op, b) :: out.stores }

/-- `LZ4_WRITE_LITTLEENDIAN_16`. -/
def put16 (out : Out) (v : ℕ) : Out := (out.put (UInt8.ofNat v)).put (UInt8.ofNat (v / 256))

/-- Bytes at `op`. -/
def putBytes (out : Out) (bytes : List UInt8) : Out := bytes.foldl put out

/-- `LZ4_COPYSTEP` from `source + s`. -/
def copyStep (out : Out) (source : List UInt8) (s : ℕ) : Out :=
  out.putBytes ((List.range 8).map fun i => source.getD (s + i) 0)

end Out

/-! ## Parts of a sequence -/

/-- The bytes of a length that does not fit into the token:
`for(; len > 254 ; len-=255) *op++ = 255; *op++ = (BYTE)len;`. -/
def putLength (len : ℕ) (out : Out) : Out :=
  if len > 254 then putLength (len - 255) (out.put 255) else out.put (UInt8.ofNat len)
termination_by len
decreasing_by omega

/-- The same for the length of a match, two bytes at a time. -/
def putMatchLength (len : ℕ) (out : Out) : Out :=
  if len > 509 then putMatchLength (len - 510) ((out.put 255).put 255)
  else if len > 254 then (out.put 255).put (UInt8.ofNat (len - 255))
  else out.put (UInt8.ofNat len)
termination_by len
decreasing_by omega

/-- `LZ4_WILDCOPY` from `source + s`, at least one packet. -/
def wildCopy (source : List UInt8) (e s : ℕ) (out : Out) : Out :=
  if out.op + 8 < e then wildCopy source e (s + 8) (out.copyStep source s)
  else out.copyStep source s
termination_by e - out.op
decreasing_by
  have hop : (out.copyStep source s).op = out.op + 8 := rfl
  omega

/-- `LZ4_BLINDCOPY`. -/
def blindCopy (source : List UInt8) (anchor length : ℕ) (out : Out) : Out :=
  { wildCopy source (out.op + length) anchor out with op := out.op + length }

/-- The token with the length of the literals, and the literals. -/
def putLiterals (source : List UInt8) (anchor length : ℕ) (out : Out) : Out :=
  let token := out.op
  let out := { out with op := out.op + 1 }
  blindCopy source anchor length
    (if length ≥ 15 then putLength (length - 15) (out.store token 0xF0)
    else out.store token (UInt8.ofNat (length <<< 4)))

/-- The length of a match, which is added to the token. -/
def putMatch (token len : ℕ) (out : Out) : Out :=
  if len ≥ 15 then putMatchLength (len - 15) (out.store token (out.load token + 15))
  else out.store token (out.load token + UInt8.ofNat len)

/-! ## Searching -/

/-- The two variants of the compressor differ in the size of the hash table, in what an entry keeps
of a position, and in how far back a match may be. -/
structure Variant where
  hashLog : ℕ
  entry : ℕ → ℕ
  near : ℕ → ℕ → Bool

section Search

variable (v : Variant) (source : List UInt8)

/-- `LZ4_HASH_VALUE(source + p)`. -/
def hashValue (p : ℕ) : ℕ := (load32 source p * 2654435761#32).toNat >>> (32 - v.hashLog)

/-- `LZ4_NbCommonBytes`. -/
def nbCommonBytes (val : BitVec 64) : ℕ := val.ctz.toNat >>> 3

/-- The match that is found: `ip`, `ref` and the hash table, or nothing behind `mflimit`. -/
def findMatch (mflimit findMatchAttempts forwardIp forwardH : ℕ) (hashTable : ℕ → ℕ) :
    Option (ℕ × ℕ × (ℕ → ℕ)) :=
  let h := forwardH
  let step := findMatchAttempts >>> 6
  let ip := forwardIp
  if ip + step > mflimit then none
  else
    let ref := hashTable h
    let hashTable := Function.update hashTable h (v.entry ip)
    if v.near ref ip ∧ load32 source ref = load32 source ip then some (ip, ref, hashTable)
    else findMatch mflimit (findMatchAttempts + 1) (ip + step) (hashValue v source (ip + step))
      hashTable
termination_by (64 - findMatchAttempts) + (mflimit + 1 - forwardIp)
decreasing_by
  rw [Nat.shiftRight_eq_div_pow] at *
  omega

/-- The loop that extends a match backwards: `ip` and `ref`. -/
def catchUp (anchor : ℕ) : ℕ → ℕ → ℕ × ℕ
  | ip + 1, ref + 1 =>
    if ip + 1 > anchor ∧ load8 source ip = load8 source ref then catchUp anchor ip ref
    else (ip + 1, ref + 1)
  | ip, ref => (ip, ref)

/-- The end of a match: the last bytes, fewer than eight. -/
def countTail (matchlimit ip ref : ℕ) : ℕ :=
  let (ip, ref) := if ip + 3 < matchlimit ∧ load32 source ref = load32 source ip
    then (ip + 4, ref + 4) else (ip, ref)
  let (ip, ref) := if ip + 1 < matchlimit ∧ load16 source ref = load16 source ip
    then (ip + 2, ref + 2) else (ip, ref)
  if ip < matchlimit ∧ load8 source ref = load8 source ip then ip + 1 else ip

/-- The end of a match, eight bytes at a time. -/
def countMatch (matchlimit ip ref : ℕ) : ℕ :=
  if ip + 7 < matchlimit then
    let diff := load64 source ref ^^^ load64 source ip
    if diff = 0 then countMatch matchlimit (ip + 8) (ref + 8) else ip + nbCommonBytes diff
  else countTail source matchlimit ip ref
termination_by matchlimit - ip

end Search

/-! ### Where a search and a match end -/

section Bounds

variable {v : Variant} {source : List UInt8}

/-- A match is found before `mflimit`. -/
theorem findMatch_spec {mflimit attempts forwardIp forwardH ip ref : ℕ} {table table' : ℕ → ℕ}
    (hattempts : 64 ≤ attempts)
    (h : findMatch v source mflimit attempts forwardIp forwardH table = some (ip, ref, table')) :
    forwardIp ≤ ip ∧ ip < mflimit := by
  fun_induction findMatch v source mflimit attempts forwardIp forwardH table with
  | case1 => cases h
  | case2 attempts forwardIp forwardH table forwardH' step ip' hle ref' table'' hfound =>
    obtain ⟨rfl, -⟩ := Prod.mk.inj (Option.some.inj h)
    have hstep : 1 ≤ step := by
      change 1 ≤ attempts >>> 6
      rw [Nat.shiftRight_eq_div_pow]
      omega
    omega
  | case3 attempts forwardIp forwardH table forwardH' step ip' hle ref' table'' hfound ih =>
    obtain ⟨hle', hlt⟩ := ih (by omega) h
    exact ⟨by omega, hlt⟩

theorem catchUp_le (source : List UInt8) (anchor ip ref : ℕ) :
    (catchUp source anchor ip ref).1 ≤ ip := by
  fun_induction catchUp source anchor ip ref with
  | case1 ip ref hback ih => omega
  | case2 => exact le_rfl
  | case3 => exact le_rfl

theorem le_catchUp (source : List UInt8) {anchor ip : ℕ} (ref : ℕ) (h : anchor ≤ ip) :
    anchor ≤ (catchUp source anchor ip ref).1 := by
  fun_induction catchUp source anchor ip ref with
  | case1 ip ref hback ih => exact ih (by omega)
  | case2 => exact h
  | case3 => exact h

theorem nbCommonBytes_lt {val : BitVec 64} (h : val ≠ 0) : nbCommonBytes val < 8 := by
  have hlt : val.ctz < 64 := BitVec.ctz_lt_iff_ne_zero.mpr h
  have hlt' : val.ctz.toNat < 64 := hlt
  rw [nbCommonBytes, Nat.shiftRight_eq_div_pow]
  omega

theorem countTail_spec (matchlimit ip ref : ℕ) :
    ip ≤ countTail source matchlimit ip ref ∧
      (ip ≤ matchlimit → countTail source matchlimit ip ref ≤ matchlimit) := by
  unfold countTail
  dsimp only
  split_ifs <;> simp only <;> omega

/-- A match ends at `matchlimit` or before. -/
theorem countMatch_spec (source : List UInt8) (matchlimit ip ref : ℕ) :
    ip ≤ countMatch source matchlimit ip ref ∧
      (ip ≤ matchlimit → countMatch source matchlimit ip ref ≤ matchlimit) := by
  fun_induction countMatch source matchlimit ip ref with
  | case1 ip ref hlt diff hdiff ih => omega
  | case2 ip ref hlt diff hdiff =>
    have := nbCommonBytes_lt hdiff
    omega
  | case3 ip ref hlt => exact countTail_spec matchlimit ip ref

end Bounds

/-! ## The compressor -/

/-- Where the compressor is: at the head of its main loop, or at the label `_next_match`. -/
inductive Compressor
  | search (anchor ip : ℕ) (behind : anchor < ip) (forwardH : ℕ) (hashTable : ℕ → ℕ) (out : Out)
  | nextMatch (token ip ref : ℕ) (hashTable : ℕ → ℕ) (out : Out)

namespace Compressor

variable (v : Variant) (source : List UInt8) (isize : ℕ)

/-- One iteration of the main loop up to `_next_match`, or from there to the next sequence. It ends
at `_last_literals` with `anchor`. -/
def step : Compressor → Compressor ⊕ (ℕ × Out)
  | .search anchor ip _ forwardH hashTable out =>
    let mflimit := isize - 12
    match findMatch v source mflimit 67 ip forwardH hashTable with
    | none => .inr (anchor, out)
    | some (ip, ref, hashTable) =>
      let (ip, ref) := catchUp source anchor ip ref
      .inl (.nextMatch out.op ip ref hashTable (putLiterals source anchor (ip - anchor) out))
  | .nextMatch token ip ref hashTable out =>
    let mflimit := isize - 12
    let matchlimit := isize - 5
    let out := out.put16 (ip - ref)
    let anchor := ip + 4
    let ip := countMatch source matchlimit anchor (ref + 4)
    let out := putMatch token (ip - anchor) out
    if ip > mflimit then .inr (ip, out)
    else
      let hashTable := Function.update hashTable (hashValue v source (ip - 2)) (v.entry (ip - 2))
      let ref := hashTable (hashValue v source ip)
      let hashTable := Function.update hashTable (hashValue v source ip) (v.entry ip)
      if v.near ref ip ∧ load32 source ref = load32 source ip then
        .inl (.nextMatch out.op ip ref hashTable (out.put 0))
      else .inl (.search ip (ip + 1) ip.lt_succ_self (hashValue v source (ip + 1)) hashTable out)

/-- Twice the source that is left, and one more for a search. -/
def left : Compressor → ℕ
  | .search anchor .. => 2 * (isize - anchor) + 1
  | .nextMatch _ ip .. => 2 * (isize - ip)

variable {v source isize}

/-- A search ends with a match behind the literals, or with the last literals. -/
theorem step_search (anchor ip : ℕ) (behind : anchor < ip) (forwardH : ℕ) (hashTable : ℕ → ℕ)
    (out : Out) :
    step v source isize (.search anchor ip behind forwardH hashTable out) = .inr (anchor, out) ∨
      ∃ ip' ref hashTable', anchor ≤ ip' ∧ ip' + 12 < isize ∧
        step v source isize (.search anchor ip behind forwardH hashTable out) =
          .inl (.nextMatch out.op ip' ref hashTable'
            (putLiterals source anchor (ip' - anchor) out)) := by
  unfold step
  dsimp only
  cases hfind : findMatch v source (isize - 12) 67 ip forwardH hashTable with
  | none => exact .inl rfl
  | some found =>
    obtain ⟨ip₁, ref, hashTable'⟩ := found
    obtain ⟨hle, hlt⟩ := findMatch_spec (by omega) hfind
    have hback := catchUp_le source anchor ip₁ ref
    have hanchor := le_catchUp source ref (show anchor ≤ ip₁ by omega)
    exact .inr ⟨_, _, _, hanchor, by omega, rfl⟩

/-- A match has at least four bytes. It is followed by the last literals, a match or a search. -/
theorem step_nextMatch (token ip ref : ℕ) (hashTable : ℕ → ℕ) (out : Out) :
    ∃ ip' out', out' = putMatch token (ip' - (ip + 4)) (out.put16 (ip - ref)) ∧ ip + 4 ≤ ip' ∧
      (ip + 4 ≤ isize - 5 → ip' ≤ isize - 5) ∧
      (step v source isize (.nextMatch token ip ref hashTable out) = .inr (ip', out') ∨
        ip' + 12 ≤ isize ∧ ((∃ ref' hashTable',
          step v source isize (.nextMatch token ip ref hashTable out) =
            .inl (.nextMatch out'.op ip' ref' hashTable' (out'.put 0))) ∨
        ∃ forwardH hashTable', step v source isize (.nextMatch token ip ref hashTable out) =
          .inl (.search ip' (ip' + 1) ip'.lt_succ_self forwardH hashTable' out'))) := by
  obtain ⟨hle, hlimit⟩ := countMatch_spec source (isize - 5) (ip + 4) (ref + 4)
  refine ⟨_, _, rfl, hle, hlimit, ?_⟩
  unfold step
  dsimp only
  by_cases hend : countMatch source (isize - 5) (ip + 4) (ref + 4) > isize - 12
  · rw [if_pos hend]
    exact .inl rfl
  · rw [if_neg hend]
    refine .inr ⟨by omega, ?_⟩
    split_ifs
    · exact .inl ⟨_, _, rfl⟩
    · exact .inr ⟨_, _, rfl⟩

theorem left_decreases (s s' : Compressor) (h : step v source isize s = .inl s') :
    left isize s' < left isize s := by
  cases s with
  | search anchor ip behind forwardH hashTable out =>
    rcases step_search anchor ip behind forwardH hashTable out with
      hstop | ⟨ip', ref, hashTable', hle, -, hnext⟩
    · cases h.symm.trans hstop
    · obtain rfl := Sum.inl.inj (h.symm.trans hnext)
      simp only [left]
      omega
  | nextMatch token ip ref hashTable out =>
    obtain ⟨ip', out', -, hle, -, hstop | ⟨hlt, ⟨ref', hashTable', hnext⟩ | ⟨forwardH, hashTable',
      hnext⟩⟩⟩ := step_nextMatch token ip ref hashTable out
    · cases h.symm.trans hstop
    · obtain rfl := Sum.inl.inj (h.symm.trans hnext)
      simp only [left]
      omega
    · obtain rfl := Sum.inl.inj (h.symm.trans hnext)
      simp only [left]
      omega

end Compressor

/-- The main loop of the compressor. -/
def compressLoop (v : Variant) (source : List UInt8) (isize : ℕ) : Loop Compressor (ℕ × Out) where
  step := Compressor.step v source isize
  measure := Compressor.left isize
  decreases := Compressor.left_decreases

/-- What follows the label `_last_literals`: the result and the destination. -/
def lastLiterals (source : List UInt8) (isize : ℤ) (anchor : ℕ) (out : Out) : ℤ × Out :=
  let lastRun := isize - anchor
  if out.op + lastRun + 1 + (lastRun - 15).tdiv 255 > isize - 100 then (0, out)
  else
    let out := if lastRun ≥ 15 then putLength (lastRun.toNat - 15) (out.put 0xF0)
      else out.put (UInt8.ofNat (lastRun.toNat <<< 4))
    let out := out.putBytes ((source.drop anchor).take lastRun.toNat)
    (toInt32 out.op, out)

/-- The common text of the two compressors. -/
def compressWith (v : Variant) (source : List UInt8) (isize : ℤ) : ℤ × Out :=
  if isize < 13 then lastLiterals source isize 0 .start
  else
    let (anchor, out) := (compressLoop v source isize.toNat).run
      (.search 0 1 Nat.one_pos (hashValue v source 1) (fun _ => 0) .start)
    lastLiterals source isize anchor out

/-- `LZ4_compressCtx`. The entry of the first byte is 0, which the cleared table holds already. -/
def lz4CompressCtx : List UInt8 → ℤ → ℤ × Out :=
  compressWith { hashLog := 12, entry := (· % 2 ^ 32), near := fun ref ip => ip < ref + 2 ^ 16 }

/-- `LZ4_compress64kCtx`, where no position is too far. -/
def lz4Compress64kCtx : List UInt8 → ℤ → ℤ × Out :=
  compressWith { hashLog := 13, entry := (· % 2 ^ 16), near := fun _ _ => true }

/-- `LZ4_compress`: the result, and the destination with all stores. -/
def lz4Compress (source : List UInt8) (isize : ℤ) : ℤ × Out :=
  if isize < 2 ^ 16 + 11 then lz4Compress64kCtx source isize else lz4CompressCtx source isize

theorem lastLiterals_lt (source : List UInt8) (isize : ℤ) (anchor : ℕ) (out : Out) :
    (lastLiterals source isize anchor out).1 < 2 ^ 31 := by
  unfold lastLiterals
  dsimp only
  split
  · show (0 : ℤ) < 2 ^ 31
    omega
  · simp only
    generalize (Out.op _ : ℤ) = result
    have := toInt32_lt result
    omega

theorem compressWith_lt (v : Variant) (source : List UInt8) (isize : ℤ) :
    (compressWith v source isize).1 < 2 ^ 31 := by
  unfold compressWith
  split
  · exact lastLiterals_lt _ _ _ _
  · generalize (compressLoop v source isize.toNat).run _ = stopped
    exact lastLiterals_lt source isize stopped.1 stopped.2

/-- The result is an `int`. -/
theorem lz4Compress_lt (source : List UInt8) (isize : ℤ) :
    (lz4Compress source isize).1 < 2 ^ 31 := by
  unfold lz4Compress lz4Compress64kCtx lz4CompressCtx
  split
  · exact compressWith_lt _ _ _
  · exact compressWith_lt _ _ _

/-! ## The stores -/

/-- All stores are below `bound`. -/
def Out.Below (out : Out) (bound : ℕ) : Prop := ∀ s ∈ out.stores, s.1 < bound

/-- The bytes of a length behind its token. -/
def lengthBytes (len : ℕ) : ℕ := if len ≥ 15 then (len - 15) / 255 + 1 else 0

section Stores

variable {out : Out} {bound len : ℕ}

theorem below_store {i : ℕ} {b : UInt8} (h : out.Below bound) (hi : i < bound) :
    (out.store i b).Below bound := List.forall_mem_cons.mpr ⟨hi, h⟩

theorem below_put {b : UInt8} (h : out.Below bound) (hop : out.op < bound) :
    (out.put b).Below bound := List.forall_mem_cons.mpr ⟨hop, h⟩

@[simp] theorem op_store (i : ℕ) (b : UInt8) : (out.store i b).op = out.op := rfl

@[simp] theorem op_put (b : UInt8) : (out.put b).op = out.op + 1 := rfl

@[simp] theorem op_put16 (v : ℕ) : (out.put16 v).op = out.op + 2 := rfl

theorem below_put16 {v : ℕ} (h : out.Below bound) (hop : out.op + 2 ≤ bound) :
    (out.put16 v).Below bound :=
  below_put (below_put h (by omega)) (by rw [op_put]; omega)

@[simp] theorem op_putBytes (bytes : List UInt8) :
    (out.putBytes bytes).op = out.op + bytes.length := by
  induction bytes generalizing out with
  | nil => rfl
  | cons b bytes ih =>
    show ((out.put b).putBytes bytes).op = _
    rw [ih, op_put, List.length_cons]
    omega

theorem below_putBytes {bytes : List UInt8} (h : out.Below bound)
    (hop : out.op + bytes.length ≤ bound) : (out.putBytes bytes).Below bound := by
  induction bytes generalizing out with
  | nil => exact h
  | cons b bytes ih =>
    rw [List.length_cons] at hop
    apply ih (below_put h (by omega))
    rw [op_put]
    omega

@[simp] theorem op_copyStep (source : List UInt8) (s : ℕ) :
    (out.copyStep source s).op = out.op + 8 := rfl

theorem below_copyStep {source : List UInt8} {s : ℕ} (h : out.Below bound)
    (hop : out.op + 8 ≤ bound) : (out.copyStep source s).Below bound :=
  below_putBytes h (by simpa using hop)

@[simp] theorem op_putLength : (putLength len out).op = out.op + len / 255 + 1 := by
  fun_induction putLength len out with
  | case1 len out hlt ih =>
    rw [ih, op_put]
    omega
  | case2 len out hle =>
    rw [op_put]
    omega

theorem below_putLength (h : out.Below bound) (hop : out.op + len / 255 < bound) :
    (putLength len out).Below bound := by
  fun_induction putLength len out with
  | case1 len out hlt ih =>
    apply ih (below_put h (by omega))
    rw [op_put]
    omega
  | case2 len out hle => exact below_put h (by omega)

@[simp] theorem op_putMatchLength : (putMatchLength len out).op = out.op + len / 255 + 1 := by
  fun_induction putMatchLength len out with
  | case1 len out hlt ih =>
    rw [ih, op_put, op_put]
    omega
  | case2 len out hle hlt =>
    rw [op_put, op_put]
    omega
  | case3 len out hle hle' =>
    rw [op_put]
    omega

theorem below_putMatchLength (h : out.Below bound) (hop : out.op + len / 255 < bound) :
    (putMatchLength len out).Below bound := by
  fun_induction putMatchLength len out with
  | case1 len out hlt ih =>
    apply ih (below_put (below_put h (by omega)) (by rw [op_put]; omega))
    rw [op_put, op_put]
    omega
  | case2 len out hle hlt => exact below_put (below_put h (by omega)) (by rw [op_put]; omega)
  | case3 len out hle hle' => exact below_put h (by omega)

/-- The packets of a copy end at most seven bytes behind `e`, or after the first packet. -/
theorem below_wildCopy {source : List UInt8} {e s : ℕ} (h : out.Below bound)
    (hop : out.op + 8 ≤ bound) (he : e + 7 ≤ bound) : (wildCopy source e s out).Below bound := by
  fun_induction wildCopy source e s out with
  | case1 s out hlt ih =>
    apply ih (below_copyStep h hop)
    rw [op_copyStep]
    omega
  | case2 s out hle => exact below_copyStep h hop

theorem below_blindCopy {source : List UInt8} {anchor : ℕ} (h : out.Below bound)
    (hend : out.op + len + 8 ≤ bound) : (blindCopy source anchor len out).Below bound := by
  have hcopy : (wildCopy source (out.op + len) anchor out).Below bound :=
    below_wildCopy h (by omega) (by omega)
  exact hcopy

theorem op_putLiterals (source : List UInt8) (anchor : ℕ) :
    (putLiterals source anchor len out).op = out.op + 1 + lengthBytes len + len := by
  unfold putLiterals lengthBytes blindCopy
  dsimp only
  split_ifs
  · simp only [op_putLength, op_store]
    omega
  · simp only [op_store, Nat.add_zero]

theorem below_putLiterals {source : List UInt8} {anchor : ℕ} (h : out.Below bound)
    (hend : out.op + 1 + lengthBytes len + len + 8 ≤ bound) :
    (putLiterals source anchor len out).Below bound := by
  have htoken : ({ out with op := out.op + 1 } : Out).Below bound := h
  unfold lengthBytes at hend
  unfold putLiterals
  dsimp only
  split_ifs at hend ⊢
  · apply below_blindCopy
    · apply below_putLength (below_store htoken (by omega))
      simp only [op_store]
      omega
    · simp only [op_putLength, op_store]
      omega
  · apply below_blindCopy (below_store htoken (by omega))
    simp only [op_store]
    omega

theorem op_putMatch (token : ℕ) : (putMatch token len out).op = out.op + lengthBytes len := by
  unfold putMatch lengthBytes
  split_ifs
  · rw [op_putMatchLength, op_store, Nat.add_assoc]
  · rfl

theorem below_putMatch {token : ℕ} (h : out.Below bound) (htoken : token < bound)
    (hop : out.op + lengthBytes len ≤ bound) : (putMatch token len out).Below bound := by
  unfold lengthBytes at hop
  unfold putMatch
  split_ifs at hop ⊢
  · apply below_putMatchLength (below_store h htoken)
    rw [op_store]
    omega
  · exact below_store h htoken

end Stores

/-! ### The compressor stays inside -/

/-- The destination the caller has allocated. -/
def allocated (isize : ℕ) : ℕ := isize + isize / 250

/-- 255 bytes are stored for at most 256 bytes of the source, and a sequence that has only its
literals is ahead by two bytes. -/
def Compressor.Within (isize : ℕ) : Compressor → Prop
  | .search anchor _ _ _ _ out =>
    255 * out.op ≤ 256 * anchor ∧ anchor ≤ isize ∧ out.Below (allocated isize)
  | .nextMatch token ip _ _ out =>
    255 * out.op ≤ 256 * ip + 510 ∧ token < out.op ∧ ip + 12 ≤ isize ∧ out.Below (allocated isize)

section Within

variable {v : Variant} {source : List UInt8} {isize : ℕ}

/-- What a match stores, with `ip'` for its end. -/
theorem within_putMatch {token ip ip' offset : ℕ} {out : Out} (hop : 255 * out.op ≤ 256 * ip + 510)
    (htoken : token < out.op) (hbelow : out.Below (allocated isize)) (hle : ip + 4 ≤ ip')
    (hlimit : ip' ≤ isize - 5) (hisize : 12 ≤ isize) :
    255 * (putMatch token (ip' - (ip + 4)) (out.put16 offset)).op ≤ 256 * ip' ∧
      (putMatch token (ip' - (ip + 4)) (out.put16 offset)).Below (allocated isize) := by
  have hbytes : 255 * lengthBytes (ip' - (ip + 4)) ≤ 256 * (ip' - (ip + 4)) := by
    unfold lengthBytes
    split_ifs <;> omega
  constructor
  · rw [op_putMatch, op_put16]
    omega
  · unfold allocated at *
    apply below_putMatch (below_put16 hbelow (by omega)) (by omega)
    rw [op_put16]
    omega

theorem Compressor.Within.step {s s' : Compressor} (h : s.Within isize)
    (hs : Compressor.step v source isize s = .inl s') : s'.Within isize := by
  cases s with
  | search anchor ip behind forwardH hashTable out =>
    obtain ⟨hop, hanchor, hbelow⟩ := h
    rcases Compressor.step_search anchor ip behind forwardH hashTable out with
      hstop | ⟨ip', ref, hashTable', hle, hlt, hnext⟩
    · cases hs.symm.trans hstop
    · obtain rfl := Sum.inl.inj (hs.symm.trans hnext)
      have hbytes : 255 * lengthBytes (ip' - anchor) ≤ ip' - anchor + 255 := by
        unfold lengthBytes
        split_ifs <;> omega
      refine ⟨?_, ?_, by omega, ?_⟩
      · rw [op_putLiterals]
        omega
      · rw [op_putLiterals]
        omega
      · apply below_putLiterals hbelow
        unfold allocated
        omega
  | nextMatch token ip ref hashTable out =>
    obtain ⟨hop, htoken, hip, hbelow⟩ := h
    obtain ⟨ip', out', rfl, hle, hlimit, hstop | ⟨hlt, ⟨ref', hashTable', hnext⟩ | ⟨forwardH,
      hashTable', hnext⟩⟩⟩ := Compressor.step_nextMatch token ip ref hashTable out
    · cases hs.symm.trans hstop
    all_goals
      obtain rfl := Sum.inl.inj (hs.symm.trans hnext)
      obtain ⟨hop', hbelow'⟩ :=
        within_putMatch hop htoken hbelow hle (hlimit (by omega)) (by omega)
    · refine ⟨?_, Nat.lt_succ_self _, hlt, below_put hbelow' ?_⟩
      · rw [op_put]
        omega
      · unfold allocated
        omega
    · exact ⟨hop', by omega, hbelow'⟩

theorem Compressor.Within.stop {s : Compressor} {r : ℕ × Out} (h : s.Within isize)
    (hs : Compressor.step v source isize s = .inr r) :
    255 * r.2.op ≤ 256 * r.1 ∧ r.1 ≤ isize ∧ r.2.Below (allocated isize) := by
  cases s with
  | search anchor ip behind forwardH hashTable out =>
    rcases Compressor.step_search anchor ip behind forwardH hashTable out with
      hstop | ⟨ip', ref, hashTable', -, -, hnext⟩
    · obtain rfl := Sum.inr.inj (hs.symm.trans hstop)
      exact h
    · cases hs.symm.trans hnext
  | nextMatch token ip ref hashTable out =>
    obtain ⟨hop, htoken, hip, hbelow⟩ := h
    obtain ⟨ip', out', rfl, hle, hlimit, hstop | ⟨-, ⟨ref', hashTable', hnext⟩ | ⟨forwardH,
      hashTable', hnext⟩⟩⟩ := Compressor.step_nextMatch token ip ref hashTable out
    · obtain rfl := Sum.inr.inj (hs.symm.trans hstop)
      have hlimit' := hlimit (by omega)
      obtain ⟨hop', hbelow'⟩ := within_putMatch hop htoken hbelow hle hlimit' (by omega)
      exact ⟨hop', by dsimp only; omega, hbelow'⟩
    · cases hs.symm.trans hnext
    · cases hs.symm.trans hnext

/-- The division of C rounds towards zero. -/
theorem natCast_sub_tdiv (k : ℕ) : ((k : ℤ) - 15).tdiv 255 = ((k - 15) / 255 : ℕ) := by
  by_cases hk : 15 ≤ k
  · rw [Int.tdiv_eq_ediv_of_nonneg (by omega)]
    omega
  · have hlt : k < 15 := by omega
    interval_cases k <;> rfl

/-- The last literals end at least 99 bytes before the size of the source. -/
theorem lastLiterals_spec {anchor : ℕ} {out : Out} (hanchor : anchor ≤ isize)
    (hbelow : out.Below (allocated isize)) (hmax : isize < 2 ^ 31) :
    (lastLiterals source isize anchor out).2.Below (allocated isize) ∧
      ((lastLiterals source isize anchor out).1 = 0 ∨
        0 < (lastLiterals source isize anchor out).1 ∧
          (lastLiterals source isize anchor out).1 ≤ isize - 99) := by
  obtain ⟨lastRun, hrun⟩ : ∃ k : ℕ, (isize : ℤ) - anchor = k := ⟨isize - anchor, by omega⟩
  unfold lastLiterals
  simp only [hrun, natCast_sub_tdiv, Int.toNat_natCast]
  by_cases hgiveUp : (out.op : ℤ) + lastRun + 1 + ((lastRun - 15) / 255 : ℕ) > (isize : ℤ) - 100
  · rw [if_pos hgiveUp]
    exact ⟨hbelow, .inl rfl⟩
  rw [if_neg hgiveUp]
  have htaken : ((source.drop anchor).take lastRun).length ≤ lastRun := List.length_take_le _ _
  generalize (source.drop anchor).take lastRun = literals at htaken
  have hbound : isize ≤ allocated isize := Nat.le_add_right _ _
  -- the token, and the rest of the length
  obtain ⟨out', hout', hop, hbelow'⟩ : ∃ out', out' = (if (lastRun : ℤ) ≥ 15 then
      putLength (lastRun - 15) (out.put 0xF0) else out.put (UInt8.ofNat (lastRun <<< 4))) ∧
        out.op < out'.op ∧ out'.op + lastRun + 99 ≤ isize ∧ out'.Below (allocated isize) := by
    refine ⟨_, rfl, ?_⟩
    split_ifs with h15
    · have hput : (out.put 0xF0).Below (allocated isize) := below_put hbelow (by omega)
      refine ⟨?_, ?_, below_putLength hput ?_⟩
      all_goals
        simp only [op_putLength, op_put]
        omega
    · refine ⟨?_, ?_, below_put hbelow (by omega)⟩
      all_goals
        simp only [op_put]
        omega
  obtain ⟨hend, hbelow'⟩ := hbelow'
  rw [← hout']
  have hresult : toInt32 (out'.putBytes literals).op = (out'.putBytes literals).op := by
    rw [op_putBytes]
    exact toInt32_natCast (by omega)
  rw [hresult, op_putBytes]
  exact ⟨below_putBytes hbelow' (by omega), .inr ⟨by omega, by omega⟩⟩

theorem compressWith_spec (hmin : 13 ≤ isize) (hmax : isize < 2 ^ 31) :
    (compressWith v source isize).2.Below (allocated isize) ∧
      ((compressWith v source isize).1 = 0 ∨ 0 < (compressWith v source isize).1 ∧
        (compressWith v source isize).1 ≤ isize - 99) := by
  have hstart : (Compressor.search 0 1 Nat.one_pos (hashValue v source 1) (fun _ => 0)
      .start).Within isize := ⟨by simp [Out.start], Nat.zero_le _, by simp [Out.Below, Out.start]⟩
  obtain ⟨-, hanchor, hbelow⟩ := (compressLoop v source isize).rule
    (fun _ _ h hs => h.step hs) (fun _ _ h hs => h.stop hs) hstart
  unfold compressWith
  rw [if_neg (by omega)]
  exact lastLiterals_spec hanchor hbelow hmax

/-- **The compressor stays inside** the destination, and its result is smaller than the source. -/
theorem lz4Compress_spec (source : List UInt8) (hmin : 13 ≤ isize) (hmax : isize < 2 ^ 31) :
    (lz4Compress source isize).2.Below (allocated isize) ∧
      ((lz4Compress source isize).1 = 0 ∨ 0 < (lz4Compress source isize).1 ∧
        (lz4Compress source isize).1 ≤ isize - 99) := by
  unfold lz4Compress lz4Compress64kCtx lz4CompressCtx
  split_ifs
  · exact compressWith_spec hmin hmax
  · exact compressWith_spec hmin hmax

end Within

end Rhizofs
