import Rhizofs.Foundations.Loop
import Rhizofs.Foundations.Lz4Block
import Rhizofs.Libc
import Mathlib.Tactic.IntervalCases

/-!
# The LZ4 decoder

`LZ4_uncompress` of `lz4.c`, for a 64-bit machine. The pointer `ip` is the list of the bytes from
there to the end of the source, `op` and `ref` are indices into the destination, which is a memory
without an end. The decoder is not told where the source ends. A load behind the end, and an
overflow of the `int` length, is a `Trap`. Only the packets of eight bytes in which literals are
copied may load bytes behind the end, and then as many as are in `beyond`.

A step decodes a sequence (`Decoder.step_matched`), takes the last literals (`Decoder.step_close`),
refuses an offset (`Decoder.step_before`) or is a trap, and nothing else (`Decoder.step_cases`). The
bytes it puts into the destination are the ones of the block format, although a match is copied in
steps of eight bytes that overlap (`Memory.Continues`).
-/

namespace Rhizofs

open Extern Lz4Block

/-- Why a run has no result. -/
inductive Trap
  | outside
  | overflow
  deriving DecidableEq

/-- The bytes of the destination. -/
abbrev Memory : Type := ℕ → UInt8

namespace Memory

/-- `memcpy` of bytes that are not in the destination. -/
def write (m : Memory) (op : ℕ) (bytes : List UInt8) : Memory := fun i =>
  if op ≤ i ∧ i < op + bytes.length then bytes.getD (i - op) 0 else m i

/-- `n` bytes that are loaded at once from `ref` and then stored at `op`. -/
def move (m : Memory) (ref op n : ℕ) : Memory := fun i =>
  if op ≤ i ∧ i < op + n then m (ref + (i - op)) else m i

/-- The first `n` bytes. -/
def first (m : Memory) (n : ℕ) : List UInt8 := (List.range n).map m

end Memory

/-! ## The source -/

/-- `*ip++`. -/
def nextByte : List UInt8 → Except Trap (UInt8 × List UInt8)
  | [] => .error .outside
  | b :: ip => .ok (b, ip)

/-- The loop that adds the bytes of a length to `length`, as far as the first that is not 255. -/
def readLength (length : ℕ) : List UInt8 → Except Trap (ℕ × List UInt8)
  | [] => .error .outside
  | len :: ip =>
    if 2 ^ 31 ≤ length + len.toNat then .error .overflow
    else if len = 255 then readLength (length + len.toNat) ip
    else .ok (length + len.toNat, ip)

/-- A length from one half of the token. -/
def runLength (half : ℕ) (ip : List UInt8) : Except Trap (ℕ × List UInt8) :=
  if half = 15 then readLength half ip else .ok (half, ip)

/-- `LZ4_WILDCOPY(ip, op, cpy)`, at least one packet. -/
def wildCopyIn (cpy : ℕ) (ip : List UInt8) (op : ℕ) (dest : Memory) : Except Trap Memory :=
  if ip.length < 8 then .error .outside
  else if op + 8 < cpy then wildCopyIn cpy (ip.drop 8) (op + 8) (dest.write op (ip.take 8))
  else .ok (dest.write op (ip.take 8))
termination_by cpy - op

/-! ## Copies within the destination -/

/-- `dec[offset]`. -/
def dec (offset : ℕ) : ℕ := [0, 3, 2, 3, 0, 0, 0, 0].getD offset 0

/-- `dec2table[offset]`. -/
def dec2 (offset : ℕ) : ℤ := [0, 0, 0, -1, 0, 1, 2, 3].getD offset 0

/-- The first eight bytes of a match, with `ref` behind them. A `ref` that is too near is moved away
by a multiple of the offset. -/
def copyFirst (ref op : ℕ) (dest : Memory) : Memory × ℕ :=
  let offset := op - ref
  if offset < 8 then
    let dest := dest.move ref op 1
    let dest := dest.move (ref + 1) (op + 1) 1
    let dest := dest.move (ref + 2) (op + 2) 1
    let dest := dest.move (ref + 3) (op + 3) 1
    let ref := ref + 4 - dec offset
    let dest := dest.move ref (op + 4) 4
    (dest, (ref - dec2 offset).toNat)
  else (dest.move ref op 8, ref + 8)

/-- `LZ4_WILDCOPY(ref, op, e)`: the destination, `ref` and `op`. -/
def wildCopyBack (e : ℤ) (ref op : ℕ) (dest : Memory) : Memory × ℕ × ℕ :=
  if (op + 8 : ℤ) < e then wildCopyBack e (ref + 8) (op + 8) (dest.move ref op 8)
  else (dest.move ref op 8, ref + 8, op + 8)
termination_by (e - op).toNat

/-- `LZ4_SECURECOPY(ref, op, e)`. -/
def secureCopy (e : ℤ) (ref op : ℕ) (dest : Memory) : Memory × ℕ × ℕ :=
  if op < e then wildCopyBack e ref op dest else (dest, ref, op)

/-- `while(op<cpy) *op++=*ref++;`. -/
def byteCopy (cpy ref op : ℕ) (dest : Memory) : Memory :=
  if op < cpy then byteCopy cpy (ref + 1) (op + 1) (dest.move ref op 1) else dest
termination_by cpy - op

/-! ## The decoder -/

/-- The decoder at the head of its loop, or before the offset of a match. -/
structure Decoder where
  ip : List UInt8
  op : ℕ
  dest : Memory

/-- How the loop ends: behind it or at `_output_error`. -/
structure Decoded where
  ok : Bool
  ip : List UInt8
  dest : Memory

namespace Decoder

/-- From the token to the offset of the match: the token, or the end. -/
def takeLiterals (beyond : List UInt8) (oend : ℤ) (s : Decoder) :
    Except Trap ((UInt8 × Decoder) ⊕ Decoded) := do
  let (token, ip) ← nextByte s.ip
  let (length, ip) ← runLength (token.toNat / 16) ip
  let cpy := s.op + length
  if cpy > oend - 8 then
    if cpy > oend then return .inr ⟨false, ip, s.dest⟩
    if ip.length < length then throw .outside
    return .inr ⟨true, ip.drop length, s.dest.write s.op (ip.take length)⟩
  let dest ← wildCopyIn cpy (ip ++ beyond) s.op s.dest
  -- the offset would be loaded behind the end
  if ip.length < length then throw .outside
  return .inl (token, ⟨ip.drop length, cpy, dest⟩)

/-- From the offset to the end of the match. -/
def takeMatch (oend : ℤ) (token : UInt8) (s : Decoder) : Except Trap (Decoder ⊕ Decoded) := do
  let (lo, ip) ← nextByte s.ip
  let (hi, ip) ← nextByte ip
  let offset := lo.toNat + 256 * hi.toNat
  if offset > s.op then return .inr ⟨false, ip, s.dest⟩
  let ref := s.op - offset
  let (length, ip) ← runLength (token.toNat % 16) ip
  let (dest, ref) := copyFirst ref s.op s.dest
  let op := s.op + 8
  let cpy := op + length - 4
  if cpy > oend - 8 then
    if cpy > oend then return .inr ⟨false, ip, dest⟩
    let (dest, ref, op) := secureCopy (oend - 8) ref op dest
    let dest := byteCopy cpy ref op dest
    if cpy = oend then return .inr ⟨true, ip, dest⟩
    return .inl ⟨ip, cpy, dest⟩
  return .inl ⟨ip, cpy, (secureCopy cpy ref op dest).1⟩

/-- One iteration of the loop. -/
def step (beyond : List UInt8) (oend : ℤ) (s : Decoder) : Decoder ⊕ Except Trap Decoded :=
  match takeLiterals beyond oend s with
  | .error trap => .inr (.error trap)
  | .ok (.inr decoded) => .inr (.ok decoded)
  | .ok (.inl (token, s)) =>
    match takeMatch oend token s with
    | .error trap => .inr (.error trap)
    | .ok (.inr decoded) => .inr (.ok decoded)
    | .ok (.inl s) => .inl s

end Decoder

/-! ## Repeated bytes -/

namespace Memory

variable {m m' m₁ m₂ : Memory} {d k ref op op' op₁ op₂ n : ℕ}

theorem move_of_lt {i : ℕ} (h : i < op) : m.move ref op n i = m i := if_neg (by omega)

theorem move_of_mem {i : ℕ} (h₁ : op ≤ i) (h₂ : i < op + n) :
    m.move ref op n i = m (ref + (i - op)) := if_pos ⟨h₁, h₂⟩

/-- From `m` to `m'` the bytes from `op` to `op'` have become those `d` bytes before. -/
structure Continues (m m' : Memory) (d op op' : ℕ) : Prop where
  keeps : ∀ i < op, m' i = m i
  repeats : ∀ i, op ≤ i → i < op' → m' i = m' (i - d)

theorem continues_refl (h : op' ≤ op) : Continues m m d op op' :=
  ⟨fun _ _ => rfl, fun i h₁ h₂ => by omega⟩

/-- Bytes that are moved at once must not overlap. -/
theorem continues_move (hd : ref + d = op) (hn : n ≤ d) :
    Continues m (m.move ref op n) d op (op + n) where
  keeps i hi := move_of_lt hi
  repeats i h₁ h₂ := by
    rw [move_of_mem h₁ h₂, move_of_lt (by omega)]
    congr 1
    omega

theorem Continues.trans (h₁ : Continues m m₁ d op op₁) (h₂ : Continues m₁ m₂ d op₁ op₂)
    (hop : op ≤ op₁) : Continues m m₂ d op op₂ where
  keeps i hi := by rw [h₂.keeps i (by omega), h₁.keeps i hi]
  repeats i hle hlt := by
    by_cases hi : i < op₁
    · rw [h₂.keeps i hi, h₂.keeps (i - d) (by omega)]
      exact h₁.repeats i hle hi
    · exact h₂.repeats i (by omega) hlt

theorem Continues.mono (h : Continues m m' d op op₁) (hop : op₂ ≤ op₁) :
    Continues m m' d op op₂ := ⟨h.keeps, fun i h₁ h₂ => h.repeats i h₁ (by omega)⟩

/-- A distance that is a multiple of the offset repeats the same bytes, as long as it does not
reach behind the first of them. -/
theorem Continues.extend (h₁ : Continues m m₁ d op op₁) (h₂ : Continues m₁ m₂ (k * d) op₁ op₂)
    (hop : op ≤ op₁) (hk : k * d ≤ d + (op₁ - op)) (hpos : 0 < k) :
    Continues m m₂ d op op₂ where
  keeps i hi := by rw [h₂.keeps i (by omega), h₁.keeps i hi]
  repeats i hle hlt := by
    induction i using Nat.strong_induction_on with
    | _ i ih =>
      by_cases hi : i < op₁
      · rw [h₂.keeps i hi, h₂.keeps (i - d) (by omega)]
        exact h₁.repeats i hle hi
      -- going back by `d` once and going back `k` times end at the same byte
      have hback : ∀ j, 0 < j → j ≤ k → m₂ (i - d) = m₂ (i - j * d) := by
        intro j hj hjk
        induction j with
        | zero => omega
        | succ j ihj =>
          rcases Nat.eq_zero_or_pos j with rfl | hpos'
          · simp
          have hreach : (j + 1) * d ≤ k * d := Nat.mul_le_mul_right d hjk
          rw [Nat.add_mul, Nat.one_mul] at hreach ⊢
          rw [ihj hpos' (by omega), Nat.sub_add_eq]
          rcases Nat.eq_zero_or_pos (j * d) with hzero | hlt'
          · have hd : d = 0 := by
              rcases Nat.mul_eq_zero.mp hzero with h | h
              · omega
              · exact h
            rw [hd, Nat.sub_zero]
          · exact ih (i - j * d) (by omega) (by omega) (by omega)
      rw [h₂.repeats i (by omega) hlt, hback k hpos le_rfl]

@[simp] theorem length_first (n : ℕ) : (m.first n).length = n := by simp [first]

theorem getD_first {i : ℕ} (h : i < n) : (m.first n).getD i 0 = m i := by
  simp [first, List.getD, h]

/-- Repeating the bytes `d` before, one after the other, copies the match. -/
theorem Continues.first_eq (h : Continues m m' d op (op + n)) (hpos : 0 < d) (hd : d ≤ op) :
    m'.first (op + n) = copyBack (m.first op) d n := by
  induction n with
  | zero =>
    apply List.map_congr_left
    intro i hi
    exact h.keeps i (List.mem_range.mp hi)
  | succ n ih =>
    rw [copyBack, ← ih (h.mono (by omega)), length_first, getD_first (by omega),
      ← h.repeats (op + n) (by omega) (by omega)]
    show (List.range (op + n + 1)).map m' = _
    rw [List.range_succ, List.map_append]
    rfl

end Memory

section Copies

variable {m m' : Memory} {d ref ref' op op' cpy : ℕ} {e : ℤ}

/-- `dec` and `dec2table` make the distance a multiple of the offset that is long enough. -/
theorem dec_spec (hpos : 0 < d) (hlt : d < 8) : dec d ≤ 3 ∧
    ∃ k₁ k₂, 0 < k₁ ∧ 0 < k₂ ∧ d + dec d = k₁ * d ∧ 4 ≤ k₁ * d ∧ k₁ * d ≤ d + 4 ∧
      4 + k₁ * d + dec2 d = (k₂ * d : ℕ) ∧ 8 ≤ k₂ * d ∧ k₂ * d ≤ d + 8 := by
  interval_cases d
  · exact ⟨by decide, 4, 8, by decide⟩
  · exact ⟨by decide, 2, 4, by decide⟩
  · exact ⟨by decide, 2, 3, by decide⟩
  · exact ⟨by decide, 1, 2, by decide⟩
  · exact ⟨by decide, 1, 2, by decide⟩
  · exact ⟨by decide, 1, 2, by decide⟩
  · exact ⟨by decide, 1, 2, by decide⟩

/-- The first eight bytes of a match. -/
theorem copyFirst_spec (hd : ref + d = op) (hpos : 0 < d)
    (h : copyFirst ref op m = (m', ref')) :
    Memory.Continues m m' d op (op + 8) ∧
      ∃ k, 0 < k ∧ ref' + k * d = op + 8 ∧ 8 ≤ k * d ∧ k * d ≤ d + 8 := by
  have hoffset : op - ref = d := by omega
  unfold copyFirst at h
  simp only [hoffset] at h
  by_cases hlt : d < 8
  · rw [if_pos hlt] at h
    obtain ⟨hdec, k₁, k₂, hk₁, hk₂, hdist₁, hmin₁, hmax₁, hdist₂, hmin₂, hmax₂⟩ :=
      dec_spec hpos hlt
    obtain ⟨rfl, rfl⟩ := Prod.mk.inj h
    have hbytes := (((Memory.continues_move (m := m) hd (n := 1) hpos).trans
      (Memory.continues_move (show ref + 1 + d = op + 1 by omega) hpos) (by omega)).trans
      (Memory.continues_move (show ref + 2 + d = op + 2 by omega) hpos) (by omega)).trans
      (Memory.continues_move (show ref + 3 + d = op + 3 by omega) hpos) (by omega)
    refine ⟨hbytes.extend (Memory.continues_move (n := 4) (by omega) hmin₁) (by omega) (by omega)
      hk₁, k₂, hk₂, by omega, hmin₂, hmax₂⟩
  · rw [if_neg hlt] at h
    obtain ⟨rfl, rfl⟩ := Prod.mk.inj h
    exact ⟨Memory.continues_move hd (by omega), 1, by omega, by omega, by omega, by omega⟩

theorem wildCopyBack_spec (hd : ref + d = op) (hmin : 8 ≤ d)
    (h : wildCopyBack e ref op m = (m', ref', op')) :
    Memory.Continues m m' d op op' ∧ ref' + d = op' ∧ op ≤ op' ∧ e ≤ op' := by
  have hmove := Memory.continues_move (m := m) (n := 8) hd hmin
  fun_induction wildCopyBack e ref op m with
  | case1 ref op m hlt ih =>
    obtain ⟨hcopy, hd', hle, he⟩ := ih (by omega) h (Memory.continues_move (by omega) hmin)
    exact ⟨hmove.trans hcopy (by omega), hd', by omega, he⟩
  | case2 ref op m hge =>
    simp only [Prod.mk.injEq] at h
    obtain ⟨rfl, rfl, rfl⟩ := h
    exact ⟨hmove, by omega, by omega, by omega⟩

theorem secureCopy_spec (hd : ref + d = op) (hmin : 8 ≤ d)
    (h : secureCopy e ref op m = (m', ref', op')) :
    Memory.Continues m m' d op op' ∧ ref' + d = op' ∧ op ≤ op' ∧ e ≤ op' := by
  unfold secureCopy at h
  split_ifs at h with hlt
  · exact wildCopyBack_spec hd hmin h
  · simp only [Prod.mk.injEq] at h
    obtain ⟨rfl, rfl, rfl⟩ := h
    exact ⟨Memory.continues_refl le_rfl, hd, le_rfl, by omega⟩

theorem byteCopy_spec (hd : ref + d = op) (hpos : 0 < d) :
    Memory.Continues m (byteCopy cpy ref op m) d op cpy := by
  fun_induction byteCopy cpy ref op m with
  | case1 ref op m hlt ih =>
    exact (Memory.continues_move hd hpos).trans (ih (by omega)) (by omega)
  | case2 ref op m hge => exact Memory.continues_refl (by omega)

end Copies

/-! ## The bytes of a length -/

section Lengths

variable {half length n : ℕ} {ip rest bytes : List UInt8}

theorem readLength_replicate (k : ℕ) {b : UInt8} (hb : b ≠ 255)
    (hmax : length + 255 * k + b.toNat < 2 ^ 31) :
    readLength length (List.replicate k 255 ++ b :: rest) =
      .ok (length + 255 * k + b.toNat, rest) := by
  induction k generalizing length with
  | zero =>
    show readLength length (b :: rest) = _
    rw [readLength, if_neg (by omega), if_neg hb, Nat.mul_zero, Nat.add_zero]
  | succ k ih =>
    have h255 : (255 : UInt8).toNat = 255 := rfl
    show readLength length (255 :: (List.replicate k 255 ++ b :: rest)) = _
    rw [readLength, if_neg (by omega), if_pos rfl, ih (by omega), h255]
    congr 2
    omega

theorem replicate_of_readLength (h : readLength length ip = .ok (n, rest)) :
    ∃ k b, b ≠ 255 ∧ ip = List.replicate k 255 ++ b :: rest ∧ n = length + 255 * k + b.toNat ∧
      n < 2 ^ 31 := by
  induction ip generalizing length with
  | nil => cases h
  | cons len ip ih =>
    unfold readLength at h
    split_ifs at h with hmax hlen
    · obtain ⟨k, b, hb, rfl, rfl, hn⟩ := ih h
      have h255 : (255 : UInt8).toNat = 255 := rfl
      rw [hlen, h255] at hn ⊢
      exact ⟨k + 1, b, hb, rfl, by omega, hn⟩
    · obtain ⟨rfl, rfl⟩ := Prod.mk.inj (Except.ok.inj h)
      exact ⟨0, len, hlen, rfl, by omega, by omega⟩

theorem runLength_of_length (h : Length half bytes n) (hmax : n < 2 ^ 31) :
    runLength half (bytes ++ rest) = .ok (n, rest) := by
  unfold runLength
  cases h with
  | short hn =>
    rw [if_neg (by omega)]
    rfl
  | long k hb =>
    rw [if_pos rfl, List.append_assoc]
    exact readLength_replicate k hb hmax

theorem length_of_runLength (hhalf : half ≤ 15) (h : runLength half ip = .ok (n, rest)) :
    ∃ bytes, ip = bytes ++ rest ∧ Length half bytes n ∧ n < 2 ^ 31 := by
  unfold runLength at h
  split_ifs at h with h15
  · obtain ⟨k, b, hb, rfl, rfl, hn⟩ := replicate_of_readLength h
    subst h15
    exact ⟨List.replicate k 255 ++ [b], by rw [List.append_assoc]; rfl, .long k hb, hn⟩
  · obtain ⟨rfl, rfl⟩ := Prod.mk.inj (Except.ok.inj h)
    exact ⟨[], rfl, .short (by omega), by omega⟩

end Lengths

/-! ## The packets of the literals -/

/-- The bytes of the packets for `n` literals. -/
def packets (n : ℕ) : ℕ := 8 * max 1 ((n + 7) / 8)

theorem le_packets (n : ℕ) : n ≤ packets n ∧ 8 ≤ packets n ∧ packets n ≤ n + 8 := by
  unfold packets
  omega

section Packets

variable {cpy op n : ℕ} {ip : List UInt8} {m m' : Memory}

theorem Memory.write_of_lt {i : ℕ} (h : i < op) : m.write op ip i = m i := if_neg (by omega)

theorem Memory.write_of_mem {i : ℕ} (h : i < ip.length) : m.write op ip (op + i) = ip.getD i 0 := by
  unfold Memory.write
  rw [if_pos ⟨by omega, by omega⟩, Nat.add_sub_cancel_left]

theorem Memory.first_append {literals : List UInt8} (hkeep : ∀ i < op, m' i = m i)
    (hnew : ∀ i < literals.length, m' (op + i) = literals.getD i 0) :
    m'.first (op + literals.length) = m.first op ++ literals := by
  unfold Memory.first
  rw [List.range_add, List.map_append, List.map_map]
  congr 1
  · apply List.map_congr_left
    intro i hi
    exact hkeep i (List.mem_range.mp hi)
  · apply List.ext_getElem
    · simp
    · intro i h₁ h₂
      have := hnew i h₂
      simpa [List.getD, List.getElem?_eq_getElem h₂] using this

/-- The packets need that many bytes, and the literals are put behind what was there. -/
theorem wildCopyIn_spec (ip : List UInt8) (m : Memory) (hcpy : op + n = cpy) :
    if packets n ≤ ip.length then ∃ m', wildCopyIn cpy ip op m = .ok m' ∧ (∀ i < op, m' i = m i) ∧
        ∀ i < n, m' (op + i) = ip.getD i 0
      else wildCopyIn cpy ip op m = .error .outside := by
  fun_induction wildCopyIn cpy ip op m generalizing n with
  | case1 ip op m hshort =>
    have := le_packets n
    rw [if_neg (by omega)]
  | case2 ip op m hlong hlt ih =>
    have htake : (ip.take 8).length = 8 := by
      rw [List.length_take]
      omega
    have hpackets : packets n = packets (n - 8) + 8 := by
      unfold packets
      omega
    have := @ih (n - 8) (by omega)
    rw [List.length_drop] at this
    split_ifs at this ⊢ with h₁ h₂ h₂
    · obtain ⟨m', hcopy, hkeep, hnew⟩ := this
      refine ⟨m', hcopy, ?_, ?_⟩
      · intro i hi
        rw [hkeep i (by omega), Memory.write_of_lt hi]
      · intro i hi
        by_cases h8 : i < 8
        · rw [hkeep _ (by omega), Memory.write_of_mem (by omega)]
          simp [List.getD, h8]
        · have := hnew (i - 8) (by omega)
          simp only [List.getD, List.getElem?_drop] at this ⊢
          rw [show op + i = op + 8 + (i - 8) by omega, this, show 8 + (i - 8) = i by omega]
    · omega
    · omega
    · exact this
  | case3 ip op m hlong hge =>
    have htake : (ip.take 8).length = 8 := by
      rw [List.length_take]
      omega
    have hpackets : packets n = 8 := by
      unfold packets
      omega
    rw [if_pos (by omega)]
    refine ⟨_, rfl, fun i hi => Memory.write_of_lt hi, ?_⟩
    intro i hi
    rw [Memory.write_of_mem (by omega)]
    simp [List.getD, show i < 8 by omega]

end Packets

/-! ## The parts of a step -/

namespace Decoder

section Parts

variable {beyond : List UInt8} {oend : ℤ} {s : Decoder} {token lo hi : UInt8}
  {bytes rest : List UInt8} {n : ℕ}

theorem takeLiterals_eq (hip : s.ip = token :: (bytes ++ rest))
    (hlen : Length (token.toNat / 16) bytes n) (hmax : n < 2 ^ 31) :
    takeLiterals beyond oend s =
      if ((s.op + n : ℕ) : ℤ) > oend - 8 then
        if ((s.op + n : ℕ) : ℤ) > oend then .ok (.inr ⟨false, rest, s.dest⟩)
        else if rest.length < n then .error .outside
        else .ok (.inr ⟨true, rest.drop n, s.dest.write s.op (rest.take n)⟩)
      else match wildCopyIn (s.op + n) (rest ++ beyond) s.op s.dest with
        | .error trap => .error trap
        | .ok dest =>
          if rest.length < n then .error .outside
          else .ok (.inl (token, ⟨rest.drop n, s.op + n, dest⟩)) := by
  unfold takeLiterals
  rw [hip]
  simp only [nextByte, bind, Except.bind, runLength_of_length hlen hmax]
  split_ifs
  · rfl
  · rfl
  · rfl
  all_goals cases wildCopyIn (s.op + n) (rest ++ beyond) s.op s.dest <;> rfl

theorem takeLiterals_inv {r : (UInt8 × Decoder) ⊕ Decoded}
    (h : takeLiterals beyond oend s = .ok r) : ∃ token bytes rest n,
      s.ip = token :: (bytes ++ rest) ∧ Length (token.toNat / 16) bytes n ∧ n < 2 ^ 31 := by
  unfold takeLiterals at h
  cases hip : s.ip with
  | nil =>
    rw [hip] at h
    cases h
  | cons token ip =>
    rw [hip] at h
    have hhalf : token.toNat / 16 ≤ 15 := by
      have := token.toNat_lt
      omega
    cases hlen : runLength (token.toNat / 16) ip with
    | error trap =>
      simp only [nextByte, bind, Except.bind, hlen] at h
      cases h
    | ok r =>
      obtain ⟨bytes, rfl, hlength, hmax⟩ := length_of_runLength hhalf hlen
      exact ⟨token, bytes, r.2, r.1, rfl, hlength, hmax⟩

/-- A match whose offset is inside of the destination is copied, as far as it ends there. -/
theorem takeMatch_eq (oend : ℤ) (token : UInt8) (hip : s.ip = lo :: hi :: (bytes ++ rest))
    (hlen : Length (token.toNat % 16) bytes n) (hmax : n < 2 ^ 31)
    (hoffset : lo.toNat + 256 * hi.toNat ≤ s.op) : ∃ dest₁ dest',
      (0 < lo.toNat + 256 * hi.toNat →
        Memory.Continues s.dest dest' (lo.toNat + 256 * hi.toNat) s.op (s.op + (n + 4))) ∧
      takeMatch oend token s =
        if ((s.op + (n + 4) : ℕ) : ℤ) > oend then .ok (.inr ⟨false, rest, dest₁⟩)
        else if ((s.op + (n + 4) : ℕ) : ℤ) = oend then .ok (.inr ⟨true, rest, dest'⟩)
        else .ok (.inl ⟨rest, s.op + (n + 4), dest'⟩) := by
  generalize hd : lo.toNat + 256 * hi.toNat = d at hoffset
  obtain ⟨⟨dest₁, ref₁⟩, hfirst⟩ : ∃ r, copyFirst (s.op - d) s.op s.dest = r := ⟨_, rfl⟩
  have hcpy : s.op + 8 + n - 4 = s.op + (n + 4) := by omega
  have hspec : 0 < d → Memory.Continues s.dest dest₁ d s.op (s.op + 8) ∧
      ∃ k, 0 < k ∧ ref₁ + k * d = s.op + 8 ∧ 8 ≤ k * d ∧ k * d ≤ d + 8 :=
    fun hpos => copyFirst_spec (by omega) hpos hfirst
  unfold takeMatch
  rw [hip]
  simp only [nextByte, bind, Except.bind, hd, runLength_of_length hlen hmax, hfirst, hcpy,
    if_neg (Nat.not_lt.mpr hoffset)]
  obtain ⟨⟨dest₂, ref₂, op₂⟩, hsecure⟩ : ∃ r, secureCopy (oend - 8) ref₁ (s.op + 8) dest₁ = r :=
    ⟨_, rfl⟩
  obtain ⟨⟨dest₃, ref₃, op₃⟩, hsecure'⟩ :
      ∃ r, secureCopy ((s.op + (n + 4) : ℕ) : ℤ) ref₁ (s.op + 8) dest₁ = r := ⟨_, rfl⟩
  simp only [hsecure, hsecure']
  by_cases hend : ((s.op + (n + 4) : ℕ) : ℤ) > oend - 8
  · refine ⟨dest₁, byteCopy (s.op + (n + 4)) ref₂ op₂ dest₂, ?_, ?_⟩
    · intro hpos
      obtain ⟨hcopy, k, hk, hdist, hmin, hmax⟩ := hspec hpos
      obtain ⟨hcopy₂, hdist₂, hle, -⟩ := secureCopy_spec hdist hmin hsecure
      have hbytes : Memory.Continues dest₂ (byteCopy (s.op + (n + 4)) ref₂ op₂ dest₂) (k * d) op₂
          (s.op + (n + 4)) := byteCopy_spec hdist₂ (by omega)
      exact hcopy.extend (hcopy₂.trans hbytes hle) (by omega) (by omega) hk
    · rw [if_pos hend]
      split_ifs
      · rfl
      · rfl
      · rfl
  · refine ⟨dest₁, dest₃, ?_, ?_⟩
    · intro hpos
      obtain ⟨hcopy, k, hk, hdist, hmin, hmax⟩ := hspec hpos
      obtain ⟨hcopy₃, -, -, hle⟩ := secureCopy_spec hdist hmin hsecure'
      exact (hcopy.extend hcopy₃ (by omega) (by omega) hk).mono (by omega)
    · rw [if_neg hend, if_neg (by omega), if_neg (by omega)]
      rfl

/-- An offset that reaches before the destination. -/
theorem takeMatch_before (oend : ℤ) (token : UInt8) {ip : List UInt8} (hip : s.ip = lo :: hi :: ip)
    (hoffset : s.op < lo.toNat + 256 * hi.toNat) :
    takeMatch oend token s = .ok (.inr ⟨false, ip, s.dest⟩) := by
  unfold takeMatch
  rw [hip]
  simp only [nextByte, bind, Except.bind, if_pos hoffset]
  rfl

theorem takeMatch_inv {r : Decoder ⊕ Decoded} (h : takeMatch oend token s = .ok r) :
    ∃ lo hi ip, s.ip = lo :: hi :: ip ∧ (lo.toNat + 256 * hi.toNat ≤ s.op →
      ∃ bytes rest n, ip = bytes ++ rest ∧ Length (token.toNat % 16) bytes n ∧ n < 2 ^ 31) := by
  unfold takeMatch at h
  match hip : s.ip with
  | [] =>
    rw [hip] at h
    cases h
  | [lo] =>
    rw [hip] at h
    cases h
  | lo :: hi :: ip =>
    refine ⟨lo, hi, ip, rfl, ?_⟩
    intro hoffset
    have hhalf : token.toNat % 16 ≤ 15 := by omega
    cases hlen : runLength (token.toNat % 16) ip with
    | error trap =>
      rw [hip] at h
      simp only [nextByte, bind, Except.bind, if_neg (Nat.not_lt.mpr hoffset), hlen] at h
      cases h
    | ok r =>
      obtain ⟨bytes, rfl, hlength, hmax⟩ := length_of_runLength hhalf hlen
      exact ⟨bytes, r.2, r.1, rfl, hlength, hmax⟩

end Parts

/-- `ip` starts with a sequence whose literals are copied in packets. They end eight bytes before
the end of the destination, and the packets may load `room` bytes behind the source. -/
inductive Wild (room : ℕ) (oend : ℤ) (op : ℕ) :
    UInt8 → List UInt8 → List UInt8 → List UInt8 → Prop
  | intro {token : UInt8} {bytes literals tail : List UInt8}
      (literal : Length (token.toNat / 16) bytes literals.length) (short : literals.length < 2 ^ 31)
      (far : ((op + literals.length : ℕ) : ℤ) ≤ oend - 8)
      (inside : packets literals.length ≤ literals.length + tail.length + room) :
    Wild room oend op token literals tail (token :: (bytes ++ (literals ++ tail)))

/-- `ip` starts with literals that end less than eight bytes before the end of the destination, or
behind it. -/
inductive Close (oend : ℤ) (op : ℕ) : ℕ → List UInt8 → List UInt8 → Prop
  | intro {token : UInt8} {n : ℕ} {bytes tail : List UInt8}
      (literal : Length (token.toNat / 16) bytes n) (short : n < 2 ^ 31)
      (close : oend - 8 < ((op + n : ℕ) : ℤ))
      (inside : ((op + n : ℕ) : ℤ) ≤ oend → n ≤ tail.length) :
    Close oend op n tail (token :: (bytes ++ tail))

section Literals

variable {beyond : List UInt8} {oend : ℤ} {s : Decoder} {token : UInt8}
  {literals tail : List UInt8} {n : ℕ}

theorem takeLiterals_wild (h : Wild beyond.length oend s.op token literals tail s.ip) :
    ∃ dest, takeLiterals beyond oend s = .ok (.inl (token, ⟨tail, s.op + literals.length, dest⟩)) ∧
      dest.first (s.op + literals.length) = s.dest.first s.op ++ literals := by
  generalize hip : s.ip = ip at h
  obtain ⟨literal, short, far, inside⟩ := h
  have hcopy := wildCopyIn_spec (literals ++ tail ++ beyond) s.dest
    (show s.op + literals.length = s.op + literals.length from rfl)
  rw [if_pos (by simpa [Nat.add_assoc] using inside)] at hcopy
  obtain ⟨dest, hcopy, hkeep, hnew⟩ := hcopy
  refine ⟨dest, ?_, Memory.first_append hkeep ?_⟩
  · rw [takeLiterals_eq hip literal short, if_neg (by omega), hcopy]
    simp
  · intro i hi
    rw [hnew i hi, List.append_assoc]
    simp [List.getD, List.getElem?_append_left hi]

theorem takeLiterals_close (h : Close oend s.op n tail s.ip) :
    takeLiterals beyond oend s =
      if ((s.op + n : ℕ) : ℤ) > oend then .ok (.inr ⟨false, tail, s.dest⟩)
      else .ok (.inr ⟨true, tail.drop n, s.dest.write s.op (tail.take n)⟩) := by
  generalize hip : s.ip = ip at h
  obtain ⟨literal, short, close, inside⟩ := h
  rw [takeLiterals_eq hip literal short, if_pos close]
  split_ifs with hend
  · rfl
  · omega
  · rfl

theorem takeLiterals_cases {r : (UInt8 × Decoder) ⊕ Decoded}
    (h : takeLiterals beyond oend s = .ok r) :
    (∃ n tail, Close oend s.op n tail s.ip) ∨
      ∃ token literals tail, Wild beyond.length oend s.op token literals tail s.ip := by
  obtain ⟨token, bytes, rest, n, hip, literal, short⟩ := takeLiterals_inv h
  rw [takeLiterals_eq hip literal short] at h
  rw [hip]
  split_ifs at h with hclose hend hshort hshort
  · exact .inl ⟨n, rest, literal, short, hclose, by omega⟩
  · exact .inl ⟨n, rest, literal, short, hclose, by omega⟩
  · -- the literals are copied in packets
    have hcopy := wildCopyIn_spec (rest ++ beyond) s.dest
      (show s.op + n = s.op + n from rfl)
    split_ifs at hcopy with hpackets
    · obtain ⟨dest, hcopy, -, -⟩ := hcopy
      rw [hcopy] at h
      cases h
    · rw [hcopy] at h
      cases h
  · have hcopy := wildCopyIn_spec (rest ++ beyond) s.dest
      (show s.op + n = s.op + n from rfl)
    split_ifs at hcopy with hpackets
    · have hlen : (rest.take n).length = n := by
        rw [List.length_take]
        omega
      rw [List.length_append] at hpackets
      refine .inr ⟨token, rest.take n, rest.drop n, ?_⟩
      have hwild : Wild beyond.length oend s.op token (rest.take n) (rest.drop n)
          (token :: (bytes ++ (rest.take n ++ rest.drop n))) := by
        apply Wild.intro
        · rwa [hlen]
        · rwa [hlen]
        · omega
        · rw [hlen, List.length_drop]
          omega
      rwa [List.take_append_drop] at hwild
    · rw [hcopy] at h
      cases h

end Literals

/-! ## One step -/

/-- `ip` starts with a sequence whose literals end eight bytes before the end of the destination and
whose match starts inside of it. `rest` follows the sequence. -/
inductive Matched (room : ℕ) (oend : ℤ) (op : ℕ) :
    Sequence → List UInt8 → List UInt8 → Prop
  | intro {token lo hi : UInt8} {literals bytes rest ip : List UInt8} {n : ℕ}
      (literal : Wild room oend op token literals (lo :: hi :: (bytes ++ rest)) ip)
      (copied : Length (token.toNat % 16) bytes n) (short : n < 2 ^ 31)
      (offset : lo.toNat + 256 * hi.toNat ≤ op + literals.length) :
    Matched room oend op ⟨literals, lo.toNat + 256 * hi.toNat, n + 4⟩ rest ip

section Step

variable {beyond : List UInt8} {oend : ℤ} {s s' : Decoder} {token lo hi : UInt8}
  {literals tail rest ip : List UInt8} {n : ℕ} {sequence : Sequence}

theorem step_close (beyond : List UInt8) (h : Close oend s.op n tail s.ip) :
    step beyond oend s = .inr (.ok (if ((s.op + n : ℕ) : ℤ) > oend then ⟨false, tail, s.dest⟩
      else ⟨true, tail.drop n, s.dest.write s.op (tail.take n)⟩)) := by
  unfold step
  rw [takeLiterals_close h]
  split_ifs <;> rfl

/-- A match that starts before the destination. -/
theorem step_before (beyond : List UInt8)
    (h : Wild beyond.length oend s.op token literals (lo :: hi :: ip) s.ip)
    (hoffset : s.op + literals.length < lo.toNat + 256 * hi.toNat) :
    ∃ dest, step beyond oend s = .inr (.ok ⟨false, ip, dest⟩) := by
  obtain ⟨dest, hliterals, -⟩ := takeLiterals_wild h
  have hmatch := takeMatch_before oend token
    (s := ⟨lo :: hi :: ip, s.op + literals.length, dest⟩) rfl hoffset
  refine ⟨dest, ?_⟩
  unfold step
  rw [hliterals]
  dsimp only
  rw [hmatch]

/-- A sequence, which may end behind the destination. -/
theorem step_matched (beyond : List UInt8)
    (h : Matched beyond.length oend s.op sequence rest s.ip) : ∃ dest dest',
    (0 < sequence.offset →
      dest'.first (s.op + sequence.literals.length + sequence.matchLength) =
        sequence.apply (s.dest.first s.op)) ∧
    step beyond oend s =
      if ((s.op + sequence.literals.length + sequence.matchLength : ℕ) : ℤ) > oend then
        .inr (.ok ⟨false, rest, dest⟩)
      else if ((s.op + sequence.literals.length + sequence.matchLength : ℕ) : ℤ) = oend then
        .inr (.ok ⟨true, rest, dest'⟩)
      else .inl ⟨rest, s.op + sequence.literals.length + sequence.matchLength, dest'⟩ := by
  generalize hip : s.ip = ip at h
  obtain ⟨literal, copied, short, hoffset⟩ := h
  rename_i token lo hi literals bytes n
  obtain ⟨dest₁, hliterals, hfirst⟩ := takeLiterals_wild (hip ▸ literal)
  obtain ⟨dest, dest', hcopy, hmatch⟩ := takeMatch_eq oend token
    (s := ⟨lo :: hi :: (bytes ++ rest), s.op + literals.length, dest₁⟩) rfl copied short hoffset
  refine ⟨dest, dest', ?_, ?_⟩
  · intro hpos
    rw [(hcopy hpos).first_eq hpos hoffset, hfirst]
    rfl
  · unfold step
    rw [hliterals]
    dsimp only
    rw [hmatch]
    split_ifs <;> rfl

/-- **What a step does** unless it loads a byte behind the end or the length overflows. -/
theorem step_cases (h : ∀ trap, step beyond oend s ≠ .inr (.error trap)) :
    (∃ n tail, Close oend s.op n tail s.ip) ∨
    (∃ token lo hi literals ip, Wild beyond.length oend s.op token literals (lo :: hi :: ip) s.ip ∧
      s.op + literals.length < lo.toNat + 256 * hi.toNat) ∨
    ∃ sequence rest, Matched beyond.length oend s.op sequence rest s.ip := by
  unfold step at h
  cases hliterals : takeLiterals beyond oend s with
  | error trap =>
    rw [hliterals] at h
    exact absurd rfl (h trap)
  | ok r =>
    obtain hclose | ⟨token, literals, tail, hwild⟩ := takeLiterals_cases hliterals
    · exact .inl hclose
    obtain ⟨dest, hliterals', -⟩ := takeLiterals_wild hwild
    rw [hliterals'] at h
    dsimp only at h
    cases hmatch : takeMatch oend token ⟨tail, s.op + literals.length, dest⟩ with
    | error trap =>
      rw [hmatch] at h
      exact absurd rfl (h trap)
    | ok r =>
      obtain ⟨lo, hi, ip, hip, hinv⟩ := takeMatch_inv hmatch
      dsimp only at hip hinv
      subst hip
      by_cases hoffset : s.op + literals.length < lo.toNat + 256 * hi.toNat
      · exact .inr (.inl ⟨token, lo, hi, literals, ip, hwild, hoffset⟩)
      · obtain ⟨bytes, rest, n, rfl, copied, short⟩ := hinv (by omega)
        exact .inr (.inr ⟨_, rest, hwild, copied, short, by omega⟩)

theorem Matched.length_lt {room op : ℕ} (h : Matched room oend op sequence rest ip) :
    rest.length < ip.length := by
  obtain ⟨⟨-, -, -, -⟩, -, -, -⟩ := h
  simp only [List.length_cons, List.length_append]
  omega

/-- A further step follows a match that ends before the end of the destination. -/
theorem step_next (h : step beyond oend s = .inl s') : ∃ sequence rest dest,
    Matched beyond.length oend s.op sequence rest s.ip ∧
    ((s.op + sequence.literals.length + sequence.matchLength : ℕ) : ℤ) < oend ∧
    s' = ⟨rest, s.op + sequence.literals.length + sequence.matchLength, dest⟩ ∧
    (0 < sequence.offset → dest.first (s.op + sequence.literals.length + sequence.matchLength) =
      sequence.apply (s.dest.first s.op)) := by
  have hresult : ∀ trap, step beyond oend s ≠ .inr (.error trap) := by
    intro trap htrap
    cases h.symm.trans htrap
  obtain ⟨n, tail, hclose⟩ | ⟨token, lo, hi, literals, ip, hwild, hoffset⟩ |
    ⟨sequence, rest, hmatched⟩ := step_cases hresult
  · cases h.symm.trans (step_close beyond hclose)
  · obtain ⟨dest, hstep⟩ := step_before beyond hwild hoffset
    cases h.symm.trans hstep
  · obtain ⟨dest, dest', happly, hstep⟩ := step_matched beyond hmatched
    rw [h] at hstep
    split_ifs at hstep with hbehind hend
    exact ⟨sequence, rest, dest', hmatched, by omega, Sum.inl.inj hstep, happly⟩

theorem step_decreases (s s' : Decoder) (h : step beyond oend s = .inl s') :
    s'.ip.length < s.ip.length := by
  obtain ⟨sequence, rest, dest, hmatched, -, rfl, -⟩ := step_next h
  exact hmatched.length_lt

/-- The source is accepted behind its last literals, or behind a match that ends at the end of the
destination. -/
theorem step_accept {m : Memory} (h : step beyond oend s = .inr (.ok ⟨true, [], m⟩)) :
    (∃ literals, Close oend s.op literals.length literals s.ip ∧
      ((s.op + literals.length : ℕ) : ℤ) ≤ oend ∧
      m.first (s.op + literals.length) = s.dest.first s.op ++ literals) ∨
    ∃ sequence, Matched beyond.length oend s.op sequence [] s.ip ∧
      ((s.op + sequence.literals.length + sequence.matchLength : ℕ) : ℤ) = oend ∧
      (0 < sequence.offset → m.first (s.op + sequence.literals.length + sequence.matchLength) =
        sequence.apply (s.dest.first s.op)) := by
  have hresult : ∀ trap, step beyond oend s ≠ .inr (.error trap) := by
    intro trap htrap
    cases h.symm.trans htrap
  obtain ⟨n, tail, hclose⟩ | ⟨token, lo, hi, literals, ip, hwild, hoffset⟩ |
    ⟨sequence, rest, hmatched⟩ := step_cases hresult
  · have hstep := h.symm.trans (step_close beyond hclose)
    split_ifs at hstep with hend
    · cases hstep
    · obtain ⟨-, hdrop, rfl⟩ := Decoded.mk.inj (Except.ok.inj (Sum.inr.inj hstep))
      -- all bytes that are left are literals
      have hlen : tail.length = n := by
        have hle := List.drop_eq_nil_iff.mp hdrop.symm
        generalize s.ip = ip at hclose
        obtain ⟨-, -, -, inside⟩ := hclose
        have := inside (by omega)
        omega
      subst hlen
      refine .inl ⟨tail, hclose, by omega, ?_⟩
      rw [List.take_length]
      exact Memory.first_append (fun i hi => Memory.write_of_lt hi)
        (fun i hi => Memory.write_of_mem hi)
  · obtain ⟨dest, hstep⟩ := step_before beyond hwild hoffset
    cases h.symm.trans hstep
  · obtain ⟨dest, dest', happly, hstep⟩ := step_matched beyond hmatched
    rw [h] at hstep
    split_ifs at hstep with hbehind hend
    · cases hstep
    · obtain ⟨-, rfl, rfl⟩ := Decoded.mk.inj (Except.ok.inj (Sum.inr.inj hstep))
      exact .inr ⟨sequence, hmatched, hend, happly⟩

theorem step_stop_lt {decoded : Decoded} (h : step beyond oend s = .inr (.ok decoded)) :
    decoded.ip.length < s.ip.length := by
  have hresult : ∀ trap, step beyond oend s ≠ .inr (.error trap) := by
    intro trap htrap
    cases h.symm.trans htrap
  obtain ⟨n, tail, hclose⟩ | ⟨token, lo, hi, literals, ip, hwild, hoffset⟩ |
    ⟨sequence, rest, hmatched⟩ := step_cases hresult
  · have hstep := h.symm.trans (step_close beyond hclose)
    generalize s.ip = ip at hclose
    obtain ⟨-, -, -, -⟩ := hclose
    simp only [List.length_cons, List.length_append]
    split_ifs at hstep
    · cases hstep
      simp only
      omega
    · cases hstep
      simp only [List.length_drop]
      omega
  · obtain ⟨dest, hstep⟩ := step_before beyond hwild hoffset
    cases h.symm.trans hstep
    generalize s.ip = ip at hwild
    obtain ⟨-, -, -, -⟩ := hwild
    simp only [List.length_cons, List.length_append]
    omega
  · obtain ⟨dest, dest', -, hstep⟩ := step_matched beyond hmatched
    have hlt := hmatched.length_lt
    rw [h] at hstep
    split_ifs at hstep
    · cases hstep
      exact hlt
    · cases hstep
      exact hlt

end Step

end Decoder

/-- The main loop. -/
def decodeLoop (beyond : List UInt8) (oend : ℤ) : Loop Decoder (Except Trap Decoded) where
  step := Decoder.step beyond oend
  measure s := s.ip.length
  decreases := Decoder.step_decreases

/-- `LZ4_uncompress`: the value it returns, and the destination. -/
def lz4Uncompress (beyond source : List UInt8) (dest : Memory) (osize : ℤ) :
    Except Trap (ℤ × Memory) := do
  let decoded ← (decodeLoop beyond osize).run ⟨source, 0, dest⟩
  let consumed : ℤ := source.length - decoded.ip.length
  return (if decoded.ok then toInt32 consumed else toInt32 (-consumed), decoded.dest)

end Rhizofs
