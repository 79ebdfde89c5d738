import Rhizofs.DataBlock
import Rhizofs.Foundations.Ownership

/-!
# The buffer of a decoded data block

`DataBlock_get_data` with an identity for the buffer it allocates. The inner decoders share the
pointer `*data` with it; both of its levels free the buffer when decoding fails. The result of
`LZ4_uncompress` is a parameter. The buffer is released as it should be except when the LZ4 decoder
fails on a buffer it got (`getData_released_iff`). Without the identities this is
`DataBlock.getData` (`getData_simulates`).
-/

namespace Rhizofs.Ownership

open Extern

/-- `get_uncompressed_data` with `do_alloc`: the return code and `*data`. -/
def getUncompressedData (dblk : DataBlock) : Own MemRet (ℤ × Option ℕ) := do
  let data ← Own.allocate (alloc (.bytes dblk.data.length))
  if data.isSome then return (toInt32 dblk.data.length, data)
  Own.free (Own.block data)
  return (-1, data)

/-- `LZ4_uncompress` returned `bytesUncompressed` and has not consumed the whole block. -/
def Lz4Fails (dblk : DataBlock) (bytesUncompressed : ℤ) : Prop :=
  bytesUncompressed < 0 ∨ dblk.data.length ≠ toSize bytesUncompressed

instance (dblk : DataBlock) (bytesUncompressed : ℤ) : Decidable (Lz4Fails dblk bytesUncompressed) :=
  inferInstanceAs (Decidable (_ ∨ _))

/-- `get_lz4_compressed_data` with `do_alloc`. When decoding fails the buffer is freed, but `*data`
still points to it. -/
def getLz4CompressedData (dblk : DataBlock) (bytesUncompressed : ℤ) :
    Own MemRet (ℤ × Option ℕ) := do
  let len := toSize dblk.size
  let data ← Own.allocate (alloc (.bytes len))
  if data.isSome ∧ ¬ Lz4Fails dblk bytesUncompressed then return (toInt32 len, data)
  Own.free (Own.block data)
  return (-1, data)

/-- The decoder for the block's compression. The callers pass a `*data` that is `NULL`. -/
def decoder (dblk : DataBlock) (bytesUncompressed : ℤ) : Own MemRet (ℤ × Option ℕ) :=
  match dblk.compression with
  | .none => getUncompressedData dblk
  | .lz4 => getLz4CompressedData dblk bytesUncompressed
  | .other _ => return (-1, none)

/-- `DataBlock_get_data`: the return code and `*data`. -/
def getData (dblk : DataBlock) (bytesUncompressed : ℤ) : Own MemRet (ℤ × Option ℕ) := do
  let (len, data) ← decoder dblk bytesUncompressed
  if len > -1 then return (len, data)
  Own.free (Own.block data)
  return (-1, none)

/-! ## One call -/

/-- A call that fails has freed what it allocated and leaves no pointer; one that succeeds has freed
nothing, and the caller owns the buffer besides the blocks `owned` it had before. -/
structure Released (owned : Multiset ℕ) (h h' : Heap) (rc : ℤ) (data : Option ℕ) : Prop where
  code : rc = -1 ∨ rc ≥ 0
  failed : rc = -1 → data = none ∧ h'.Accounts owned
  succeeded : rc ≥ 0 → h'.freed = h.freed ∧ ∃ p, data = some p ∧ h'.Accounts (p ::ₘ owned)

/-- The call got its buffer, and the LZ4 decoder failed on it. -/
def FailsOnBuffer (dblk : DataBlock) (bytesUncompressed : ℤ) (tr : List (Event MemRet)) : Prop :=
  dblk.compression = .lz4 ∧ (∃ n, ⟨.bytes n, true⟩ ∈ tr) ∧ Lz4Fails dblk bytesUncompressed

section Call

variable {dblk : DataBlock} {bytesUncompressed : ℤ} {owned : Multiset ℕ} {h h' : Heap}
  {tr : List (Event MemRet)} {out : ℤ × Option ℕ}

/-- What a decoder hands to `DataBlock_get_data`: whether it has freed the buffer in `data`. -/
structure Decoded (owned : Multiset ℕ) (h h' : Heap) (len : ℤ) (data : Option ℕ) (freed : Bool) :
    Prop where
  accounts : if freed then ∃ p, data = some p ∧ p ∈ h'.freed
    else h'.Accounts (Own.block data + owned)
  buffer : len > -1 → data ≠ none ∧ freed = false ∧ h'.freed = h.freed

/-- Decoding failed before there was a buffer. -/
theorem decoded_none (hacc : h.Accounts owned) : Decoded owned h h (-1) none false :=
  ⟨by simpa using hacc, fun hlen => absurd hlen (by decide)⟩

/-- Decoding succeeded into a new buffer. -/
theorem decoded_some (hacc : h.Accounts owned) (len : ℤ) :
    Decoded owned h h.alloc len (some h.next) false :=
  ⟨by simpa using Heap.accounts_alloc hacc, fun _ => ⟨by simp, rfl, rfl⟩⟩

theorem decoded_uncompressed (hacc : h.Accounts owned)
    (hrun : ((getUncompressedData dblk) h).Traces tr (out, h')) :
    Decoded owned h h' out.1 out.2 false := by
  obtain ⟨tr₁, tr₂, rfl, ⟨-, hrest⟩ | ⟨-, hrest⟩⟩ := Own.traces_allocate_bind.mp hrun
  · obtain ⟨-, rfl, rfl⟩ := Own.traces_pure.mp hrest
    exact decoded_some hacc _
  · obtain ⟨-, rfl, rfl⟩ := Own.traces_pure.mp hrest
    simpa using decoded_none hacc

/-- The LZ4 decoder frees its buffer when it fails on one. -/
theorem decoded_lz4 (hacc : h.Accounts owned)
    (hrun : ((getLz4CompressedData dblk bytesUncompressed) h).Traces tr (out, h')) :
    ∃ freed, Decoded owned h h' out.1 out.2 freed ∧
      (freed = true ↔ (∃ n, ⟨.bytes n, true⟩ ∈ tr) ∧ Lz4Fails dblk bytesUncompressed) := by
  obtain ⟨tr₁, tr₂, rfl, ⟨⟨ok, _, rfl, rfl, rfl⟩, hrest⟩ | ⟨⟨ok, _, rfl, rfl, rfl⟩, hrest⟩⟩ :=
    Own.traces_allocate_bind.mp hrun
  · by_cases hfails : Lz4Fails dblk bytesUncompressed
    · simp only [hfails, not_true, and_false, if_false, Own.free_bind] at hrest
      obtain ⟨rfl, rfl, rfl⟩ := Own.traces_pure.mp hrest
      refine ⟨true, ⟨⟨h.next, rfl, by simp [Heap.free]⟩, fun hlen => ?_⟩, by simp [hfails]⟩
      dsimp only at hlen
      omega
    · simp only [hfails, not_false_eq_true, and_true, Option.isSome_some, if_true] at hrest
      obtain ⟨rfl, rfl, rfl⟩ := Own.traces_pure.mp hrest
      exact ⟨false, decoded_some hacc _, by simp [hfails]⟩
  · obtain ⟨rfl, rfl, rfl⟩ := Own.traces_pure.mp hrest
    exact ⟨false, by simpa using decoded_none hacc, by simp⟩

theorem decoded_decoder (hacc : h.Accounts owned)
    (hrun : ((decoder dblk bytesUncompressed) h).Traces tr (out, h')) :
    ∃ freed, Decoded owned h h' out.1 out.2 freed ∧
      (freed = true ↔ FailsOnBuffer dblk bytesUncompressed tr) := by
  unfold decoder at hrun
  cases hc : dblk.compression with
  | none =>
    rw [hc] at hrun
    exact ⟨false, decoded_uncompressed hacc hrun, by simp [FailsOnBuffer, hc]⟩
  | lz4 =>
    rw [hc] at hrun
    obtain ⟨freed, hdec, hiff⟩ := decoded_lz4 hacc hrun
    exact ⟨freed, hdec, by simpa [FailsOnBuffer, hc] using hiff⟩
  | other n =>
    rw [hc] at hrun
    obtain ⟨-, rfl, rfl⟩ := Own.traces_pure.mp hrun
    exact ⟨false, decoded_none hacc, by simp [FailsOnBuffer, hc]⟩

/-- **When the buffer is released exactly once.** For any block, any result of the LZ4 decoder and
any answer of the allocation, a failing call frees its buffer once and a successful one leaves it to
the caller, if and only if the LZ4 decoder did not fail on a buffer that was allocated for it. -/
theorem getData_released_iff (hacc : h.Accounts owned)
    (hrun : ((getData dblk bytesUncompressed) h).Traces tr (out, h')) :
    Released owned h h' out.1 out.2 ↔ ¬ FailsOnBuffer dblk bytesUncompressed tr := by
  obtain ⟨⟨len, data⟩, h₁, tr₁, tr₂, rfl, hdecoder, hrest⟩ := Own.traces_bind.mp hrun
  obtain ⟨freed, hdec, hiff⟩ := decoded_decoder hacc hdecoder
  dsimp only at hrest hdec
  split_ifs at hrest with hlen
  · obtain ⟨rfl, rfl, rfl⟩ := Own.traces_pure.mp hrest
    obtain ⟨hne, rfl, hfreed⟩ := hdec.buffer hlen
    obtain ⟨p, rfl⟩ := Option.ne_none_iff_exists'.mp hne
    rw [List.append_nil, ← hiff]
    apply iff_of_true _ (by simp)
    refine ⟨.inr (by dsimp only; omega), fun hrc => ?_, fun _ => ?_⟩
    · dsimp only at hrc
      omega
    · exact ⟨hfreed, p, rfl, by simpa using hdec.accounts⟩
  · obtain ⟨rfl, rfl, rfl⟩ := Own.traces_pure.mp hrest
    rw [List.append_nil, ← hiff]
    cases freed with
    | true =>
      -- the buffer is freed for the second time
      obtain ⟨p, rfl, hp⟩ := hdec.accounts
      apply iff_of_false _ (by simp)
      intro hreleased
      obtain ⟨-, hacc'⟩ := hreleased.failed rfl
      exact Heap.not_accounts_of_twice (Multiset.mem_add.mpr (.inl hp)) (by simp) hacc'
    | false =>
      apply iff_of_true _ (by simp)
      refine ⟨.inl rfl, fun _ => ?_, fun hrc => absurd hrc (by decide)⟩
      exact ⟨rfl, Heap.accounts_free (by simpa using hdec.accounts)⟩

/-! ### The model without identities -/

/-- The result of a decoder of `DataBlock` with the calls `tr`: the same length and, when that is
not negative, a buffer exactly when there is a pointer. -/
def Simulates (p : Prog MemRet (ℤ × Option (List UInt8))) (tr : List (Event MemRet)) (len : ℤ)
    (data : Option ℕ) : Prop :=
  ∃ buf, p.Traces tr (len, buf) ∧ (len > -1 → (buf.isSome ↔ data.isSome))

theorem uncompressed_simulates
    (hrun : ((getUncompressedData dblk) h).Traces tr (out, h')) :
    Simulates (DataBlock.getUncompressedData dblk none true) tr out.1 out.2 := by
  obtain ⟨tr₁, tr₂, rfl, ⟨⟨ok, _, rfl, rfl, rfl⟩, hrest⟩ | ⟨⟨ok, _, rfl, rfl, rfl⟩, hrest⟩⟩ :=
    Own.traces_allocate_bind.mp hrun
  · obtain ⟨rfl, rfl, -⟩ := Own.traces_pure.mp hrest
    refine ⟨some (memcpy (List.replicate dblk.data.length 0) dblk.data), ?_, by simp⟩
    simp [DataBlock.getUncompressedData, DataBlock.destination, alloc, Prog.perform]
  · obtain ⟨rfl, rfl, -⟩ := Own.traces_pure.mp hrest
    refine ⟨none, ?_, by simp⟩
    simp [DataBlock.getUncompressedData, DataBlock.destination, alloc, Prog.perform]

theorem lz4_simulates (lz4 : Lz4)
    (hlz4 : bytesUncompressed = (lz4.uncompress dblk.data (List.replicate (toSize dblk.size) 0)
      (toInt32 (toSize dblk.size))).1)
    (hrun : ((getLz4CompressedData dblk bytesUncompressed) h).Traces tr (out, h')) :
    Simulates (DataBlock.getLz4CompressedData lz4 dblk none true) tr out.1 out.2 := by
  obtain ⟨tr₁, tr₂, rfl, ⟨⟨ok, _, rfl, rfl, rfl⟩, hrest⟩ | ⟨⟨ok, _, rfl, rfl, rfl⟩, hrest⟩⟩ :=
    Own.traces_allocate_bind.mp hrun
  · have hcomplete : ¬ Lz4Fails dblk bytesUncompressed ↔
        bytesUncompressed ≥ 0 ∧ dblk.data.length = toSize bytesUncompressed := by
      simp [Lz4Fails]
    subst hlz4
    generalize hres : lz4.uncompress dblk.data (List.replicate (toSize dblk.size) 0)
      (toInt32 (toSize dblk.size)) = res at hcomplete hrest
    by_cases hfails : Lz4Fails dblk res.1
    · simp only [hfails, not_true, and_false, if_false, Own.free_bind] at hrest
      obtain ⟨rfl, rfl, -⟩ := Own.traces_pure.mp hrest
      have hnot := mt hcomplete.mpr (not_not.mpr hfails)
      refine ⟨some res.2, ?_, by simp⟩
      simp [DataBlock.getLz4CompressedData, DataBlock.destination, alloc, Prog.perform, hres, hnot]
    · simp only [hfails, not_false_eq_true, and_true, Option.isSome_some, if_true] at hrest
      obtain ⟨rfl, rfl, -⟩ := Own.traces_pure.mp hrest
      have hdone := hcomplete.mp hfails
      refine ⟨some res.2, ?_, by simp⟩
      simp [DataBlock.getLz4CompressedData, DataBlock.destination, alloc, Prog.perform, hres,
        ← hdone.2, hdone.1]
  · obtain ⟨rfl, rfl, -⟩ := Own.traces_pure.mp hrest
    refine ⟨none, ?_, by simp⟩
    simp [DataBlock.getLz4CompressedData, DataBlock.destination, alloc, Prog.perform]

/-- Without the identities a run is one of `DataBlock.getData`, with the same return code, and there
is a pointer when there is a buffer. -/
theorem getData_simulates (lz4 : Lz4)
    (hlz4 : bytesUncompressed = (lz4.uncompress dblk.data (List.replicate (toSize dblk.size) 0)
      (toInt32 (toSize dblk.size))).1)
    (hrun : ((getData dblk bytesUncompressed) h).Traces tr (out, h')) :
    Simulates (DataBlock.getData lz4 dblk) tr out.1 out.2 := by
  obtain ⟨⟨len, data⟩, h₁, tr₁, tr₂, rfl, hdecoder, hrest⟩ := Own.traces_bind.mp hrun
  have hsim : Simulates (DataBlock.decoder lz4 dblk none true) tr₁ len data := by
    unfold decoder at hdecoder
    unfold DataBlock.decoder
    cases hc : dblk.compression with
    | none => exact uncompressed_simulates (by simpa only [hc] using hdecoder)
    | lz4 => exact lz4_simulates lz4 hlz4 (by simpa only [hc] using hdecoder)
    | other n =>
      rw [hc] at hdecoder
      obtain ⟨rfl, hout, -⟩ := Own.traces_pure.mp hdecoder
      obtain ⟨rfl, rfl⟩ := Prod.mk.inj hout
      exact ⟨none, ⟨rfl, rfl⟩, by simp⟩
  obtain ⟨buf, htr, hbuf⟩ := hsim
  dsimp only at hrest
  split_ifs at hrest with hlen
  · obtain ⟨rfl, rfl, -⟩ := Own.traces_pure.mp hrest
    refine ⟨buf, ?_, hbuf⟩
    exact (Prog.traces_bind _ _ _ _).mpr ⟨(len, buf), tr₁, [], rfl, htr, by simp [hlen]⟩
  · obtain ⟨rfl, rfl, -⟩ := Own.traces_pure.mp hrest
    refine ⟨none, ?_, by simp⟩
    exact (Prog.traces_bind _ _ _ _).mpr ⟨(len, buf), tr₁, [], rfl, htr, by simp [hlen]⟩

end Call

/-! ## A damaged stream -/

/-- A block of the LZ4 form whose stream is empty. -/
def damaged : DataBlock := { size := 5, data := [], compression := .lz4 }

/-- The buffer of a failed call is freed twice. -/
theorem getData_frees_twice : ∃ tr out h',
    ((getData damaged (-1)) .empty).Traces tr (out, h') ∧ out.1 = -1 ∧ h'.freed.count 0 = 2 ∧
      ¬ Released 0 .empty h' out.1 out.2 := by
  have hrun : ((getData damaged (-1)) .empty).Traces [⟨.bytes 5, true⟩]
      ((-1, none), (Heap.empty.alloc.free {0}).free {0}) := ⟨true, [], rfl, rfl, rfl⟩
  refine ⟨_, _, _, hrun, rfl, rfl, ?_⟩
  intro hreleased
  obtain ⟨-, hacc⟩ := hreleased.failed rfl
  exact Heap.not_accounts_of_twice (p := 0) (by decide) (by simp) hacc

/-- Without memory for the buffer the failed call has nothing to free. -/
theorem getData_released_no_memory : ∃ tr out h',
    ((getData damaged (-1)) .empty).Traces tr (out, h') ∧
      Released 0 .empty h' out.1 out.2 := by
  have hrun : ((getData damaged (-1)) .empty).Traces [⟨.bytes 5, false⟩]
      ((-1, none), Heap.empty) := ⟨false, [], rfl, rfl, rfl⟩
  refine ⟨_, _, _, hrun, (getData_released_iff Heap.accounts_empty hrun).mpr ?_⟩
  rintro ⟨-, ⟨n, hmem⟩, -⟩
  simp at hmem

end Rhizofs.Ownership
