import Rhizofs.Lz4.Library

/-!
# Blocks that decode completely

`get_lz4_compressed_data` takes a block as decoded when `LZ4_uncompress` has consumed all of it, and
returns the size that the block declares. The decoder accepts a block exactly if its sequences fit
that size (`Fits`, `run_of_fits`, `fits_of_run`): the last literals may end up to seven bytes before
the end of the destination, and an offset may be zero. In both cases bytes of the result come from
the buffer and not from the block (`complete_iff`).
-/

namespace Rhizofs

open Extern Lz4Block

/-! ## The blocks that are accepted -/

/-- The sequences from `op` on are decoded to the end. All literals but the last ones end eight
bytes before the end of the destination or earlier, and the last ones less than eight bytes before
it. -/
def Fits (oend : ℤ) : ℕ → List Sequence → Option (List UInt8) → Prop
  | _, [], none => False
  | op, [], some literals =>
    oend - 8 < (op + literals.length : ℕ) ∧ ((op + literals.length : ℕ) : ℤ) ≤ oend
  | op, s :: seqs, last =>
    ((op + s.literals.length : ℕ) : ℤ) ≤ oend - 8 ∧ s.offset ≤ op + s.literals.length ∧
      (((op + s.literals.length + s.matchLength : ℕ) : ℤ) = oend ∧ seqs = [] ∧ last = none ∨
        ((op + s.literals.length + s.matchLength : ℕ) : ℤ) < oend ∧
          Fits oend (op + s.literals.length + s.matchLength) seqs last)

section Fits

variable {oend : ℤ} {op : ℕ} {seqs : List Sequence} {last : Option (List UInt8)}

/-- What is decoded ends inside of the destination. -/
theorem Fits.size_le (h : Fits oend op seqs last) : ((op + size seqs last : ℕ) : ℤ) ≤ oend := by
  induction seqs generalizing op with
  | nil =>
    cases last with
    | none => exact absurd h id
    | some literals =>
      obtain ⟨-, hle⟩ := h
      simpa [size] using hle
  | cons s seqs ih =>
    rw [size]
    obtain ⟨-, -, ⟨hend, rfl, rfl⟩ | ⟨-, htail⟩⟩ := h
    · simp only [size, Option.getD_none, List.length_nil]
      omega
    · have := ih htail
      omega

theorem Fits.valid (h : Fits oend op seqs last) (hoffset : ∀ s ∈ seqs, s.offset ≠ 0) :
    Valid op seqs := by
  induction seqs generalizing op with
  | nil => trivial
  | cons s seqs ih =>
    obtain ⟨hne, hoffset⟩ := List.forall_mem_cons.mp hoffset
    obtain ⟨-, hle, ⟨-, rfl, -⟩ | ⟨-, htail⟩⟩ := h
    · exact ⟨hne, hle, trivial⟩
    · exact ⟨hne, hle, ih htail hoffset⟩

end Fits

/-! ## The sequences of a step -/

namespace Decoder

variable {oend : ℤ} {room op n : ℕ} {tail rest ip : List UInt8} {q : Sequence}

theorem Close.stream (h : Close oend op n tail ip) (hlen : tail.length = n) :
    Stream [] (some tail) ip := by
  obtain ⟨literal, -, -, -⟩ := h
  subst hlen
  exact .last literal

theorem Close.close (h : Close oend op n tail ip) : oend - 8 < ((op + n : ℕ) : ℤ) := by
  obtain ⟨-, -, close, -⟩ := h
  exact close

theorem Matched.bytes (h : Matched room oend op q rest ip) :
    ∃ bytes, q.Bytes bytes ∧ ip = bytes ++ rest ∧
      ((op + q.literals.length : ℕ) : ℤ) ≤ oend - 8 ∧ q.offset ≤ op + q.literals.length := by
  obtain ⟨⟨literal, -, far, -⟩, copied, -, offset⟩ := h
  exact ⟨_, .intro literal copied, by simp, far, offset⟩

/-- Eight bytes behind the literals are enough for their packets. -/
theorem Matched.of_bytes {bytes : List UInt8} (h : q.Bytes bytes)
    (hroom : 6 ≤ rest.length + room)
    (hfar : ((op + q.literals.length : ℕ) : ℤ) ≤ oend - 8)
    (hoffset : q.offset ≤ op + q.literals.length) (hlit : q.literals.length < 2 ^ 31)
    (hmatch : q.matchLength < 2 ^ 31) : Matched room oend op q rest (bytes ++ rest) := by
  obtain ⟨literal, copied⟩ := h
  rename_i token lo hi literals litBytes matchBytes n
  dsimp only at hfar hoffset hlit hmatch
  have hpackets := le_packets literals.length
  have hwild : Wild room oend op token literals (lo :: hi :: (matchBytes ++ rest))
      (token :: (litBytes ++ (literals ++ lo :: hi :: (matchBytes ++ rest)))) :=
    ⟨literal, hlit, hfar, by simp only [List.length_cons, List.length_append]; omega⟩
  have hip : token :: (litBytes ++ (literals ++ lo :: hi :: matchBytes)) ++ rest =
      token :: (litBytes ++ (literals ++ lo :: hi :: (matchBytes ++ rest))) := by simp
  rw [hip]
  exact ⟨hwild, copied, by omega, hoffset⟩

end Decoder

section Run

variable {beyond : List UInt8} {oend : ℤ} {m : Memory}

/-- A block that is accepted has sequences that fit, and its bytes are in the destination. -/
theorem fits_of_run (s : Decoder) (h : (decodeLoop beyond oend).run s = .ok ⟨true, [], m⟩) :
    ∃ seqs last, Stream seqs last s.ip ∧ Fits oend s.op seqs last ∧
      ((∀ q ∈ seqs, q.offset ≠ 0) →
        m.first (s.op + size seqs last) = produce (s.dest.first s.op) seqs last) := by
  revert h
  apply (decodeLoop beyond oend).induct (motive := fun s r => r = .ok ⟨true, [], m⟩ →
    ∃ seqs last, Stream seqs last s.ip ∧ Fits oend s.op seqs last ∧
      ((∀ q ∈ seqs, q.offset ≠ 0) →
        m.first (s.op + size seqs last) = produce (s.dest.first s.op) seqs last))
  · intro s r hstop hr
    rw [hr] at hstop
    obtain ⟨literals, hclose, hle, hfirst⟩ | ⟨q, hmatched, hend, happly⟩ :=
      Decoder.step_accept hstop
    · refine ⟨[], some literals, hclose.stream rfl, ⟨hclose.close, hle⟩, ?_⟩
      intro _
      simpa [size, produce] using hfirst
    · obtain ⟨bytes, hbytes, hip, hfar, hoffset⟩ := hmatched.bytes
      refine ⟨[q], none, hip ▸ .next hbytes .done, ⟨hfar, hoffset, .inl ⟨hend, rfl, rfl⟩⟩, ?_⟩
      intro hne
      have hpos : 0 < q.offset := Nat.pos_of_ne_zero (hne q (List.mem_singleton_self q))
      simpa [size, produce, Nat.add_assoc] using happly hpos
  · intro s s' hnext ih hr
    obtain ⟨q, rest, dest, hmatched, hlt, rfl, happly⟩ := Decoder.step_next hnext
    obtain ⟨bytes, hbytes, hip, hfar, hoffset⟩ := hmatched.bytes
    obtain ⟨seqs, last, hstream, hfits, hfirst⟩ := ih hr
    refine ⟨q :: seqs, last, hip ▸ .next hbytes hstream, ⟨hfar, hoffset, .inr ⟨hlt, hfits⟩⟩, ?_⟩
    intro hne
    obtain ⟨hq, hseqs⟩ := List.forall_mem_cons.mp hne
    have hfirst := hfirst hseqs
    dsimp only at hfirst
    rw [happly (Nat.pos_of_ne_zero hq)] at hfirst
    rw [size, ← Nat.add_assoc, ← Nat.add_assoc, hfirst]
    rfl

/-- A block whose sequences fit is accepted. Five last literals, or six bytes behind the block,
make room for the packets. -/
theorem run_of_fits {op : ℕ} {ip : List UInt8} {seqs : List Sequence}
    {last : Option (List UInt8)} (hoend : oend < 2 ^ 31)
    (hroom : 6 ≤ last.elim 0 (fun literals => literals.length + 1) + beyond.length)
    (hstream : Stream seqs last ip) (hfits : Fits oend op seqs last) (dest : Memory) :
    ∃ m, (decodeLoop beyond oend).run ⟨ip, op, dest⟩ = .ok ⟨true, [], m⟩ := by
  induction hstream generalizing op dest with
  | done => exact absurd hfits id
  | @last token literals litBytes literal =>
    obtain ⟨hclose, hle⟩ := hfits
    have hclose :
        Decoder.Close oend op literals.length literals (token :: (litBytes ++ literals)) :=
      ⟨literal, by omega, hclose, fun _ => le_rfl⟩
    have hstep := Decoder.step_close beyond
      (s := ⟨token :: (litBytes ++ literals), op, dest⟩) hclose
    rw [if_neg (by dsimp only; omega), List.drop_length] at hstep
    exact ⟨_, (decodeLoop beyond oend).run_of_stop hstep⟩
  | @next q bytes rest seqs last head tail ih =>
    have hsize := hfits.size_le
    rw [size] at hsize
    obtain ⟨hfar, hoffset, hrest⟩ := hfits
    have hlast := tail.last_le
    have hmatched : Decoder.Matched beyond.length oend op q rest (bytes ++ rest) :=
      .of_bytes head (by omega) hfar hoffset (by omega) (by omega)
    obtain ⟨dest₁, dest₂, -, hstep⟩ :=
      Decoder.step_matched beyond (s := ⟨bytes ++ rest, op, dest⟩) hmatched
    dsimp only at hstep
    rw [if_neg (by omega)] at hstep
    obtain ⟨hend, rfl, rfl⟩ | ⟨hlt, htail⟩ := hrest
    · rw [if_pos hend] at hstep
      generalize hnil : ([] : List Sequence) = seqs at tail
      cases tail with
      | done => exact ⟨_, (decodeLoop beyond oend).run_of_stop hstep⟩
      | next => cases hnil
    · rw [if_neg (by omega)] at hstep
      rw [(decodeLoop beyond oend).run_of_next hstep]
      exact ih hroom htail dest₂

/-- What the buffer holds, and the bytes behind the block, do not decide whether it is accepted. -/
theorem run_agree {beyond' : List UInt8} (hbeyond : beyond.length = beyond'.length) (s : Decoder)
    (h : (decodeLoop beyond oend).run s = .ok ⟨true, [], m⟩) (dest : Memory) :
    ∃ m', (decodeLoop beyond' oend).run { s with dest := dest } = .ok ⟨true, [], m'⟩ := by
  revert h dest
  apply (decodeLoop beyond oend).induct (motive := fun s r => r = .ok ⟨true, [], m⟩ → ∀ dest,
    ∃ m', (decodeLoop beyond' oend).run { s with dest := dest } = .ok ⟨true, [], m'⟩)
  · intro s r hstop hr dest
    rw [hr] at hstop
    obtain ⟨literals, hclose, hle, -⟩ | ⟨q, hmatched, hend, -⟩ := Decoder.step_accept hstop
    · have hstep := Decoder.step_close beyond' (s := { s with dest := dest }) hclose
      rw [if_neg (by dsimp only; omega), List.drop_length] at hstep
      exact ⟨_, (decodeLoop beyond' oend).run_of_stop hstep⟩
    · obtain ⟨dest₁, dest₂, -, hstep⟩ := Decoder.step_matched beyond'
        (s := { s with dest := dest }) (hbeyond ▸ hmatched)
      rw [if_neg (by dsimp only; omega), if_pos hend] at hstep
      exact ⟨_, (decodeLoop beyond' oend).run_of_stop hstep⟩
  · intro s s' hnext ih hr dest
    obtain ⟨q, rest, dest', hmatched, hlt, rfl, -⟩ := Decoder.step_next hnext
    obtain ⟨dest₁, dest₂, -, hstep⟩ := Decoder.step_matched beyond'
      (s := { s with dest := dest }) (hbeyond ▸ hmatched)
    rw [if_neg (by dsimp only; omega), if_neg (by dsimp only; omega)] at hstep
    rw [(decodeLoop beyond' oend).run_of_next hstep]
    exact ih hr dest₂

theorem length_lt_of_run (s : Decoder) {decoded : Decoded}
    (h : (decodeLoop beyond oend).run s = .ok decoded) : decoded.ip.length < s.ip.length := by
  revert h
  apply (decodeLoop beyond oend).induct
    (motive := fun s r => r = .ok decoded → decoded.ip.length < s.ip.length)
  · intro s r hstop hr
    rw [hr] at hstop
    exact Decoder.step_stop_lt hstop
  · intro s s' hnext ih hr
    exact (ih hr).trans (Decoder.step_decreases s s' hnext)

end Run

/-! ## The two decoders of a data block -/

namespace DataBlock

section Accepts

variable {beyond buf : List UInt8} {dblk : DataBlock} {m : Memory}

/-- `get_lz4_compressed_data` takes the block as decoded, and `m` is the destination. -/
def Accepts (beyond : List UInt8) (dblk : DataBlock) (buf : List UInt8) (m : Memory) : Prop :=
  ∃ result, decoding beyond dblk buf = .ok (result, m) ∧ 0 ≤ result ∧
    dblk.data.length = toSize result

theorem accepts_iff : Accepts beyond dblk buf m ↔ dblk.data.length < 2 ^ 31 ∧
    (decodeLoop beyond (toInt32 (toSize dblk.size))).run ⟨dblk.data, 0, .ofList buf⟩ =
      .ok ⟨true, [], m⟩ := by
  unfold Accepts decoding lz4Uncompress
  cases hrun : (decodeLoop beyond (toInt32 (toSize dblk.size))).run
    ⟨dblk.data, 0, .ofList buf⟩ with
  | error trap =>
    constructor
    · rintro ⟨result, h, -⟩
      cases h
    · rintro ⟨-, h⟩
      cases h
  | ok decoded =>
    have hlt := length_lt_of_run _ hrun
    obtain ⟨ok, ip, dest⟩ := decoded
    dsimp only at hlt
    constructor
    · rintro ⟨result, h, hpos, hlen⟩
      obtain ⟨hresult, rfl⟩ := Prod.mk.inj (Except.ok.inj h)
      obtain ⟨n, rfl⟩ := Int.eq_ofNat_of_zero_le hpos
      have hmax : n < 2 ^ 31 := by
        have h₁ := toInt32_lt ((dblk.data.length : ℤ) - ip.length)
        have h₂ := toInt32_lt (-((dblk.data.length : ℤ) - ip.length))
        dsimp only at hresult
        split_ifs at hresult <;> omega
      rw [toSize_natCast_of_lt_int hmax] at hlen
      cases ok with
      | false =>
        -- an error is a negative result
        have h₁ := toInt32_of_mem (n := -((dblk.data.length : ℤ) - ip.length)) (by omega) (by omega)
        simp only [Bool.false_eq_true, if_false, h₁] at hresult
        omega
      | true =>
        have h₁ := toInt32_of_mem (n := (dblk.data.length : ℤ) - ip.length) (by omega) (by omega)
        simp only [if_true, h₁] at hresult
        obtain rfl := List.length_eq_zero_iff.mp (show ip.length = 0 by omega)
        exact ⟨by omega, rfl⟩
    · rintro ⟨hmax, h⟩
      obtain ⟨rfl, rfl, rfl⟩ := Decoded.mk.inj (Except.ok.inj h)
      have hall : (dblk.data.length : ℤ) - ([] : List UInt8).length = dblk.data.length := by simp
      refine ⟨dblk.data.length, ?_, by omega, ?_⟩
      · simp only [bind, Except.bind, hall, toInt32_natCast hmax]
        rfl
      · rw [toSize_natCast_of_lt_int hmax]

/-- An accepted block has sequences that fit. -/
theorem Accepts.sound (h : Accepts beyond dblk buf m) : ∃ seqs last,
    Stream seqs last dblk.data ∧ Fits (toInt32 (toSize dblk.size)) 0 seqs last ∧
      ((∀ q ∈ seqs, q.offset ≠ 0) →
        m.first (Lz4Block.size seqs last) = produce [] seqs last) := by
  obtain ⟨-, hrun⟩ := accepts_iff.mp h
  obtain ⟨seqs, last, hstream, hfits, hfirst⟩ := fits_of_run _ hrun
  dsimp only at hstream hfits hfirst
  rw [Nat.zero_add] at hfirst
  exact ⟨seqs, last, hstream, hfits, hfirst⟩

theorem Accepts.size_nonneg (h : Accepts beyond dblk buf m) :
    0 ≤ toInt32 (toSize dblk.size) := by
  obtain ⟨seqs, last, -, hfits, -⟩ := h.sound
  have := hfits.size_le
  omega

theorem Accepts.agree {beyond' : List UInt8} (h : Accepts beyond dblk buf m)
    (hbeyond : beyond.length = beyond'.length) (buf' : List UInt8) :
    ∃ m', Accepts beyond' dblk buf' m' := by
  obtain ⟨hmax, hrun⟩ := accepts_iff.mp h
  obtain ⟨m', hrun'⟩ := run_agree hbeyond _ hrun (.ofList buf')
  exact ⟨m', accepts_iff.mpr ⟨hmax, hrun'⟩⟩

/-- What `get_lz4_compressed_data` does with its destination. -/
theorem decoder_lz4_eq {lz4 : Lz4} (hlz4 : dblk.compression = .lz4) (data : Option (List UInt8))
    (doAlloc : Bool) : decoder lz4 dblk data doAlloc = (do
      let some buf ← destination data (toSize dblk.size) doAlloc | return (-1, none)
      let r := lz4.uncompress dblk.data buf (toInt32 (toSize dblk.size))
      return (if r.1 ≥ 0 ∧ dblk.data.length = toSize r.1 then toInt32 (toSize dblk.size) else -1,
        some r.2)) := by
  unfold decoder
  rw [hlz4]
  rfl

/-- The return code and the destination of `get_lz4_compressed_data`. -/
theorem uncompress_cases (beyond buf : List UInt8) (dblk : DataBlock) {r : ℤ × List UInt8} {rc : ℤ}
    (hr : r = (lz4Library beyond).uncompress dblk.data buf (toInt32 (toSize dblk.size)))
    (hrc : rc =
      if r.1 ≥ 0 ∧ dblk.data.length = toSize r.1 then toInt32 (toSize dblk.size) else -1) :
    (rc = toInt32 (toSize dblk.size) ∧ -1 < rc ∧
      ∃ m, Accepts beyond dblk buf m ∧ r.2 = m.first buf.length) ∨
    (rc = -1 ∧ ∀ m, ¬ Accepts beyond dblk buf m) := by
  cases hdecoding : decoding beyond dblk buf with
  | error trap =>
    rw [uncompress_of_error hdecoding] at hr
    subst hr
    rw [if_neg (by omega)] at hrc
    refine .inr ⟨hrc, ?_⟩
    rintro m ⟨result, h, -⟩
    cases hdecoding.symm.trans h
  | ok found =>
    obtain ⟨result, m⟩ := found
    rw [uncompress_of_ok hdecoding] at hr
    subst hr
    split_ifs at hrc with hcomplete
    · have haccepts : Accepts beyond dblk buf m := ⟨result, hdecoding, hcomplete⟩
      have := haccepts.size_nonneg
      exact .inl ⟨hrc, by omega, m, haccepts, rfl⟩
    · refine .inr ⟨hrc, ?_⟩
      rintro m' ⟨result', h, hpos, hlen⟩
      cases hdecoding.symm.trans h
      exact hcomplete ⟨hpos, hlen⟩

/-- The runs of `DataBlock_get_data_noalloc`. -/
theorem noalloc_cases (hlz4 : dblk.compression = .lz4) {tr : List (Event MemRet)}
    {out : ℤ × List UInt8}
    (h : (getDataNoalloc (lz4Library beyond) dblk buf buf.length).Traces tr out) :
    (toSize dblk.size ≤ buf.length ∧ ∃ m, Accepts beyond dblk buf m ∧
      out = (toInt32 (toSize dblk.size), m.first buf.length)) ∨
    out.1 = -1 ∧ (toSize dblk.size ≤ buf.length → ∀ m, ¬ Accepts beyond dblk buf m) := by
  by_cases hsize : toSize dblk.size ≤ buf.length
  · obtain ⟨r, hr⟩ : ∃ r, r = (lz4Library beyond).uncompress dblk.data buf
      (toInt32 (toSize dblk.size)) := ⟨_, rfl⟩
    obtain ⟨rc, hrc⟩ : ∃ rc, rc =
        if r.1 ≥ 0 ∧ dblk.data.length = toSize r.1 then toInt32 (toSize dblk.size) else -1 :=
      ⟨_, rfl⟩
    have hdecoder : decoder (lz4Library beyond) dblk (some buf) false = .ret (rc, some r.2) := by
      rw [decoder_lz4_eq hlz4, hrc, hr]
      rfl
    obtain ⟨-, rfl⟩ := (traces_getDataNoalloc hsize hdecoder).mp h
    obtain ⟨hsize', hpos, m, haccepts, hm⟩ | ⟨hfail, hrefuse⟩ :=
      uncompress_cases beyond buf dblk hr hrc
    · refine .inl ⟨hsize, m, haccepts, ?_⟩
      rw [if_pos hpos, hsize', hm]
    · rw [hfail]
      exact .inr ⟨rfl, fun _ => hrefuse⟩
  · unfold getDataNoalloc at h
    rw [if_pos (by omega)] at h
    obtain ⟨-, rfl⟩ := h
    exact .inr ⟨rfl, fun hle => absurd hle hsize⟩

/-- The runs of `DataBlock_get_data`. -/
theorem alloc_cases (hlz4 : dblk.compression = .lz4) {tr : List (Event MemRet)}
    {out : ℤ × Option (List UInt8)} (h : (getData (lz4Library beyond) dblk).Traces tr out) :
    (∃ buf m, toSize dblk.size ≤ buf.length ∧ Accepts beyond dblk buf m ∧
      out = (toInt32 (toSize dblk.size), some (m.first buf.length))) ∨ out = (-1, none) := by
  unfold getData at h
  rw [decoder_lz4_eq hlz4] at h
  obtain ⟨ok, tr', -, h⟩ := h
  cases ok with
  | false =>
    obtain ⟨-, rfl⟩ := h
    exact .inr rfl
  | true =>
    obtain ⟨-, hout⟩ := h
    generalize hbuf : List.replicate (toSize dblk.size) (0 : UInt8) = buf at hout
    generalize hr : (lz4Library beyond).uncompress dblk.data buf (toInt32 (toSize dblk.size)) = r
      at hout
    generalize hrc : (if r.1 ≥ 0 ∧ dblk.data.length = toSize r.1 then toInt32 (toSize dblk.size)
      else -1) = rc at hout
    obtain ⟨hsize, hpos, m, haccepts, hm⟩ | ⟨hfail, -⟩ :=
      uncompress_cases beyond buf dblk hr.symm hrc.symm
    · rw [if_pos hpos, hsize, hm] at hout
      exact .inl ⟨buf, m, by rw [← hbuf, List.length_replicate], haccepts, hout⟩
    · rw [hfail] at hout
      exact .inr hout

end Accepts

/-! ## Complete blocks -/

/-- The first `n` bytes of `out` are the ones the block stands for. -/
def Produced (dblk : DataBlock) (n : ℤ) (out : List UInt8) : Prop :=
  n ≤ out.length ∧ Decodes dblk.data (out.take n.toNat)

/-- The block is decoded completely or not at all: a call that returns `n ≥ 0` has produced the
first `n` bytes from the block, and two calls differ in nothing that was in their buffers. -/
structure Complete (dblk : DataBlock) : Prop where
  noalloc : ∀ beyond buf tr n out,
    (getDataNoalloc (lz4Library beyond) dblk buf buf.length).Traces tr (n, out) → 0 ≤ n →
      Produced dblk n out
  alloc : ∀ beyond tr n out, (getData (lz4Library beyond) dblk).Traces tr (n, out) → 0 ≤ n →
    ∃ bytes, out = some bytes ∧ Produced dblk n bytes
  agree : ∀ beyond beyond' buf buf' tr tr' n n' out out', beyond.length = beyond'.length →
    buf.length = buf'.length →
    (getDataNoalloc (lz4Library beyond) dblk buf buf.length).Traces tr (n, out) →
    (getDataNoalloc (lz4Library beyond') dblk buf' buf'.length).Traces tr' (n', out') →
    n = n' ∧ (0 ≤ n → out.take n.toNat = out'.take n.toNat)

/-- If the sequences of the block fit its size, they are as long as the size, and every match
starts behind the bytes it copies. A block of `2 ^ 31` bytes or more is never accepted. -/
def Whole (dblk : DataBlock) : Prop :=
  dblk.data.length < 2 ^ 31 → ∀ seqs last, Stream seqs last dblk.data →
    Fits (toInt32 (toSize dblk.size)) 0 seqs last →
      (∀ q ∈ seqs, q.offset ≠ 0) ∧ (Lz4Block.size seqs last : ℤ) = toInt32 (toSize dblk.size)

section Complete

variable {beyond buf : List UInt8} {dblk : DataBlock} {m : Memory}

theorem take_first {m : Memory} {k n : ℕ} (h : k ≤ n) : (m.first n).take k = m.first k := by
  unfold Memory.first
  rw [← List.map_take, List.take_range, Nat.min_eq_left h]

/-- What a block that is whole puts into the buffer. -/
theorem Accepts.produced (h : Accepts beyond dblk buf m) (hwhole : dblk.Whole)
    (hsize : toSize dblk.size ≤ buf.length) :
    Produced dblk (toInt32 (toSize dblk.size)) (m.first buf.length) := by
  obtain ⟨hmax, -⟩ := accepts_iff.mp h
  obtain ⟨seqs, last, hstream, hfits, hfirst⟩ := h.sound
  obtain ⟨hoffset, hlen⟩ := hwhole hmax seqs last hstream hfits
  have hle := toInt32_natCast_le (toSize dblk.size)
  have htake : (toInt32 (toSize dblk.size)).toNat = Lz4Block.size seqs last := by omega
  refine ⟨?_, ?_⟩
  · rw [Memory.length_first]
    omega
  · rw [htake, take_first (by omega)]
    exact ⟨seqs, last, hstream, hfits.valid hoffset, hfirst hoffset⟩

theorem Whole.complete (h : dblk.Whole) (hlz4 : dblk.compression = .lz4) : dblk.Complete where
  noalloc beyond buf tr n out htraces hpos := by
    obtain ⟨hsize, m, haccepts, hout⟩ | ⟨hfail, -⟩ := noalloc_cases hlz4 htraces
    · obtain ⟨hn, hbytes⟩ := Prod.mk.inj hout
      rw [hn, hbytes]
      exact haccepts.produced h hsize
    · dsimp only at hfail
      omega
  alloc beyond tr n out htraces hpos := by
    obtain ⟨buf, m, hsize, haccepts, hout⟩ | hfail := alloc_cases hlz4 htraces
    · obtain ⟨hn, hbytes⟩ := Prod.mk.inj hout
      rw [hn]
      exact ⟨_, hbytes, haccepts.produced h hsize⟩
    · obtain ⟨rfl, -⟩ := Prod.mk.inj hfail
      omega
  agree beyond beyond' buf buf' tr tr' n n' out out' hbeyond hbuf htraces htraces' := by
    obtain ⟨hsize, m, haccepts, hout⟩ | ⟨hfail, hrefuse⟩ := noalloc_cases hlz4 htraces
    all_goals
      obtain ⟨hsize', m', haccepts', hout'⟩ | ⟨hfail', hrefuse'⟩ := noalloc_cases hlz4 htraces'
    · obtain ⟨hn, hbytes⟩ := Prod.mk.inj hout
      obtain ⟨hn', hbytes'⟩ := Prod.mk.inj hout'
      obtain ⟨-, hdecodes⟩ := haccepts.produced h hsize
      obtain ⟨-, hdecodes'⟩ := haccepts'.produced h hsize'
      rw [hn, hn', hbytes, hbytes']
      exact ⟨rfl, fun _ => hdecodes.unique hdecodes'⟩
    · obtain ⟨m', haccepts'⟩ := haccepts.agree hbeyond buf'
      exact absurd haccepts' (hrefuse' (by omega) m')
    · obtain ⟨m, haccepts⟩ := haccepts'.agree hbeyond.symm buf
      exact absurd haccepts (hrefuse (by omega) m)
    · dsimp only at hfail hfail'
      exact ⟨hfail.trans hfail'.symm, fun hpos => by omega⟩

end Complete

end DataBlock

end Rhizofs
