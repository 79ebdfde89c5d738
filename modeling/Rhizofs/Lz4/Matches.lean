import Rhizofs.Lz4.Compress

/-!
# The matches the compressor finds

The compressor compares four bytes at a candidate of its hash table, extends the match backwards
byte by byte and forwards eight bytes at a time (`LZ4_NbCommonBytes` is the number of equal bytes
in two words that differ). What it takes for a match is one (`repeats_countMatch`), and a match
goes as far as the bytes are equal (`le_countMatch`). The second matters for the hash table: it
holds the position of the search, from which the match may have been extended backwards, and the
next position is behind it.
-/

namespace Rhizofs

/-- The `n` bytes at `ref` and `ip` are equal. -/
def Repeats (source : List UInt8) (ref ip n : ℕ) : Prop :=
  ∀ i < n, source.getD (ref + i) 0 = source.getD (ip + i) 0

section Loads

variable {source : List UInt8} {ref ip n k : ℕ}

theorem load8_eq_iff : load8 source ref = load8 source ip ↔ source.getD ref 0 = source.getD ip 0 :=
  UInt8.toBitVec_inj

theorem getLsbD_load16 {j : ℕ} (p : ℕ) (h : j < 16) :
    (load16 source p).getLsbD j = (load8 source (p + j / 8)).getLsbD (j % 8) := by
  rw [load16, BitVec.getLsbD_append]
  split_ifs with hlow
  · rw [Nat.div_eq_of_lt hlow, Nat.mod_eq_of_lt hlow, Nat.add_zero]
  · rw [show j / 8 = 1 by omega, show j - 8 = j % 8 by omega]

theorem getLsbD_load32 {j : ℕ} (p : ℕ) (h : j < 32) :
    (load32 source p).getLsbD j = (load8 source (p + j / 8)).getLsbD (j % 8) := by
  rw [load32, BitVec.getLsbD_append]
  split_ifs with hlow
  · exact getLsbD_load16 p hlow
  · rw [getLsbD_load16 _ (by omega), show p + 2 + (j - 16) / 8 = p + j / 8 by omega,
      show (j - 16) % 8 = j % 8 by omega]

theorem getLsbD_load64 {j : ℕ} (p : ℕ) (h : j < 64) :
    (load64 source p).getLsbD j = (load8 source (p + j / 8)).getLsbD (j % 8) := by
  rw [load64, BitVec.getLsbD_append]
  split_ifs with hlow
  · exact getLsbD_load32 p hlow
  · rw [getLsbD_load32 _ (by omega), show p + 4 + (j - 32) / 8 = p + j / 8 by omega,
      show (j - 32) % 8 = j % 8 by omega]

/-- Words whose bits are those of their bytes are equal if the bytes are. -/
theorem word_eq_iff {w : ℕ} {load : ℕ → BitVec w} (hw : w = 8 * n)
    (hload : ∀ p j, j < w →
      (load p).getLsbD j = (load8 source (p + j / 8)).getLsbD (j % 8)) :
    load ref = load ip ↔ Repeats source ref ip n := by
  constructor
  · intro h i hi
    apply load8_eq_iff.mp
    apply BitVec.eq_of_getLsbD_eq
    intro j hj
    have hbit := congrArg (BitVec.getLsbD · (8 * i + j)) h
    rw [hload _ _ (by omega), hload _ _ (by omega), show (8 * i + j) / 8 = i by omega,
      show (8 * i + j) % 8 = j by omega] at hbit
    exact hbit
  · intro h
    apply BitVec.eq_of_getLsbD_eq
    intro j hj
    rw [hload _ _ hj, hload _ _ hj, load8_eq_iff.mpr (h (j / 8) (by omega))]

theorem load16_eq_iff : load16 source ref = load16 source ip ↔ Repeats source ref ip 2 :=
  word_eq_iff rfl fun p _ h => getLsbD_load16 p h

theorem load32_eq_iff : load32 source ref = load32 source ip ↔ Repeats source ref ip 4 :=
  word_eq_iff rfl fun p _ h => getLsbD_load32 p h

theorem load64_eq_iff : load64 source ref = load64 source ip ↔ Repeats source ref ip 8 :=
  word_eq_iff rfl fun p _ h => getLsbD_load64 p h

theorem Repeats.mono (h : Repeats source ref ip n) (hk : k ≤ n) : Repeats source ref ip k :=
  fun i hi => h i (by omega)

theorem Repeats.append (h : Repeats source ref ip n) (h' : Repeats source (ref + n) (ip + n) k) :
    Repeats source ref ip (n + k) := by
  intro i hi
  by_cases hin : i < n
  · exact h i hin
  · have heq := h' (i - n) (by omega)
    rwa [show ref + n + (i - n) = ref + i by omega, show ip + n + (i - n) = ip + i by omega] at heq

theorem Repeats.drop (h : Repeats source ref ip n) (k : ℕ) :
    Repeats source (ref + k) (ip + k) (n - k) := by
  intro i hi
  have heq := h (k + i) (by omega)
  rwa [← Nat.add_assoc, ← Nat.add_assoc] at heq

theorem repeats_one : Repeats source ref ip 1 ↔ load8 source ref = load8 source ip := by
  rw [load8_eq_iff]
  constructor
  · intro h
    exact h 0 Nat.one_pos
  · intro h i hi
    obtain rfl : i = 0 := by omega
    exact h

/-- `LZ4_NbCommonBytes` counts the bytes before the first that differs. -/
theorem nbCommonBytes_spec (h : load64 source ref ^^^ load64 source ip ≠ 0) :
    Repeats source ref ip (nbCommonBytes (load64 source ref ^^^ load64 source ip)) ∧
      ¬ Repeats source ref ip (nbCommonBytes (load64 source ref ^^^ load64 source ip) + 1) := by
  have hcount : nbCommonBytes (load64 source ref ^^^ load64 source ip) =
      (load64 source ref ^^^ load64 source ip).ctz.toNat / 8 := by
    rw [nbCommonBytes, Nat.shiftRight_eq_div_pow]
  have hlt : (load64 source ref ^^^ load64 source ip).ctz.toNat < 64 :=
    BitVec.ctz_lt_iff_ne_zero.mpr h
  have hbelow : ∀ j < (load64 source ref ^^^ load64 source ip).ctz.toNat,
      (load64 source ref ^^^ load64 source ip).getLsbD j = false :=
    fun j hj => BitVec.getLsbD_false_of_lt_ctz hj
  have htop := BitVec.getLsbD_true_ctz_of_ne_zero h
  generalize (load64 source ref ^^^ load64 source ip).ctz.toNat = first at *
  rw [hcount]
  simp only [BitVec.getLsbD_xor] at hbelow htop
  constructor
  · intro i hi
    apply load8_eq_iff.mp
    apply BitVec.eq_of_getLsbD_eq
    intro j hj
    have hbit := hbelow (8 * i + j) (by omega)
    rw [getLsbD_load64 _ (by omega), getLsbD_load64 _ (by omega),
      show (8 * i + j) / 8 = i by omega, show (8 * i + j) % 8 = j by omega] at hbit
    simpa using hbit
  · intro hrepeats
    rw [getLsbD_load64 _ hlt, getLsbD_load64 _ hlt,
      load8_eq_iff.mpr (hrepeats (first / 8) (Nat.lt_succ_self _))] at htop
    simp at htop

end Loads

/-! ## The end of a match -/

section Count

variable {source : List UInt8} {matchlimit ref ip n : ℕ}

/-- `k` more bytes are taken if they are within the limit and equal. What is then left of a match
of fewer than `2 * k` bytes are fewer than `k` bytes. -/
theorem repeats_extend {k ip' ref' : ℕ} {p : Prop} [Decidable p]
    (hp : p ↔ ip + k ≤ matchlimit ∧ Repeats source ref ip k)
    (h : (ip', ref') = if p then (ip + k, ref + k) else (ip, ref)) :
    ∃ m, ip' = ip + m ∧ ref' = ref + m ∧ Repeats source ref ip m ∧
      (ip ≤ matchlimit → ip + m ≤ matchlimit) ∧
      ∀ n, Repeats source ref ip n → ip + n ≤ matchlimit → n < 2 * k → n < m + k := by
  split_ifs at h with hif
  · obtain ⟨rfl, rfl⟩ := Prod.mk.inj h
    obtain ⟨hle, hk⟩ := hp.mp hif
    exact ⟨k, rfl, rfl, hk, fun _ => hle, fun n _ _ hlt => by omega⟩
  · obtain ⟨rfl, rfl⟩ := Prod.mk.inj h
    refine ⟨0, rfl, rfl, fun i hi => absurd hi i.not_lt_zero, id, ?_⟩
    intro n hn hle _
    by_contra hge
    exact hif (hp.mpr ⟨by omega, hn.mono (by omega)⟩)

theorem countTail_repeats (source : List UInt8) (matchlimit ref ip : ℕ) :
    Repeats source ref ip (countTail source matchlimit ip ref - ip) ∧
      (matchlimit ≤ ip + 7 → ∀ n, Repeats source ref ip n → ip + n ≤ matchlimit →
        ip + n ≤ countTail source matchlimit ip ref) := by
  unfold countTail
  obtain ⟨⟨ip₁, ref₁⟩, h₁⟩ : ∃ r : ℕ × ℕ,
      r = if ip + 3 < matchlimit ∧ load32 source ref = load32 source ip then (ip + 4, ref + 4)
        else (ip, ref) := ⟨_, rfl⟩
  rw [← h₁]
  dsimp only
  obtain ⟨⟨ip₂, ref₂⟩, h₂⟩ : ∃ r : ℕ × ℕ,
      r = if ip₁ + 1 < matchlimit ∧ load16 source ref₁ = load16 source ip₁ then
        (ip₁ + 2, ref₁ + 2) else (ip₁, ref₁) := ⟨_, rfl⟩
  rw [← h₂]
  dsimp only
  obtain ⟨⟨ip₃, ref₃⟩, h₃⟩ : ∃ r : ℕ × ℕ,
      r = if ip₂ < matchlimit ∧ load8 source ref₂ = load8 source ip₂ then
        (ip₂ + 1, ref₂ + 1) else (ip₂, ref₂) := ⟨_, rfl⟩
  have hlast : (if ip₂ < matchlimit ∧ load8 source ref₂ = load8 source ip₂ then ip₂ + 1 else ip₂) =
      ip₃ := by
    split_ifs at h₃ ⊢ <;> exact (Prod.mk.inj h₃).1.symm
  rw [hlast]
  obtain ⟨m₁, rfl, rfl, hm₁, hle₁, hmax₁⟩ := repeats_extend (by rw [load32_eq_iff]; rfl) h₁
  obtain ⟨m₂, rfl, rfl, hm₂, hle₂, hmax₂⟩ := repeats_extend (by rw [load16_eq_iff]; rfl) h₂
  obtain ⟨m₃, rfl, rfl, hm₃, -, hmax₃⟩ := repeats_extend (by rw [repeats_one]; rfl) h₃
  constructor
  · rw [show ip + m₁ + m₂ + m₃ - ip = m₁ + m₂ + m₃ by omega]
    rw [Nat.add_assoc ip, Nat.add_assoc ref] at hm₃
    exact (hm₁.append hm₂).append hm₃
  · intro hlimit n hn hle
    -- at most three bytes are left after the first test, and at most one after the second
    have hleft₁ := hmax₁ n hn hle (by omega)
    have hleft₂ := hmax₂ (n - m₁) (hn.drop m₁) (by omega) (by omega)
    have hleft₃ := hmax₃ (n - m₁ - m₂) ((hn.drop m₁).drop m₂) (by omega) (by omega)
    omega

/-- What is counted for a match is one, and the match ends at the limit or before a byte that
differs. -/
theorem countMatch_repeats (source : List UInt8) (matchlimit ref ip : ℕ) :
    Repeats source ref ip (countMatch source matchlimit ip ref - ip) ∧
      ∀ n, Repeats source ref ip n → ip + n ≤ matchlimit →
        ip + n ≤ countMatch source matchlimit ip ref := by
  fun_induction countMatch source matchlimit ip ref with
  | case1 ip ref hlt diff hdiff ih =>
    obtain ⟨hrepeats, hmax⟩ := ih
    have hle := (countMatch_spec source matchlimit (ip + 8) (ref + 8)).1
    have hword : Repeats source ref ip 8 := load64_eq_iff.mp (BitVec.xor_eq_zero_iff.mp hdiff)
    constructor
    · rw [show countMatch source matchlimit (ip + 8) (ref + 8) - ip =
        8 + (countMatch source matchlimit (ip + 8) (ref + 8) - (ip + 8)) by omega]
      exact hword.append hrepeats
    · intro n hn hlimit
      by_cases h8 : n < 8
      · omega
      · have := hmax (n - 8) (hn.drop 8) (by omega)
        omega
  | case2 ip ref hlt diff hdiff =>
    obtain ⟨hrepeats, hmax⟩ : Repeats source ref ip (nbCommonBytes diff) ∧
        ¬ Repeats source ref ip (nbCommonBytes diff + 1) := nbCommonBytes_spec hdiff
    constructor
    · rwa [Nat.add_sub_cancel_left]
    · intro n hn _
      by_contra hgt
      exact hmax (hn.mono (by omega))
  | case3 ip ref hge =>
    obtain ⟨hrepeats, hmax⟩ := countTail_repeats source matchlimit ref ip
    exact ⟨hrepeats, hmax (by omega)⟩

/-- Going back over equal bytes keeps the distance, and the match gets longer by as much. -/
theorem catchUp_repeats (anchor : ℕ) {ref ip n : ℕ} (h : Repeats source ref ip n) :
    ∃ k, (catchUp source anchor ip ref).1 + k = ip ∧ (catchUp source anchor ip ref).2 + k = ref ∧
      Repeats source (catchUp source anchor ip ref).2 (catchUp source anchor ip ref).1 (k + n) := by
  fun_induction catchUp source anchor ip ref generalizing n with
  | case1 ip ref hback ih =>
    have hone : Repeats source ref ip 1 := repeats_one.mpr hback.2.symm
    obtain ⟨k, hip, href, hrepeats⟩ := ih (hone.append h)
    exact ⟨k + 1, by omega, by omega, by rwa [Nat.add_assoc]⟩
  | case2 ip ref hstop => exact ⟨0, rfl, rfl, by rwa [Nat.zero_add]⟩
  | case3 ip ref hnone => exact ⟨0, rfl, rfl, by rwa [Nat.zero_add]⟩

end Count

/-! ## Candidates -/

/-- The hash table keeps positions as they are, and an offset fits into two bytes. -/
structure Variant.Suits (v : Variant) (mflimit : ℕ) : Prop where
  entry : ∀ p ≤ mflimit, v.entry p = p
  near : ∀ ref ip, v.near ref ip = true → ip ≤ mflimit → ip < ref + 2 ^ 16

section Candidates

variable {v : Variant} {source : List UInt8} {mflimit ip ref p h : ℕ} {table table' : ℕ → ℕ}

/-- A position that is entered into the hash table. -/
theorem update_le (hv : v.Suits mflimit) (htable : ∀ h, table h ≤ p) (hip : ip ≤ p)
    (hlimit : ip ≤ mflimit) (k : ℕ) : Function.update table h (v.entry ip) k ≤ p := by
  rw [hv.entry ip hlimit, Function.update_apply]
  split_ifs
  · exact hip
  · exact htable k

/-- A candidate is before the position, and not too far. -/
theorem findMatch_candidate {attempts forwardIp forwardH : ℕ} (hv : v.Suits mflimit)
    (hattempts : 64 ≤ attempts) (htable : ∀ h, table h < forwardIp)
    (hfind : findMatch v source mflimit attempts forwardIp forwardH table =
      some (ip, ref, table')) :
    ref < ip ∧ ip < ref + 2 ^ 16 ∧ Repeats source ref ip 4 ∧ ∀ h, table' h ≤ ip := by
  fun_induction findMatch v source mflimit attempts forwardIp forwardH table with
  | case1 => cases hfind
  | case2 attempts forwardIp forwardH table forwardH' step ip' hle ref' table'' hfound =>
    simp only [Option.some.injEq, Prod.mk.injEq] at hfind
    obtain ⟨rfl, rfl, rfl⟩ := hfind
    have hlimit : ip' ≤ mflimit := by omega
    exact ⟨htable _, hv.near _ _ hfound.1 hlimit, load32_eq_iff.mp hfound.2,
      update_le hv (fun h => (htable h).le) le_rfl hlimit⟩
  | case3 attempts forwardIp forwardH table forwardH' step ip' hle ref' table'' hfound ih =>
    have hstep : 1 ≤ step := by
      change 1 ≤ attempts >>> 6
      rw [Nat.shiftRight_eq_div_pow]
      omega
    apply ih (by omega) ?_ hfind
    intro k
    have := update_le (h := forwardH') hv (fun h => (htable h).le) le_rfl
      (show forwardIp ≤ mflimit by omega) k
    exact Nat.lt_of_le_of_lt this (Nat.lt_add_of_pos_right hstep)

end Candidates

end Rhizofs
