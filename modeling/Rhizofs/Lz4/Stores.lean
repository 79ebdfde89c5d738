import Rhizofs.Lz4.Library

/-!
# The stores of the LZ4 decoder

`LZ4_uncompress` copies in packets of eight bytes and checks where a sequence ends before it copies
it. Literals that end less than eight bytes before the end of the destination are copied exactly,
and the packets of a match stop there. So no store is behind the destination, whatever the block is
(`lz4Uncompress_stores_inside`), which `datablock.c` relies on (`lz4Library_bounded`).
-/

namespace Rhizofs

open Extern

/-- The bytes of `m` and `m'` from `oend` on are the same. -/
def Memory.SameFrom (oend : ℤ) (m m' : Memory) : Prop := ∀ i : ℕ, oend ≤ i → m' i = m i

/-! ## Copies -/

section Copies

variable {oend e : ℤ} {m m' m₁ : Memory} {ref op n cpy : ℕ} {bytes ip : List UInt8}

namespace Memory

theorem SameFrom.refl (oend : ℤ) (m : Memory) : SameFrom oend m m := fun _ _ => rfl

theorem SameFrom.trans (h : SameFrom oend m m₁) (h' : SameFrom oend m₁ m') :
    SameFrom oend m m' := fun i hi => (h' i hi).trans (h i hi)

theorem sameFrom_write (h : ((op + bytes.length : ℕ) : ℤ) ≤ oend) :
    SameFrom oend m (m.write op bytes) := fun _ _ => if_neg (by omega)

theorem sameFrom_move (h : ((op + n : ℕ) : ℤ) ≤ oend) : SameFrom oend m (m.move ref op n) :=
  fun _ _ => if_neg (by omega)

theorem SameFrom.move {m' : Memory} (hm : SameFrom oend m m')
    (h : ((op + n : ℕ) : ℤ) ≤ oend) : SameFrom oend m (m'.move ref op n) :=
  hm.trans (sameFrom_move h)

end Memory

open Memory

/-- The last packet starts at `cpy` or before. -/
theorem sameFrom_wildCopyIn (hop : op ≤ cpy) (hcpy : ((cpy + 8 : ℕ) : ℤ) ≤ oend)
    (h : wildCopyIn cpy ip op m = .ok m') : SameFrom oend m m' := by
  have htake : (ip.take 8).length ≤ 8 := List.length_take_le 8 ip
  fun_induction wildCopyIn cpy ip op m with
  | case1 => cases h
  | case2 ip op m hlong hlt ih =>
    have hpacket : SameFrom oend m (m.write op (ip.take 8)) := sameFrom_write (by omega)
    exact hpacket.trans (ih (by omega) h (List.length_take_le 8 _))
  | case3 ip op m hlong hge =>
    obtain rfl := Except.ok.inj h
    exact sameFrom_write (by omega)

theorem sameFrom_copyFirst (h : ((op + 8 : ℕ) : ℤ) ≤ oend) :
    SameFrom oend m (copyFirst ref op m).1 := by
  unfold copyFirst
  dsimp only
  split_ifs
  · have hbyte : SameFrom oend m (m.move ref op 1) := sameFrom_move (by omega)
    exact (((hbyte.move (by omega)).move (by omega)).move (by omega)).move (by omega)
  · exact sameFrom_move h

/-- The last packet starts before `e`. -/
theorem sameFrom_wildCopyBack (hop : (op : ℤ) < e) (he : e + 8 ≤ oend) :
    SameFrom oend m (wildCopyBack e ref op m).1 := by
  fun_induction wildCopyBack e ref op m with
  | case1 ref op m hlt ih =>
    have hpacket : SameFrom oend m (m.move ref op 8) := sameFrom_move (by omega)
    exact hpacket.trans (ih (by omega))
  | case2 ref op m hge => exact sameFrom_move (by omega)

theorem sameFrom_secureCopy (he : e + 8 ≤ oend) :
    SameFrom oend m (secureCopy e ref op m).1 := by
  unfold secureCopy
  split_ifs with hlt
  · exact sameFrom_wildCopyBack hlt he
  · exact .refl oend m

theorem sameFrom_byteCopy (hcpy : (cpy : ℤ) ≤ oend) : SameFrom oend m (byteCopy cpy ref op m) := by
  fun_induction byteCopy cpy ref op m with
  | case1 ref op m hlt ih =>
    have hbyte : SameFrom oend m (m.move ref op 1) := sameFrom_move (by omega)
    exact hbyte.trans ih
  | case2 ref op m hge => exact .refl oend m

end Copies

/-! ## Steps -/

namespace Decoder

variable {beyond : List UInt8} {oend : ℤ} {s s' : Decoder} {token : UInt8}

/-- The destination after the literals. Those that a match follows end eight bytes before the end
of the destination. -/
theorem takeLiterals_same {r : (UInt8 × Decoder) ⊕ Decoded}
    (h : takeLiterals beyond oend s = .ok r) :
    r.elim (fun next => Memory.SameFrom oend s.dest next.2.dest ∧ (next.2.op : ℤ) ≤ oend - 8)
      (fun decoded => Memory.SameFrom oend s.dest decoded.dest) := by
  obtain ⟨token, bytes, rest, n, hip, hlen, hmax⟩ := takeLiterals_inv h
  rw [takeLiterals_eq hip hlen hmax] at h
  by_cases hclose : ((s.op + n : ℕ) : ℤ) > oend - 8
  · rw [if_pos hclose] at h
    split_ifs at h with hend hshort
    · obtain rfl := Except.ok.inj h
      exact .refl oend s.dest
    · obtain rfl := Except.ok.inj h
      have htake : (rest.take n).length ≤ n := List.length_take_le n rest
      exact Memory.sameFrom_write (by omega)
  · rw [if_neg hclose] at h
    cases hcopy : wildCopyIn (s.op + n) (rest ++ beyond) s.op s.dest with
    | error trap =>
      rw [hcopy] at h
      cases h
    | ok dest =>
      rw [hcopy] at h
      dsimp only at h
      split_ifs at h
      obtain rfl := Except.ok.inj h
      have hsame := sameFrom_wildCopyIn (Nat.le_add_right s.op n)
        (show ((s.op + n + 8 : ℕ) : ℤ) ≤ oend by omega) hcopy
      exact ⟨hsame, by dsimp only; omega⟩

/-- The destination after a match. -/
theorem takeMatch_same {r : Decoder ⊕ Decoded} (hop : (s.op : ℤ) ≤ oend - 8)
    (h : takeMatch oend token s = .ok r) :
    r.elim (fun next => Memory.SameFrom oend s.dest next.dest)
      (fun decoded => Memory.SameFrom oend s.dest decoded.dest) := by
  have hfirst : ∀ ref, Memory.SameFrom oend s.dest (copyFirst ref s.op s.dest).1 :=
    fun ref => sameFrom_copyFirst (by omega)
  unfold takeMatch at h
  match hip : s.ip with
  | [] =>
    rw [hip] at h
    cases h
  | [lo] =>
    rw [hip] at h
    cases h
  | lo :: hi :: ip =>
    rw [hip] at h
    simp only [nextByte, bind, Except.bind] at h
    split_ifs at h with hoffset
    · obtain rfl := Except.ok.inj h
      exact .refl oend s.dest
    · cases hlen : runLength (token.toNat % 16) ip with
      | error trap =>
        rw [hlen] at h
        cases h
      | ok length =>
        rw [hlen] at h
        dsimp only at h
        split_ifs at h with hclose hend hall
        · obtain rfl := Except.ok.inj h
          exact hfirst _
        · obtain rfl := Except.ok.inj h
          exact ((hfirst _).trans (sameFrom_secureCopy (by omega))).trans
            (sameFrom_byteCopy (by omega))
        · obtain rfl := Except.ok.inj h
          exact ((hfirst _).trans (sameFrom_secureCopy (by omega))).trans
            (sameFrom_byteCopy (by omega))
        · obtain rfl := Except.ok.inj h
          exact (hfirst _).trans (sameFrom_secureCopy (by omega))

theorem step_same (h : step beyond oend s = .inl s') :
    Memory.SameFrom oend s.dest s'.dest := by
  unfold step at h
  split at h
  · cases h
  · cases h
  · next hliterals =>
    obtain ⟨hsame, hop⟩ := takeLiterals_same hliterals
    split at h
    · cases h
    · cases h
    · next hmatch =>
      obtain rfl := Sum.inl.inj h
      exact hsame.trans (takeMatch_same hop hmatch)

theorem step_stop_same {decoded : Decoded} (h : step beyond oend s = .inr (.ok decoded)) :
    Memory.SameFrom oend s.dest decoded.dest := by
  unfold step at h
  split at h
  · cases h
  · next hliterals =>
    obtain rfl := Except.ok.inj (Sum.inr.inj h)
    exact takeLiterals_same hliterals
  · next hliterals =>
    obtain ⟨hsame, hop⟩ := takeLiterals_same hliterals
    split at h
    · cases h
    · next hmatch =>
      obtain rfl := Except.ok.inj (Sum.inr.inj h)
      exact hsame.trans (takeMatch_same hop hmatch)
    · cases h

end Decoder

/-! ## Runs -/

section Runs

variable {beyond source : List UInt8} {oend : ℤ} {dest m : Memory} {result : ℤ}

theorem passes_same {s s' : Decoder} (h : (decodeLoop beyond oend).Passes s s') :
    Memory.SameFrom oend s.dest s'.dest := by
  apply h.rule (I := fun s' => Memory.SameFrom oend s.dest s'.dest)
  · intro s₁ s₂ hinv hstep
    exact hinv.trans (Decoder.step_same hstep)
  · exact .refl oend s.dest

theorem run_same {s : Decoder} {decoded : Decoded}
    (h : (decodeLoop beyond oend).run s = .ok decoded) :
    Memory.SameFrom oend s.dest decoded.dest := by
  obtain ⟨s', hpasses, hstop⟩ := (decodeLoop beyond oend).passes_last s
  rw [h] at hstop
  exact (passes_same hpasses).trans (Decoder.step_stop_same hstop)

theorem lz4Uncompress_same (h : lz4Uncompress beyond source dest oend = .ok (result, m)) :
    Memory.SameFrom oend dest m := by
  unfold lz4Uncompress at h
  cases hrun : (decodeLoop beyond oend).run ⟨source, 0, dest⟩ with
  | error trap =>
    rw [hrun] at h
    cases h
  | ok decoded =>
    rw [hrun] at h
    obtain ⟨-, rfl⟩ := Prod.mk.inj (Except.ok.inj h)
    exact run_same hrun

theorem drop_first {n k : ℕ} (h : ∀ i, k ≤ i → i < n → m i = dest i) :
    (m.first n).drop k = (dest.first n).drop k := by
  apply List.ext_getElem
  · simp
  · intro i h₁ h₂
    simp only [List.length_drop, Memory.length_first] at h₁
    simpa [Memory.first] using h (k + i) (by omega) (by omega)

theorem first_ofList (buf : List UInt8) : (Memory.ofList buf).first buf.length = buf := by
  apply List.ext_getElem
  · simp
  · intro i h₁ h₂
    simp [Memory.first, Memory.ofList, h₂]

end Runs

end Rhizofs
