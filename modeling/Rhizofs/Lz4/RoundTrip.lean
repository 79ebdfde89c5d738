import Rhizofs.Lz4.Completeness
import Rhizofs.Lz4.Matches
import Rhizofs.Lz4.Stores

/-!
# What LZ4 compresses is what it decompresses

The bytes that the compressor has stored before `op` (`Out.written`) are a list of sequences, which
produce the source as far as the compressor has got (`Encoded`), or such a list and then a token
with its literals. This is the invariant of the main loop (`Compressor.Encodes`). The bytes it ends
with are a block that stands for the source (`blockFor_compressed`), and its sequences fit the
destination of the decoder, which therefore puts the source there (`lz4Uncompress_compressed`).
-/

namespace Rhizofs

open Extern Lz4Block

/-! ## The bytes before `op` -/

namespace Out

/-- The bytes before `op`. -/
def written (out : Out) : List UInt8 := (List.range out.op).map out.load

section Written

variable {out : Out} {source : List UInt8} {b : UInt8} {i j len : ℕ}

@[simp] theorem length_written : out.written.length = out.op := by simp [written]

theorem getElem?_written (h : i < out.op) : out.written[i]? = some (out.load i) := by
  simp [written, h]

theorem load_eq_of_written {before after : List UInt8} (h : out.written = before ++ b :: after) :
    out.load before.length = b := by
  have hlen := congrArg List.length h
  rw [length_written, List.length_append, List.length_cons] at hlen
  have hload : out.written[before.length]? = some (out.load before.length) :=
    getElem?_written (by omega)
  rw [h] at hload
  simpa using hload.symm

theorem load_store : (out.store i b).load j = if j = i then b else out.load j := by
  unfold store load
  by_cases h : i = j
  · subst h
    simp
  · rw [if_neg (Ne.symm h), List.find?_cons_of_neg (by simpa using h)]

theorem written_store : (out.store i b).written = out.written.set i b := by
  apply List.ext_getElem
  · simp
  · intro j h₁ h₂
    simp only [written, List.getElem_map, List.getElem_range, List.getElem_set, load_store]
    split_ifs with h₃ h₄ h₄
    · rfl
    · exact absurd h₃.symm h₄
    · exact absurd h₄.symm h₃
    · rfl

@[simp] theorem written_put : (out.put b).written = out.written ++ [b] := by
  have hput : out.put b = ({ out with op := out.op + 1 } : Out).store out.op b := rfl
  have hlast :
      ({ out with op := out.op + 1 } : Out).written = out.written ++ [out.load out.op] := by
    unfold written
    rw [List.range_succ, List.map_append]
    rfl
  rw [hput, written_store, hlast, List.set_append_right _ _ (by simp)]
  simp

@[simp] theorem written_put16 (v : ℕ) :
    (out.put16 v).written = out.written ++ [UInt8.ofNat v, UInt8.ofNat (v / 256)] := by
  unfold put16
  simp

@[simp] theorem written_putBytes (bytes : List UInt8) :
    (out.putBytes bytes).written = out.written ++ bytes := by
  induction bytes generalizing out with
  | nil => simp [putBytes]
  | cons b bytes ih =>
    show ((out.put b).putBytes bytes).written = _
    rw [ih, written_put, List.append_assoc]
    rfl

theorem written_op {n : ℕ} (h : n ≤ out.op) :
    ({ out with op := n } : Out).written = out.written.take n := by
  unfold written
  rw [← List.map_take, List.take_range, Nat.min_eq_left h]
  rfl

end Written

end Out

/-! ## The parts of a sequence -/

section Parts

variable {out : Out} {source : List UInt8} {len : ℕ}

/-- The packets store the bytes of the source from `s` on, as far as `e` or further. -/
theorem written_wildCopy (source : List UInt8) (e s : ℕ) (out : Out) : ∃ n,
    (wildCopy source e s out).op = out.op + n ∧ e ≤ out.op + n ∧
    (wildCopy source e s out).written =
      out.written ++ (List.range n).map fun i => source.getD (s + i) 0 := by
  fun_induction wildCopy source e s out with
  | case1 s out hlt ih =>
    obtain ⟨n, hop, he, hwritten⟩ := ih
    rw [op_copyStep] at hop he
    refine ⟨8 + n, by omega, by omega, ?_⟩
    rw [hwritten, Out.copyStep, Out.written_putBytes, List.append_assoc, List.range_add,
      List.map_append, List.map_map]
    congr 3
    funext i
    rw [Function.comp_apply, Nat.add_assoc]
  | case2 s out hge => exact ⟨8, rfl, by omega, Out.written_putBytes _⟩

theorem take_drop_eq_map {s n : ℕ} (h : s + n ≤ source.length) :
    (source.drop s).take n = (List.range n).map fun i => source.getD (s + i) 0 := by
  apply List.ext_getElem
  · simp
    omega
  · intro i h₁ h₂
    simp only [List.length_map, List.length_range] at h₂
    simp [show s + i < source.length by omega]

/-- The bytes that the last packet stores behind the literals do not count. -/
theorem written_blindCopy {anchor : ℕ} (h : anchor + len ≤ source.length) :
    (blindCopy source anchor len out).written = out.written ++ (source.drop anchor).take len := by
  obtain ⟨n, hop, he, hwritten⟩ := written_wildCopy source (out.op + len) anchor out
  have hle : len ≤ n := by omega
  unfold blindCopy
  rw [Out.written_op (by omega), hwritten, ← Out.length_written, List.take_length_add_append,
    ← List.map_take, List.take_range, Nat.min_eq_left hle, take_drop_eq_map h]

theorem written_putLength :
    (putLength len out).written =
      out.written ++ (List.replicate (len / 255) 255 ++ [UInt8.ofNat (len % 255)]) := by
  fun_induction putLength len out with
  | case1 len out hlt ih =>
    rw [ih, Out.written_put, List.append_assoc, show len / 255 = (len - 255) / 255 + 1 by omega,
      show (len - 255) % 255 = len % 255 by omega, List.replicate_succ]
    rfl
  | case2 len out hle =>
    rcases Nat.lt_or_ge len 255 with h | h
    · rw [Out.written_put, Nat.div_eq_of_lt h, Nat.mod_eq_of_lt h]
      rfl
    · omega

/-- Two bytes at a time are the same bytes. -/
theorem putMatchLength_eq : putMatchLength len out = putLength len out := by
  fun_induction putMatchLength len out with
  | case1 len out hlt ih =>
    rw [ih, putLength.eq_def len out, if_pos (by omega), putLength.eq_def (len - 255),
      if_pos (by omega), Nat.sub_sub]
  | case2 len out hle hlt =>
    rw [putLength.eq_def len out, if_pos hlt, putLength.eq_def (len - 255), if_neg (by omega)]
  | case3 len out hle hle' => rw [putLength.eq_def, if_neg hle']

/-- A token that has the length of the literals only, and the literals. -/
theorem written_putLiterals {anchor : ℕ} (h : anchor + len ≤ source.length) :
    (putLiterals source anchor len out).written =
      out.written ++ UInt8.ofNat (16 * min len 15) ::
        (lengthEncoding len ++ (source.drop anchor).take len) := by
  unfold putLiterals lengthEncoding
  dsimp only
  split_ifs with h15
  · have htoken : ({ out with op := out.op + 1 } : Out).store out.op 0xF0 = out.put 0xF0 := rfl
    rw [htoken, written_blindCopy h, written_putLength, Out.written_put, Nat.min_eq_right h15]
    simp
  · have htoken : ({ out with op := out.op + 1 } : Out).store out.op (UInt8.ofNat (len <<< 4)) =
        out.put (UInt8.ofNat (len <<< 4)) := rfl
    have hshift : len <<< 4 = 16 * min len 15 := by
      rw [Nat.shiftLeft_eq]
      omega
    rw [htoken, written_blindCopy h, Out.written_put, hshift]
    simp

/-- The length of a match is added to the token. -/
theorem written_putMatch (token : ℕ) :
    (putMatch token len out).written =
      out.written.set token (out.load token + UInt8.ofNat (min len 15)) ++ lengthEncoding len := by
  unfold putMatch lengthEncoding
  split_ifs with h15
  · rw [putMatchLength_eq, written_putLength, Out.written_store, Nat.min_eq_right h15]
    rfl
  · rw [Out.written_store, Nat.min_eq_left (by omega), List.append_nil]

end Parts

/-! ## The main loop -/

/-- `bytes` are sequences that produce the source as far as `anchor`. In front of sequences that
fit the destination of the decoder they fit it too. -/
def Encoded (source : List UInt8) (anchor : ℕ) (bytes : List UInt8) : Prop :=
  ∃ seqs, Stream seqs none bytes ∧ (∀ q ∈ seqs, q.offset ≠ 0) ∧
    produce [] seqs none = source.take anchor ∧
    ∀ seqs' last, Fits source.length anchor seqs' last → Fits source.length 0 (seqs ++ seqs') last

section Encoded

variable {source bytes : List UInt8} {anchor ip ref n : ℕ}

theorem encoded_start (source : List UInt8) : Encoded source 0 [] :=
  ⟨[], .done, by simp, rfl, fun _ _ h => h⟩

/-- A sequence for bytes that repeat. -/
theorem Encoded.next (h : Encoded source anchor bytes) (hanchor : anchor ≤ ip) (href : ref < ip)
    (hnear : ip < ref + 2 ^ 16) (hip : ip + 12 ≤ source.length)
    (hlimit : ip + (n + 4) + 5 ≤ source.length)
    (hrepeats : Repeats source ref ip (n + 4)) :
    Encoded source (ip + (n + 4)) (bytes ++ token (ip - anchor) n ::
      (lengthEncoding (ip - anchor) ++ ((source.drop anchor).take (ip - anchor) ++
        UInt8.ofNat (ip - ref) :: UInt8.ofNat ((ip - ref) / 256) :: lengthEncoding n))) := by
  obtain ⟨seqs, hstream, hoffset, hproduce, hfits⟩ := h
  generalize hliterals : (source.drop anchor).take (ip - anchor) = literals
  have hlen : literals.length = ip - anchor := by
    rw [← hliterals, List.length_take, List.length_drop]
    omega
  have htake : source.take anchor ++ literals = source.take ip := by
    rw [← hliterals, ← List.take_add, Nat.add_sub_cancel' hanchor]
  rw [← hlen]
  refine ⟨seqs ++ [⟨literals, ip - ref, n + 4⟩],
    hstream.snoc (bytes_sequence literals (by omega) n), ?_, ?_, ?_⟩
  · intro q hq
    rcases List.mem_append.mp hq with hq | hq
    · exact hoffset q hq
    · rw [List.mem_singleton.mp hq]
      exact Nat.sub_ne_zero_of_lt href
  · rw [produce_append, hproduce]
    show copyBack (source.take anchor ++ literals) (ip - ref) (n + 4) ++ [] = _
    rw [htake, List.append_nil]
    apply copyBack_take (by omega) (by omega) (by omega)
    intro i hi
    rw [Nat.sub_sub_self href.le]
    exact hrepeats i hi
  · intro seqs' last hrest
    rw [List.append_assoc]
    apply hfits
    have hend : anchor + literals.length = ip := by omega
    refine ⟨?_, ?_, .inr ⟨?_, ?_⟩⟩
    all_goals
      dsimp only
      rw [hend]
    · omega
    · omega
    · omega
    · exact hrest

end Encoded

/-- What has been stored at each place of the main loop. At `_next_match` the match reaches at least
four bytes behind `top`, the last position in the hash table. -/
def Compressor.Encodes (source : List UInt8) : Compressor → Prop
  | .search anchor ip _ _ hashTable out =>
    anchor + 5 ≤ source.length ∧ Encoded source anchor out.written ∧ ∀ h, hashTable h < ip
  | .nextMatch token ip ref hashTable out => ∃ anchor bytes top, anchor ≤ ip ∧ ip ≤ top ∧
    top + 12 ≤ source.length ∧ ref < ip ∧ ip < ref + 2 ^ 16 ∧
    Repeats source ref ip (top + 4 - ip) ∧ (∀ h, hashTable h ≤ top) ∧
    Encoded source anchor bytes ∧ token = bytes.length ∧
    out.written = bytes ++ UInt8.ofNat (16 * min (ip - anchor) 15) ::
      (lengthEncoding (ip - anchor) ++ (source.drop anchor).take (ip - anchor))

section Encodes

variable {v : Variant} {source : List UInt8} {s s' : Compressor} {r : ℕ × Out}

/-- The rest of a sequence behind its literals. -/
theorem encoded_putMatch {bytes : List UInt8} {anchor ip ref n : ℕ} {out : Out}
    (h : Encoded source anchor bytes) (hanchor : anchor ≤ ip) (href : ref < ip)
    (hnear : ip < ref + 2 ^ 16) (hip : ip + 12 ≤ source.length)
    (hlimit : ip + (n + 4) + 5 ≤ source.length) (hrepeats : Repeats source ref ip (n + 4))
    (hwritten : out.written = bytes ++ UInt8.ofNat (16 * min (ip - anchor) 15) ::
      (lengthEncoding (ip - anchor) ++ (source.drop anchor).take (ip - anchor))) :
    Encoded source (ip + (n + 4)) (putMatch bytes.length n (out.put16 (ip - ref))).written := by
  have hput : (out.put16 (ip - ref)).written =
      bytes ++ UInt8.ofNat (16 * min (ip - anchor) 15) ::
        (lengthEncoding (ip - anchor) ++ ((source.drop anchor).take (ip - anchor) ++
          [UInt8.ofNat (ip - ref), UInt8.ofNat ((ip - ref) / 256)])) := by
    rw [Out.written_put16, hwritten]
    simp
  rw [written_putMatch, Out.load_eq_of_written hput, hput, List.set_append_right _ _ le_rfl,
    Nat.sub_self]
  simpa [token] using h.next hanchor href hnear hip hlimit hrepeats

/-- The end of a match is behind the last position in the hash table, and what has been stored
produces the source as far as there. -/
theorem encoded_countMatch {bytes : List UInt8} {anchor ip ref top : ℕ} {out : Out}
    (h : Encoded source anchor bytes) (hanchor : anchor ≤ ip) (htop : ip ≤ top)
    (hlimit : top + 12 ≤ source.length) (href : ref < ip) (hnear : ip < ref + 2 ^ 16)
    (hrepeats : Repeats source ref ip (top + 4 - ip))
    (hwritten : out.written = bytes ++ UInt8.ofNat (16 * min (ip - anchor) 15) ::
      (lengthEncoding (ip - anchor) ++ (source.drop anchor).take (ip - anchor))) :
    ∃ ip', countMatch source (source.length - 5) (ip + 4) (ref + 4) = ip' ∧ top + 4 ≤ ip' ∧
      ip' + 5 ≤ source.length ∧ Encoded source ip'
        (putMatch bytes.length (ip' - (ip + 4)) (out.put16 (ip - ref))).written := by
  obtain ⟨hcounted, hmax⟩ := countMatch_repeats source (source.length - 5) (ref + 4) (ip + 4)
  obtain ⟨hle, hend⟩ := countMatch_spec source (source.length - 5) (ip + 4) (ref + 4)
  have hreach := hmax (top + 4 - ip - 4) (hrepeats.drop 4) (by omega)
  have hend' := hend (by omega)
  refine ⟨_, rfl, by omega, by omega, ?_⟩
  obtain ⟨n, hn⟩ := Nat.exists_eq_add_of_le hle
  rw [hn, Nat.add_sub_cancel_left] at hcounted
  rw [hn] at hend' ⊢
  rw [Nat.add_sub_cancel_left, Nat.add_assoc ip 4 n, Nat.add_comm 4 n]
  have hall : Repeats source ref ip (n + 4) := by
    rw [Nat.add_comm]
    exact (hrepeats.mono (by omega)).append hcounted
  exact encoded_putMatch h hanchor href hnear (by omega) (by omega) hall hwritten

theorem Compressor.Encodes.step (hv : v.Suits (source.length - 12)) (h : s.Encodes source)
    (hs : Compressor.step v source source.length s = .inl s') : s'.Encodes source := by
  cases s with
  | search anchor ip behind forwardH hashTable out =>
    obtain ⟨hanchor, hencoded, htable⟩ := h
    unfold Compressor.step at hs
    dsimp only at hs
    cases hfind : findMatch v source (source.length - 12) 67 ip forwardH hashTable with
    | none =>
      rw [hfind] at hs
      cases hs
    | some found =>
      obtain ⟨ip₁, ref₁, table₁⟩ := found
      rw [hfind] at hs
      obtain rfl := Sum.inl.inj hs
      obtain ⟨hle, hlt⟩ := findMatch_spec (by omega) hfind
      obtain ⟨href, hnear, hfour, htable₁⟩ := findMatch_candidate hv (by omega) htable hfind
      obtain ⟨k, hip, hback, hrepeats⟩ := catchUp_repeats anchor hfour
      have hle₁ := le_catchUp source ref₁ (show anchor ≤ ip₁ by omega)
      generalize catchUp source anchor ip₁ ref₁ = found at *
      obtain ⟨ip₂, ref₂⟩ := found
      dsimp only at *
      refine ⟨anchor, out.written, ip₁, hle₁, by omega, by omega, by omega, by omega, ?_, htable₁,
        hencoded, Out.length_written.symm, written_putLiterals (by omega)⟩
      rwa [show ip₁ + 4 - ip₂ = k + 4 by omega]
  | nextMatch token ip ref hashTable out =>
    obtain ⟨anchor, bytes, top, hanchor, htop, hlimit, href, hnear, hrepeats, htable, hencoded,
      rfl, hwritten⟩ := h
    obtain ⟨ip', hcount, hreach, hend, hencoded'⟩ :=
      encoded_countMatch hencoded hanchor htop hlimit href hnear hrepeats hwritten
    unfold Compressor.step at hs
    simp only [hcount] at hs
    split_ifs at hs with hstop hfound
    -- both entries are positions before the end of the match
    all_goals
      have htable₁ := update_le (h := hashValue v source (ip' - 2)) hv
        (fun h => (htable h).trans (show top ≤ ip' - 1 by omega))
        (show ip' - 2 ≤ ip' - 1 by omega) (by omega)
      have htable₂ := update_le (h := hashValue v source ip') hv
        (fun h => (htable₁ h).trans (Nat.sub_le ip' 1)) le_rfl (by omega)
      obtain rfl := Sum.inl.inj hs
    · refine ⟨ip', _, ip', le_rfl, le_rfl, by omega, ?_, hv.near _ _ hfound.1 (by omega), ?_,
        htable₂, hencoded', Out.length_written.symm, ?_⟩
      · have := htable₁ (hashValue v source ip')
        omega
      · rw [Nat.add_sub_cancel_left]
        exact load32_eq_iff.mp hfound.2
      · rw [Out.written_put, Nat.sub_self]
        rfl
    · exact ⟨hend, hencoded', fun h => Nat.lt_succ_of_le (htable₂ h)⟩

/-- The last literals are at least five bytes. -/
theorem Compressor.Encodes.stop (h : s.Encodes source)
    (hs : Compressor.step v source source.length s = .inr r) :
    r.1 + 5 ≤ source.length ∧ Encoded source r.1 r.2.written := by
  cases s with
  | search anchor ip behind forwardH hashTable out =>
    obtain ⟨hanchor, hencoded, -⟩ := h
    rcases Compressor.step_search anchor ip behind forwardH hashTable out with
      hstop | ⟨ip', ref, hashTable', -, -, hnext⟩
    · obtain rfl := Sum.inr.inj (hs.symm.trans hstop)
      exact ⟨hanchor, hencoded⟩
    · cases hs.symm.trans hnext
  | nextMatch token ip ref hashTable out =>
    obtain ⟨anchor, bytes, top, hanchor, htop, hlimit, href, hnear, hrepeats, -, hencoded,
      rfl, hwritten⟩ := h
    obtain ⟨ip', hcount, hreach, hend, hencoded'⟩ :=
      encoded_countMatch hencoded hanchor htop hlimit href hnear hrepeats hwritten
    unfold Compressor.step at hs
    simp only [hcount] at hs
    split_ifs at hs
    obtain rfl := Sum.inr.inj hs
    exact ⟨hend, hencoded'⟩

end Encodes

/-! ## The block -/

section Block

variable {v : Variant} {source : List UInt8} {anchor : ℕ} {out : Out}

/-- The last literals, unless the compressor gives up. -/
theorem written_lastLiterals (hanchor : anchor ≤ source.length) (hmax : source.length < 2 ^ 31)
    (hne : (lastLiterals source source.length anchor out).1 ≠ 0) :
    (lastLiterals source source.length anchor out).1 =
        (lastLiterals source source.length anchor out).2.op ∧
      100 ≤ source.length ∧
      (lastLiterals source source.length anchor out).2.written =
        out.written ++ token (source.length - anchor) 0 ::
          (lengthEncoding (source.length - anchor) ++ source.drop anchor) := by
  obtain ⟨lastRun, hrun⟩ : ∃ k, k = source.length - anchor := ⟨_, rfl⟩
  have hcast : (source.length : ℤ) - anchor = lastRun := by omega
  have hliterals : (source.drop anchor).take lastRun = source.drop anchor := by
    rw [hrun, ← List.length_drop, List.take_length]
  rw [← hrun]
  revert hne
  unfold lastLiterals
  simp only [hcast, natCast_sub_tdiv, Int.toNat_natCast, hliterals]
  split_ifs with hgiveUp h15
  · intro hne
    exact absurd rfl hne
  · intro _
    have hop : ((putLength (lastRun - 15) (out.put 0xF0)).putBytes (source.drop anchor)).op =
        out.op + 1 + ((lastRun - 15) / 255 + 1) + lastRun := by
      rw [op_putBytes, op_putLength, op_put, List.length_drop]
      omega
    refine ⟨?_, by omega, ?_⟩
    · dsimp only
      rw [hop, toInt32_natCast (by omega)]
    · have htoken : token lastRun 0 = 0xF0 := by
        rw [token, Nat.min_eq_right (by omega)]
        rfl
      rw [Out.written_putBytes, written_putLength, Out.written_put, htoken, lengthEncoding,
        if_pos (by omega)]
      simp
  · intro _
    have hop : ((out.put (UInt8.ofNat (lastRun <<< 4))).putBytes (source.drop anchor)).op =
        out.op + 1 + lastRun := by
      rw [op_putBytes, op_put, List.length_drop]
      omega
    refine ⟨?_, by omega, ?_⟩
    · dsimp only
      rw [hop, toInt32_natCast (by omega)]
    · have htoken : token lastRun 0 = UInt8.ofNat (lastRun <<< 4) := by
        rw [token, Nat.min_eq_left (by omega), Nat.shiftLeft_eq, Nat.mul_comm]
        exact UInt8.add_zero _
      rw [Out.written_putBytes, Out.written_put, htoken, lengthEncoding, if_neg (by omega)]
      simp

/-- A block for `x` which the decoder takes, whatever is behind it. -/
structure BlockFor (x data : List UInt8) (seqs : List Sequence) (last : List UInt8) : Prop where
  stream : Stream seqs (some last) data
  offset : ∀ q ∈ seqs, q.offset ≠ 0
  produce : produce [] seqs (some last) = x
  fits : Fits x.length 0 seqs (some last)
  five : 5 ≤ last.length

/-- The last literals complete the block. -/
theorem Encoded.blockFor {bytes : List UInt8} (h : Encoded source anchor bytes)
    (hanchor : anchor + 5 ≤ source.length) : ∃ seqs last, BlockFor source
      (bytes ++ token (source.length - anchor) 0 ::
        (lengthEncoding (source.length - anchor) ++ source.drop anchor)) seqs last := by
  obtain ⟨seqs, hstream, hoffset, hproduce, hfits⟩ := h
  have hlen : (source.drop anchor).length = source.length - anchor := List.length_drop
  have hlast := stream_last (source.drop anchor)
  rw [hlen] at hlast
  have hall := hstream.append hlast
  rw [List.append_nil] at hall
  refine ⟨seqs, source.drop anchor, hall, hoffset, ?_, ?_, by omega⟩
  · have happend := produce_append [] seqs [] (some (source.drop anchor))
    rw [List.append_nil, hproduce] at happend
    rw [happend]
    exact List.take_append_drop anchor source
  · have hend := hfits [] (some (source.drop anchor)) ⟨by omega, by omega⟩
    rwa [List.append_nil] at hend

theorem blockFor_compressWith (hv : v.Suits (source.length - 12)) (hmax : source.length < 2 ^ 31)
    (hne : (compressWith v source source.length).1 ≠ 0) :
    (compressWith v source source.length).1 = (compressWith v source source.length).2.op ∧
      ∃ seqs last, BlockFor source (compressWith v source source.length).2.written seqs last := by
  unfold compressWith at hne ⊢
  split_ifs at hne ⊢ with hshort
  · obtain ⟨-, hlong, -⟩ := written_lastLiterals (Nat.zero_le _) hmax hne
    omega
  · have hstart : (Compressor.search 0 1 Nat.one_pos (hashValue v source 1) (fun _ => 0)
        .start).Encodes source := ⟨by omega, encoded_start source, fun _ => Nat.one_pos⟩
    obtain ⟨hanchor, hencoded⟩ := (compressLoop v source source.length).rule
      (fun _ _ h hs => h.step hv hs) (fun _ _ h hs => h.stop hs) hstart
    rw [Int.toNat_natCast] at hne ⊢
    generalize (compressLoop v source source.length).run _ = stopped at *
    obtain ⟨anchor, out⟩ := stopped
    dsimp only at *
    obtain ⟨hop, -, hwritten⟩ := written_lastLiterals (by omega) hmax hne
    exact ⟨hop, hwritten ▸ hencoded.blockFor hanchor⟩

/-- Each of the two compressors is used where its hash table and its offsets suit the source. -/
theorem blockFor_lz4Compress (hmax : source.length < 2 ^ 31)
    (hne : (lz4Compress source source.length).1 ≠ 0) :
    (lz4Compress source source.length).1 = (lz4Compress source source.length).2.op ∧
      ∃ seqs last, BlockFor source (lz4Compress source source.length).2.written seqs last := by
  unfold lz4Compress lz4Compress64kCtx lz4CompressCtx at hne ⊢
  split_ifs at hne ⊢ with h64k
  · refine blockFor_compressWith ⟨fun p hp => ?_, fun ref ip _ hip => ?_⟩ hmax hne
    · exact Nat.mod_eq_of_lt (by omega)
    · omega
  · refine blockFor_compressWith ⟨fun p hp => ?_, fun ref ip hnear _ => ?_⟩ hmax hne
    · exact Nat.mod_eq_of_lt (by omega)
    · simpa using hnear

theorem blockFor_compressed (hmax : source.length < 2 ^ 31) (hne : compressed source ≠ []) :
    ∃ seqs last, BlockFor source (compressed source) seqs last := by
  unfold compressed at hne ⊢
  simp only [toInt32_natCast hmax] at hne ⊢
  have hresult : (lz4Compress source source.length).1 ≠ 0 := by
    intro hzero
    rw [hzero] at hne
    exact hne rfl
  obtain ⟨hop, hblock⟩ := blockFor_lz4Compress hmax hresult
  rw [hop, Int.toNat_natCast]
  exact hblock

end Block

/-! ## The decoder on that block -/

section Decode

variable {x data : List UInt8} {seqs : List Sequence} {last : List UInt8}

theorem length_compressed_lt (x : List UInt8) : (compressed x).length < 2 ^ 31 := by
  have := lz4Compress_lt x (toInt32 x.length)
  rw [length_compressed]
  omega

/-- The decoder puts what the block stands for into the destination, and nothing behind it. -/
theorem BlockFor.uncompress (h : BlockFor x data seqs last) (hx : x.length < 2 ^ 31)
    (hdata : data.length < 2 ^ 31) (beyond : List UInt8) (dest : Memory) :
    ∃ m, lz4Uncompress beyond data dest x.length = .ok (data.length, m) ∧
      m.first x.length = x ∧ Memory.SameFrom x.length dest m := by
  have hroom : 6 ≤ (some last).elim 0 (fun literals => literals.length + 1) + beyond.length := by
    have := h.five
    simp only [Option.elim_some]
    omega
  obtain ⟨m, hrun⟩ := run_of_fits (by omega) hroom h.stream h.fits dest
  -- what the run has decoded are the sequences of the block
  obtain ⟨seqs', last', hstream, -, hfirst⟩ := fits_of_run _ hrun
  obtain ⟨rfl, rfl⟩ := hstream.unique h.stream
  have hsize := length_produce [] seqs' (some last)
  rw [h.produce, List.length_nil, Nat.zero_add] at hsize
  have hbytes := hfirst h.offset
  rw [Nat.zero_add, ← hsize] at hbytes
  have hresult : lz4Uncompress beyond data dest x.length = .ok ((data.length : ℤ), m) := by
    have hall : (data.length : ℤ) - ([] : List UInt8).length = data.length := by simp
    unfold lz4Uncompress
    rw [hrun]
    simp only [bind, Except.bind, hall, toInt32_natCast hdata]
    rfl
  exact ⟨m, hresult, hbytes.trans h.produce, lz4Uncompress_same hresult⟩

/-- **LZ4 loses nothing**: what `LZ4_compress` makes of data of fewer than `2 ^ 31` bytes, unless it
gives up, is a block that stands for the data in the block format. `LZ4_uncompress` consumes all of
it and puts the data into the destination, whatever was there and whatever is behind the block, and
stores nothing behind the data. -/
theorem lz4Uncompress_compressed (x : List UInt8) (hx : x.length < 2 ^ 31)
    (hne : compressed x ≠ []) :
    Decodes (compressed x) x ∧ ∀ beyond dest, ∃ m,
      lz4Uncompress beyond (compressed x) dest x.length = .ok ((compressed x).length, m) ∧
        m.first x.length = x ∧ Memory.SameFrom x.length dest m := by
  obtain ⟨seqs, last, hblock⟩ := blockFor_compressed hx hne
  exact ⟨⟨seqs, some last, hblock.stream, hblock.fits.valid hblock.offset, hblock.produce.symm⟩,
    hblock.uncompress hx (length_compressed_lt x)⟩

theorem uncompress_eq {beyond data dest : List UInt8} {osize result : ℤ} {m : Memory}
    (h : lz4Uncompress beyond data (.ofList dest) osize = .ok (result, m)) :
    (lz4Library beyond).uncompress data dest osize = (result, m.first dest.length) := by
  simp only [lz4Library, h]

/-- The library is the one that the data blocks rely on. -/
theorem lz4Library_inverse (beyond : List UInt8) : (lz4Library beyond).Inverse := by
  intro x dest hx hdest hne
  rw [compress_lz4Library] at hne ⊢
  obtain ⟨seqs, last, hblock⟩ := blockFor_compressed hx hne
  obtain ⟨m, hrun, hfirst, hsame⟩ :=
    hblock.uncompress hx (length_compressed_lt x) beyond (.ofList dest)
  have hbytes : m.first dest.length = memcpy dest x := by
    have hdrop : (m.first dest.length).drop x.length = dest.drop x.length := by
      rw [drop_first fun i hi _ => hsame i (by omega), first_ofList]
    rw [← List.take_append_drop x.length (m.first dest.length), hdrop,
      DataBlock.take_first hdest, hfirst]
    rfl
  rw [uncompress_eq hrun, hbytes]

/-! ### 200 times the same byte -/

/-- The first search finds the byte before. -/
theorem step_search_repeats {v : Variant} (hnear : v.near 0 1 = true) (hrepeats : Repeats x 0 1 4)
    (forwardH : ℕ) : ∃ table, (compressLoop v x 200).step
      (.search 0 1 Nat.one_pos forwardH (fun _ => 0) .start) =
        .inl (.nextMatch 0 1 0 table (putLiterals x 0 1 .start)) := by
  have hback : catchUp x 0 1 0 = (1, 0) := by
    rw [catchUp.eq_def]
  have hfind : findMatch v x (200 - 12) 67 1 forwardH (fun _ => 0) =
      some (1, 0, Function.update (fun _ => 0) forwardH (v.entry 1)) := by
    rw [findMatch.eq_def]
    simp [hnear, load32_eq_iff.mpr hrepeats]
  refine ⟨Function.update (fun _ => 0) forwardH (v.entry 1), ?_⟩
  unfold compressLoop Compressor.step
  dsimp only
  rw [hfind]
  dsimp only
  rw [hback]
  rfl

/-- The match reaches as far as a match may. -/
theorem step_nextMatch_repeats (v : Variant) (hrepeats : Repeats x 0 1 199) (table : ℕ → ℕ)
    (out : Out) : (compressLoop v x 200).step (.nextMatch 0 1 0 table out) =
      .inr (195, putMatch 0 190 (out.put16 1)) := by
  have hcount : countMatch x 195 5 4 = 195 := by
    obtain ⟨-, hmax⟩ := countMatch_repeats x 195 4 5
    obtain ⟨-, hle⟩ := countMatch_spec x 195 5 4
    have hreach := hmax 190 ((hrepeats.drop 4).mono (by omega)) (by omega)
    have := hle (by omega)
    omega
  unfold compressLoop Compressor.step
  simp [hcount]

theorem compressWith_repeats {v : Variant} (hnear : v.near 0 1 = true) (hlen : x.length = 200)
    (hrepeats : Repeats x 0 1 199) : (compressWith v x 200).1 = 11 := by
  obtain ⟨table, hsearch⟩ := step_search_repeats hnear (hrepeats.mono (by omega)) (hashValue v x 1)
  have hrun := (compressLoop v x 200).run_of_next hsearch
  rw [(compressLoop v x 200).run_of_stop (step_nextMatch_repeats v hrepeats table _)] at hrun
  have hop : (putMatch 0 190 ((putLiterals x 0 1 .start).put16 1)).op = 5 := by
    rw [op_putMatch, op_put16, op_putLiterals]
    rfl
  unfold compressWith
  rw [if_neg (by omega)]
  show (lastLiterals x 200 ((compressLoop v x 200).run _).1 ((compressLoop v x 200).run _).2).1 = 11
  rw [hrun]
  unfold lastLiterals
  simp [hop, hlen]
  decide

theorem compressed_ne_nil (hlen : x.length = 200) (hrepeats : Repeats x 0 1 199) :
    compressed x ≠ [] := by
  have hresult : (lz4Compress x 200).1 = 11 := by
    unfold lz4Compress
    rw [if_pos (by omega)]
    exact compressWith_repeats rfl hlen hrepeats
  intro hnil
  have hlength := length_compressed x
  rw [hnil, hlen, show toInt32 ((200 : ℕ) : ℤ) = 200 from rfl, hresult] at hlength
  cases hlength

theorem lz4Uncompress_compressed_run200 : compressed run200 ≠ [] ∧
    Decodes (compressed run200) run200 ∧ ∀ beyond dest, ∃ m,
      lz4Uncompress beyond (compressed run200) dest run200.length =
          .ok ((compressed run200).length, m) ∧
        m.first run200.length = run200 ∧ Memory.SameFrom run200.length dest m := by
  have hrepeats : Repeats run200 0 1 199 := by
    intro i hi
    have hbyte : ∀ j < 200, run200.getD j 0 = 97 := by
      intro j hj
      rw [run200, List.getD_eq_getElem?_getD, List.getElem?_replicate, if_pos hj]
      rfl
    rw [hbyte _ (by omega), hbyte _ (by omega)]
  have hne := compressed_ne_nil length_run200 hrepeats
  exact ⟨hne, lz4Uncompress_compressed run200 (by rw [length_run200]; omega) hne⟩

end Decode

end Rhizofs
