import Mathlib.Data.List.Basic
import Mathlib.Tactic.Common

/-!
# The LZ4 block format

A block is a list of sequences, each of which has literals and then a match, and the last literals.
A sequence starts with a token, whose two halves are the lengths of the literals and of the match.
A half that is 15 is continued by further bytes (`Length`). A match copies bytes that have been
produced before, which may overlap with the ones it produces (`copyBack`).

A block has at most one list of sequences (`Stream.unique`), so `Decodes` says what a block stands
for.
-/

namespace Lz4Block

/-- `bytes` follow a token with the half `n`, and the length is `value`. -/
inductive Length : ℕ → List UInt8 → ℕ → Prop
  | short {n : ℕ} (h : n < 15) : Length n [] n
  | long (k : ℕ) {b : UInt8} (h : b ≠ 255) :
    Length 15 (List.replicate k 255 ++ [b]) (15 + 255 * k + b.toNat)

/-- Literals, then a match of `matchLength` bytes that starts `offset` bytes before. -/
structure Sequence where
  literals : List UInt8
  offset : ℕ
  matchLength : ℕ

/-- The bytes of a sequence. -/
inductive Sequence.Bytes : Sequence → List UInt8 → Prop
  | intro {token lo hi : UInt8} {literals litBytes matchBytes : List UInt8} {n : ℕ}
      (literal : Length (token.toNat / 16) litBytes literals.length)
      (copied : Length (token.toNat % 16) matchBytes n) :
    Bytes { literals := literals, offset := lo.toNat + 256 * hi.toNat, matchLength := n + 4 }
      (token :: (litBytes ++ (literals ++ lo :: hi :: matchBytes)))

/-- The sequences and the last literals of a block. A block may also end behind a match. -/
inductive Stream : List Sequence → Option (List UInt8) → List UInt8 → Prop
  | done : Stream [] none []
  | last {token : UInt8} {literals litBytes : List UInt8}
      (literal : Length (token.toNat / 16) litBytes literals.length) :
    Stream [] (some literals) (token :: (litBytes ++ literals))
  | next {s : Sequence} {bytes data : List UInt8} {seqs : List Sequence}
      {last : Option (List UInt8)} (head : s.Bytes bytes) (tail : Stream seqs last data) :
    Stream (s :: seqs) last (bytes ++ data)

/-- `n` bytes are copied from `offset` bytes before, one after the other. -/
def copyBack (out : List UInt8) (offset : ℕ) : ℕ → List UInt8
  | 0 => out
  | n + 1 =>
    let out := copyBack out offset n
    out ++ [out.getD (out.length - offset) 0]

/-- The output after a sequence. -/
def Sequence.apply (s : Sequence) (out : List UInt8) : List UInt8 :=
  copyBack (out ++ s.literals) s.offset s.matchLength

/-- The output after all sequences and the last literals. -/
def produce (out : List UInt8) (seqs : List Sequence) (last : Option (List UInt8)) : List UInt8 :=
  seqs.foldl (fun out s => s.apply out) out ++ last.getD []

/-- The number of bytes that the sequences and the last literals produce. -/
def size : List Sequence → Option (List UInt8) → ℕ
  | [], last => (last.getD []).length
  | s :: seqs, last => s.literals.length + s.matchLength + size seqs last

/-- Every match starts inside of the output, `produced` bytes of which are there already. -/
def Valid : ℕ → List Sequence → Prop
  | _, [] => True
  | produced, s :: seqs => s.offset ≠ 0 ∧ s.offset ≤ produced + s.literals.length ∧
      Valid (produced + s.literals.length + s.matchLength) seqs

/-- The block `data` stands for the bytes `out`. -/
def Decodes (data out : List UInt8) : Prop :=
  ∃ seqs last, Stream seqs last data ∧ Valid 0 seqs ∧ out = produce [] seqs last

/-! ## A block has one list of sequences -/

theorem replicate_append_inj {k k' : ℕ} {b b' : UInt8} {rest rest' : List UInt8} (hb : b ≠ 255)
    (hb' : b' ≠ 255)
    (h : List.replicate k 255 ++ b :: rest = List.replicate k' 255 ++ b' :: rest') :
    k = k' ∧ b = b' ∧ rest = rest' := by
  induction k generalizing k' with
  | zero =>
    cases k' with
    | zero => simpa using h
    | succ k' => exact absurd (List.cons.inj h).1 hb
  | succ k ih =>
    cases k' with
    | zero => exact absurd (List.cons.inj h).1.symm hb'
    | succ k' =>
      obtain ⟨rfl, hrest⟩ := ih (List.cons.inj h).2
      exact ⟨rfl, hrest⟩

/-- The bytes of a length are as long as they can be. -/
theorem Length.unique {n value value' : ℕ} {bytes bytes' rest rest' : List UInt8}
    (h : Length n bytes value) (h' : Length n bytes' value')
    (heq : bytes ++ rest = bytes' ++ rest') : value = value' ∧ bytes = bytes' ∧ rest = rest' := by
  cases h with
  | short hn =>
    cases h' with
    | short => exact ⟨rfl, rfl, heq⟩
    | long => exact absurd hn (Nat.lt_irrefl 15)
  | long k hb =>
    cases h' with
    | short hn => exact absurd hn (Nat.lt_irrefl 15)
    | long k' hb' =>
      rw [List.append_assoc, List.append_assoc] at heq
      obtain ⟨rfl, rfl, hrest⟩ := replicate_append_inj hb hb' heq
      exact ⟨rfl, rfl, hrest⟩

theorem Sequence.Bytes.unique {s s' : Sequence} {bytes bytes' rest rest' : List UInt8}
    (h : s.Bytes bytes) (h' : s'.Bytes bytes') (heq : bytes ++ rest = bytes' ++ rest') :
    s = s' ∧ rest = rest' := by
  obtain ⟨hlit, hcopied⟩ := h
  obtain ⟨hlit', hcopied'⟩ := h'
  simp only [List.cons_append, List.append_assoc] at heq
  obtain ⟨rfl, heq₁⟩ := List.cons.inj heq
  obtain ⟨hlen, rfl, heq₂⟩ := hlit.unique hlit' heq₁
  obtain ⟨rfl, heq₃⟩ := List.append_inj heq₂ hlen
  obtain ⟨rfl, heq₄⟩ := List.cons.inj heq₃
  obtain ⟨rfl, heq₅⟩ := List.cons.inj heq₄
  obtain ⟨rfl, rfl, hrest⟩ := hcopied.unique hcopied' heq₅
  exact ⟨rfl, hrest⟩

/-- **The sequences** of a block are determined by its bytes. -/
theorem Stream.unique {seqs seqs' : List Sequence} {last last' : Option (List UInt8)}
    {data : List UInt8} (h : Stream seqs last data) (h' : Stream seqs' last' data) :
    seqs = seqs' ∧ last = last' := by
  induction h generalizing seqs' with
  | done =>
    generalize hdata : ([] : List UInt8) = data at h'
    cases h' with
    | done => exact ⟨rfl, rfl⟩
    | last => cases hdata
    | next head =>
      obtain ⟨-, -⟩ := head
      cases hdata
  | last literal =>
    rename_i token literals litBytes
    generalize hdata : token :: (litBytes ++ literals) = data at h'
    cases h' with
    | done => cases hdata
    | last literal' =>
      obtain ⟨rfl, heq⟩ := List.cons.inj hdata
      obtain ⟨-, rfl, rfl⟩ := literal.unique literal' heq
      exact ⟨rfl, rfl⟩
    | next head tail =>
      obtain ⟨literal', -⟩ := head
      simp only [List.cons_append, List.append_assoc] at hdata
      obtain ⟨rfl, heq⟩ := List.cons.inj hdata
      obtain ⟨hlen, rfl, rfl⟩ := literal.unique literal' heq
      simp at hlen
  | next head tail ih =>
    rename_i s bytes rest seqs last
    generalize hdata : bytes ++ rest = data at h'
    cases h' with
    | done =>
      obtain ⟨-, -⟩ := head
      cases hdata
    | last literal' =>
      obtain ⟨literal, -⟩ := head
      simp only [List.cons_append, List.append_assoc] at hdata
      obtain ⟨rfl, heq⟩ := List.cons.inj hdata
      obtain ⟨hlen, rfl, rfl⟩ := literal.unique literal' heq
      simp at hlen
    | next head' tail' =>
      obtain ⟨rfl, rfl⟩ := head.unique head' hdata
      obtain ⟨rfl, rfl⟩ := ih tail'
      exact ⟨rfl, rfl⟩

/-- A block stands for one list of bytes. -/
theorem Decodes.unique {data out out' : List UInt8} (h : Decodes data out)
    (h' : Decodes data out') : out = out' := by
  obtain ⟨seqs, last, hstream, -, rfl⟩ := h
  obtain ⟨seqs', last', hstream', -, rfl⟩ := h'
  obtain ⟨rfl, rfl⟩ := hstream.unique hstream'
  rfl

/-- What holds of the sequences of a block that stands for bytes. -/
theorem Decodes.inv {data out : List UInt8} {seqs : List Sequence} {last : Option (List UInt8)}
    (h : Decodes data out) (hstream : Stream seqs last data) :
    Valid 0 seqs ∧ out = produce [] seqs last := by
  obtain ⟨seqs', last', hstream', hvalid, hout⟩ := h
  obtain ⟨rfl, rfl⟩ := hstream'.unique hstream
  exact ⟨hvalid, hout⟩

/-- The bytes that continue the token of a length. -/
def lengthEncoding (n : ℕ) : List UInt8 :=
  if 15 ≤ n then List.replicate ((n - 15) / 255) 255 ++ [UInt8.ofNat ((n - 15) % 255)] else []

theorem length_lengthEncoding (n : ℕ) : Length (min n 15) (lengthEncoding n) n := by
  unfold lengthEncoding
  split_ifs with h
  · have hlt : (n - 15) % 255 < 255 := Nat.mod_lt _ (by decide)
    have hval : (UInt8.ofNat ((n - 15) % 255)).toNat = (n - 15) % 255 :=
      UInt8.toNat_ofNat_of_lt' (Nat.lt_succ_of_lt hlt)
    have hne : UInt8.ofNat ((n - 15) % 255) ≠ 255 := by
      intro heq
      rw [heq] at hval
      exact Nat.ne_of_gt hlt hval
    have hlong := Length.long ((n - 15) / 255) hne
    rw [hval, show 15 + 255 * ((n - 15) / 255) + (n - 15) % 255 = n by omega] at hlong
    rwa [Nat.min_eq_right h]
  · rw [Nat.min_eq_left (by omega)]
    exact .short (by omega)

/-- The token of two lengths. -/
def token (literals copied : ℕ) : UInt8 :=
  UInt8.ofNat (16 * min literals 15) + UInt8.ofNat (min copied 15)

theorem toNat_token (literals copied : ℕ) :
    (token literals copied).toNat = 16 * min literals 15 + min copied 15 := by
  rw [token, UInt8.toNat_add, UInt8.toNat_ofNat', UInt8.toNat_ofNat']
  omega

theorem bytes_sequence (literals : List UInt8) {offset : ℕ} (h : offset < 65536) (n : ℕ) :
    Sequence.Bytes ⟨literals, offset, n + 4⟩
      (token literals.length n :: (lengthEncoding literals.length ++
        (literals ++ UInt8.ofNat offset :: UInt8.ofNat (offset / 256) :: lengthEncoding n))) := by
  have hliteral := length_lengthEncoding literals.length
  have hcopied := length_lengthEncoding n
  have hoffset :
      (UInt8.ofNat offset).toNat + 256 * (UInt8.ofNat (offset / 256)).toNat = offset := by
    rw [UInt8.toNat_ofNat', UInt8.toNat_ofNat']
    omega
  have htoken := toNat_token literals.length n
  rw [show min literals.length 15 = (token literals.length n).toNat / 16 by omega] at hliteral
  rw [show min n 15 = (token literals.length n).toNat % 16 by omega] at hcopied
  generalize UInt8.ofNat offset = lo at *
  generalize UInt8.ofNat (offset / 256) = hi at *
  subst hoffset
  exact .intro hliteral hcopied

theorem stream_last (literals : List UInt8) : Stream [] (some literals)
    (token literals.length 0 :: (lengthEncoding literals.length ++ literals)) := by
  have hliteral := length_lengthEncoding literals.length
  have htoken := toNat_token literals.length 0
  rw [show min literals.length 15 = (token literals.length 0).toNat / 16 by omega] at hliteral
  exact .last hliteral

/-! ## Sequences that are followed by others -/

theorem Stream.append {seqs seqs' : List Sequence} {last : Option (List UInt8)}
    {data data' : List UInt8} (h : Stream seqs none data) (h' : Stream seqs' last data') :
    Stream (seqs ++ seqs') last (data ++ data') := by
  generalize hnone : (none : Option (List UInt8)) = before at h
  induction h with
  | done => exact h'
  | last => cases hnone
  | next head tail ih =>
    rw [List.append_assoc]
    exact .next head (ih hnone)

theorem Stream.snoc {seqs : List Sequence} {s : Sequence} {data bytes : List UInt8}
    (h : Stream seqs none data) (hs : s.Bytes bytes) :
    Stream (seqs ++ [s]) none (data ++ bytes) := by
  have hone : Stream [s] none (bytes ++ []) := .next hs .done
  rw [List.append_nil] at hone
  exact h.append hone

theorem produce_append (out : List UInt8) (seqs seqs' : List Sequence)
    (last : Option (List UInt8)) :
    produce out (seqs ++ seqs') last = produce (produce out seqs none) seqs' last := by
  simp only [produce, List.foldl_append, Option.getD_none, List.append_nil]

/-- The token of the last literals and the literals are in the block. -/
theorem Stream.last_le {seqs : List Sequence} {last : Option (List UInt8)} {data : List UInt8}
    (h : Stream seqs last data) :
    last.elim 0 (fun literals => literals.length + 1) ≤ data.length := by
  induction h with
  | done => exact Nat.le_refl 0
  | last =>
    simp only [Option.elim_some, List.length_cons, List.length_append]
    omega
  | next head tail ih =>
    rw [List.length_append]
    omega

/-! ## Matches of bytes that repeat -/

/-- A match whose bytes have been compared extends what has been produced of the input. -/
theorem copyBack_take {input : List UInt8} {pos offset n : ℕ} (hpos : 0 < offset)
    (hoffset : offset ≤ pos) (hn : pos + n ≤ input.length)
    (h : ∀ i < n, input.getD (pos - offset + i) 0 = input.getD (pos + i) 0) :
    copyBack (input.take pos) offset n = input.take (pos + n) := by
  induction n with
  | zero => rfl
  | succ n ih =>
    have hlt : pos + n < input.length := by omega
    have hlen : (input.take (pos + n)).length = pos + n := by
      rw [List.length_take]
      omega
    have hback : (input.take (pos + n)).getD (pos + n - offset) 0 = input[pos + n] := by
      have heq := h n (by omega)
      rw [show pos - offset + n = pos + n - offset by omega] at heq
      simp only [List.getD_eq_getElem?_getD] at heq ⊢
      rw [List.getElem?_take_of_lt (by omega), heq, List.getElem?_eq_getElem hlt]
      rfl
    rw [copyBack, ih (by omega) fun i hi => h i (by omega), hlen, hback, ← Nat.add_assoc,
      List.take_add_one, List.getElem?_eq_getElem hlt]
    rfl

/-! ## The length of the output -/

@[simp] theorem length_copyBack (out : List UInt8) (offset n : ℕ) :
    (copyBack out offset n).length = out.length + n := by
  induction n with
  | zero => rfl
  | succ n ih =>
    rw [copyBack, List.length_append, ih]
    rfl

theorem length_produce (out : List UInt8) (seqs : List Sequence) (last : Option (List UInt8)) :
    (produce out seqs last).length = out.length + size seqs last := by
  induction seqs generalizing out with
  | nil =>
    show (out ++ last.getD []).length = _
    rw [List.length_append]
    rfl
  | cons s seqs ih =>
    show (produce (s.apply out) seqs last).length = _
    rw [ih, Sequence.apply, length_copyBack, List.length_append, size]
    omega

end Lz4Block
