import Mathlib.Data.List.Basic
import Mathlib.Tactic.Common

/-!
# Reading a text in pieces

C's `fgets` reads a text in pieces: each ends with the terminator of a line, or when the buffer is
full. A line that is longer than the buffer comes in several pieces, so whoever compares the pieces
with a word finds it at every multiple of the buffer's size within a line (`fgetsAny_iff`). The text
is a list over any type, with `sep` for the terminator.
-/

namespace LineReader

variable {α : Type}

section Reading

variable [DecidableEq α]

/-- `fgets` with room for `n` characters: what it stores and what is left of the text. -/
def fgets (sep : α) : ℕ → List α → List α × List α
  | 0, text => ([], text)
  | _ + 1, [] => ([], [])
  | n + 1, c :: text =>
    if c = sep then ([c], text) else (c :: (fgets sep n text).1, (fgets sep n text).2)

theorem length_fgets_rest_le (sep : α) (n : ℕ) (text : List α) :
    (fgets sep n text).2.length ≤ text.length := by
  induction n generalizing text with
  | zero => exact Nat.le_refl _
  | succ n ih =>
    cases text with
    | nil => exact Nat.le_refl _
    | cons c text =>
      have := ih text
      simp only [fgets, List.length_cons]
      split_ifs
      · dsimp only
        omega
      · dsimp only
        omega

theorem length_fgets_rest_lt (sep : α) (n : ℕ) (c : α) (text : List α) :
    (fgets sep (n + 1) (c :: text)).2.length < (c :: text).length := by
  have := length_fgets_rest_le sep n text
  simp only [fgets, List.length_cons]
  split_ifs
  · dsimp only
    omega
  · dsimp only
    omega

/-- Read the text with room for `n + 1` characters until a piece has the property `p`. -/
def fgetsAny (sep : α) (n : ℕ) (p : List α → Bool) : List α → Bool
  | [] => false
  | c :: text =>
    if p (fgets sep (n + 1) (c :: text)).1 then true
    else fgetsAny sep n p (fgets sep (n + 1) (c :: text)).2
termination_by text => text.length
decreasing_by exact length_fgets_rest_lt sep n c text

end Reading

/-! ## Pieces and lines -/

/-- The pieces of `n` characters of a line. -/
def piece (n i : ℕ) (line : List α) : List α := (line.drop (n * i)).take n

theorem length_piece_le (n i : ℕ) (line : List α) : (piece n i line).length ≤ line.length := by
  simp only [piece, List.length_take, List.length_drop]
  omega

theorem piece_zero (n : ℕ) (line : List α) : piece n 0 line = line.take n := rfl

theorem piece_succ (n i : ℕ) (line : List α) : piece n (i + 1) line = piece n i (line.drop n) := by
  rw [piece, piece, List.drop_drop, Nat.mul_succ, Nat.add_comm]

/-- In a line, the first piece is the beginning and the others are those of the rest. -/
theorem exists_piece {p : List α → Bool} {n : ℕ} {line : List α} :
    (∃ i, p (piece n i line)) ↔ p (line.take n) ∨ ∃ i, p (piece n i (line.drop n)) := by
  constructor
  · rintro ⟨_ | i, hi⟩
    · exact .inl hi
    · exact .inr ⟨i, by rwa [piece_succ] at hi⟩
  · rintro (h | ⟨i, hi⟩)
    · exact ⟨0, h⟩
    · exact ⟨i + 1, by rwa [piece_succ]⟩

variable [DecidableEq α] {sep : α} {n : ℕ}

/-- A line that is shorter than the buffer is read with its terminator. -/
theorem fgets_short {line text : List α} (hsep : sep ∉ line) (hlen : line.length < n) :
    fgets sep n (line ++ sep :: text) = (line ++ [sep], text) := by
  induction line generalizing n with
  | nil =>
    obtain ⟨n, rfl⟩ : ∃ m, n = m + 1 := ⟨n - 1, by simp at hlen; omega⟩
    simp [fgets]
  | cons c line ih =>
    obtain ⟨n, rfl⟩ : ∃ m, n = m + 1 := ⟨n - 1, by simp at hlen; omega⟩
    have hc : c ≠ sep := fun h => hsep (by simp [h])
    have h := ih (n := n) (fun h => hsep (List.mem_cons_of_mem c h)) (by simpa using hlen)
    simp [fgets, hc, h]

/-- A last line without a terminator that fits into the buffer is read as a whole. -/
theorem fgets_last {line : List α} (hsep : sep ∉ line) (hlen : line.length ≤ n) :
    fgets sep n line = (line, []) := by
  induction line generalizing n with
  | nil => cases n <;> rfl
  | cons c line ih =>
    obtain ⟨n, rfl⟩ : ∃ m, n = m + 1 := ⟨n - 1, by simp at hlen; omega⟩
    have hc : c ≠ sep := fun h => hsep (by simp [h])
    have h := ih (n := n) (fun h => hsep (List.mem_cons_of_mem c h)) (by simpa using hlen)
    simp [fgets, hc, h]

/-- Of a line that fills the buffer, the beginning is read. -/
theorem fgets_long {line text : List α} (hsep : sep ∉ line) (hlen : line.length = n) :
    fgets sep n (line ++ text) = (line, text) := by
  induction line generalizing n with
  | nil =>
    obtain rfl : n = 0 := by simpa using hlen.symm
    rfl
  | cons c line ih =>
    obtain ⟨n, rfl⟩ : ∃ m, n = m + 1 := ⟨n - 1, by simp at hlen; omega⟩
    have hc : c ≠ sep := fun h => hsep (by simp [h])
    have h := ih (n := n) (fun h => hsep (List.mem_cons_of_mem c h)) (by simpa using hlen)
    simp [fgets, hc, h]

/-! ## Searching -/

section Search

variable {p : List α → Bool}

/-- Some line of the text has a piece with the property `p`. -/
def HasPiece (sep : α) (n : ℕ) (p : List α → Bool) (text : List α) : Prop :=
  ∃ line ∈ text.splitOn sep, ∃ i, p (piece n i line)

/-- The first line of a text, what comes after it, and the other lines. Any line can stand in
the place of the first one. -/
theorem first_line (sep : α) (text : List α) : ∃ line after others,
    text = line ++ after ∧ sep ∉ line ∧ (after = [] ∨ after = sep :: after.tail) ∧
      (others = if after = [] then [] else after.tail.splitOn sep) ∧
      ∀ line', sep ∉ line' → (line' ++ after).splitOn sep = line' :: others := by
  have hne : ∀ {line' : List α}, sep ∉ line' → ∀ c ∈ line', (c == sep) = false := by
    intro line' h c hc
    have : c ≠ sep := fun heq => h (heq ▸ hc)
    simpa using this
  by_cases h : sep ∈ text
  · obtain ⟨line, rest, rfl, hline⟩ := List.eq_append_cons_of_mem h
    refine ⟨line, sep :: rest, rest.splitOn sep, rfl, hline, .inr rfl, by simp, ?_⟩
    intro line' hline'
    exact List.splitOnP_append_cons_of_forall_mem (hne hline') sep (by simp) rest
  · refine ⟨text, [], [], by simp, h, .inl rfl, by simp, ?_⟩
    intro line' hline'
    rw [List.append_nil]
    exact List.splitOnP_eq_singleton (hne hline')

variable (hp : ∀ buf, buf.length ≤ n + 1 → p buf → buf.length = n + 1 ∧ sep ∉ buf)
include hp

omit [DecidableEq α] in
/-- A line too short for the property has no piece with it. -/
theorem not_piece_of_short {line : List α} (hlen : line.length < n + 1) :
    ¬ ∃ i, p (piece (n + 1) i line) := by
  rintro ⟨i, hi⟩
  have hle := length_piece_le (n + 1) i line
  have heq := (hp _ (by omega) hi).1
  omega

theorem not_hasPiece_nil : ¬ HasPiece sep (n + 1) p [] := by
  rintro ⟨line, hmem, hpiece⟩
  obtain rfl : line = [] := by simpa using hmem
  exact not_piece_of_short hp (by simp) hpiece

/-- One call of `fgets`: the property is found in the piece that was read or in the rest. -/
theorem hasPiece_fgets (text : List α) :
    HasPiece sep (n + 1) p text ↔
      p (fgets sep (n + 1) text).1 ∨ HasPiece sep (n + 1) p (fgets sep (n + 1) text).2 := by
  obtain ⟨line, after, others, rfl, hline, hafter, hothers, hsplit⟩ := first_line sep text
  have htext : HasPiece sep (n + 1) p (line ++ after) ↔
      (∃ i, p (piece (n + 1) i line)) ∨ ∃ l ∈ others, ∃ i, p (piece (n + 1) i l) := by
    simp [HasPiece, hsplit line hline]
  rw [htext]
  by_cases hlen : line.length < n + 1
  · have hshort := not_piece_of_short hp hlen
    rcases hafter with rfl | hcons
    · -- the last line, without a terminator
      have hbuf : ¬ p line := fun h => by
        have := (hp line (by omega) h).1
        omega
      rw [List.append_nil, fgets_last hline (by omega)]
      simp [hshort, hbuf, hothers, not_hasPiece_nil hp]
    · -- a short line: the piece contains the terminator
      have hbuf : ¬ p (line ++ [sep]) := fun h => (hp _ (by simp; omega) h).2 (by simp)
      rw [hcons] at hothers
      rw [hcons, fgets_short hline hlen]
      simp [hshort, hbuf, hothers, HasPiece]
  · -- the buffer is full before the line ends
    have htake : sep ∉ line.take (n + 1) := fun h => hline (List.mem_of_mem_take h)
    have hdrop : sep ∉ line.drop (n + 1) := fun h => hline (List.mem_of_mem_drop h)
    have hread : fgets sep (n + 1) (line ++ after) =
        (line.take (n + 1), line.drop (n + 1) ++ after) := by
      conv_lhs => rw [← List.take_append_drop (n + 1) line, List.append_assoc]
      apply fgets_long htake
      rw [List.length_take]
      omega
    rw [hread, exists_piece]
    simp [HasPiece, hsplit _ hdrop, or_assoc]

/-- **What comparing the pieces finds**: a property of full pieces without terminators is found in
the text if and only if it holds at a multiple of the buffer's size within some line. -/
theorem fgetsAny_iff (text : List α) :
    fgetsAny sep n p text = true ↔ HasPiece sep (n + 1) p text := by
  induction text using fgetsAny.induct sep n p with
  | case1 => simpa [fgetsAny] using not_hasPiece_nil hp
  | case2 c text hfound =>
    rw [hasPiece_fgets hp]
    simp [fgetsAny, hfound]
  | case3 c text hnot ih =>
    rw [hasPiece_fgets hp, fgetsAny, if_neg hnot, ih]
    simp [hnot]

end Search

end LineReader
