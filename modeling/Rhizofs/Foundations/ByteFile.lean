import Mathlib.Algebra.GroupWithZero.Nat
import Mathlib.Data.List.Basic
import Mathlib.Tactic.Common

/-!
# Files as byte arrays

A regular file is the list of its bytes, and reading, writing and truncating it are what POSIX says
of `pread`, `pwrite` and `truncate` when they complete: a read ends at the end of the file, a write
past the end and a longer `truncate` fill the gap with zeros, and a write of nothing changes
nothing. `Access.applyAll` runs a list of accesses, and `flatten_consecutive` says that consecutive
reads put the file together again.
-/

namespace Extern

namespace ByteFile

variable {α : Type} (zero : α)

/-- At most `size` bytes at `offset`. -/
def read (file : List α) (offset size : ℕ) : List α := (file.drop offset).take size

/-- The file cut at `length`, or filled up to it. -/
def truncate (file : List α) (length : ℕ) : List α :=
  file.take length ++ List.replicate (length - file.length) zero

/-- The file with `data` at `offset`. -/
def write (file : List α) (offset : ℕ) (data : List α) : List α :=
  if data.isEmpty then file
  else truncate zero file offset ++ data ++ file.drop (offset + data.length)

/-- An access to a file. -/
inductive Access (α : Type)
  | read (size offset : ℕ)
  | write (data : List α) (offset : ℕ)
  | truncate (length : ℕ)

/-- The value an access returns and the bytes it reads. -/
structure Answer (α : Type) where
  count : ℕ
  data : List α

/-- The answer to an access and the file afterwards. -/
def Access.apply : Access α → List α → Answer α × List α
  | .read size offset, file =>
    (⟨(ByteFile.read file offset size).length, ByteFile.read file offset size⟩, file)
  | .write data offset, file => (⟨data.length, []⟩, ByteFile.write zero file offset data)
  | .truncate length, file => (⟨0, []⟩, ByteFile.truncate zero file length)

/-- The answers to a list of accesses, made one after the other, and the file afterwards. -/
def Access.applyAll : List (Access α) → List α → List (Answer α) × List α
  | [], file => ([], file)
  | access :: accesses, file =>
    let (answer, file) := access.apply zero file
    let (answers, file) := applyAll accesses file
    (answer :: answers, file)

/-! ## Consecutive reads -/

/-- Reads of the sizes `sizes`, each where the one before it ends. -/
def consecutive : ℕ → List ℕ → List (Access α)
  | _, [] => []
  | offset, size :: sizes => .read size offset :: consecutive (offset + size) sizes

theorem read_append_drop (file : List α) (offset size : ℕ) :
    read file offset size ++ file.drop (offset + size) = file.drop offset := by
  rw [read, ← List.drop_drop, List.take_append_drop]

/-- **Consecutive reads put the file together**: they leave the file alone, and their bytes are
those of the file from the first offset on, if the sizes reach its end. -/
theorem flatten_consecutive {file : List α} {offset : ℕ} {sizes : List ℕ}
    (h : file.length ≤ offset + sizes.sum) :
    (Access.applyAll zero (consecutive offset sizes) file).2 = file ∧
      ((Access.applyAll zero (consecutive offset sizes) file).1.map Answer.data).flatten =
        file.drop offset := by
  induction sizes generalizing offset with
  | nil =>
    have hend : file.length ≤ offset := by simpa using h
    simp [consecutive, Access.applyAll, List.drop_eq_nil_of_le hend]
  | cons size sizes ih =>
    have hrest : file.length ≤ offset + size + sizes.sum := by
      simp only [List.sum_cons] at h
      omega
    obtain ⟨hfile, hdata⟩ := ih hrest
    refine ⟨hfile, ?_⟩
    simp only [consecutive, Access.applyAll, Access.apply, List.map_cons, List.flatten_cons]
    rw [hdata, read_append_drop]

end ByteFile

end Extern
