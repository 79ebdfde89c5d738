import Rhizofs.Libc

/-!
# Joining paths

`path_join` of `path.c`. The function first computes the length of the result and whether a
separator is missing at the seam (`joinPlan`), allocates, and then copies both strings; the
result is `joined`. The computed length is that of the copied strings unless two separators meet
(`joined_fits_iff`).
-/

namespace Rhizofs

open Extern

/-- The values of `lenpathjoined` and `add_seperator` when `path_join` allocates. -/
def joinPlan (path1 path2 : CString) : ℕ × Bool :=
  let (lenpathjoined, addSeparator) :=
    if path1.length ≠ 0 then
      if path1.getLast? ≠ some PATH_SEP then (path1.length + 1, true) else (path1.length, false)
    else (0, false)
  if path2.length ≠ 0 then
    if path2.head? = some PATH_SEP then (lenpathjoined + path2.length - 1, false)
    else (lenpathjoined + path2.length, addSeparator)
  else (lenpathjoined, addSeparator)

/-- The string the two `strcpy` calls and the separator store build. -/
def joined (path1 path2 : CString) : CString :=
  path1 ++ (if (joinPlan path1 path2).2 then [PATH_SEP] else []) ++ path2

/-- `path_join`: the joined path, or nothing when the allocation fails. -/
def pathJoin (path1 path2 : CString) : Prog MemRet (Option CString) := do
  let ok ← alloc (.bytes ((joinPlan path1 path2).1 + 1))
  if !ok then return none
  return some (joined path1 path2)

/-! ## The seam -/

theorem joined_of_head_sep {path1 path2 : CString} (h : path2.head? = some PATH_SEP) :
    joined path1 path2 = path1 ++ path2 := by
  have hlen : path2.length ≠ 0 := by
    rintro h0
    rw [List.length_eq_zero_iff] at h0
    simp [h0] at h
  simp [joined, joinPlan, hlen, h]

theorem joined_of_getLast_sep {path1 path2 : CString} (h : path1.getLast? = some PATH_SEP) :
    joined path1 path2 = path1 ++ path2 := by
  have h' : (joinPlan path1 path2).2 = false := by
    simp only [joinPlan, h]
    split_ifs <;> simp_all
  simp [joined, h']

/-- With no separator at the seam, one is added. -/
theorem joined_of_no_sep {path1 path2 : CString} (h₁ : path1 ≠ [])
    (h₁' : path1.getLast? ≠ some PATH_SEP) (h₂ : path2.head? ≠ some PATH_SEP) :
    joined path1 path2 = path1 ++ PATH_SEP :: path2 := by
  have hlen : path1.length ≠ 0 := by simpa using h₁
  have h' : (joinPlan path1 path2).2 = true := by
    simp only [joinPlan]
    split_ifs <;> simp_all
  simp [joined, h']

theorem joined_nil_left {path2 : CString} : joined [] path2 = path2 := by
  have h' : (joinPlan [] path2).2 = false := by
    simp only [joinPlan]
    split_ifs <;> simp_all
  simp [joined, h']

/-! ## The allocated length -/

/-- The `int` in which `path_join` computes the length of the result. -/
def lenpathjoined (path1 path2 : CString) : ℤ := toInt32 (joinPlan path1 path2).1

/-- `path` without one separator at its end. -/
def withoutLastSep (path : CString) : CString :=
  if path.getLast? = some PATH_SEP then path.dropLast else path

/-- `path` without one separator at its beginning. -/
def withoutFirstSep (path : CString) : CString :=
  if path.head? = some PATH_SEP then path.tail else path

/-- No second separator at the seam: `path2` starts with one only after a `path1` that does not
end with one. -/
def SeamFree (path1 path2 : CString) : Prop :=
  path2.head? = some PATH_SEP → path1 ≠ [] ∧ path1.getLast? ≠ some PATH_SEP

/-- The length of both strings with the separator that may be missing between them. -/
def seamLength (path1 path2 : CString) : ℕ :=
  path1.length + path2.length +
    if path1 = [] ∨ path1.getLast? = some PATH_SEP ∨ path2.head? = some PATH_SEP then 0 else 1

section Seam

variable {path1 path2 : CString}

theorem length_joined (path1 path2 : CString) :
    (joined path1 path2).length = seamLength path1 path2 := by
  by_cases hnil : path1 = []
  · subst hnil
    simp [joined_nil_left, seamLength]
  by_cases hlast : path1.getLast? = some PATH_SEP
  · simp [joined_of_getLast_sep hlast, seamLength, hlast]
  by_cases hhead : path2.head? = some PATH_SEP
  · simp [joined_of_head_sep hhead, seamLength, hhead]
  · simp only [joined_of_no_sep hnil hlast hhead, seamLength, hnil, hlast, hhead,
      List.length_append, List.length_cons, or_self, if_false]
    omega

/-- Where no two separators meet, the computed length is that of the result. -/
theorem joinPlan_of_seamFree (h : SeamFree path1 path2) :
    (joinPlan path1 path2).1 = seamLength path1 path2 := by
  by_cases hhead : path2.head? = some PATH_SEP
  · obtain ⟨hnil, hlast⟩ := h hhead
    have hlen : path2.length ≠ 0 := by
      rintro h0
      rw [List.length_eq_zero_iff] at h0
      simp [h0] at hhead
    simp only [joinPlan, seamLength, List.length_eq_zero_iff, hnil, hlast, hhead, hlen, ne_eq,
      not_false_eq_true, if_true, or_true]
    omega
  · by_cases hnil : path1 = []
    · by_cases h0 : path2.length = 0 <;> simp [joinPlan, seamLength, hnil, hhead, h0]
    · have hlen : path1.length ≠ 0 := by simpa using hnil
      by_cases h0 : path2.length = 0 <;> by_cases hlast : path1.getLast? = some PATH_SEP <;>
        simp [joinPlan, seamLength, hnil, hhead, hlast, h0]
      omega

/-- Where two separators meet, a separator is counted that is not dropped. -/
theorem joinPlan_of_not_seamFree (h : ¬ SeamFree path1 path2) :
    (joinPlan path1 path2).1 + 1 = seamLength path1 path2 := by
  obtain ⟨hhead, hseam⟩ := Classical.not_imp.mp h
  have hlen : 0 < path2.length := by
    cases path2 with
    | nil => cases hhead
    | cons c path2 => simp
  have hne : path2.length ≠ 0 := Nat.ne_of_gt hlen
  by_cases hnil : path1 = []
  · simp only [joinPlan, seamLength, hnil, hhead, hne, List.length_nil, ne_eq, not_true_eq_false,
      not_false_eq_true, if_true, if_false, true_or]
    omega
  · have hlast : path1.getLast? = some PATH_SEP := by
      by_contra hlast
      exact hseam ⟨hnil, hlast⟩
    simp only [joinPlan, seamLength, List.length_eq_zero_iff, hnil, hlast, hhead, hne, ne_eq,
      not_true_eq_false, not_false_eq_true, if_true, if_false, or_true]
    omega

/-- Where no two separators meet, the strings are joined with exactly one. -/
theorem joined_eq_of_seamFree (h : SeamFree path1 path2) (hnil : path1 ≠ []) :
    joined path1 path2 = withoutLastSep path1 ++ PATH_SEP :: withoutFirstSep path2 := by
  by_cases hhead : path2.head? = some PATH_SEP
  · have hlast := (h hhead).2
    obtain ⟨rest, rfl⟩ : ∃ rest, path2 = PATH_SEP :: rest := List.head?_eq_some_iff.mp hhead
    simp [joined_of_head_sep hhead, withoutLastSep, withoutFirstSep, hlast]
  · by_cases hlast : path1.getLast? = some PATH_SEP
    · obtain ⟨stem, rfl⟩ : ∃ stem, path1 = stem ++ [PATH_SEP] := List.getLast?_eq_some_iff.mp hlast
      simp [joined_of_getLast_sep hlast, withoutLastSep, withoutFirstSep, hhead]
    · simp [joined_of_no_sep hnil hlast hhead, withoutLastSep, withoutFirstSep, hhead, hlast]

end Seam

/-- **What `path_join` allocates.** The strings copied have the computed length, fit the allocated
bytes with their NUL, and are joined with exactly one separator, if and only if no two separators
meet at the seam and the length fits an `int`. -/
theorem joined_fits_iff (path1 path2 : CString) :
    ((joined path1 path2).length = lenpathjoined path1 path2 ∧
      (joined path1 path2).length + 1 ≤ toSize (toInt32 (lenpathjoined path1 path2 + 1)) ∧
      (path1 ≠ [] → path2 ≠ [] →
        joined path1 path2 = withoutLastSep path1 ++ PATH_SEP :: withoutFirstSep path2)) ↔
      SeamFree path1 path2 ∧ seamLength path1 path2 < 2 ^ 31 := by
  rw [length_joined]
  constructor
  · rintro ⟨hlen, -, -⟩
    have hlt : (seamLength path1 path2 : ℤ) < 2 ^ 31 := hlen ▸ toInt32_lt _
    refine ⟨?_, by exact_mod_cast hlt⟩
    by_contra hseam
    have hplan := joinPlan_of_not_seamFree hseam
    rw [lenpathjoined, toInt32_natCast (by omega)] at hlen
    omega
  · rintro ⟨hseam, hlt⟩
    have hlen : lenpathjoined path1 path2 = seamLength path1 path2 := by
      rw [lenpathjoined, joinPlan_of_seamFree hseam, toInt32_natCast hlt]
    refine ⟨hlen.symm, ?_, fun hnil _ => joined_eq_of_seamFree hseam hnil⟩
    rw [hlen]
    by_cases hmax : seamLength path1 path2 + 1 < 2 ^ 31
    · have hnat : ((seamLength path1 path2 : ℤ) + 1) = (seamLength path1 path2 + 1 : ℕ) := by simp
      rw [hnat, toInt32_natCast hmax, toSize_natCast_of_lt_int hmax]
    · -- the addition overflows, and the allocation is asked for more than there is
      have heq : seamLength path1 path2 = 2 ^ 31 - 1 := by omega
      rw [heq]
      decide

/-- Sharing `/` and asking for `/a` needs four bytes, and three are allocated. -/
theorem joined_root_overflows :
    (joined [47] [47, 97]).length ≠ lenpathjoined [47] [47, 97] ∧
      ¬ (joined [47] [47, 97]).length + 1 ≤ toSize (toInt32 (lenpathjoined [47] [47, 97] + 1)) := by
  decide

end Rhizofs
