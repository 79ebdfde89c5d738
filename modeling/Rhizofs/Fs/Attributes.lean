import Rhizofs.Fs.Metadata
import Rhizofs.Server.Trace

/-!
# Attributes across the wire

`Attrs_create` on the server and `Attrs_copy_to_stat` on the client are written apart from each
other. Put together they keep the size, the type and the permissions of a file and round its times
down to microseconds (`Stat.onWire`, `copyToStat_ofStat`), and doing so once more changes nothing
(`onWire_onWire`). So `attrs_survive`.
-/

namespace Rhizofs

open Extern

/-- What is left of a status when it has crossed the wire. -/
def Stat.onWire (st : Stat) : Stat :=
  { Stat.zero with
    stMode := (FileType.fromLocal st.stMode).toLocal ||| (st.stMode &&& 0o777)
    stNlink := 1
    stSize := st.stSize
    stAtim := st.stAtim.toMicro
    stMtim := st.stMtim.toMicro
    stCtim := st.stCtim.toMicro }

section Times

variable {t : Timespec}

/-- The microseconds of a valid time are an `int`, also as nanoseconds. -/
theorem Timespec.Valid.noOverflow (h : t.Valid) :
    toInt32 (t.tvNsec.tdiv 1000) = t.tvNsec.tdiv 1000 ∧
      toInt32 (t.tvNsec.tdiv 1000 * 1000) = t.tvNsec.tdiv 1000 * 1000 := by
  obtain ⟨h₁, h₂⟩ := h.div
  rw [Int.tdiv_eq_ediv_of_nonneg h.1]
  exact ⟨toInt32_of_mem (by omega) (by omega), toInt32_of_mem (by omega) (by omega)⟩

theorem Timespec.Valid.usecToNsec_eq (h : t.Valid) :
    usecToNsec (some (toInt32 (t.tvNsec.tdiv 1000))) = t.tvNsec / 1000 * 1000 := by
  obtain ⟨h₁, h₂⟩ := h.noOverflow
  show toInt32 (toInt32 (t.tvNsec.tdiv 1000) * 1000) = _
  rw [h₁, h₂, Int.tdiv_eq_ediv_of_nonneg h.1]

theorem Timespec.toMicro_toMicro (t : Timespec) : t.toMicro.toMicro = t.toMicro := by
  show Timespec.mk t.tvSec (t.toMicro.tvNsec / 1000 * 1000) = _
  rw [Timespec.toMicro_div]
  rfl

end Times

section Attributes

variable {st : Stat}

/-- The mode of a file of a POSIX type survives, without the bits above the permissions. -/
theorem onWire_stMode {type : ℕ} (htype : type ∈ fileTypes) (h : isFileType st.stMode type) :
    st.onWire.stMode = st.stMode &&& (S_IFMT ||| 0o777) := by
  have hmode : st.stMode &&& S_IFMT = type := by simpa [isFileType] using h
  rw [Nat.and_or_distrib_left, hmode, ← FileType.toLocal_fromLocal htype h]
  rfl

theorem toLocal_mem (filetype : FileType) : filetype.toLocal ∈ fileTypes := by
  cases filetype <;> simp [FileType.toLocal, fileTypes]

/-- Crossing the wire once more changes nothing. -/
theorem onWire_onWire (st : Stat) : st.onWire.onWire = st.onWire := by
  have htype : isFileType st.onWire.stMode (FileType.fromLocal st.stMode).toLocal :=
    beq_iff_eq.mpr (FileType.toLocal_or_and_ifmt _ _)
  have hmode : st.onWire.onWire.stMode = st.onWire.stMode := by
    show (FileType.fromLocal st.onWire.stMode).toLocal ||| (st.onWire.stMode &&& 0o777) = _
    rw [FileType.toLocal_fromLocal (toLocal_mem _) htype]
    show _ ||| (((FileType.fromLocal st.stMode).toLocal ||| (st.stMode &&& 0o777)) &&& 0o777) = _
    rw [FileType.toLocal_or_and_permissions]
    rfl
  simp only [Stat.onWire, Timespec.toMicro_toMicro] at hmode ⊢
  rw [hmode]

/-- The attributes of a status are decoded as what is left of it. -/
theorem copyToStat_ofStat (hatim : st.stAtim.Valid) (hmtim : st.stMtim.Valid)
    (hctim : st.stCtim.Valid) (uid : ℕ) (isInGroup : Bool) (name : Option CString) :
    (Attrs.ofStat st (.ofMode st.stMode) uid isInGroup name).copyToStat = (true, st.onWire) := by
  have hmode := Permissions.toBitmask_ofMode st.stMode
  simp only [Attrs.copyToStat, Attrs.ofStat, TimeSet.ofStat, hmode, hatim.usecToNsec_eq,
    hmtim.usecToNsec_eq, hctim.usecToNsec_eq]
  rfl

theorem permissions_of_traces {mode : ℕ} {tr : Trace} {permissions : Permissions}
    (h : (mem (Permissions.create mode)).Traces tr (some permissions)) :
    permissions = .ofMode mode := by
  obtain ⟨_ | _, _, -, h₁⟩ := h
  · cases h₁.2
  obtain ⟨_ | _, _, -, h₂⟩ := h₁
  · cases h₂.2
  obtain ⟨_ | _, _, -, h₃⟩ := h₂
  · cases h₃.2
  obtain ⟨_ | _, _, -, h₄⟩ := h₃
  · cases h₄.2
  exact Option.some.inj h₄.2

/-- What `Attrs_create` returns when it succeeds. -/
theorem attrs_of_traces {name : Option CString} {tr : Trace} {attrs : Attrs}
    (h : (Attrs.create st name).Traces tr (some attrs)) :
    ∃ uid isInGroup, attrs = .ofStat st (.ofMode st.stMode) uid isInGroup name := by
  obtain ⟨_ | _, _, -, h₁⟩ := h
  · cases h₁.2
  obtain ⟨_ | _, _, _, -, -, h₂⟩ := (Prog.traces_bind (mem (dupName name)) _ _ _).mp h₁
  · cases h₂.2
  obtain ⟨_ | permissions, _, _, -, hpermissions, h₃⟩ := (Prog.traces_bind (mem _) _ _ _).mp h₂
  · cases h₃.2
  obtain rfl := permissions_of_traces hpermissions
  obtain ⟨_ | _, _, _, -, -, h₄⟩ := (Prog.traces_bind (mem TimeSet.create) _ _ _).mp h₃
  · cases h₄.2
  obtain ⟨uid, _, -, h₅⟩ := h₄
  obtain ⟨_ | isInGroup, _, _, -, -, h₆⟩ :=
    (Prog.traces_bind (posixCurrentUserInGroup _) _ _ _).mp h₅
  · cases h₆.2
  exact ⟨uid, isInGroup, Option.some.inj h₆.2⟩

/-- **Attributes survive the wire.** `Attrs_create` fails only when an allocation or the lookup of
the groups does. What it returns is decoded as the size, the type and the permissions of the file
with its times rounded down to microseconds, no conversion overflows, and what is decoded survives
the wire as it is. -/
theorem attrs_survive (hatim : st.stAtim.Valid) (hmtim : st.stMtim.Valid) (hctim : st.stCtim.Valid)
    {name : Option CString} {tr : Trace} {created : Option Attrs}
    (hrun : (Attrs.create st name).Traces tr created) :
    (created = none ↔ lastAlloc tr = some false ∨ ∃ ev ∈ tr, Drops .getattr ev) ∧
    (∀ t ∈ [st.stAtim, st.stMtim, st.stCtim], toInt32 (t.tvNsec.tdiv 1000) = t.tvNsec.tdiv 1000 ∧
      toInt32 (t.tvNsec.tdiv 1000 * 1000) = t.tvNsec.tdiv 1000 * 1000) ∧
    ∀ attrs, created = some attrs → ∃ st', attrs.copyToStat = (true, st') ∧
      st'.stSize = st.stSize ∧ st'.stNlink = 1 ∧
      (∀ type ∈ fileTypes, isFileType st.stMode type →
        st'.stMode = st.stMode &&& (S_IFMT ||| 0o777)) ∧
      st'.stAtim = st.stAtim.toMicro ∧ st'.stMtim = st.stMtim.toMicro ∧
      st'.stCtim = st.stCtim.toMicro ∧
      ∀ name' tr' attrs', (Attrs.create st' name').Traces tr' (some attrs') →
        attrs'.copyToStat = (true, st') := by
  refine ⟨(isHelperProg_attrs_create st name tr created hrun).explains .getattr, ?_, ?_⟩
  · intro t ht
    simp only [List.mem_cons, List.not_mem_nil, or_false] at ht
    obtain rfl | rfl | rfl := ht
    · exact hatim.noOverflow
    · exact hmtim.noOverflow
    · exact hctim.noOverflow
  · intro attrs hcreated
    subst hcreated
    obtain ⟨uid, isInGroup, rfl⟩ := attrs_of_traces hrun
    refine ⟨st.onWire, copyToStat_ofStat hatim hmtim hctim _ _ _, rfl, rfl, ?_, rfl, rfl, rfl, ?_⟩
    · intro type htype hmode
      exact onWire_stMode htype hmode
    · intro name' tr' attrs' hrun'
      obtain ⟨uid', isInGroup', rfl⟩ := attrs_of_traces hrun'
      have hagain : (Attrs.ofStat st.onWire (.ofMode st.onWire.stMode) uid' isInGroup'
          name').copyToStat = (true, st.onWire.onWire) :=
        copyToStat_ofStat hatim.toMicro hmtim.toMicro hctim.toMicro uid' isInGroup' name'
      rwa [onWire_onWire] at hagain

/-- A regular file with the set-user-ID bit, whose times have nanoseconds. -/
def setuidFile : Stat :=
  { Stat.zero with
    stMode := S_IFREG ||| 0o4644
    stSize := 7
    stAtim := ⟨3, 1999⟩ }

theorem attrs_survive_setuidFile : ∃ tr attrs st',
    (Attrs.create setuidFile none).Traces tr (some attrs) ∧ attrs.copyToStat = (true, st') ∧
      st'.stSize = 7 ∧ st'.stMode = S_IFREG ||| 0o644 ∧ st'.stAtim = ⟨3, 1000⟩ := by
  have hrun : (Attrs.create setuidFile none).Traces _ (some _) :=
    ⟨true, _, rfl, true, _, rfl, true, _, rfl, true, _, rfl, true, _, rfl, true, _, rfl, (0 : ℕ), _,
      rfl, .ok 0, _, rfl, true, _, rfl, .ok [], _, rfl, rfl, rfl⟩
  have hzero : Timespec.Valid ⟨0, 0⟩ := ⟨by decide, by decide⟩
  have hatim : setuidFile.stAtim.Valid := ⟨by decide, by decide⟩
  obtain ⟨-, -, hsurvive⟩ := attrs_survive hatim hzero hzero hrun
  obtain ⟨st', hcopy, hsize, -, hmode, htime, -⟩ := hsurvive _ rfl
  exact ⟨_, _, st', hrun, hcopy, hsize, hmode S_IFREG (by decide) (by decide), htime⟩

end Attributes

end Rhizofs
