import Rhizofs.Server.ServeDir

/-!
# Runs of the server's helper functions

A run of a server function is a trace: the calls it made with the answers received. Most
functions called by the handlers allocate memory and look up the user, and they fail exactly when
their last allocation or the lookup does (`HelperRun`). This holds of `Attrs_create`, `path_join`
and the storing of data in a response, and it is put together along the program
(`isHelperProg_bind`). The decoding of a block can also fail for other reasons
(`traces_writeData`).
-/

namespace Rhizofs

open Extern

/-- The calls of a run with their answers. -/
abbrev Trace : Type := List (Event SysRet)

/-- The answer to the last allocation of a run. -/
def lastAlloc : Trace → Option Bool
  | [] => none
  | ⟨.alloc _, ok⟩ :: tr => (lastAlloc tr).or (some ok)
  | _ :: tr => lastAlloc tr

theorem lastAlloc_append (tr₁ tr₂ : Trace) :
    lastAlloc (tr₁ ++ tr₂) = (lastAlloc tr₂).or (lastAlloc tr₁) := by
  induction tr₁ with
  | nil => simp [lastAlloc]
  | cons ev tr₁ ih =>
    obtain ⟨c, r⟩ := ev
    cases c <;> simp [lastAlloc, ih]

/-- A failed answer that ends or spoils the operation without any report. -/
def Drops (type : RequestType) : Event SysRet → Prop
  | ⟨.readdir _, (_, some _)⟩ => True
  | ⟨.ngroups, .error _⟩ => True
  | ⟨.getgroups _, .error _⟩ => True
  | ⟨.close _, .error _⟩ => type = .write
  | _ => False

theorem traces_sys {α : Type} {c : SysCall} {f : SysRet c → Prog SysRet α} {tr : Trace} {a : α} :
    (sys c >>= f).Traces tr a ↔ ∃ r tr', tr = ⟨c, r⟩ :: tr' ∧ (f r).Traces tr' a := Iff.rfl

/-! ## Runs of the helper functions -/

/-- The calls of the helper functions: allocations and the lookup of the user. -/
def SysCall.IsHelper : SysCall → Prop
  | .alloc (.entries _) => False
  | .alloc _ | .getuid | .ngroups | .getgroups _ => True
  | _ => False

/-- The failure of a part of a run is what its last allocation and its dropped answers say. -/
def Explains (type : RequestType) (tr : Trace) (failed : Prop) : Prop :=
  failed ↔ lastAlloc tr = some false ∨ ∃ ev ∈ tr, Drops type ev

theorem Explains.append {type : RequestType} {tr₁ tr₂ : Trace} {failed₁ failed₂ : Prop}
    (h₁ : Explains type tr₁ failed₁) (hok : ¬ failed₁) (h₂ : Explains type tr₂ failed₂) :
    Explains type (tr₁ ++ tr₂) failed₂ := by
  have n₁ := mt h₁.mpr hok
  push Not at n₁
  have hlast : lastAlloc (tr₁ ++ tr₂) = some false ↔ lastAlloc tr₂ = some false := by
    rw [lastAlloc_append]
    cases lastAlloc tr₂ <;> simp [n₁.1]
  apply Iff.trans h₂
  rw [hlast]
  refine or_congr_right ⟨fun ⟨ev, hev, hd⟩ => ⟨ev, List.mem_append_right _ hev, hd⟩, ?_⟩
  rintro ⟨ev, hev, hd⟩
  rcases List.mem_append.mp hev with h | h
  · exact absurd hd (n₁.2 ev h)
  · exact ⟨ev, h, hd⟩

/-- A run of a helper function. It makes helper calls only, and it fails exactly when the last
allocation or the group lookup did. -/
structure HelperRun (tr : Trace) (failed : Prop) : Prop where
  isHelper : ∀ ev ∈ tr, ev.1.IsHelper
  explains : ∀ type, Explains type tr failed

/-- All runs of `p` are helper runs, failing when the result is in `failed`. -/
def IsHelperProg {α : Type} (failed : α → Prop) (p : Prog SysRet α) : Prop :=
  ∀ tr a, p.Traces tr a → HelperRun tr (failed a)

section HelperRules

variable {α β : Type}

theorem isHelperProg_ret {failed : α → Prop} {a : α} (h : ¬ failed a) :
    IsHelperProg failed (.ret a) := by
  rintro tr b ⟨rfl, rfl⟩
  exact ⟨by simp, fun _ => by simpa [Explains, lastAlloc] using h⟩

theorem isHelperProg_alloc {c : Chunk} (hc : ∀ n, c ≠ .entries n) :
    IsHelperProg (· = false) (sys (.alloc c)) := by
  rintro tr ok ⟨r, _, rfl, rfl, rfl⟩
  refine ⟨?_, ?_⟩
  · cases c <;> simp_all [SysCall.IsHelper]
  · cases c <;> simp_all [Explains, lastAlloc, Drops]

/-- Sequencing helpers: a failure of the first ends the run, after a success the second decides. -/
theorem isHelperProg_bind (failed : α → Prop) {failed' : β → Prop} {p : Prog SysRet α}
    {f : α → Prog SysRet β} (hp : IsHelperProg failed p)
    (hfail : ∀ a, failed a → ∃ b, f a = .ret b ∧ failed' b)
    (hok : ∀ a, ¬ failed a → IsHelperProg failed' (f a)) : IsHelperProg failed' (p >>= f) := by
  intro tr b h
  obtain ⟨a, tr₁, tr₂, rfl, h₁, h₂⟩ := (Prog.traces_bind p f tr b).mp h
  have r₁ := hp tr₁ a h₁
  by_cases ha : failed a
  · obtain ⟨b', hb', hf⟩ := hfail a ha
    rw [hb'] at h₂
    obtain ⟨rfl, rfl⟩ := h₂
    refine ⟨by simpa using r₁.isHelper, fun type => ?_⟩
    simpa [Explains, hf, ha] using r₁.explains type
  · have r₂ := hok a ha tr₂ b h₂
    refine ⟨fun ev hev => ?_, fun type => (r₁.explains type).append ha (r₂.explains type)⟩
    rcases List.mem_append.mp hev with h | h
    · exact r₁.isHelper ev h
    · exact r₂.isHelper ev h

/-- A program that allocates first and gives up when that fails. -/
theorem isHelperProg_allocThen {failed : β → Prop} {c : Chunk} (hc : ∀ n, c ≠ .entries n)
    {f : Bool → Prog SysRet β} (hfalse : ∃ b, f false = .ret b ∧ failed b)
    (htrue : IsHelperProg failed (f true)) : IsHelperProg failed (sys (.alloc c) >>= f) := by
  refine isHelperProg_bind _ (isHelperProg_alloc hc) ?_ ?_
  · rintro ok rfl
    exact hfalse
  · intro ok hok
    cases ok with
    | false => exact absurd rfl hok
    | true => exact htrue

/-- A program that gives up when a helper has no result. -/
theorem isHelperProg_optionThen {failed : β → Prop} {p : Prog SysRet (Option α)}
    {f : Option α → Prog SysRet β} (hp : IsHelperProg (· = none) p)
    (hnone : ∃ b, f none = .ret b ∧ failed b) (hsome : ∀ a, IsHelperProg failed (f (some a))) :
    IsHelperProg failed (p >>= f) := by
  refine isHelperProg_bind _ hp ?_ ?_
  · rintro o rfl
    exact hnone
  · rintro (_ | a) ha
    · exact absurd rfl ha
    · exact hsome a

theorem isHelperProg_mem_allocThen {failed : β → Prop} {c : Chunk} (hc : ∀ n, c ≠ .entries n)
    {f : Bool → Prog MemRet β} (hfalse : ∃ b, f false = .ret b ∧ failed b)
    (htrue : IsHelperProg failed (mem (f true))) : IsHelperProg failed (mem (alloc c >>= f)) := by
  obtain ⟨b, hb, hf⟩ := hfalse
  exact isHelperProg_allocThen (f := fun ok => mem (f ok)) hc ⟨b, by rw [hb]; rfl, hf⟩ htrue

theorem isHelperProg_mem_optionThen {failed : β → Prop} {p : Prog MemRet (Option α)}
    {f : Option α → Prog MemRet β} (hp : IsHelperProg (· = none) (mem p))
    (hnone : ∃ b, f none = .ret b ∧ failed b)
    (hsome : ∀ a, IsHelperProg failed (mem (f (some a)))) :
    IsHelperProg failed (mem (p >>= f)) := by
  obtain ⟨b, hb, hf⟩ := hnone
  rw [mem_bind]
  exact isHelperProg_optionThen hp ⟨b, by rw [hb]; rfl, hf⟩ hsome

end HelperRules

theorem isHelperProg_permissionSet_create :
    IsHelperProg (· = none) (mem PermissionSet.create) :=
  isHelperProg_mem_allocThen (by simp) ⟨_, rfl, rfl⟩ (isHelperProg_ret (by simp))

theorem isHelperProg_permissions_create (mode : ℕ) :
    IsHelperProg (· = none) (mem (Permissions.create mode)) := by
  have h := isHelperProg_permissionSet_create
  refine isHelperProg_mem_allocThen (by simp) ⟨_, rfl, rfl⟩ ?_
  refine isHelperProg_mem_optionThen h ⟨_, rfl, rfl⟩ fun _ => ?_
  refine isHelperProg_mem_optionThen h ⟨_, rfl, rfl⟩ fun _ => ?_
  refine isHelperProg_mem_optionThen h ⟨_, rfl, rfl⟩ fun _ => ?_
  exact isHelperProg_ret (by simp)

theorem isHelperProg_timeSet_create : IsHelperProg (· = none) (mem TimeSet.create) :=
  isHelperProg_mem_allocThen (by simp) ⟨_, rfl, rfl⟩ (isHelperProg_ret (by simp))

theorem isHelperProg_statFs_create (stfs : StatVfs) :
    IsHelperProg (· = none) (mem (StatFs.create stfs)) :=
  isHelperProg_mem_allocThen (by simp) ⟨_, rfl, rfl⟩ (isHelperProg_ret (by simp))

theorem isHelperProg_pathJoin (path1 path2 : CString) :
    IsHelperProg (· = none) (mem (pathJoin path1 path2)) :=
  isHelperProg_mem_allocThen (by simp) ⟨_, rfl, rfl⟩ (isHelperProg_ret (by simp))

theorem isHelperProg_dupName (name : Option CString) :
    IsHelperProg (· = false) (mem (dupName name)) := by
  cases name with
  | none => exact isHelperProg_ret (by simp)
  | some s => exact isHelperProg_alloc (by simp)

theorem isHelperProg_posixCurrentUserInGroup (gid : ℕ) :
    IsHelperProg (· = none) (posixCurrentUserInGroup gid) := by
  refine isHelperProg_bind (fun r => ∃ e, r = .error e) ?_ ?_ ?_
  · rintro tr r ⟨r', _, rfl, rfl, rfl⟩
    refine ⟨by simp [SysCall.IsHelper], fun type => ?_⟩
    cases r <;> simp [Explains, lastAlloc, Drops]
  · rintro _ ⟨e, rfl⟩
    exact ⟨none, rfl, rfl⟩
  rintro (e | nGroups) hok
  · exact absurd ⟨e, rfl⟩ hok
  refine isHelperProg_allocThen (by simp) ⟨none, rfl, rfl⟩ ?_
  refine isHelperProg_bind (fun r => ∃ e, r = .error e) ?_ ?_ ?_
  · rintro tr r ⟨r', _, rfl, rfl, rfl⟩
    refine ⟨by simp [SysCall.IsHelper], fun type => ?_⟩
    cases r <;> simp [Explains, lastAlloc, Drops]
  · rintro _ ⟨e, rfl⟩
    exact ⟨none, rfl, rfl⟩
  rintro (e | groups) hok
  · exact absurd ⟨e, rfl⟩ hok
  exact isHelperProg_ret (by simp)

theorem isHelperProg_getuid {β : Type} {failed : β → Prop} {f : ℕ → Prog SysRet β}
    (h : ∀ uid, IsHelperProg failed (f uid)) : IsHelperProg failed (sys .getuid >>= f) := by
  refine isHelperProg_bind (fun _ => False) ?_ (by simp) fun uid _ => h uid
  rintro tr r ⟨r', _, rfl, rfl, rfl⟩
  exact ⟨by simp [SysCall.IsHelper], by simp [Explains, lastAlloc, Drops]⟩

theorem isHelperProg_attrs_create (statResult : Stat) (name : Option CString) :
    IsHelperProg (· = none) (Attrs.create statResult name) := by
  refine isHelperProg_allocThen (by simp) ⟨none, rfl, rfl⟩ ?_
  refine isHelperProg_bind _ (isHelperProg_dupName name) ?_ ?_
  · rintro ok rfl
    exact ⟨none, rfl, rfl⟩
  rintro (_ | _) hok
  · exact absurd rfl hok
  refine isHelperProg_optionThen (isHelperProg_permissions_create _) ⟨none, rfl, rfl⟩ fun _ => ?_
  refine isHelperProg_optionThen isHelperProg_timeSet_create ⟨none, rfl, rfl⟩ fun _ => ?_
  refine isHelperProg_getuid fun uid => ?_
  refine isHelperProg_optionThen (isHelperProg_posixCurrentUserInGroup _) ⟨none, rfl, rfl⟩
    fun _ => ?_
  exact isHelperProg_ret (by simp)

theorem isHelperProg_setRawData (dblk : DataBlock) (data : List UInt8) :
    IsHelperProg (·.1 = false) (mem (dblk.setRawData data)) :=
  isHelperProg_mem_allocThen (by simp) ⟨_, rfl, rfl⟩ (isHelperProg_ret (by simp))

/-- Only the allocation of the raw copy decides: a failed compression is made up for. -/
theorem isHelperProg_setData (lz4 : Lz4) (dblk : DataBlock) (data : List UInt8) :
    IsHelperProg (·.1 = false) (mem (dblk.setData lz4 data .lz4)) := by
  by_cases h0 : data.length = 0
  · rw [DataBlock.setData, if_pos h0]
    exact isHelperProg_ret (by simp)
  by_cases h100 : data.length > 100
  swap
  · simpa only [DataBlock.setData, if_neg h0, if_neg h100] using isHelperProg_setRawData dblk data
  simp only [DataBlock.setData, if_neg h0, if_pos h100, mem_bind]
  intro tr out h
  obtain ⟨⟨rc, dblk'⟩, tr₁, tr₂, rfl, h₁, h₂⟩ := (Prog.traces_bind _ _ _ _).mp h
  simp only [DataBlock.setLz4CompressedData, alloc, Prog.perform_bind, mem_call,
    Prog.traces_call] at h₁
  obtain ⟨ok, tr₁', rfl, h₁⟩ := h₁
  obtain ⟨rfl, hok⟩ : tr₁' = [] ∧ (rc ≠ -1 → ok = true) := by
    cases ok with
    | false => simp_all
    | true =>
      simp only [Bool.not_true, Bool.false_eq_true, if_false] at h₁
      split_ifs at h₁ <;> exact ⟨h₁.1, fun _ => rfl⟩
  by_cases hrc : rc = -1
  · have hraw : (mem (dblk'.setRawData data)).Traces tr₂ out := by simpa [hrc] using h₂
    have r₂ := isHelperProg_setRawData dblk' data tr₂ out hraw
    obtain ⟨ok₂, _, rfl, -⟩ := hraw
    refine ⟨?_, fun type => ?_⟩
    · simpa [SysCall.IsHelper] using r₂.isHelper
    · simpa [Explains, lastAlloc, Drops] using r₂.explains type
  · obtain ⟨rfl, rfl⟩ : tr₂ = [] ∧ out = (true, _) := by simpa [hrc] using h₂
    refine ⟨by simp [SysCall.IsHelper], fun type => ?_⟩
    simp [Explains, lastAlloc, Drops, hok hrc]

theorem isHelperProg_response_setData (lz4 : Lz4) {response : Response} (data : List UInt8)
    (h : response.datablock = none) :
    IsHelperProg (·.1 = false) (mem (response.setData lz4 data)) := by
  have hcreate : IsHelperProg (· = none) (mem DataBlock.create) :=
    isHelperProg_mem_allocThen (by simp) ⟨_, rfl, rfl⟩ (isHelperProg_ret (by simp))
  have hdata : IsHelperProg (· = none) (mem (DataBlock.ofData lz4 data)) := by
    refine isHelperProg_mem_optionThen hcreate ⟨_, rfl, rfl⟩ fun datablock => ?_
    simp only [mem_bind]
    refine isHelperProg_bind _ (isHelperProg_setData lz4 datablock data) ?_ ?_
    · rintro ⟨ok, datablock'⟩ rfl
      exact ⟨none, rfl, rfl⟩
    · rintro ⟨ok, datablock'⟩ hok
      cases ok with
      | false => exact absurd rfl hok
      | true => exact isHelperProg_ret (by simp)
  simp only [Response.setData, h, Option.isSome_none, Bool.false_eq_true, if_false]
  exact isHelperProg_mem_optionThen hdata ⟨_, rfl, rfl⟩ fun _ => isHelperProg_ret (by simp)

theorem response_setData_errnotype {lz4 : Lz4} {response : Response} {data : List UInt8}
    {tr : Trace} {out : Bool × Response}
    (h : (mem (response.setData lz4 data)).Traces tr out) :
    out.2.errnotype = response.errnotype := by
  unfold Response.setData at h
  split_ifs at h
  · obtain ⟨-, rfl⟩ := h
    rfl
  · rw [mem_bind, Prog.traces_bind] at h
    obtain ⟨_ | datablock, tr₁, tr₂, -, -, h₂⟩ := h
    all_goals
      obtain ⟨-, rfl⟩ := h₂
      rfl

/-- `writeData` makes at most one allocation, without which it has no result. -/
theorem writeData_eq (lz4 : Lz4) (datablock : DataBlock) (size : ℤ) :
    ServeDir.writeData lz4 datablock size = .ret none ∨
      ∃ n k, ServeDir.writeData lz4 datablock size = .call (.bytes n) k ∧ k false = .ret none ∧
        ∃ out, k true = .ret out := by
  unfold ServeDir.writeData DataBlock.getData DataBlock.decoder
  cases datablock.compression with
  | none | lz4 =>
    refine .inr ⟨_, _, rfl, rfl, ?_⟩
    dsimp only
    exact ⟨_, rfl⟩
  | other n => exact .inl rfl

/-- A run of `writeData`: without memory it has no result, with memory the one of `exec`. -/
theorem traces_writeData {lz4 : Lz4} {datablock : DataBlock} {size : ℤ} {tr : Trace}
    {out : Option (List UInt8)}
    (h : (mem (ServeDir.writeData lz4 datablock size)).Traces tr out) :
    (∀ ev ∈ tr, ev.1.IsHelper ∧ ∀ type, ¬ Drops type ev) ∧
      (lastAlloc tr = some false ∧ out = none ∨
        lastAlloc tr ≠ some false ∧
          (ServeDir.writeData lz4 datablock size).exec allocAll () = (out, ())) := by
  rcases writeData_eq lz4 datablock size with heq | ⟨n, k, heq, hfalse, res, htrue⟩
  · rw [heq] at h ⊢
    obtain ⟨rfl, rfl⟩ := h
    exact ⟨by simp, .inr ⟨by simp [lastAlloc], rfl⟩⟩
  · rw [heq] at h ⊢
    rw [mem_call, Prog.traces_call] at h
    obtain ⟨ok, tr', rfl, hk⟩ := h
    cases ok with
    | false =>
      rw [hfalse] at hk
      obtain ⟨rfl, rfl⟩ := hk
      exact ⟨by simp [SysCall.IsHelper, Drops], .inl ⟨rfl, rfl⟩⟩
    | true =>
      rw [htrue] at hk
      obtain ⟨rfl, rfl⟩ := hk
      refine ⟨by simp [SysCall.IsHelper, Drops], .inr ⟨by simp [lastAlloc], ?_⟩⟩
      rw [Prog.exec_call]
      exact congrArg (Prog.exec allocAll · ()) htrue

/-- Creating a response makes two allocations, and gives up when one fails. -/
theorem traces_response_create {tr : Trace} {r : Option Response}
    (h : (mem Response.create).Traces tr r) :
    r = none ∧ ⟨.alloc .record, false⟩ ∈ tr ∨
      r = some .initial ∧ tr = [⟨.alloc .record, true⟩, ⟨.alloc .record, true⟩] := by
  obtain ⟨ok, tr, rfl, h⟩ := h
  cases ok with
  | false => exact .inl ⟨h.2, List.mem_cons_self ..⟩
  | true =>
    obtain ⟨ok, tr, rfl, h⟩ := h
    cases ok with
    | false => exact .inl ⟨h.2, List.mem_cons_of_mem _ (List.mem_cons_self ..)⟩
    | true =>
      obtain ⟨rfl, rfl⟩ := h
      exact .inr ⟨rfl, rfl⟩

end Rhizofs
