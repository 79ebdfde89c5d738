import Rhizofs.Server.Trace

/-!
# Refused writes

`ServeDir_op_write` opens the file with `O_CREAT` before it looks at the datablock. A request
without a parameter is refused before any call on the file tree, but a block that cannot be decoded,
or whose length is not the requested one, is refused when the file is open. Such a request leaves
the tree as it was exactly when there was a file to open (`refused_write_keeps_tree_iff`).

The operating system is a relation, and `FileTree` is what POSIX says of its calls on a part of its
state, the file tree. `namesOnly` is an operating system whose files have only names.
-/

namespace Rhizofs

open Extern

/-- `tree` is the file tree in the state of the operating system `step`. Opening the path `path`
with `O_CREAT` finds a file there when `present path` holds of the tree, and otherwise makes one. -/
structure FileTree {S T : Type} (step : (c : SysCall) → S → SysRet c → S → Prop) (tree : S → T)
    (present : CString → T → Prop) : Prop where
  alloc : ∀ {c s ok s'}, step (.alloc c) s ok s' → tree s' = tree s
  close : ∀ {fd s r s'}, step (.close fd) s r s' → tree s' = tree s
  open_present : ∀ {path flags mode s fd s'}, flags &&& O_TRUNC = 0 → present path (tree s) →
    step (.open path flags mode) s (.ok fd) s' → tree s' = tree s
  open_creates : ∀ {path flags mode s fd s'}, flags &&& O_CREAT ≠ 0 → ¬ present path (tree s) →
    step (.open path flags mode) s (.ok fd) s' → tree s' ≠ tree s

/-- The request has no size, no offset, no data or no path. -/
def Request.LacksWriteParameter (request : Request) : Prop :=
  request.size = none ∨ request.offset = none ∨ request.hasData = -1 ∨ request.path = none

/-- The run opened a file. -/
def Opened (tr : Trace) : Prop :=
  ∃ path flags mode fd, (⟨.open path flags mode, .ok fd⟩ : Event SysRet) ∈ tr

/-- The run passed no data to the file. -/
def WritesNothing (tr : Trace) : Prop :=
  ∀ fd data offset r, (⟨.pwrite fd data offset, r⟩ : Event SysRet) ∉ tr

/-- The run refuses the request: a parameter is missing, or the handler gives up on the open file
before anything is written to it. -/
structure WriteRefused (request : Request) (tr : Trace) (out : ℤ × Response) : Prop where
  rc : out.1 = -1
  reason : request.LacksWriteParameter ∨ Opened tr ∧ WritesNothing tr

/-! ## Allocations -/

/-- The events of the trace are allocations. -/
def AllocsOnly (tr : Trace) : Prop := ∀ ev ∈ tr, ∃ c, ev.1 = .alloc c

theorem allocsOnly_mem {α : Type} {p : Prog MemRet α} {tr : Trace} {a : α}
    (h : (mem p).Traces tr a) : AllocsOnly tr := by
  induction p generalizing tr with
  | ret b =>
    obtain ⟨rfl, -⟩ := h
    intro ev hev
    cases hev
  | call c k ih =>
    obtain ⟨ok, tr', rfl, hk⟩ := h
    intro ev hev
    rcases List.mem_cons.mp hev with rfl | hev
    · exact ⟨c, rfl⟩
    · exact ih ok hk ev hev

theorem AllocsOnly.not_opened {tr : Trace} (h : AllocsOnly tr) : ¬ Opened tr := by
  rintro ⟨path, flags, mode, fd, hmem⟩
  obtain ⟨c, hc⟩ := h _ hmem
  cases hc

theorem traces_fullpath_allocs {sd : ServeDir} {request : Request} {tr : Trace}
    {path : Option CString} (h : (sd.fullpath request).Traces tr path) :
    AllocsOnly tr ∧ (request.path = none → path = none) ∧
      ∀ full, path = some full →
        ∃ rel, request.path = some rel ∧ full = joined sd.directory rel := by
  unfold ServeDir.fullpath at h
  cases hpath : request.path with
  | none =>
    simp only [hpath] at h
    obtain ⟨rfl, rfl⟩ := h
    exact ⟨by simp [AllocsOnly], fun _ => rfl, by simp⟩
  | some rel =>
    simp only [hpath] at h
    have hallocs := allocsOnly_mem h
    obtain ⟨ok, tr', rfl, h⟩ := h
    cases ok <;>
      obtain ⟨rfl, rfl⟩ := h <;>
      simp_all

/-! ## The runs of the handler -/

section Runs

variable {lz4 : Lz4} {sd : ServeDir} {request : Request} {response : Response} {tr : Trace}
  {out : ℤ × Response}

/-- The refusing runs of `ServeDir_op_write`: only allocations, or the file is opened, its block
is looked at and it is closed. -/
inductive RefusedRun (sd : ServeDir) (request : Request) : Trace → Prop
  | early {tr : Trace} (lacks : request.LacksWriteParameter) (allocs : AllocsOnly tr) :
      RefusedRun sd request tr
  | opened {rel : CString} {fd : ℕ} {closed : Except Failure Unit} {tr₁ tr₂ : Trace}
      (complete : ¬ request.LacksWriteParameter) (path : request.path = some rel)
      (join : AllocsOnly tr₁) (decode : AllocsOnly tr₂) :
      RefusedRun sd request (tr₁ ++
        ⟨.open (joined sd.directory rel) (O_CREAT ||| O_WRONLY) defaultFileCreationPermissions,
          .ok fd⟩ :: (tr₂ ++ [⟨.close fd, closed⟩]))

/-- A run that got to the end of the checks on the parameters. -/
theorem refusedRun_of_complete {size offset : ℤ} {datablock : DataBlock}
    (hsize : request.size = some size) (hoffset : request.offset = some offset)
    (hhas : request.hasData ≠ -1) (hblock : request.datablock = some datablock)
    (h : (ServeDir.opWrite lz4 sd request response).Traces tr out)
    (href : WriteRefused request tr out) : RefusedRun sd request tr := by
  simp only [ServeDir.opWrite, hsize, hoffset, if_neg hhas, hblock] at h
  obtain ⟨path, tr₁, tr₂, rfl, hpath, h₁⟩ := (Prog.traces_bind (sd.fullpath request) _ _ _).mp h
  obtain ⟨hjoin, hnone, hfull⟩ := traces_fullpath_allocs hpath
  cases path with
  | none =>
    obtain ⟨rfl, rfl⟩ := h₁
    rw [List.append_nil] at href ⊢
    rcases href.reason with hlacks | ⟨hopened, -⟩
    · exact .early hlacks hjoin
    · exact absurd hopened hjoin.not_opened
  | some full =>
  obtain ⟨rel, hrel, rfl⟩ := hfull full rfl
  have hcomplete : ¬ request.LacksWriteParameter := by
    simp [Request.LacksWriteParameter, hsize, hoffset, hhas, hrel]
  obtain ⟨opened, tr₃, rfl, h₂⟩ := h₁
  cases opened with
  | error e =>
    obtain ⟨-, rfl⟩ := h₂
    exact absurd href.rc (by simp)
  | ok fd =>
  obtain ⟨data, tr₄, tr₅, rfl, hdata, h₃⟩ :=
    (Prog.traces_bind (mem (ServeDir.writeData lz4 datablock size)) _ _ _).mp h₂
  cases data with
  | none =>
    obtain ⟨closed, _, rfl, rfl, -⟩ := h₃
    exact .opened hcomplete hrel hjoin (allocsOnly_mem hdata)
  | some data =>
    -- the data is written, whatever comes after that
    obtain ⟨written, tr₆, rfl, -⟩ := h₃
    obtain hlacks | ⟨-, hnothing⟩ := href.reason
    · exact absurd hlacks hcomplete
    · exact absurd (by simp) (hnothing fd data offset written)

/-- Every refusing run is one of the two kinds. -/
theorem refusedRun_of_traces (h : (ServeDir.opWrite lz4 sd request response).Traces tr out)
    (href : WriteRefused request tr out) : RefusedRun sd request tr := by
  have hearly : request.LacksWriteParameter → ∀ {r : ℤ × Response},
      (Prog.ret r : ServeDir.Handler).Traces tr out → RefusedRun sd request tr := by
    rintro hlacks r ⟨rfl, -⟩
    exact .early hlacks (by simp [AllocsOnly])
  cases hsize : request.size with
  | none =>
    simp only [ServeDir.opWrite, hsize] at h
    exact hearly (.inl hsize) h
  | some size =>
  cases hoffset : request.offset with
  | none =>
    simp only [ServeDir.opWrite, hsize, hoffset] at h
    exact hearly (.inr (.inl hoffset)) h
  | some offset =>
  by_cases hhas : request.hasData = -1
  · simp only [ServeDir.opWrite, hsize, hoffset, if_pos hhas] at h
    exact hearly (.inr (.inr (.inl hhas))) h
  cases hblock : request.datablock with
  | none => exact absurd (by simp [Request.hasData, hblock]) hhas
  | some datablock => exact refusedRun_of_complete hsize hoffset hhas hblock h href

end Runs

/-! ## The file tree -/

section Tree

variable {S T : Type} {step : (c : SysCall) → S → SysRet c → S → Prop} {tree : S → T}
  {present : CString → T → Prop} {lz4 : Lz4} {sd : ServeDir} {request : Request}
  {response : Response} {tr : Trace} {out : ℤ × Response} {s s' : S}

theorem FileTree.keep_allocs (htree : FileTree step tree present) (hallocs : AllocsOnly tr)
    (h : Moves step tr s s') : tree s' = tree s := by
  apply Moves.keep tree _ h
  rintro ⟨c, r⟩ hev w w' hstep
  obtain ⟨chunk, rfl⟩ := hallocs _ hev
  exact htree.alloc hstep

/-- A run that opens the file, and otherwise only allocates and closes it, keeps the tree exactly
when the file was there. -/
theorem FileTree.keep_opened_iff (htree : FileTree step tree present) {path : CString}
    {mode fd : ℕ} {closed : Except Failure Unit} {tr₁ tr₂ : Trace} (h₁ : AllocsOnly tr₁)
    (h₂ : AllocsOnly tr₂)
    (h : Moves step (tr₁ ++ ⟨.open path (O_CREAT ||| O_WRONLY) mode, .ok fd⟩ ::
      (tr₂ ++ [⟨.close fd, closed⟩])) s s') :
    tree s' = tree s ↔ present path (tree s) := by
  obtain ⟨s₁, hm₁, s₂, hopen, hm₂⟩ := moves_append.mp h
  obtain ⟨s₃, hm₂, s₄, hclose, rfl⟩ := moves_append.mp hm₂
  have hbefore : tree s₁ = tree s := htree.keep_allocs h₁ hm₁
  have hafter : tree s' = tree s₂ := (htree.close hclose).trans (htree.keep_allocs h₂ hm₂)
  rw [hafter, ← hbefore]
  constructor
  · intro hkeep
    by_contra habsent
    exact htree.open_creates (by decide) habsent hopen hkeep
  · intro hpresent
    exact htree.open_present (by decide) hpresent hopen

/-- **When a refused WRITE leaves the file tree as it was.** It does so if and only if a parameter
was missing, or the path already named a file. -/
theorem refused_write_keeps_tree_iff (htree : FileTree step tree present)
    (htraces : (ServeDir.opWrite lz4 sd request response).Traces tr out)
    (hmoves : Moves step tr s s') (href : WriteRefused request tr out) :
    tree s' = tree s ↔ request.LacksWriteParameter ∨
      ∃ path, request.path = some path ∧ present (joined sd.directory path) (tree s) := by
  rcases refusedRun_of_traces htraces href with ⟨hlacks, hallocs⟩ |
    ⟨hcomplete, hpath, hjoin, hdecode⟩
  · exact iff_of_true (htree.keep_allocs hallocs hmoves) (.inl hlacks)
  · rw [htree.keep_opened_iff hjoin hdecode hmoves]
    simp [hcomplete, hpath]

end Tree

/-! ## A truncated block -/

/-- An operating system that knows of its files only the names. -/
def namesOnly : (c : SysCall) → List CString → SysRet c → List CString → Prop
  | .open path flags _, names, r, names' =>
    if path ∈ names then r = .ok 3 ∧ names' = names
    else if flags &&& O_CREAT = 0 then r = .error ⟨ENOENT, ENOENT_ne⟩ ∧ names' = names
    else r = .ok 3 ∧ names' = path :: names
  | _, names, _, names' => names' = names

theorem namesOnly_fileTree : FileTree namesOnly id fun path names => path ∈ names where
  alloc h := h
  close h := h
  open_present := by
    intro path flags mode names fd names' _ hpresent h
    have hmem : path ∈ names := hpresent
    rw [namesOnly, if_pos hmem] at h
    exact h.2
  open_creates := by
    intro path flags mode names fd names' hcreat hmissing h
    have habsent : path ∉ names := hmissing
    rw [namesOnly, if_neg habsent, if_neg hcreat] at h
    obtain ⟨-, rfl⟩ := h
    exact List.cons_ne_self path names

/-- A WRITE of five bytes to `/a` whose raw block carries a single one. -/
def truncatedWrite : Request :=
  { requesttype := .write, version := RHI_VERSION, path := some [47, 97], size := some 5,
    offset := some 0, datablock := some { size := 5, data := [1], compression := .none } }

/-- The run that opens `/d/a`, decodes the block and closes the file. -/
def truncatedTrace : Trace :=
  [⟨.alloc (.bytes 5), true⟩,
    ⟨.open [47, 100, 47, 97] (O_CREAT ||| O_WRONLY) defaultFileCreationPermissions, .ok 3⟩,
    ⟨.alloc (.bytes 1), true⟩, ⟨.close 3, .ok ()⟩]

theorem truncatedWrite_traces :
    (ServeDir.opWrite .onRun ⟨[47, 100]⟩ truncatedWrite .initial).Traces truncatedTrace
      (-1, { Response.initial with requesttype := .write }) :=
  ⟨true, _, rfl, .ok 3, _, rfl, true, _, rfl, .ok (), [], rfl, rfl, rfl⟩

theorem truncatedWrite_refused :
    WriteRefused truncatedWrite truncatedTrace
      (-1, { Response.initial with requesttype := .write }) where
  rc := rfl
  reason := by
    apply Or.inr
    constructor
    · exact ⟨_, _, _, _, List.mem_cons_of_mem _ List.mem_cons_self⟩
    · intro fd data offset r hmem
      simp [truncatedTrace] at hmem

/-- The truncated block is refused, and the file `/d/a` has come into being. -/
theorem refused_write_creates_file :
    ∃ tr out names', (ServeDir.opWrite .onRun ⟨[47, 100]⟩ truncatedWrite .initial).Traces tr out ∧
      Moves namesOnly tr [] names' ∧ WriteRefused truncatedWrite tr out ∧ names' ≠ [] := by
  refine ⟨_, _, [[47, 100, 47, 97]], truncatedWrite_traces, ?_, truncatedWrite_refused, by simp⟩
  exact ⟨_, rfl, _, ⟨rfl, rfl⟩, _, rfl, _, rfl, rfl⟩

/-- Where `/d/a` was there before, the refused write leaves the tree as it was. -/
theorem refused_write_keeps_existing : ∃ tr out names',
    (ServeDir.opWrite .onRun ⟨[47, 100]⟩ truncatedWrite .initial).Traces tr out ∧
      Moves namesOnly tr [[47, 100, 47, 97]] names' ∧ names' = [[47, 100, 47, 97]] := by
  have hmoves : Moves namesOnly truncatedTrace [[47, 100, 47, 97]] [[47, 100, 47, 97]] :=
    ⟨_, rfl, _, ⟨rfl, rfl⟩, _, rfl, _, rfl, rfl⟩
  refine ⟨_, _, _, truncatedWrite_traces, hmoves, ?_⟩
  apply (refused_write_keeps_tree_iff namesOnly_fileTree truncatedWrite_traces hmoves
    truncatedWrite_refused).mpr
  exact .inr ⟨[47, 97], rfl, by decide⟩

end Rhizofs
