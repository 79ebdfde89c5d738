import Rhizofs.Server.Honesty

/-!
# The buffers of the server

Two handlers store into memory of their own: `ServeDir_op_read` lets `read` fill `databuf`, and
`ServeDir_op_readdir` fills the array of the entries. Each computes the size of its buffer in one
place and relies on it in another. `opRead_sound_iff` and `opReaddirAt_inside_iff` say in which runs
the buffer is large enough.
-/

namespace Rhizofs

open Extern

namespace ServeDir

/-! ## The buffer of a READ -/

/-- The call stores into the buffer of a READ. -/
def IsRead : SysCall → Prop
  | .read _ _ | .pread _ _ _ => True
  | _ => False

/-- Every count asked of `read` or `pread` is at most the number of bytes allocated last. -/
def StoresFit : ℕ → Trace → Prop
  | _, [] => True
  | _, ⟨.alloc (.bytes n), _⟩ :: tr => StoresFit n tr
  | allocated, ⟨.read _ count, _⟩ :: tr => count ≤ allocated ∧ StoresFit allocated tr
  | allocated, ⟨.pread _ count _, _⟩ :: tr => count ≤ allocated ∧ StoresFit allocated tr
  | allocated, _ :: tr => StoresFit allocated tr

/-- The allocation after opening the file, that of `databuf`, failed. -/
def DatabufFailed : Trace → Prop
  | [] => False
  | ⟨.open _ _ _, .ok _⟩ :: tr => ∃ c tr', tr = ⟨.alloc c, false⟩ :: tr'
  | _ :: tr => DatabufFailed tr

/-- The file was not opened, or reading it failed. -/
def FileFailed (tr : Trace) : Prop :=
  ∃ ev ∈ tr, match ev with
    | ⟨.open _ _ _, .error _⟩ | ⟨.read _ _, .error _⟩ | ⟨.pread _ _ _, .error _⟩ => True
    | _ => False

/-- A READ of `size` bytes stores only into its buffer, and an answer to a size that cannot be
served is an error. -/
def ReadSound (size : ℤ) (tr : Trace) (response : Response) : Prop :=
  StoresFit 0 tr ∧ (size < 0 ∨ DatabufFailed tr → response.errnotype ≠ .none)

section Read

variable {lz4 : Lz4} {sd : ServeDir} {request : Request} {response : Response} {tr : Trace}

theorem storesFit_of_not_isRead {allocated : ℕ} (h : ∀ ev ∈ tr, ¬ IsRead ev.1) :
    StoresFit allocated tr := by
  induction tr generalizing allocated with
  | nil => trivial
  | cons ev tr ih =>
    obtain ⟨hev, htr⟩ := List.forall_mem_cons.mp h
    obtain ⟨c, r⟩ := ev
    cases c with
    | alloc chunk => cases chunk <;> exact ih htr
    | read fd count => exact absurd trivial hev
    | pread fd count offset => exact absurd trivial hev
    | _ => exact ih htr

theorem not_isRead_of_isHelper {c : SysCall} (h : c.IsHelper) : ¬ IsRead c := by
  cases c <;> simp_all [SysCall.IsHelper, IsRead]

/-- A read of `size` bytes and its answer. -/
def IsReadOf (size : ℤ) (answer : Except Failure (List UInt8)) (ev : Event SysRet) : Prop :=
  (∃ fd, ev = ⟨.read fd (toSize size), answer⟩) ∨
    ∃ fd offset, ev = ⟨.pread fd (toSize size) offset, answer⟩

/-- The runs of `ServeDir_op_read` on an accepted request, with the response. -/
inductive ReadRun (size : ℤ) : Trace → Response → Prop
  | noPath {tr : Trace} {response : Response} (helper : ∀ ev ∈ tr, ev.1.IsHelper)
      (err : response.errnotype = .none) : ReadRun size tr response
  | notOpened {n flags mode : ℕ} {path : CString} {e : Failure} {response : Response}
      (err : response.errnotype ≠ .none) :
      ReadRun size [⟨.alloc (.bytes n), true⟩, ⟨.open path flags mode, .error e⟩] response
  | noMemory {n flags mode fd : ℕ} {path : CString} {closed : Except Failure Unit}
      {response : Response} (err : response.errnotype = .none) :
      ReadRun size [⟨.alloc (.bytes n), true⟩, ⟨.open path flags mode, .ok fd⟩,
        ⟨.alloc (.bytes (toSize (toInt32 size))), false⟩, ⟨.close fd, closed⟩] response
  | notRead {n flags mode fd : ℕ} {path : CString} {closed : Except Failure Unit} {e : Failure}
      {ev : Event SysRet} {response : Response} (read : IsReadOf size (.error e) ev)
      (err : response.errnotype ≠ .none) :
      ReadRun size [⟨.alloc (.bytes n), true⟩, ⟨.open path flags mode, .ok fd⟩,
        ⟨.alloc (.bytes (toSize (toInt32 size))), true⟩, ev, ⟨.close fd, closed⟩] response
  | read {n flags mode fd : ℕ} {path : CString} {closed : Except Failure Unit}
      {data : List UInt8} {ev : Event SysRet} {tr : Trace} {response : Response}
      (read : IsReadOf size (.ok data) ev) (helper : ∀ ev ∈ tr, ev.1.IsHelper)
      (err : response.errnotype = .none) :
      ReadRun size (⟨.alloc (.bytes n), true⟩ :: ⟨.open path flags mode, .ok fd⟩ ::
        ⟨.alloc (.bytes (toSize (toInt32 size))), true⟩ :: ev :: (tr ++ [⟨.close fd, closed⟩]))
        response

theorem isReadOf_of_readAt {fd : ℕ} {size offset : ℤ} {answer : Except Failure (List UInt8)}
    (h : (readAt fd size offset).Traces tr answer) : ∃ ev, tr = [ev] ∧ IsReadOf size answer ev := by
  rcases traces_readAt h with ⟨rfl, -⟩ | rfl
  · exact ⟨_, rfl, .inl ⟨fd, rfl⟩⟩
  · exact ⟨_, rfl, .inr ⟨fd, offset, rfl⟩⟩

theorem traces_fullpath {path : Option CString} (h : (sd.fullpath request).Traces tr path) :
    (path = none ∧ ∀ ev ∈ tr, ev.1.IsHelper) ∨
      (path.isSome ∧ ∃ n, tr = [⟨.alloc (.bytes n), true⟩]) := by
  unfold fullpath at h
  cases hpath : request.path with
  | none =>
    simp only [hpath] at h
    obtain ⟨rfl, rfl⟩ := h
    exact .inl ⟨rfl, by simp⟩
  | some path' =>
    simp only [hpath] at h
    obtain ⟨ok, tr, rfl, h⟩ := h
    cases ok with
    | false =>
      obtain ⟨rfl, rfl⟩ := h
      exact .inl ⟨rfl, by simp [SysCall.IsHelper]⟩
    | true =>
      obtain ⟨rfl, rfl⟩ := h
      exact .inr ⟨rfl, _, rfl⟩

theorem readRun_of_traces {size offset : ℤ} {out : ℤ × Response} (hsize : request.size = some size)
    (hoffset : request.offset = some offset)
    (h : (opRead lz4 sd request .initial).Traces tr out) : ReadRun size tr out.2 := by
  simp only [opRead, hsize, hoffset] at h
  obtain ⟨path, tr₁, tr₂, rfl, hpath, h₁⟩ := (Prog.traces_bind (sd.fullpath request) _ _ _).mp h
  rcases traces_fullpath hpath with ⟨rfl, hhelper⟩ | ⟨hsome, n, rfl⟩
  · obtain ⟨rfl, rfl⟩ := h₁
    exact .noPath (by simpa using hhelper) rfl
  obtain ⟨path, rfl⟩ := Option.isSome_iff_exists.mp hsome
  obtain ⟨opened, tr₃, rfl, h₂⟩ := h₁
  cases opened with
  | error e =>
    obtain ⟨rfl, rfl⟩ := h₂
    exact .notOpened (Response.setErrno_errnotype_ne _ e)
  | ok fd =>
    obtain ⟨ok, tr₄, rfl, h₃⟩ := h₂
    cases ok with
    | false =>
      obtain ⟨closed, tr₅, rfl, rfl, rfl⟩ := h₃
      exact .noMemory rfl
    | true =>
      obtain ⟨answer, trr, tr₅, rfl, hread, h₄⟩ :=
        (Prog.traces_bind (readAt fd size offset) _ _ _).mp h₃
      obtain ⟨ev, rfl, hev⟩ := isReadOf_of_readAt hread
      cases answer with
      | error e =>
        obtain ⟨closed, tr₆, rfl, rfl, rfl⟩ := h₄
        exact .notRead hev (Response.setErrno_errnotype_ne _ e)
      | ok data =>
        obtain ⟨⟨set, response'⟩, trs, tr₆, rfl, hset, closed, tr₇, rfl, rfl, rfl⟩ :=
          (Prog.traces_bind (mem (Response.setData lz4 _ data)) _ _ _).mp h₄
        refine .read hev ?_ (response_setData_errnotype hset)
        exact (isHelperProg_response_setData lz4 data rfl _ _ hset).isHelper

theorem not_databufFailed_of_isHelper (h : ∀ ev ∈ tr, ev.1.IsHelper) : ¬ DatabufFailed tr := by
  induction tr with
  | nil => exact id
  | cons ev tr ih =>
    obtain ⟨hev, htr⟩ := List.forall_mem_cons.mp h
    obtain ⟨c, r⟩ := ev
    cases c with
    | «open» path flags mode => exact absurd hev id
    | _ => exact ih htr

theorem not_fileFailed_of_isHelper (h : ∀ ev ∈ tr, ev.1.IsHelper) : ¬ FileFailed tr := by
  rintro ⟨⟨c, r⟩, hmem, hev⟩
  have hc := h _ hmem
  cases c <;> simp_all [SysCall.IsHelper]

theorem ReadRun.storesFit_iff {size : ℤ} (h : ReadRun size tr response) :
    StoresFit 0 tr ↔ ((∃ ev ∈ tr, IsRead ev.1) → toSize size ≤ toSize (toInt32 size)) := by
  cases h with
  | noPath helper err =>
    have hread : ∀ ev ∈ tr, ¬ IsRead ev.1 := fun ev hmem => not_isRead_of_isHelper (helper ev hmem)
    exact iff_of_true (storesFit_of_not_isRead hread) fun ⟨ev, hmem, hev⟩ =>
      absurd hev (hread ev hmem)
  | notOpened err => simp [StoresFit, IsRead]
  | noMemory err => simp [StoresFit, IsRead]
  | notRead read err =>
    rcases read with ⟨fd, rfl⟩ | ⟨fd, offset, rfl⟩ <;> simp [StoresFit, IsRead]
  | @read n flags mode fd path closed data ev tr response read helper err =>
    have hrest : ∀ ev ∈ tr ++ [⟨.close fd, closed⟩], ¬ IsRead ev.1 := by
      refine List.forall_mem_append.mpr ⟨fun ev hmem => not_isRead_of_isHelper (helper ev hmem), ?_⟩
      simp [IsRead]
    have hfit : ∀ allocated, StoresFit allocated (tr ++ [⟨.close fd, closed⟩]) :=
      fun _ => storesFit_of_not_isRead hrest
    rcases read with ⟨fd, rfl⟩ | ⟨fd, offset, rfl⟩ <;> simp [StoresFit, IsRead, hfit]

theorem ReadRun.errnotype_ne_iff {size : ℤ} (h : ReadRun size tr response) :
    response.errnotype ≠ .none ↔ FileFailed tr := by
  cases h with
  | noPath helper err => exact iff_of_false (not_not.mpr err) (not_fileFailed_of_isHelper helper)
  | notOpened err => exact iff_of_true err (by simp [FileFailed])
  | noMemory err => exact iff_of_false (not_not.mpr err) (by simp [FileFailed])
  | notRead read err =>
    apply iff_of_true err
    rcases read with ⟨fd, rfl⟩ | ⟨fd, offset, rfl⟩ <;> simp [FileFailed]
  | @read n flags mode fd path closed data ev tr response read helper err =>
    have hrest := not_fileFailed_of_isHelper helper
    apply iff_of_false (not_not.mpr err)
    rcases read with ⟨fd, rfl⟩ | ⟨fd, offset, rfl⟩ <;> simpa [FileFailed] using hrest

/-- A failed allocation of the buffer is not reported. -/
theorem ReadRun.not_fileFailed {size : ℤ} (h : ReadRun size tr response) (hmem : DatabufFailed tr) :
    ¬ FileFailed tr := by
  cases h with
  | noPath helper err => exact absurd hmem (not_databufFailed_of_isHelper helper)
  | noMemory err => simp [FileFailed]
  | notOpened err => simp [DatabufFailed] at hmem
  | notRead read err => simp [DatabufFailed] at hmem
  | read read helper err => simp [DatabufFailed] at hmem

/-- **Which runs of a READ are sound.** For all 64-bit sizes and offsets, a run asks `read` only for
bytes that were allocated, and answers a negative size or a failed allocation of the buffer with an
error, if and only if: it reads nothing, or `int` holds the size or makes it negative; the buffer
was allocated; and a negative size is refused for its missing offset, or the file could not be
opened or read. -/
theorem opRead_sound_iff (lz4 : Lz4) (sd : ServeDir) (request : Request) (size : ℤ)
    (hsize : request.size = some size) (hmin : -2 ^ 63 ≤ size) (hmax : size < 2 ^ 63) (tr : Trace)
    (out : ℤ × Response) (hrun : (opRead lz4 sd request .initial).Traces tr out) :
    ReadSound size tr out.2 ↔
      ((∃ ev ∈ tr, IsRead ev.1) → (-2 ^ 31 ≤ size ∧ size < 2 ^ 31) ∨ toInt32 size < 0) ∧
        ¬ DatabufFailed tr ∧ (size < 0 → request.offset = none ∨ FileFailed tr) := by
  rw [← toSize_le_toSize_toInt32_iff hmin hmax]
  cases hoffset : request.offset with
  | none =>
    simp only [opRead, hsize, hoffset] at hrun
    obtain ⟨rfl, rfl⟩ := hrun
    simp [ReadSound, StoresFit, DatabufFailed, Response.refuse]
  | some offset =>
    have hshape := readRun_of_traces hsize hoffset hrun
    rw [ReadSound, hshape.storesFit_iff, hshape.errnotype_ne_iff]
    have hmem := hshape.not_fileFailed
    simp only [reduceCtorEq, false_or]
    tauto

/-- A READ of five bytes of `/f` that is served is sound. -/
theorem opRead_sound_iff_five : ReadSound 5
    [⟨.alloc (.bytes 5), true⟩, ⟨.open [47, 115, 47, 102] O_RDONLY 0, .ok 3⟩,
      ⟨.alloc (.bytes 5), true⟩, ⟨.read 3 5, .ok [1, 2, 3, 4, 5]⟩, ⟨.alloc .record, true⟩,
      ⟨.alloc (.bytes 5), true⟩, ⟨.close 3, .ok ()⟩]
    { Response.initial with
      requesttype := .read
      datablock := some ⟨5, [1, 2, 3, 4, 5], .none⟩ } := by
  refine (opRead_sound_iff .onRun ⟨[47, 115]⟩
    { Request.initial with path := some [47, 102], size := some 5, offset := some 0 } 5 rfl
    (by decide) (by decide) _ (0, _) ⟨true, _, rfl, .ok 3, _, rfl, true, _, rfl,
      .ok [1, 2, 3, 4, 5], _, rfl, true, _, rfl, true, _, rfl, .ok (), _, rfl, rfl, rfl⟩).mpr
    ⟨fun _ => .inl (by decide), ?_, fun h => absurd h (by decide)⟩
  simp [DatabufFailed]

/-- For a READ of `2 ^ 32 + 5` bytes five bytes are allocated. -/
theorem opRead_not_sound : ∃ tr out,
    (opRead .onRun ⟨[47, 115]⟩ { Request.initial with
      path := some [47, 102]
      size := some (2 ^ 32 + 5)
      offset := some 0 } .initial).Traces tr out ∧ ¬ ReadSound (2 ^ 32 + 5) tr out.2 := by
  refine ⟨_, _, ⟨true, _, rfl, .ok 3, _, rfl, true, _, rfl, .error ⟨ EIO, by decide⟩, _, rfl,
    .ok (), _, rfl, rfl, rfl⟩, fun h => ?_⟩
  have hfit : toSize (2 ^ 32 + 5) ≤ toSize (toInt32 (2 ^ 32 + 5)) := h.1.1
  exact absurd hfit (by decide)

end Read

/-! ## The array of a READDIR -/

/-- `fillEntries` together with the indices at which it stores. -/
def fillEntriesAt (dirpath : CString) :
    List CString → Response → Prog SysRet ((Bool × Response) × List ℕ)
  | [], response => return ((true, response), [])
  | name :: names, response => do
    let some entryFullpath ← mem (pathJoin dirpath name) | return ((false, response), [])
    match ← sys (.lstat entryFullpath) with
    | .ok sb => do
      -- what `Attrs_create` returns is stored before it is checked
      let some attrs ← Attrs.create sb (some name)
        | return ((false, response), [response.directoryEntries.length])
      let (out, indices) ← fillEntriesAt dirpath names
        { response with directoryEntries := response.directoryEntries ++ [attrs] }
      return (out, response.directoryEntries.length :: indices)
    | .error e => fillEntriesAt dirpath names (response.setErrno e.errno)

/-- `ServeDir_op_readdir` together with the length of the array and the indices at which it
stores. -/
def opReaddirAt (sd : ServeDir) (request : Request) (response : Response) :
    Prog SysRet ((ℤ × Response) × ℕ × List ℕ) := do
  let response := { response with requesttype := .readdir, directoryEntries := [] }
  let some dirpath ← sd.fullpath request | return ((-1, response), 0, [])
  match ← sys (.opendir dirpath) with
  | .error e => return ((0, response.setErrno e.errno), 0, [])
  | .ok _ => do
    let (counted, _) ← sys (.readdir dirpath)
    let ok ← sys (.alloc (.entries counted.length))
    if !ok then
      sys (.closedir dirpath)
      return ((-1, { response with errnotype := .nomem }), counted.length, [])
    sys (.rewinddir dirpath)
    let (names, _) ← sys (.readdir dirpath)
    let ((done, response), indices) ← fillEntriesAt dirpath names response
    sys (.closedir dirpath)
    return ((if done then 0 else -1, response), counted.length, indices)

/-- The event is a status that was found. -/
def isStat : Event SysRet → Bool
  | ⟨.lstat _, .ok _⟩ => true
  | _ => false

section Readdir

variable {sd : ServeDir} {request : Request} {response : Response} {tr : Trace}

theorem countP_isStat_of_isHelper (h : ∀ ev ∈ tr, ev.1.IsHelper) : tr.countP isStat = 0 := by
  rw [List.countP_eq_zero]
  rintro ⟨c, r⟩ hmem
  have hc := h _ hmem
  cases c <;> simp_all [SysCall.IsHelper, isStat]

/-- Noting the indices changes nothing. -/
theorem fillEntriesAt_fst (dirpath : CString) (names : List CString) (response : Response) :
    (fillEntriesAt dirpath names response >>= fun out => .ret out.1) =
      fillEntries dirpath names response := by
  induction names generalizing response with
  | nil => rfl
  | cons name names ih =>
    rw [fillEntriesAt, fillEntries, Prog.bind_assoc]
    refine bind_congr fun path => ?_
    cases path with
    | none => rfl
    | some path =>
      dsimp only
      rw [Prog.bind_assoc]
      refine bind_congr fun r => ?_
      cases r with
      | error e => exact ih _
      | ok sb =>
        dsimp only
        rw [Prog.bind_assoc]
        refine bind_congr fun attrs => ?_
        cases attrs with
        | none => rfl
        | some attrs =>
          dsimp only
          rw [Prog.bind_assoc, ← ih]
          rfl

/-- Noting the indices changes nothing in the handler. -/
theorem opReaddirAt_fst : (opReaddirAt sd request response >>= fun out => .ret out.1) =
    opReaddir sd request response := by
  rw [opReaddirAt, opReaddir, Prog.bind_assoc]
  refine bind_congr fun path => ?_
  cases path with
  | none => rfl
  | some path =>
    dsimp only
    rw [Prog.bind_assoc]
    refine bind_congr fun r => ?_
    cases r with
    | error e => rfl
    | ok opened =>
      dsimp only
      rw [Prog.bind_assoc]
      refine bind_congr fun counted => ?_
      rw [Prog.bind_assoc]
      refine bind_congr fun ok => ?_
      cases ok with
      | false => rfl
      | true =>
        simp only [Bool.not_true, Bool.false_eq_true, if_false, ← fillEntriesAt_fst,
          Prog.bind_assoc]
        rfl

/-- The indices go up by one with every status found. -/
theorem traces_fillEntriesAt {dirpath : CString} {names : List CString}
    {out : (Bool × Response) × List ℕ} (h : (fillEntriesAt dirpath names response).Traces tr out) :
    out.2 = List.range' response.directoryEntries.length (tr.countP isStat) := by
  induction names generalizing response tr out with
  | nil =>
    obtain ⟨rfl, rfl⟩ := h
    rfl
  | cons name names ih =>
    obtain ⟨path, tr₁, tr₂, rfl, hjoin, h₁⟩ :=
      (Prog.traces_bind (mem (pathJoin dirpath name)) _ _ _).mp h
    have hnone₁ := countP_isStat_of_isHelper (isHelperProg_pathJoin _ _ _ _ hjoin).isHelper
    rw [List.countP_append, hnone₁, Nat.zero_add]
    cases path with
    | none =>
      obtain ⟨rfl, rfl⟩ := h₁
      rfl
    | some path =>
      obtain ⟨r, tr₃, rfl, h₂⟩ := h₁
      cases r with
      | error e =>
        rw [List.countP_cons_of_neg (by simp [isStat])]
        exact @ih (response.setErrno e.errno) _ _ h₂
      | ok sb =>
        obtain ⟨attrs, tr₄, tr₅, rfl, hattrs, h₃⟩ :=
          (Prog.traces_bind (Attrs.create sb (some name)) _ _ _).mp h₂
        have hnone₂ := countP_isStat_of_isHelper (isHelperProg_attrs_create _ _ _ _ hattrs).isHelper
        rw [List.countP_cons_of_pos rfl, List.countP_append, hnone₂, Nat.zero_add,
          List.range'_succ]
        cases attrs with
        | none =>
          obtain ⟨rfl, rfl⟩ := h₃
          rfl
        | some attrs =>
          obtain ⟨⟨out', indices⟩, tr₆, tr₇, rfl, hfill, rfl, rfl⟩ :=
            (Prog.traces_bind (fillEntriesAt dirpath names _) _ _ _).mp h₃
          have hindices : indices = _ := ih hfill
          simp [hindices]

/-- A run of the handler stores at the first indices, one for each status found. -/
theorem traces_opReaddirAt {out : (ℤ × Response) × ℕ × List ℕ}
    (h : (opReaddirAt sd request response).Traces tr out) :
    out.2.2 = List.range' 0 (tr.countP isStat) := by
  obtain ⟨path, tr₁, tr₂, rfl, hpath, h₁⟩ := (Prog.traces_bind (sd.fullpath request) _ _ _).mp h
  have hnone : tr₁.countP isStat = 0 := by
    rcases traces_fullpath hpath with ⟨-, hhelper⟩ | ⟨-, n, rfl⟩
    · exact countP_isStat_of_isHelper hhelper
    · rfl
  rw [List.countP_append, hnone, Nat.zero_add]
  cases path with
  | none =>
    obtain ⟨rfl, rfl⟩ := h₁
    rfl
  | some path =>
    obtain ⟨opened, tr₃, rfl, h₂⟩ := h₁
    cases opened with
    | error e =>
      obtain ⟨rfl, rfl⟩ := h₂
      rfl
    | ok opened =>
      obtain ⟨counted, tr₄, rfl, ok, tr₅, rfl, h₃⟩ := h₂
      cases ok with
      | false =>
        obtain ⟨_, _, rfl, rfl, rfl⟩ := h₃
        rfl
      | true =>
        obtain ⟨_, tr₆, rfl, listed, tr₇, rfl, h₄⟩ := h₃
        obtain ⟨⟨done, indices⟩, tr₈, tr₉, rfl, hfill, _, _, rfl, rfl, rfl⟩ :=
          (Prog.traces_bind (fillEntriesAt path listed.1 _) _ _ _).mp h₄
        have hindices : indices = _ := traces_fillEntriesAt hfill
        simp [hindices, isStat]

/-- **When READDIR stays inside its array**: for all pairs of listings and whatever the calls
answer, every index at which a run stores is less than the number of entries counted before, if and
only if no more entries have a status in the second pass than were counted in the first. -/
theorem opReaddirAt_inside_iff (sd : ServeDir) (request : Request) (response : Response)
    (tr : Trace) (out : (ℤ × Response) × ℕ × List ℕ)
    (hrun : (opReaddirAt sd request response).Traces tr out) :
    (∀ index ∈ out.2.2, index < out.2.1) ↔ tr.countP isStat ≤ out.2.1 := by
  simp only [traces_opReaddirAt hrun, List.mem_range'_1, Nat.zero_le, Nat.zero_add, true_and]
  constructor
  · intro h
    by_contra hlt
    exact absurd (h out.2.1 (Nat.lt_of_not_le hlt)) (lt_irrefl _)
  · exact fun hle index hlt => lt_of_lt_of_le hlt hle

/-- A READDIR of the root of `/s`, where the passes find `counted` and then `f`. -/
theorem traces_opReaddirAt_one (counted : List CString) : ∃ tr rc response,
    (opReaddirAt ⟨[47, 115]⟩ { Request.initial with path := some [47] } .initial).Traces tr
      ((rc, response), counted.length, [0]) ∧ tr.countP isStat = 1 :=
  ⟨_, _, _, ⟨true, _, rfl, .ok (), _, rfl, (counted, none), _, rfl, true, _, rfl, (), _, rfl,
    ([[102]], none), _, rfl, true, _, rfl, .ok .zero, _, rfl, true, _, rfl, true, _, rfl, true, _,
    rfl, true, _, rfl, true, _, rfl, true, _, rfl, true, _, rfl, (0 : ℕ), _, rfl, .ok 0, _, rfl,
    true, _, rfl, .ok [], _, rfl, (), _, rfl, rfl, rfl⟩, rfl⟩

/-- When both passes find `f`, the array is long enough. -/
theorem opReaddirAt_inside_iff_one : ∃ tr out,
    (opReaddirAt ⟨[47, 115]⟩ { Request.initial with path := some [47] } .initial).Traces tr out ∧
      ∀ index ∈ out.2.2, index < out.2.1 := by
  obtain ⟨tr, rc, response, hrun, hstat⟩ := traces_opReaddirAt_one [[102]]
  exact ⟨tr, _, hrun, (opReaddirAt_inside_iff _ _ _ _ _ hrun).mpr (Nat.le_of_eq hstat)⟩

/-- When the first pass finds nothing and the second finds `f`, it is not. -/
theorem opReaddirAt_not_inside : ∃ tr out,
    (opReaddirAt ⟨[47, 115]⟩ { Request.initial with path := some [47] } .initial).Traces tr out ∧
      ¬ ∀ index ∈ out.2.2, index < out.2.1 := by
  obtain ⟨tr, rc, response, hrun, -⟩ := traces_opReaddirAt_one []
  exact ⟨tr, _, hrun, by simp⟩

end Readdir

end ServeDir

end Rhizofs
