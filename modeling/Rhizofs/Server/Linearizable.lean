import Rhizofs.Server.Workers

/-!
# The file is linearizable

The proofs about the workers of `Rhizofs.Server.Workers`, one handler at a time. Most handlers make
only calls that touch neither a descriptor nor the file (`Quiet`). The others hold one descriptor
from `open` or `creat` to `close`, and access the file at most once in between. The rule for
interleavings (`Concurrent.Reachable.verified`) makes this a fact about any number of workers.
-/

namespace Rhizofs.Workers

open Extern Concurrent

/-! ## Quiet calls -/

/-- Calls that use no descriptor and leave the file alone. -/
def Quiet : SysCall → Prop
  | .open _ _ _ | .creat _ _ | .close _ | .read _ _ | .pread _ _ _ | .pwrite _ _ _
  | .path (.truncate _ _) => False
  | _ => True

section Quiet

variable {α β : Type} {l l' : Local} {c : SysCall} {r : SysRet c} {sd : ServeDir}
  {request : Request} {response : Response}

theorem Quiet.pre (h : Quiet c) (l : Local) : workerSpec.pre c l := by
  intro fd hfd
  cases c with
  | read fd count | pread fd count offset | pwrite fd data offset | close fd => exact absurd h id
  | _ => cases hfd

theorem Quiet.step (h : Quiet c) (hs : workerSpec.step c l r l') : l' = l := by
  cases c with
  | path op =>
    cases op with
    | truncate path length => exact absurd h id
    | _ => exact hs
  | «open» path flags mode | creat path mode | close fd | read fd count | pread fd count offset
  | pwrite fd data offset => exact absurd h id
  | _ => exact hs

/-- A quiet program with known results. -/
theorem wp_quiet {p : Prog SysRet α} {P : α → Prop} (hp : p.Calls Quiet) (hr : p.Returns P) :
    p.wp workerSpec (fun a l' => P a ∧ l' = l) l :=
  hp.wp_returns (I := (· = l)) hr (fun _ l' hc _ => hc.pre l')
    (fun _ _ _ _ hc hl hs => (hc.step hs).trans hl) rfl

theorem wp_quiet_bind {p : Prog SysRet β} {f : β → Prog SysRet α} {Q : α → Local → Prop}
    (hp : p.Calls Quiet) (hf : ∀ b, (f b).wp workerSpec Q l) :
    (p >>= f).wp workerSpec Q l := by
  refine (Prog.wp_bind _ Q p f l).mpr (hp.wp_keep (I := (· = l)) (fun _ l' hc _ => hc.pre l')
    (fun _ _ _ _ hc hl hs => (hc.step hs).trans hl) ?_ rfl)
  rintro b _ rfl
  exact hf b

theorem mem_quiet (p : Prog MemRet α) : (mem p).Calls Quiet := by
  induction p with
  | ret a => trivial
  | call c k ih => exact ⟨trivial, ih⟩

theorem fullpath_quiet : (sd.fullpath request).Calls Quiet := by
  unfold ServeDir.fullpath
  split
  · trivial
  · exact mem_quiet _

end Quiet

/-! ## The handlers that leave the file alone -/

section Handlers

variable {α : Type} {lz4 : Lz4} {sd : ServeDir} {request : Request} {response : Response}
  {l l' : Local} {c : SysCall} {out : ℤ × Response}

/-- A worker that has received a message. -/
structure Fresh (l : Local) : Prop where
  effects : l.effects = []
  held : l.held = fun _ => none
  resolved : l.resolved = none

/-- A handler ends without a descriptor, and its accesses explain the response. -/
def Finished (lz4 : Lz4) (request : Request) (out : ℤ × Response) (l : Local) : Prop :=
  l.held = (fun _ => none) ∧ Explained lz4 request out.1 out.2 l.resolved l.effects

/-- A response that claims nothing needs no access. -/
theorem finished_of_fresh (h : Fresh l) (hclaims : ¬ Claims request out.1 out.2) :
    Finished lz4 request out l := by
  refine ⟨h.held, ?_⟩
  rw [h.effects]
  exact .none fun hc => absurd hc hclaims

theorem wp_quiet_handler {p : ServeDir.Handler} (hp : p.Calls Quiet) (h : Fresh l)
    (hclaims : ∀ rc response, ¬ Claims request rc response) :
    p.wp workerSpec (Finished lz4 request) l := by
  refine hp.wp_keep (I := Fresh) (fun _ l' hc _ => hc.pre l') ?_ ?_ h
  · rintro c l r l' hc hl hs
    rw [hc.step hs]
    exact hl
  · rintro ⟨rc, response⟩ l hl
    exact finished_of_fresh hl (hclaims rc response)

theorem onPath_quiet {op : CString → PathOp} (hop : ∀ path, Quiet (.path (op path))) :
    (sd.onPath request response op).Calls Quiet := by
  refine fullpath_quiet.bind fun path => ?_
  cases path with
  | none => trivial
  | some path =>
    refine ⟨hop path, fun r => ?_⟩
    cases r <;> trivial

theorem onTwoPaths_quiet {op : CString → CString → PathOp}
    (hop : ∀ path path', Quiet (.path (op path path'))) :
    (sd.onTwoPaths request response op).Calls Quiet := by
  unfold ServeDir.onTwoPaths
  cases request.pathTo with
  | none => trivial
  | some pathTo =>
    refine (mem_quiet _).bind fun path => ?_
    cases path with
    | none => trivial
    | some path => exact onPath_quiet fun _ => hop _ _

theorem posixCurrentUserInGroup_quiet (gid : ℕ) : (posixCurrentUserInGroup gid).Calls Quiet := by
  refine ⟨trivial, fun nGroups => ?_⟩
  cases nGroups with
  | error e => trivial
  | ok nGroups =>
    refine ⟨trivial, fun ok => ?_⟩
    cases ok with
    | false => trivial
    | true =>
      refine ⟨trivial, fun groups => ?_⟩
      cases groups <;> trivial

theorem attrs_create_quiet (sb : Stat) (name : Option CString) :
    (Attrs.create sb name).Calls Quiet := by
  refine ⟨trivial, fun ok => ?_⟩
  cases ok with
  | false => trivial
  | true =>
    refine (mem_quiet _).bind fun ok => ?_
    cases ok with
    | false => trivial
    | true =>
      refine (mem_quiet _).bind fun permissions => ?_
      cases permissions with
      | none => trivial
      | some permissions =>
        refine (mem_quiet _).bind fun timestamps => ?_
        cases timestamps with
        | none => trivial
        | some timestamps =>
          refine ⟨trivial, fun uid => (posixCurrentUserInGroup_quiet _).bind fun isInGroup => ?_⟩
          cases isInGroup <;> trivial

theorem fillEntries_quiet (dirpath : CString) (names : List CString) (response : Response) :
    (ServeDir.fillEntries dirpath names response).Calls Quiet := by
  induction names generalizing response with
  | nil => trivial
  | cons name names ih =>
    rw [ServeDir.fillEntries]
    refine (mem_quiet _).bind fun path => ?_
    cases path with
    | none => trivial
    | some path =>
      refine ⟨trivial, fun r => ?_⟩
      cases r with
      | error e => exact ih _
      | ok sb =>
        refine (attrs_create_quiet _ _).bind fun attrs => ?_
        cases attrs with
        | none => trivial
        | some attrs => exact ih _

theorem opReaddir_quiet : (ServeDir.opReaddir sd request response).Calls Quiet := by
  refine fullpath_quiet.bind fun path => ?_
  cases path with
  | none => trivial
  | some path =>
    refine ⟨trivial, fun r => ?_⟩
    cases r with
    | error e => trivial
    | ok _ =>
      refine ⟨trivial, fun counted => ⟨trivial, fun ok => ?_⟩⟩
      cases ok with
      | false => exact ⟨trivial, fun _ => trivial⟩
      | true =>
        refine ⟨trivial, fun _ => ⟨trivial, fun names => ?_⟩⟩
        exact (fillEntries_quiet _ _ _).bind fun _ => ⟨trivial, fun _ => trivial⟩

theorem opReadlink_quiet : (ServeDir.opReadlink sd request response).Calls Quiet := by
  refine fullpath_quiet.bind fun path => ?_
  cases path with
  | none => trivial
  | some path =>
    refine ⟨trivial, fun r => ?_⟩
    cases r with
    | error e => trivial
    | ok target =>
      refine ⟨trivial, fun ok => ?_⟩
      cases ok <;> trivial

theorem opGetattr_quiet : (ServeDir.opGetattr sd request response).Calls Quiet := by
  refine fullpath_quiet.bind fun path => ?_
  cases path with
  | none => trivial
  | some path =>
    refine ⟨trivial, fun r => ?_⟩
    cases r with
    | error e => trivial
    | ok sb =>
      refine (attrs_create_quiet _ _).bind fun attrs => ?_
      cases attrs <;> trivial

theorem opStatfs_quiet : (ServeDir.opStatfs sd request response).Calls Quiet := by
  refine fullpath_quiet.bind fun path => ?_
  cases path with
  | none => trivial
  | some path =>
    refine ⟨trivial, fun r => ?_⟩
    cases r with
    | error e => trivial
    | ok stfs =>
      refine (mem_quiet _).bind fun statfs => ?_
      cases statfs <;> trivial

theorem opMknod_quiet : (ServeDir.opMknod sd request response).Calls Quiet := by
  unfold ServeDir.opMknod
  dsimp only
  split
  · split_ifs
    · exact onPath_quiet fun _ => trivial
    · trivial
  · trivial

/-- The handlers of the other types make only quiet calls. -/
theorem dispatch_quiet (htype : request.requesttype ∉
      [RequestType.open, .read, .write, .create, .truncate]) :
    (ServeDir.dispatch lz4 sd request response).Calls Quiet := by
  unfold ServeDir.dispatch
  cases hty : request.requesttype with
  | readdir => exact opReaddir_quiet
  | rmdir | unlink => exact onPath_quiet fun _ => trivial
  | rename | link => exact onTwoPaths_quiet fun _ _ => trivial
  | access =>
    show (ServeDir.opAccess sd request response).Calls Quiet
    unfold ServeDir.opAccess
    cases request.permissions with
    | none => trivial
    | some permissions => exact onPath_quiet fun _ => trivial
  | mkdir =>
    show (ServeDir.opMkdir sd request response).Calls Quiet
    unfold ServeDir.opMkdir
    cases request.permissions with
    | none => trivial
    | some permissions => exact onPath_quiet fun _ => trivial
  | chmod =>
    show (ServeDir.opChmod sd request response).Calls Quiet
    unfold ServeDir.opChmod
    cases request.permissions with
    | none => trivial
    | some permissions => exact onPath_quiet fun _ => trivial
  | utimens =>
    show (ServeDir.opUtimens sd request response).Calls Quiet
    unfold ServeDir.opUtimens
    cases request.timestamps with
    | none => trivial
    | some timestamps => exact onPath_quiet fun _ => trivial
  | symlink =>
    show (ServeDir.opSymlink sd request response).Calls Quiet
    unfold ServeDir.opSymlink
    cases request.pathTo with
    | none => trivial
    | some pathTo => exact onPath_quiet fun _ => trivial
  | getattr => exact opGetattr_quiet
  | readlink => exact opReadlink_quiet
  | mknod => exact opMknod_quiet
  | statfs => exact opStatfs_quiet
  | «open» | read | write | create | truncate =>
    rw [hty] at htype
    exact absurd (by decide) htype
  | ping | stat | unknown | invalid | other n => trivial

/-- They claim nothing. -/
theorem not_claims (htype : request.requesttype ∉
      [RequestType.open, .read, .write, .create, .truncate]) (rc : ℤ) (response : Response) :
    ¬ Claims request rc response := by
  unfold Claims
  cases hty : request.requesttype with
  | «open» | read | write | create | truncate =>
    rw [hty] at htype
    exact absurd (by decide) htype
  | _ => exact id

/-! ## The handlers that access the file -/

/-- The worker has the descriptor `fd` and no other. -/
def Holds (l : Local) (fd : ℕ) (file : Bool) (position : ℕ) : Prop :=
  l.held = Function.update (fun _ => none) fd (some (file, position))

/-- Closing the one descriptor leaves none. -/
theorem wp_close {fd position : ℕ} {file : Bool} {f : Except Failure Unit → Prog SysRet α}
    {Q : α → Local → Prop} (h : Holds l fd file position)
    (hf : (f (.ok ())).wp workerSpec Q { l with held := fun _ => none }) :
    (sys (.close fd) >>= f).wp workerSpec Q l := by
  unfold Holds at h
  refine ⟨?_, ?_⟩
  · intro fd' hfd
    cases hfd
    simp [h]
  · rintro r _ ⟨rfl, rfl⟩
    rw [Local.hold, h, Function.update_idem, Function.update_eq_self]
    exact hf

/-- A handler that closes its descriptor and has accessed nothing. -/
theorem wp_close_unclaimed {fd position : ℕ} {file : Bool}
    {f : Except Failure Unit → ServeDir.Handler} (h : Holds l fd file position)
    (heffects : l.effects = []) (hf : f (.ok ()) = .ret out)
    (hclaims : ¬ Claims request out.1 out.2) :
    (sys (.close fd) >>= f).wp workerSpec (Finished lz4 request) l := by
  refine wp_close h ?_
  rw [hf]
  refine ⟨rfl, ?_⟩
  simp only [heffects]
  exact .none fun hc => absurd hc hclaims

/-- Opening a file is the first that a handler does with it. -/
theorem opened_spec (h : Fresh l) (file empties : Bool) (fd : ℕ) :
    Holds (l.opened file fd empties) fd file 0 ∧
      (l.opened file fd empties).resolved = some file ∧
      (l.opened file fd empties).effects =
        if file && empties then [⟨l.worker, .truncate 0, ⟨0, []⟩⟩] else [] := by
  unfold Local.opened Holds
  dsimp only
  split_ifs
  · exact ⟨by simp [Local.hold, Local.perform, h.held], rfl,
      by simp [Local.hold, Local.perform, h.effects]⟩
  · exact ⟨by simp [Local.hold, h.held], rfl, h.effects⟩

theorem no_descriptor (hc : usedDescriptor c = none) (l : Local) : workerSpec.pre c l := by
  intro fd hfd
  cases hc.symm.trans hfd

theorem wp_opTruncate (htype : request.requesttype = .truncate) (h : Fresh l) :
    (ServeDir.opTruncate sd request .initial).wp workerSpec (Finished lz4 request) l := by
  unfold ServeDir.opTruncate
  cases hoffset : request.offset with
  | none => exact finished_of_fresh h (by simp [Claims, htype, Response.refuse])
  | some length =>
    refine wp_quiet_bind fullpath_quiet fun path => ?_
    cases path with
    | none => exact finished_of_fresh h (by simp [Claims, htype])
    | some path =>
      refine ⟨no_descriptor rfl l, fun r l' hs => ?_⟩
      cases r with
      | error e =>
        obtain rfl : l' = l := hs
        exact finished_of_fresh h
          (by simp [Claims, htype, Response.setErrno_errnotype_ne])
      | ok _ =>
        obtain ⟨file, rfl⟩ := hs
        cases file with
        | true =>
          refine ⟨h.held, ?_⟩
          simp only [if_true, Local.perform, h.effects, List.nil_append]
          exact .truncate rfl htype hoffset ⟨rfl, rfl⟩
        | false =>
          refine ⟨h.held, ?_⟩
          simp only [Bool.false_eq_true, if_false, h.effects]
          exact .none fun _ => rfl

/-- The end of CREATE and OPEN: the response that claims that the file has been emptied, and
whether it has. -/
theorem finished_opened (h : Fresh l) {file empties : Bool} {fd : ℕ}
    (htype : request.requesttype = .create ∨ request.requesttype = .open)
    (hclaims : Claims request 0 response ↔ empties = true) :
    Finished lz4 request (0, response) { l.opened file fd empties with held := fun _ => none } := by
  obtain ⟨-, hresolved, heffects⟩ := opened_spec h file empties fd
  refine ⟨rfl, ?_⟩
  simp only [hresolved, heffects]
  cases file with
  | false => exact .none fun _ => rfl
  | true =>
    cases empties with
    | false => exact .none fun hc => absurd (hclaims.mp hc) Bool.false_ne_true
    | true => exact .emptied rfl htype (hclaims.mpr rfl)

theorem wp_opOpen (htype : request.requesttype = .open) (h : Fresh l) :
    (ServeDir.opOpen sd request .initial).wp workerSpec (Finished lz4 request) l := by
  unfold ServeDir.opOpen
  dsimp only
  cases hflags : request.openflags with
  | none => exact finished_of_fresh h (by simp [Claims, htype, hflags])
  | some openflags =>
    refine wp_quiet_bind fullpath_quiet fun path => ?_
    cases path with
    | none => exact finished_of_fresh h (by simp [Claims, htype])
    | some path =>
      refine ⟨no_descriptor rfl l, fun r l' hs => ?_⟩
      cases r with
      | error e =>
        obtain rfl : l' = l := hs
        exact finished_of_fresh h (by simp [Claims, htype])
      | ok fd =>
        obtain ⟨-, file, rfl⟩ := hs
        refine wp_close (opened_spec h file _ fd).1 (finished_opened h (.inr htype) ?_)
        simp [Claims, htype, hflags, Response.initial]

theorem wp_opCreate (htype : request.requesttype = .create) (h : Fresh l) :
    (ServeDir.opCreate sd request .initial).wp workerSpec (Finished lz4 request) l := by
  unfold ServeDir.opCreate
  dsimp only
  cases request.permissions with
  | none => exact finished_of_fresh h (by simp [Claims, htype, Response.refuse])
  | some permissions =>
    refine wp_quiet_bind fullpath_quiet fun path => ?_
    cases path with
    | none => exact finished_of_fresh h (by simp [Claims, htype])
    | some path =>
      refine ⟨no_descriptor rfl l, fun r l' hs => ?_⟩
      cases r with
      | error e =>
        obtain rfl : l' = l := hs
        exact finished_of_fresh h (by simp [Claims, htype])
      | ok fd =>
        obtain ⟨-, file, rfl⟩ := hs
        refine wp_close (opened_spec h file true fd).1 (finished_opened h (.inl htype) ?_)
        simp [Claims, htype, Response.initial]

/-- What `read` or `pread` makes of a descriptor that has just been opened. -/
theorem wp_readAt {fd : ℕ} {file : Bool} {size offset : ℤ}
    {f : Except Failure (List UInt8) → Prog SysRet α} {Q : α → Local → Prop}
    (h : Holds l fd file 0) (heffects : l.effects = [])
    (herror : ∀ e, (f (.error e)).wp workerSpec Q l)
    (hok : ∀ data n position l', n ≤ toSize size → Holds l' fd file position →
      l'.resolved = l.resolved →
      (l'.effects = if file then [⟨l.worker, .read n offset.toNat, ⟨data.length, data⟩⟩]
        else []) → (f (.ok data)).wp workerSpec Q l') :
    (ServeDir.readAt fd size offset >>= f).wp workerSpec Q l := by
  have hfd : l.held fd = some (file, 0) := by
    rw [h]
    simp
  have hheld : l.held fd ≠ none := by simp [hfd]
  unfold ServeDir.readAt
  split_ifs with hzero
  · refine ⟨fun fd' hfd' => by cases hfd'; exact hheld, fun r l' hs => ?_⟩
    cases r with
    | error e =>
      obtain rfl : l' = l := hs
      exact herror e
    | ok data =>
      obtain ⟨file', position, hfd', hs⟩ := hs
      cases hfd.symm.trans hfd'
      cases file with
      | true =>
        obtain ⟨n, hn, rfl⟩ := hs
        refine hok data n (0 + data.length) _ hn ?_ rfl ?_
        · unfold Holds at h ⊢
          simp [Local.hold, Local.perform, h]
        · simp [Local.hold, Local.perform, heffects, hzero]
      | false =>
        obtain rfl : l' = l := hs
        exact hok data 0 0 l' (Nat.zero_le _) h rfl heffects
  · refine ⟨fun fd' hfd' => by cases hfd'; exact hheld, fun r l' hs => ?_⟩
    cases r with
    | error e =>
      obtain rfl : l' = l := hs
      exact herror e
    | ok data =>
      obtain ⟨file', position, hfd', hs⟩ := hs
      cases hfd.symm.trans hfd'
      cases file with
      | true =>
        obtain ⟨n, hn, rfl⟩ := hs
        exact hok data n 0 _ hn h rfl (by simp [Local.perform, heffects])
      | false =>
        obtain rfl : l' = l := hs
        exact hok data 0 0 l' (Nat.zero_le _) h rfl heffects

theorem setRawData_returns (lz4 : Lz4) (block : DataBlock) (data : List UInt8) :
    (block.setRawData data).Returns fun out => out.1 = true → out.2.Stores lz4 data := by
  intro ok
  cases ok with
  | false => exact fun h => absurd h Bool.false_ne_true
  | true => exact fun _ => ⟨rfl, .inl ⟨rfl, rfl⟩⟩

theorem setLz4CompressedData_returns (lz4 : Lz4) (block : DataBlock) (data : List UInt8) :
    (block.setLz4CompressedData lz4 data).Returns fun out =>
      out.1 ≠ -1 → out.2.data = lz4.compress data ∧ lz4.compress data ≠ [] := by
  intro ok
  cases ok with
  | false => exact fun h => absurd rfl h
  | true =>
    show Prog.Returns _ (if (lz4.compress data).length = 0 then _ else _)
    split_ifs with hz
    · exact fun h => absurd rfl h
    · exact fun _ => ⟨rfl, fun h => hz (by rw [h]; rfl)⟩

/-- A fresh block that takes bytes stores them, whichever allocations succeed. -/
theorem setData_returns (lz4 : Lz4) (data : List UInt8) :
    (DataBlock.init.setData lz4 data .lz4).Returns fun out =>
      out.1 = true → out.2.Stores lz4 data := by
  unfold DataBlock.setData
  split_ifs with hempty hlong
  · obtain rfl := List.length_eq_zero_iff.mp hempty
    exact fun _ => ⟨rfl, .inl ⟨rfl, rfl⟩⟩
  · refine (setLz4CompressedData_returns lz4 _ data).bind fun out hout => ?_
    obtain ⟨rc, block⟩ := out
    dsimp only at hout ⊢
    split_ifs with hrc
    · obtain ⟨hdata, hne⟩ := hout hrc
      exact fun _ => ⟨rfl, .inr ⟨rfl, hdata, hne⟩⟩
    · exact setRawData_returns lz4 block data
  · exact setRawData_returns lz4 _ data

/-- The block of a response to READ stores the bytes. -/
theorem response_setData_returns (lz4 : Lz4) (data : List UInt8)
    (hnone : response.datablock = none) :
    (mem (response.setData lz4 data)).Returns fun out =>
      ∀ block, out.2.datablock = some block → block.Stores lz4 data := by
  apply Prog.Returns.translate
  unfold Response.setData DataBlock.ofData
  rw [hnone]
  intro ok
  cases ok with
  | false => exact fun block hblock => by cases hnone.symm.trans hblock
  | true =>
    show Prog.Returns _ ((DataBlock.init.setData lz4 data .lz4 >>= _) >>= _)
    rw [Prog.bind_assoc]
    refine (setData_returns lz4 data).bind fun out hout => ?_
    obtain ⟨ok, block⟩ := out
    cases ok with
    | false => exact fun block hblock => by cases hnone.symm.trans hblock
    | true =>
      intro block' hblock'
      obtain rfl := Option.some.inj hblock'
      exact hout rfl

theorem wp_opRead (htype : request.requesttype = .read) (h : Fresh l) :
    (ServeDir.opRead lz4 sd request .initial).wp workerSpec (Finished lz4 request) l := by
  unfold ServeDir.opRead
  dsimp only
  have hinitial : Response.initial.datablock = none := rfl
  cases hsize : request.size with
  | none => exact finished_of_fresh h (by simp [Claims, htype, Response.refuse, hinitial])
  | some size =>
    cases hoffset : request.offset with
    | none => exact finished_of_fresh h (by simp [Claims, htype, Response.refuse, hinitial])
    | some offset =>
      refine wp_quiet_bind fullpath_quiet fun path => ?_
      cases path with
      | none => exact finished_of_fresh h (by simp [Claims, htype, hinitial])
      | some path =>
        refine ⟨no_descriptor rfl l, fun r l' hs => ?_⟩
        cases r with
        | error e =>
          obtain rfl : l' = l := hs
          exact finished_of_fresh h (by simp [Claims, htype, Response.setErrno, hinitial])
        | ok fd =>
          obtain ⟨-, file, rfl⟩ := hs
          have hreadonly : (O_RDONLY &&& O_TRUNC != 0) = false := by decide
          rw [hreadonly]
          obtain ⟨hholds, hresolved, heffects⟩ := opened_spec h file false fd
          rw [Bool.and_false, if_neg Bool.false_ne_true] at heffects
          refine wp_quiet_bind (p := sys (.alloc _)) ⟨trivial, fun _ => trivial⟩ fun ok => ?_
          cases ok with
          | false =>
            exact wp_close_unclaimed hholds heffects rfl (by simp [Claims, htype, hinitial])
          | true =>
            refine wp_readAt hholds heffects (fun e => wp_close_unclaimed hholds heffects rfl ?_) ?_
            · simp [Claims, htype, Response.setErrno, hinitial]
            · intro data n position l₂ hn hholds₂ hresolved₂ heffects₂
              refine Prog.wp_seq _ (wp_quiet (mem_quiet _)
                (response_setData_returns lz4 data rfl)) ?_
              rintro ⟨ok, response⟩ _ ⟨hstores, rfl⟩
              refine wp_close hholds₂ ⟨rfl, ?_⟩
              simp only [hresolved₂, hresolved, heffects₂]
              cases file with
              | false => exact .none fun _ => rfl
              | true => exact .read rfl htype hsize hoffset hn hstores

/-- A decoder returns -1 or the `int` of some size. -/
theorem decoder_returns (lz4 : Lz4) (block : DataBlock) {P : ℤ × Option (List UInt8) → Prop}
    (hlen : ∀ n data, P (toInt32 n, data)) (hfail : ∀ data, P (-1, data)) :
    (block.decoder lz4 none true).Returns P := by
  unfold DataBlock.decoder
  cases block.compression with
  | none =>
    intro ok
    cases ok with
    | false => exact hfail _
    | true => exact hlen _ _
  | lz4 =>
    intro ok
    cases ok with
    | false => exact hfail _
    | true =>
      show P (if _ then _ else (-1 : ℤ), _)
      split_ifs
      · exact hlen _ _
      · exact hfail _
  | other n => exact hfail _

theorem getData_returns (lz4 : Lz4) (block : DataBlock) :
    (block.getData lz4).Returns fun out => -1 ≤ out.1 ∧ out.1 < 2 ^ 31 := by
  have hdecoder : (block.decoder lz4 none true).Returns fun out => out.1 < 2 ^ 31 :=
    decoder_returns lz4 block (fun n _ => toInt32_lt n) fun _ => by norm_num
  refine hdecoder.bind fun out hout => ?_
  obtain ⟨len, data⟩ := out
  show Prog.Returns _ (.ret (if len > -1 then (len, data) else (-1, none)))
  split_ifs with hlen
  · exact ⟨hlen.le, hout⟩
  · exact (by norm_num : (-1 : ℤ) ≤ -1 ∧ (-1 : ℤ) < 2 ^ 31)

/-- The bytes that are written are the ones of the request. -/
theorem writeData_returns (hinv : lz4.Inverse) (block : DataBlock) (size : ℤ) :
    (mem (ServeDir.writeData lz4 block size)).Returns fun r => ∀ bytes, r = some bytes →
      bytes.length < 2 ^ 31 ∧ ∀ x, block.Stores lz4 x → size = x.length → x.length < 2 ^ 31 →
        bytes = x := by
  have hlen : (ServeDir.writeData lz4 block size).Returns fun r =>
      ∀ bytes, r = some bytes → bytes.length < 2 ^ 31 := by
    refine (getData_returns lz4 block).bind fun out hout => ?_
    obtain ⟨count, data⟩ := out
    intro bytes hbytes
    dsimp only at hout hbytes
    split_ifs at hbytes with hcount
    obtain ⟨bytes', -, rfl⟩ := Option.map_eq_some_iff.mp hbytes
    obtain ⟨n, hn⟩ := Int.eq_ofNat_of_zero_le (show 0 ≤ size by omega)
    have htake : (bytes'.take (toSize size)).length ≤ toSize size := List.length_take_le _ _
    rw [hn, toSize_natCast_of_lt_int (by omega)] at htake
    rw [hn, toSize_natCast_of_lt_int (by omega)]
    omega
  apply Prog.Returns.translate
  rcases writeData_eq lz4 block size with heq | ⟨n, k, heq, hfalse, out, htrue⟩
  · rw [heq]
    intro bytes hbytes
    cases hbytes
  · rw [heq] at hlen ⊢
    intro ok
    cases ok with
    | false =>
      rw [hfalse]
      intro bytes hbytes
      cases hbytes
    | true =>
      have hlen := hlen true
      rw [htrue] at hlen ⊢
      rintro bytes rfl
      refine ⟨hlen bytes rfl, fun x hx hsize hmax => ?_⟩
      have hexec := exec_writeData hinv hmax hx
      rw [← hsize, heq, Prog.exec_call] at hexec
      have hret : (k true).exec allocAll () = (some bytes, ()) := by
        rw [htrue]
        rfl
      exact Option.some.inj (congrArg Prod.fst (hret.symm.trans hexec))

theorem wp_opWrite (hinv : lz4.Inverse) (htype : request.requesttype = .write) (h : Fresh l) :
    (ServeDir.opWrite lz4 sd request .initial).wp workerSpec (Finished lz4 request) l := by
  unfold ServeDir.opWrite
  dsimp only
  have hinitial : Response.initial.size = none := rfl
  cases hsize : request.size with
  | none => exact finished_of_fresh h (by simp [Claims, htype, Response.refuse, hinitial])
  | some size =>
  cases hoffset : request.offset with
  | none => exact finished_of_fresh h (by simp [Claims, htype, Response.refuse, hinitial])
  | some offset =>
  dsimp only
  split_ifs with hdata
  · exact finished_of_fresh h (by simp [Claims, htype, Response.refuse, hinitial])
  cases hblock : request.datablock with
  | none => exact finished_of_fresh h (by simp [Claims, htype, Response.refuse, hinitial])
  | some block =>
  refine wp_quiet_bind fullpath_quiet fun path => ?_
  cases path with
  | none => exact finished_of_fresh h (by simp [Claims, htype, hinitial])
  | some path =>
  refine ⟨no_descriptor rfl l, fun r l' hs => ?_⟩
  cases r with
  | error e =>
    obtain rfl : l' = l := hs
    exact finished_of_fresh h (by simp [Claims, htype, Response.setErrno, hinitial])
  | ok fd =>
  obtain ⟨-, file, rfl⟩ := hs
  have hkeeps : ((O_CREAT ||| O_WRONLY) &&& O_TRUNC != 0) = false := by decide
  rw [hkeeps]
  obtain ⟨hholds, hresolved, heffects⟩ := opened_spec h file false fd
  rw [Bool.and_false, if_neg Bool.false_ne_true] at heffects
  refine Prog.wp_seq (p := mem (ServeDir.writeData lz4 block size)) _
    (wp_quiet (mem_quiet _) (writeData_returns hinv block size)) ?_
  rintro bytes _ ⟨hbytes, rfl⟩
  cases bytes with
  | none => exact wp_close_unclaimed hholds heffects rfl (by simp [Claims, htype, hinitial])
  | some data =>
  obtain ⟨hmax, hsent⟩ := hbytes data rfl
  have hfd : (l.opened file fd false).held fd = some (file, 0) := by
    rw [hholds]
    simp
  refine ⟨fun fd' hfd' => by cases hfd'; simp [hfd], fun r l₂ hs => ?_⟩
  have hwritten : Holds l₂ fd file 0 ∧ Finished lz4 request
      (0, { Response.initial with requesttype := .write }.written r)
      { l₂ with held := fun _ => none } := by
    cases r with
    | error e =>
      obtain rfl : l₂ = l.opened file fd false := hs
      refine ⟨hholds, rfl, ?_⟩
      simp only [heffects]
      exact .none fun hc => absurd hc (by simp [Claims, htype, Response.written])
    | ok n =>
      obtain ⟨hn, file', position, hfd', rfl⟩ := hs
      cases hfd.symm.trans hfd'
      cases file with
      | false =>
        refine ⟨hholds, rfl, ?_⟩
        simp only [Bool.false_eq_true, if_false, heffects, hresolved]
        exact .none fun _ => rfl
      | true =>
        refine ⟨hholds, rfl, ?_⟩
        simp only [if_true, Local.perform, heffects, hresolved, List.nil_append]
        refine .write rfl htype hoffset hblock (fun x hx hx' hmax' => ?_) ?_
        · rw [hsize] at hx'
          rw [hsent x hx (Option.some.inj hx') hmax']
          exact List.take_prefix n x
        · rw [List.length_take, Nat.min_eq_left hn, Response.written,
            toInt32_natCast (by omega)]
  refine wp_close hwritten.1 ?_
  refine wp_quiet_bind (p := sys .gettimeofday) ⟨trivial, fun _ => trivial⟩ fun now => ?_
  refine wp_quiet_bind (p := sys (.path _)) ⟨trivial, fun _ => trivial⟩ fun _ => ?_
  exact hwritten.2

/-- Every handler. -/
theorem wp_dispatch (hinv : lz4.Inverse) (h : Fresh l) :
    (ServeDir.dispatch lz4 sd request .initial).wp workerSpec (Finished lz4 request) l := by
  by_cases htype : request.requesttype ∈ [RequestType.open, .read, .write, .create, .truncate]
  · cases hty : request.requesttype with
    | «open» =>
      rw [ServeDir.dispatch, hty]
      exact wp_opOpen hty h
    | read =>
      rw [ServeDir.dispatch, hty]
      exact wp_opRead hty h
    | write =>
      rw [ServeDir.dispatch, hty]
      exact wp_opWrite hinv hty h
    | create =>
      rw [ServeDir.dispatch, hty]
      exact wp_opCreate hty h
    | truncate =>
      rw [ServeDir.dispatch, hty]
      exact wp_opTruncate hty h
    | _ => simp [hty] at htype
  · exact wp_quiet_handler (dispatch_quiet htype) h (not_claims htype)

theorem create_returns :
    (mem Response.create).Returns fun r => ∀ response, r = some response → response = .initial := by
  apply Prog.Returns.translate
  intro ok
  cases ok with
  | false => exact fun _ h => by cases h
  | true =>
    intro ok
    cases ok with
    | false => exact fun _ h => by cases h
    | true => exact fun _ h => (Option.some.inj h).symm

/-- One message: the worker ends without a descriptor, and its accesses explain the outcome. -/
theorem wp_handle (hinv : lz4.Inverse) (message : Option Request) (h : Fresh l) :
    (ServeDir.handle lz4 sd message).wp workerSpec
      (fun answer l' => l'.held = (fun _ => none) ∧
        explains lz4 message ⟨answer, l'.resolved⟩ l'.effects) l := by
  cases message with
  | none =>
    refine wp_quiet_bind (mem_quiet _) fun response => ?_
    cases response <;> exact ⟨h.held, h.effects⟩
  | some request =>
    refine Prog.wp_seq _ (wp_quiet (mem_quiet _) create_returns) ?_
    rintro response _ ⟨hresponse, rfl⟩
    cases response with
    | none => exact ⟨h.held, h.effects⟩
    | some response =>
      obtain rfl := hresponse response rfl
      exact Prog.wp_seq _ (wp_dispatch hinv h) fun out l' hl' => hl'

end Handlers

/-! ## All workers -/

section System

variable {lz4 : Lz4} {sd : ServeDir} {content : List UInt8} {names : CString → Bool}
  {config : Config ℕ (Option Request) SysRet (Option (ℤ × Response)) Host}

/-- The workers, one at a time. -/
def verification (hinv : lz4.Inverse) (sd : ServeDir) (content : List UInt8) :
    Verification (workers lz4 sd) Local (Host.Linear lz4 content) Host.view where
  spec := workerSpec
  idle l := l.held = (fun _ => none) ∧ l.effects = []
  post message answer l := l.held = (fun _ => none) ∧
    explains lz4 message ⟨answer, l.resolved⟩ l.effects
  start := by
    rintro t message w hlinear ⟨hidle, hown⟩
    refine ⟨hlinear.begin hown, wp_handle hinv message ⟨Journal.own_begin_self, hidle, ?_⟩, ?_⟩
    · show Function.update w.resolved t none t = none
      exact Function.update_self ..
    · intro t' hne
      show Local.mk t' ((w.journal.begin t).own t') (w.held t')
        (Function.update w.resolved t none t') = w.view t'
      rw [Journal.own_begin_of_ne hne, Function.update_of_ne hne]
      rfl
  act := fun t c w r w' hlinear hpre hcall => call_spec hlinear hpre hcall
  finish := by
    rintro t message answer w hlinear ⟨hheld, hexplains⟩
    refine ⟨hlinear.finish hexplains, ⟨hheld, Journal.own_finish_self _ _⟩, fun t' hne => ?_⟩
    show Local.mk t' ((w.journal.finish t _ _).own t') (w.held t') (w.resolved t') = w.view t'
    rw [Journal.own_finish_of_ne hne]
    rfl
  env := by
    rintro w _ hlinear ⟨names, rfl⟩
    exact ⟨hlinear, fun _ => rfl⟩

theorem verified_workers (hinv : lz4.Inverse)
    (h : Reachable (workers lz4 sd) (.start content names) config) :
    Verified (verification hinv sd content) config := by
  refine Reachable.verified (V := verification hinv sd content) (Journal.linear_start content) ?_ h
  exact fun t => ⟨rfl, rfl⟩

/-- The accesses of all workers are those of one byte array that is accessed by one worker after the
other, in an order in which each request has its accesses between its message and its response. -/
structure Linearized (lz4 : Lz4) (content : List UInt8)
    (config : Config ℕ (Option Request) SysRet (Option (ℤ × Response)) Host) : Prop where
  /-- In the order in which they took effect, the accesses have the answers that a byte array gives
  from `content` on, and end in the bytes of the file. -/
  sequential : replay (ByteFile.Access.apply 0) (config.world.journal.effects.map (·.op)) content =
    (config.world.journal.effects.map (·.answer), config.world.journal.state)
  /-- An access is one of a request that has been answered, or of one that is being answered. -/
  attributed : ∀ i e, config.world.journal.effects[i]? = some e →
    (∃ r ∈ config.world.journal.served, r.thread = e.thread ∧ r.first ≤ i ∧ i < r.last) ∨
      config.threads e.thread ≠ none
  /-- A response tells what the request has done to the file. -/
  explained : ∀ r ∈ config.world.journal.served,
    explains lz4 r.request r.response (config.world.journal.during r)
  /-- A request that came after the response to another one has its accesses after the other's. -/
  ordered : ∀ r ∈ config.world.journal.served,
    ∀ r' ∈ config.world.journal.served.take r.before, r'.last ≤ r.first

end System

/-! ## Runs -/

section Runs

/-- `/s/f`, which is the file. -/
def pathF : CString := [47, 115, 47, 102]

/-- A message for `/f`. -/
def message (type : RequestType) : Request :=
  { Request.initial with requesttype := type, path := some [47, 102], offset := some 2
                         permissions := some ⟨⟨true, true, false⟩, ⟨true, false, false⟩,
                           ⟨true, false, false⟩⟩ }

variable (lz4 : Lz4) {w : Host}

/-- TRUNCATE leaves two bytes. -/
theorem advance_truncate (hnames : w.names pathF = true) :
    Advance ((workers lz4 ⟨[47, 115]⟩).act 0) (workers lz4 ⟨[47, 115]⟩).env
      (.ret (some (0, { Response.initial with requesttype := .truncate })))
      ((w.resolve 0 pathF).perform 0 (.truncate 2))
      (ServeDir.handle lz4 ⟨[47, 115]⟩ (some (message .truncate))) w := by
  refine .act (c := SysCall.alloc _) true rfl ?_
  refine .act (c := SysCall.alloc _) true rfl ?_
  refine .act (c := SysCall.alloc _) true rfl ?_
  refine .act (c := SysCall.path (.truncate pathF 2)) (Except.ok ()) ⟨by decide, ?_⟩ .done
  rw [hnames]
  rfl

/-- CREATE has got the descriptor 3. -/
theorem advance_create (hfree : w.descriptors 3 = none) :
    Advance ((workers lz4 ⟨[47, 115]⟩).act 0) (workers lz4 ⟨[47, 115]⟩).env
      (.call (.close 3) fun _ => .ret (some (0, { Response.initial with requesttype := .create })))
      (w.opened 0 pathF 3 true) (ServeDir.handle lz4 ⟨[47, 115]⟩ (some (message .create))) w := by
  refine .act (c := SysCall.alloc _) true rfl ?_
  refine .act (c := SysCall.alloc _) true rfl ?_
  refine .act (c := SysCall.alloc _) true rfl ?_
  exact .act (c := SysCall.creat pathF _) (Except.ok 3) ⟨hfree, rfl⟩ .done

end Runs

/-! ## All runs -/

section AllRuns

variable (beyond : List UInt8) (sd : ServeDir) (content : List UInt8) (names : CString → Bool)
  (config : Config ℕ (Option Request) SysRet (Option (ℤ × Response)) Host)

/-- **The file is linearizable**: whatever messages the workers get, and however their system calls
are interleaved. -/
theorem file_linearizable
    (h : Reachable (workers (lz4Library beyond) sd) (.start content names) config) :
    Linearized (lz4Library beyond) content config := by
  obtain ⟨hlinear, hidle, -⟩ := verified_workers (lz4Library_inverse beyond) h
  refine ⟨hlinear.replays, fun i e he => ?_, hlinear.explained,
    fun r hr => (hlinear.ordered r hr).2.2.2⟩
  rcases hlinear.covered i e he with hbegan | hserved
  · refine .inr fun hnone => ?_
    have hown : config.world.journal.own e.thread = [] := (hidle e.thread hnone).2
    exact absurd (Journal.lt_began_of_own_eq_nil hown he rfl) (Nat.not_lt.mpr hbegan)
  · exact .inl hserved

theorem file_linearizable_truncate :
    ∃ config, Linearized (lz4Library []) [1, 2, 3] config ∧
      config.world.journal.state = [1, 2] ∧ config.world.journal.served.length = 1 := by
  have hinit : Reachable (workers (lz4Library []) ⟨[47, 115]⟩) (.start [1, 2, 3] (· == pathF)) _ :=
    .init
  have hreach := hinit.runs (t := 0) (some (message .truncate)) rfl
    (advance_truncate (lz4Library []) rfl)
  exact ⟨_, file_linearizable [] ⟨[47, 115]⟩ [1, 2, 3] (· == pathF) _ hreach, rfl, rfl⟩

/-- A worker that waits for a message has no descriptor, and one that answers a message uses only
its own. -/
theorem descriptors_held
    (h : Reachable (workers (lz4Library beyond) sd) (.start content names) config) :
    (∀ fd d, config.world.descriptors fd = some d → config.threads d.worker ≠ none) ∧
      ∀ t message c fd, Next config t message c → usedDescriptor c = some fd →
        ∃ d, config.world.descriptors fd = some d ∧ d.worker = t := by
  obtain ⟨-, hidle, hrunning⟩ := verified_workers (lz4Library_inverse beyond) h
  constructor
  · intro fd d hd hnone
    have hheld : config.world.held d.worker fd = none :=
      congrFun (hidle d.worker hnone).1 fd
    simp [Host.held, hd] at hheld
  · rintro t message c fd ⟨k, hnext⟩ hc
    obtain ⟨hpre, -⟩ := hrunning t message _ hnext
    obtain ⟨file, position, hd, -⟩ := descriptor_of_held (hpre fd hc)
    exact ⟨_, hd, rfl⟩

theorem descriptors_held_create :
    ∃ config : Config ℕ (Option Request) SysRet (Option (ℤ × Response)) Host,
      Next config 0 (some (message .create)) (.close 3) ∧
        ∃ d, config.world.descriptors 3 = some d ∧ d.worker = 0 := by
  have hinit : Reachable (workers (lz4Library []) ⟨[47, 115]⟩) (.start [1, 2, 3] (· == pathF)) _ :=
    .init
  have hstart := hinit.step (.start 0 (some (message .create)) rfl)
  have hreach := hstart.advance (t := 0) rfl (advance_create (lz4Library []) rfl)
  exact ⟨_, ⟨_, rfl⟩, (descriptors_held [] ⟨[47, 115]⟩ [1, 2, 3] (· == pathF) _ hreach).2 0 _
    (.close 3) 3 ⟨_, rfl⟩ rfl⟩

end AllRuns

end Rhizofs.Workers
