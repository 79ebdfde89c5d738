import Mathlib.Data.List.Basic
import Mathlib.Data.Nat.Notation
import Mathlib.Logic.Function.Basic
import Mathlib.Tactic.Common

/-!
# Journals of shared objects

Threads answer requests with the help of an object that they share. Each operation on the object
takes effect at once (`Journal.perform`), but a request may make other steps before and after it,
between which other threads go on. A `Journal` is the object with the list of the operations in the
order in which they took effect, and with the requests that have been answered. For every request it
keeps the part of the list during which the thread was at it, so that the order of the operations is
one in which requests that did not overlap are not exchanged.

`Journal.Linear` says that the answers and the state are those of a sequential object to which the
operations are applied one after the other, and that what the operations of each answered request
have to do with its answer (`explains`) is true. It is kept by all steps of a journal
(`Linear.begin`, `Linear.perform`, `Linear.finish`), where a thread only has to know its own
operations since it began (`Journal.own`).
-/

namespace Extern

/-- The answers of a sequential object to operations made one after the other, and the state
afterwards. -/
def replay {State Op Ans : Type} (apply : Op → State → Ans × State) :
    List Op → State → List Ans × State
  | [], s => ([], s)
  | op :: ops, s =>
    let (answer, s) := apply op s
    let (answers, s) := replay apply ops s
    (answer :: answers, s)

theorem replay_concat {State Op Ans : Type} (apply : Op → State → Ans × State) (ops : List Op)
    (op : Op) (s : State) :
    replay apply (ops ++ [op]) s =
      ((replay apply ops s).1 ++ [(apply op (replay apply ops s).2).1],
        (apply op (replay apply ops s).2).2) := by
  induction ops generalizing s with
  | nil => rfl
  | cons first ops ih =>
    simp only [List.cons_append, replay, ih]

/-- An operation that has taken effect. -/
structure Effect (Tid Op Ans : Type) where
  thread : Tid
  op : Op
  answer : Ans

/-- A request that has been answered: `before` requests had been answered when it began, and it
lasted from the operation `first` to the operation `last`. -/
structure Served (Tid Req Resp : Type) where
  thread : Tid
  request : Req
  response : Resp
  before : ℕ
  first : ℕ
  last : ℕ

/-- The object, its operations so far, and the requests. For each thread, `began` are the numbers of
answered requests and of operations when it began with its request, or ended its last one. -/
structure Journal (Tid State Op Ans Req Resp : Type) where
  state : State
  effects : List (Effect Tid Op Ans)
  began : Tid → ℕ × ℕ
  served : List (Served Tid Req Resp)

namespace Journal

variable {Tid State Op Ans Req Resp : Type}

/-- Before the first request. -/
def start (s : State) : Journal Tid State Op Ans Req Resp :=
  { state := s, effects := [], began := fun _ => (0, 0), served := [] }

section Steps

variable [DecidableEq Tid] (j : Journal Tid State Op Ans Req Resp)

/-- The thread `t` begins with a request. -/
def begin (t : Tid) : Journal Tid State Op Ans Req Resp :=
  { j with began := Function.update j.began t (j.served.length, j.effects.length) }

/-- The operation `op` of the thread `t` takes effect. -/
def perform (apply : Op → State → Ans × State) (t : Tid) (op : Op) :
    Journal Tid State Op Ans Req Resp :=
  { j with state := (apply op j.state).2, effects := j.effects ++ [⟨t, op, (apply op j.state).1⟩] }

/-- The thread `t` answers its request. -/
def finish (t : Tid) (request : Req) (response : Resp) : Journal Tid State Op Ans Req Resp :=
  { j with
    began := Function.update j.began t (j.served.length + 1, j.effects.length)
    served := j.served ++
      [⟨t, request, response, (j.began t).1, (j.began t).2, j.effects.length⟩] }

/-- The operations of `t` since it began. -/
def own (t : Tid) : List (Effect Tid Op Ans) :=
  (j.effects.drop (j.began t).2).filter (·.thread = t)

/-- The operations of an answered request. -/
def during (r : Served Tid Req Resp) : List (Effect Tid Op Ans) :=
  ((j.effects.take r.last).drop r.first).filter (·.thread = r.thread)

end Steps

variable [DecidableEq Tid]

/-- The operations can be taken for those of a sequential object that starts in `init`, and explain
the answered requests. Each request was answered after it began, and began after those that had been
answered before. Every operation belongs to an answered request, or to one that its thread is at. -/
structure Linear (apply : Op → State → Ans × State) (init : State)
    (explains : Req → Resp → List (Effect Tid Op Ans) → Prop)
    (j : Journal Tid State Op Ans Req Resp) : Prop where
  replays : replay apply (j.effects.map (·.op)) init = (j.effects.map (·.answer), j.state)
  explained : ∀ r ∈ j.served, explains r.request r.response (j.during r)
  ordered : ∀ r ∈ j.served, r.first ≤ r.last ∧ r.last ≤ j.effects.length ∧
    r.before ≤ j.served.length ∧ ∀ r' ∈ j.served.take r.before, r'.last ≤ r.first
  began : ∀ t, (j.began t).1 ≤ j.served.length ∧ (j.began t).2 ≤ j.effects.length ∧
    ∀ r' ∈ j.served.take (j.began t).1, r'.last ≤ (j.began t).2
  covered : ∀ i e, j.effects[i]? = some e → (j.began e.thread).2 ≤ i ∨
    ∃ r ∈ j.served, r.thread = e.thread ∧ r.first ≤ i ∧ i < r.last

section Own

variable {j : Journal Tid State Op Ans Req Resp} {apply : Op → State → Ans × State} {t t' : Tid}
  {op : Op}

@[simp] theorem own_begin_self : (j.begin t).own t = [] := by
  simp [own, begin]

theorem own_begin_of_ne (h : t' ≠ t) : (j.begin t).own t' = j.own t' := by
  simp [own, begin, Function.update_of_ne h]

@[simp] theorem own_finish_self (request : Req) (response : Resp) :
    (j.finish t request response).own t = [] := by
  simp [own, finish]

theorem own_finish_of_ne (h : t' ≠ t) (request : Req) (response : Resp) :
    (j.finish t request response).own t' = j.own t' := by
  simp [own, finish, Function.update_of_ne h]

/-- A thread without operations of its own has made none since it began. -/
theorem lt_began_of_own_eq_nil (h : j.own t = []) {i : ℕ} {e : Effect Tid Op Ans}
    (he : j.effects[i]? = some e) (ht : e.thread = t) : i < (j.began t).2 := by
  by_contra hi
  have hdrop : (j.effects.drop (j.began t).2)[i - (j.began t).2]? = some e := by
    rw [List.getElem?_drop, Nat.add_sub_cancel' (Nat.le_of_not_lt hi), he]
  have hmem : e ∈ j.own t :=
    List.mem_filter.mpr ⟨List.mem_of_getElem? hdrop, by simp [ht]⟩
  simp [h] at hmem

theorem own_perform (h : (j.began t').2 ≤ j.effects.length) :
    (j.perform apply t op).own t' =
      j.own t' ++ if t = t' then [⟨t, op, (apply op j.state).1⟩] else [] := by
  unfold own perform
  rw [List.drop_append_of_le_length h, List.filter_append]
  congr 1
  by_cases ht : t = t' <;> simp [ht]

end Own

section Linear

variable {apply : Op → State → Ans × State} {init : State}
  {explains : Req → Resp → List (Effect Tid Op Ans) → Prop}
  {j : Journal Tid State Op Ans Req Resp} {t : Tid}

theorem linear_start (s : State) :
    Linear apply s explains (start s : Journal Tid State Op Ans Req Resp) where
  replays := rfl
  explained := by simp [start]
  ordered := by simp [start]
  began := by simp [start]
  covered := by simp [start]

theorem Linear.begin (h : Linear apply init explains j) (hown : j.own t = []) :
    Linear apply init explains (j.begin t) where
  replays := h.replays
  explained := h.explained
  ordered := h.ordered
  began := by
    intro t'
    by_cases ht : t' = t
    · subst ht
      simp only [Journal.begin, Function.update_self]
      refine ⟨Nat.le_refl _, Nat.le_refl _, fun r' hr' => ?_⟩
      exact (h.ordered r' (List.mem_of_mem_take hr')).2.1
    · simp only [Journal.begin, Function.update_of_ne ht]
      exact h.began t'
  covered := by
    intro i e he
    by_cases ht : e.thread = t
    · rcases h.covered i e he with hi | hr
      · rw [ht] at hi
        exact absurd (lt_began_of_own_eq_nil hown he ht) (Nat.not_lt.mpr hi)
      · exact .inr hr
    · simp only [Journal.begin, Function.update_of_ne ht]
      exact h.covered i e he

theorem Linear.perform (h : Linear apply init explains j) (t : Tid) (op : Op) :
    Linear apply init explains (j.perform apply t op) where
  replays := by
    simp only [Journal.perform, List.map_append, List.map_cons, List.map_nil, replay_concat,
      h.replays]
  explained := by
    intro r hr
    have hlast := (h.ordered r hr).2.1
    have hduring : (j.perform apply t op).during r = j.during r := by
      simp only [during, Journal.perform]
      rw [List.take_append_of_le_length hlast]
    rw [hduring]
    exact h.explained r hr
  ordered := by
    intro r hr
    obtain ⟨hfirst, hlast, hbefore⟩ := h.ordered r hr
    refine ⟨hfirst, ?_, hbefore⟩
    simp only [Journal.perform, List.length_append, List.length_cons]
    omega
  began := by
    intro t'
    obtain ⟨hserved, heffects, hbefore⟩ := h.began t'
    refine ⟨hserved, ?_, hbefore⟩
    simp only [Journal.perform, List.length_append, List.length_cons]
    omega
  covered := by
    intro i e he
    simp only [Journal.perform] at he ⊢
    by_cases hi : i < j.effects.length
    · rw [List.getElem?_append_left hi] at he
      exact h.covered i e he
    · exact .inl (Nat.le_trans (h.began _).2.1 (Nat.le_of_not_lt hi))

/-- A thread answers its request with what its own operations explain. -/
theorem Linear.finish (h : Linear apply init explains j) {request : Req} {response : Resp}
    (hown : explains request response (j.own t)) :
    Linear apply init explains (j.finish t request response) where
  replays := h.replays
  explained := by
    intro r hr
    rcases List.mem_append.mp hr with hr | hr
    · exact h.explained r hr
    · obtain rfl := List.mem_singleton.mp hr
      simpa [during, Journal.finish, own] using hown
  ordered := by
    intro r hr
    obtain ⟨hserved, heffects, hbefore⟩ := h.began t
    rcases List.mem_append.mp hr with hr | hr
    · obtain ⟨hfirst, hlast, hcount, hbefore'⟩ := h.ordered r hr
      simp only [Journal.finish, List.length_append, List.length_cons]
      refine ⟨hfirst, hlast, by omega, fun r' hr' => ?_⟩
      rw [List.take_append_of_le_length hcount] at hr'
      exact hbefore' r' hr'
    · obtain rfl := List.mem_singleton.mp hr
      simp only [Journal.finish, List.length_append, List.length_cons]
      refine ⟨heffects, Nat.le_refl _, by omega, fun r' hr' => ?_⟩
      rw [List.take_append_of_le_length hserved] at hr'
      exact hbefore r' hr'
  began := by
    intro t'
    by_cases ht : t' = t
    · subst ht
      simp only [Journal.finish, Function.update_self, List.length_append, List.length_cons]
      refine ⟨Nat.le_refl _, Nat.le_refl _, fun r' hr' => ?_⟩
      rcases List.mem_append.mp (List.mem_of_mem_take hr') with hr' | hr'
      · exact (h.ordered r' hr').2.1
      · obtain rfl := List.mem_singleton.mp hr'
        exact Nat.le_refl _
    · obtain ⟨hserved, heffects, hbefore⟩ := h.began t'
      simp only [Journal.finish, Function.update_of_ne ht, List.length_append, List.length_cons]
      refine ⟨by omega, heffects, fun r' hr' => ?_⟩
      rw [List.take_append_of_le_length hserved] at hr'
      exact hbefore r' hr'
  covered := by
    intro i e he
    simp only [Journal.finish] at he ⊢
    have hi : i < j.effects.length := (List.getElem?_eq_some_iff.mp he).1
    rcases h.covered i e he with hbegan | ⟨r, hr, hcovers⟩
    · by_cases ht : e.thread = t
      · rw [ht] at hbegan
        exact .inr ⟨_, List.mem_append_right _ (List.mem_singleton_self _), ht.symm, hbegan, hi⟩
      · rw [Function.update_of_ne ht]
        exact .inl hbegan
    · exact .inr ⟨r, List.mem_append_left _ hr, hcovers⟩

end Linear

end Journal

end Extern
