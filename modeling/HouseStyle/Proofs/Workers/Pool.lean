import Mathlib.Data.List.Perm.Basic
import Mathlib.Logic.Relation

/-! A pool of workers. Tasks wait in line, a free worker takes the first of them, and those that are
being worked on are finished in any order. Whatever the order is, each task is finished once and with
its own result, and a pool with a worker in it never gets stuck. -/

namespace HouseStyle

/-- The state of a pool: tasks in line, tasks that workers have taken, and finished tasks with their
results, in the order in which they were finished. -/
structure Pool (α β : Type) where
  waiting : List α
  running : List α := []
  finished : List (α × β) := []

namespace Pool

variable {α β : Type}

/-- One event in a pool. -/
inductive Step (workers : Nat) (work : α → β) : Pool α β → Pool α β → Prop
  | take {a : α} {waiting running : List α} {finished : List (α × β)}
    (hfree : running.length < workers) :
    Step workers work ⟨a :: waiting, running, finished⟩ ⟨waiting, a :: running, finished⟩
  | finish {a : α} {waiting before after : List α} {finished : List (α × β)} :
    Step workers work ⟨waiting, before ++ a :: after, finished⟩
      ⟨waiting, before ++ after, finished ++ [(a, work a)]⟩

abbrev Reaches (workers : Nat) (work : α → β) : Pool α β → Pool α β → Prop :=
  Relation.ReflTransGen (Step workers work)

/-- All tasks are finished, in this order. -/
def Completes (workers : Nat) (work : α → β) (tasks : List α) (finished : List (α × β)) : Prop :=
  Reaches workers work ⟨tasks, [], []⟩ ⟨[], [], finished⟩

variable {workers : Nat} {work : α → β} {tasks : List α} {p q : Pool α β}

/-! ### What a pool keeps -/

/-- Every task is at one place, and what is finished has its own result. -/
structure Sound (work : α → β) (tasks : List α) (p : Pool α β) : Prop where
  perm : (p.waiting ++ p.running ++ p.finished.map Prod.fst).Perm tasks
  worked : ∀ x ∈ p.finished, x.2 = work x.1

theorem Sound.step (h : p.Sound work tasks) (hstep : Step workers work p q) :
    q.Sound work tasks := by
  cases hstep with
  | @take a waiting running finished =>
    refine ⟨.trans (.append_right _ ?_) h.perm, h.worked⟩
    exact List.perm_middle
  | @finish a waiting before after finished =>
    refine ⟨.trans ?_ h.perm, fun x hx => ?_⟩
    · simp only [List.map_append, List.map_cons, List.map_nil, List.append_assoc, List.cons_append]
      refine .append_left waiting (.append_left before ?_)
      rw [← List.append_assoc]
      exact List.perm_append_comm
    · rcases List.mem_append.mp hx with hx | hx
      · exact h.worked x hx
      · rw [List.mem_singleton.mp hx]

theorem Sound.reaches (h : p.Sound work tasks) (hreaches : Reaches workers work p q) :
    q.Sound work tasks := by
  induction hreaches with
  | refl => exact h
  | tail _ hstep ih => exact ih.step hstep

/-- In whatever order tasks are finished, each of them is, once and with its own result. -/
theorem Completes.perm {finished : List (α × β)} (h : Completes workers work tasks finished) :
    finished.Perm (tasks.map fun a => (a, work a)) := by
  have hsound : Sound work tasks ⟨[], [], finished⟩ :=
    Sound.reaches ⟨by simp, by simp⟩ h
  have heq : finished = (finished.map Prod.fst).map fun a => (a, work a) := by
    rw [List.map_map]
    conv_lhs => rw [← List.map_id finished]
    exact List.map_congr_left fun x hx => Prod.ext rfl (hsound.worked x hx)
  rw [heq]
  exact hsound.perm.map _

/-- In a list of all results, in any order, each task has its own. -/
theorem lookup_of_perm [BEq α] [LawfulBEq α] {results : List (α × β)} {a : α}
    (h : results.Perm (tasks.map fun a => (a, work a))) (ha : a ∈ tasks) :
    results.lookup a = some (work a) := by
  cases hfound : results.lookup a with
  | none =>
    have hmem : (a, work a) ∈ results :=
      h.symm.subset (List.mem_map_of_mem (f := fun a => (a, work a)) ha)
    simpa using List.lookup_eq_none_iff.mp hfound _ hmem
  | some b =>
    obtain ⟨before, after, heq, -⟩ := List.lookup_eq_some_iff.mp hfound
    have hmem : (a, b) ∈ results := heq ▸ List.mem_append_right _ List.mem_cons_self
    obtain ⟨a', -, hb⟩ := List.mem_map.mp (h.subset hmem)
    cases hb
    rfl

/-! ### Progress -/

/-- How many events are left. -/
def left (p : Pool α β) : Nat := 2 * p.waiting.length + p.running.length

theorem Step.left_eq (h : Step workers work p q) : p.left = q.left + 1 := by
  cases h <;> simp only [left, List.length_cons, List.length_append] <;> omega

/-- A pool with a worker goes on until all is finished. -/
theorem exists_step (hworkers : 0 < workers) (h : p.left ≠ 0) : ∃ q, Step workers work p q := by
  obtain ⟨waiting, running, finished⟩ := p
  cases running with
  | cons a running => exact ⟨_, @Step.finish α β workers work a waiting [] running finished⟩
  | nil =>
    cases waiting with
    | nil => exact absurd rfl h
    | cons a waiting => exact ⟨_, .take hworkers⟩

theorem exists_reaches (hworkers : 0 < workers) (p : Pool α β) :
    ∃ finished, Reaches workers work p ⟨[], [], finished⟩ := by
  induction hleft : p.left generalizing p with
  | zero =>
    obtain ⟨waiting, running, finished⟩ := p
    obtain ⟨rfl, rfl⟩ : waiting = [] ∧ running = [] := by
      simp only [left] at hleft
      constructor <;> exact List.eq_nil_of_length_eq_zero (by omega)
    exact ⟨finished, .refl⟩
  | succ n ih =>
    obtain ⟨q, hstep⟩ : ∃ q, Step workers work p q := exists_step hworkers (by omega)
    have := hstep.left_eq
    obtain ⟨finished, hreaches⟩ := ih q (by omega)
    exact ⟨finished, .head hstep hreaches⟩

/-- A pool with a worker finishes all tasks. -/
theorem exists_completes (hworkers : 0 < workers) (tasks : List α) :
    ∃ finished, Completes workers work tasks finished :=
  exists_reaches hworkers _

/-! ### Any order -/

theorem reaches_take {waiting running : List α} {finished : List (α × β)}
    (h : waiting.length + running.length ≤ workers) :
    Reaches workers work ⟨waiting, running, finished⟩ ⟨[], waiting.reverse ++ running, finished⟩ := by
  induction waiting generalizing running with
  | nil => exact .refl
  | cons a waiting ih =>
    rw [List.length_cons] at h
    rw [List.reverse_cons, List.append_assoc]
    exact .head (.take (by omega)) (ih (by rw [List.length_cons]; omega))

theorem reaches_finish {running order : List α} {finished : List (α × β)} (h : order.Perm running) :
    Reaches workers work ⟨[], running, finished⟩
      ⟨[], [], finished ++ order.map fun a => (a, work a)⟩ := by
  induction order generalizing running finished with
  | nil =>
    rw [h.symm.eq_nil, List.map_nil, List.append_nil]
  | cons a order ih =>
    obtain ⟨before, after, rfl⟩ := List.append_of_mem (h.subset List.mem_cons_self)
    have hrest : order.Perm (before ++ after) := (h.trans List.perm_middle).cons_inv
    have hlater : Reaches workers work ⟨[], before ++ after, finished ++ [(a, work a)]⟩
        ⟨[], [], finished ++ [(a, work a)] ++ order.map fun a => (a, work a)⟩ := ih hrest
    rw [List.append_assoc, List.singleton_append] at hlater
    exact .head .finish hlater

/-- With a worker for each task they may be finished in any order. -/
theorem completes_of_perm {order : List α} (h : order.Perm tasks)
    (hworkers : tasks.length ≤ workers) :
    Completes workers work tasks (order.map fun a => (a, work a)) := by
  refine .trans (reaches_take (by simpa using hworkers)) ?_
  rw [List.append_nil]
  exact reaches_finish (h.trans (List.reverse_perm tasks).symm)

end Pool

end HouseStyle
