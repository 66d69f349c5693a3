import Mathlib.Logic.Function.Basic
import Mathlib.Data.Int.Init

/-! Sets of System V semaphores with their undo adjustments, and single counting semaphores. -/
namespace Tasks.Kit

/-- The values of a set of semaphores, and what the exit of each process adds to them. -/
structure Semaphores (ι π : Type) where
  val : ι → Int
  adj : π → ι → Int

/-- One operation of a `semop` call with `SEM_UNDO`. -/
structure Sembuf (ι : Type) where
  num : ι
  op : Int
  deriving DecidableEq, Repr

namespace Semaphores

variable {ι π : Type} [DecidableEq ι] [DecidableEq π]

/-- `SETVAL`, which clears the adjustments of the semaphore in all processes. -/
def setval (s : Semaphores ι π) (num : ι) (val : Int) : Semaphores ι π :=
  ⟨Function.update s.val num val, fun p => Function.update (s.adj p) num 0⟩

def change (s : Semaphores ι π) (p : π) (num : ι) (op : Int) : Semaphores ι π :=
  ⟨Function.update s.val num (s.val num + op),
    Function.update s.adj p (Function.update (s.adj p) num (s.adj p num - op))⟩

/-- A value that would become negative blocks, and so does waiting for zero at another value. -/
def perform (p : π) (s : Semaphores ι π) (sop : Sembuf ι) : Option (Semaphores ι π) :=
  if sop.op = 0 then if s.val sop.num = 0 then some s else none
  else if 0 ≤ s.val sop.num + sop.op then some (s.change p sop.num sop.op)
  else none

/-- All operations are performed, or none and the caller blocks. -/
def semop (s : Semaphores ι π) (p : π) (sops : List (Sembuf ι)) : Option (Semaphores ι π) :=
  sops.foldlM (perform p) s

/-- The kernel gives back what the process still has taken; no value becomes negative. -/
def exit (s : Semaphores ι π) (p : π) : Semaphores ι π :=
  ⟨fun num => max 0 (s.val num + s.adj p num), Function.update s.adj p fun _ => 0⟩

variable {s t : Semaphores ι π} {p : π} {num : ι} {op : Int} {sops : List (Sembuf ι)}

@[simp] theorem semop_nil (s : Semaphores ι π) (p : π) : s.semop p [] = some s := rfl

@[simp] theorem semop_cons (s : Semaphores ι π) (p : π) (sop : Sembuf ι) (sops : List (Sembuf ι)) :
    s.semop p (sop :: sops) = (perform p s sop).bind fun t => t.semop p sops := rfl

theorem change_val (s : Semaphores ι π) (p : π) (num : ι) (op : Int) (j : ι) :
    (s.change p num op).val j = s.val j + if num = j then op else 0 := by
  by_cases same : j = num
  · subst same
    simp [change]
  · simp [change, same, Ne.symm same]

theorem change_adj (s : Semaphores ι π) (p : π) (num : ι) (op : Int) (q : π) (j : ι) :
    (s.change p num op).adj q j = s.adj q j - if q = p then if num = j then op else 0 else 0 := by
  by_cases caller : q = p
  · subst caller
    by_cases same : j = num
    · subst same
      simp [change]
    · simp [change, same, Ne.symm same]
  · simp [change, caller]

theorem perform_ok (moves : op ≠ 0) (enough : 0 ≤ s.val num + op) :
    perform p s ⟨num, op⟩ = some (s.change p num op) := by
  rw [perform, if_neg moves, if_pos enough]

theorem semop_blocks (moves : op ≠ 0) (short : s.val num + op < 0) (sops : List (Sembuf ι)) :
    s.semop p (⟨num, op⟩ :: sops) = none := by
  rw [semop_cons, perform, if_neg moves, if_neg (Int.not_le.mpr short), Option.bind_none]

theorem semop_single (s : Semaphores ι π) (p : π) (num : ι) (op : Int) (moves : op ≠ 0)
    (enough : 0 ≤ s.val num + op) :
    ∃ t, s.semop p [⟨num, op⟩] = some t :=
  ⟨_, by rw [semop_cons, perform_ok moves enough]; rfl⟩

theorem semop_pair (s : Semaphores ι π) (p : π) (num : ι) (op : Int) (num' : ι) (op' : Int)
    (apart : num' ≠ num) (moves : op ≠ 0) (enough : 0 ≤ s.val num + op) (moves' : op' ≠ 0)
    (enough' : 0 ≤ s.val num' + op') :
    ∃ t, s.semop p [⟨num, op⟩, ⟨num', op'⟩] = some t := by
  have second : 0 ≤ (s.change p num op).val num' + op' := by
    rwa [change_val, if_neg (Ne.symm apart), Int.add_zero]
  exact ⟨_, by rw [semop_cons, perform_ok moves enough, Option.bind_some, semop_cons,
    perform_ok moves' second]; rfl⟩

omit [DecidableEq ι] in
theorem exit_val (s : Semaphores ι π) (p : π) (num : ι) :
    (s.exit p).val num = max 0 (s.val num + s.adj p num) := rfl

def delta (sops : List (Sembuf ι)) (num : ι) : Int :=
  sops.foldr (fun sop total => (if sop.num = num then sop.op else 0) + total) 0

theorem perform_delta (done : perform p s sop = some t) (num : ι) :
    t.val num = s.val num + delta [sop] num ∧
      ∀ q, t.adj q num = s.adj q num - if q = p then delta [sop] num else 0 := by
  have single : delta [sop] num = if sop.num = num then sop.op else 0 := by simp [delta]
  rw [single]
  unfold perform at done
  split at done
  next zero =>
    split at done
    · cases done
      simp [zero]
    · contradiction
  next =>
    split at done
    · cases done
      exact ⟨change_val .., fun q => change_adj ..⟩
    · contradiction

/-- A call moves its operations into the values, and as much back into the caller's adjustments. -/
theorem semop_delta (done : s.semop p sops = some t) (num : ι) :
    t.val num = s.val num + delta sops num ∧
      ∀ q, t.adj q num = s.adj q num - if q = p then delta sops num else 0 := by
  induction sops generalizing s with
  | nil =>
    cases done
    simp [delta]
  | cons sop sops ih =>
    obtain ⟨middle, first, rest⟩ := Option.bind_eq_some_iff.mp done
    obtain ⟨val, adj⟩ := perform_delta first num
    obtain ⟨val', adj'⟩ := ih rest
    have split : delta (sop :: sops) num = delta [sop] num + delta sops num := by simp [delta]
    constructor
    · omega
    · intro q
      rw [adj' q, adj q, split]
      split <;> omega

end Semaphores

/-- `sem_wait`; `none` is waiting. -/
def semWait (sem : Nat) : Option Nat := if 0 < sem then some (sem - 1) else none

def semPost (sem : Nat) : Nat := sem + 1

theorem semWait_eq (taken : semWait sem = some rest) : sem = semPost rest := by
  unfold semWait at taken
  split at taken
  next positive =>
    cases taken
    exact (Nat.sub_add_cancel positive).symm
  next => contradiction

end Tasks.Kit
