import Tasks.Kit.Run
import Mathlib.Logic.Function.Basic

/-! Processes that take turns on a memory they share. What a turn keeps of the memory and of the process
that takes it, whatever the others have done before, holds all along every interleaving. -/
namespace Tasks.Kit

structure Parallel (ι μ π : Type) where
  memory : μ
  proc : ι → π

namespace Parallel

variable {ι μ π α ε : Type} [DecidableEq ι] {turn : π → α → μ → Except ε (π × μ)}

def step (turn : π → α → μ → Except ε (π × μ)) (s : Parallel ι μ π) (x : ι × α) :
    Except ε (Parallel ι μ π) := do
  let (p, memory) ← turn (s.proc x.1) x.2 s.memory
  return ⟨memory, Function.update s.proc x.1 p⟩

/-- No turn fails, and each leaves the memory and its process in order. -/
def Keeps (turn : π → α → μ → Except ε (π × μ)) (shared : μ → Prop) (own : ι → π → Prop) : Prop :=
  ∀ i p a memory, own i p → shared memory →
    ∃ p' memory', turn p a memory = .ok (p', memory') ∧ own i p' ∧ shared memory'

structure Kept (shared : μ → Prop) (own : ι → π → Prop) (s : Parallel ι μ π) : Prop where
  shared : shared s.memory
  own : ∀ i, own i (s.proc i)

variable {shared : μ → Prop} {own : ι → π → Prop} {s t : Parallel ι μ π}

theorem step_eq {p' : π} {memory' : μ} {a : α} (s : Parallel ι μ π) (i : ι)
    (taken : turn (s.proc i) a s.memory = .ok (p', memory')) :
    step turn s (i, a) = .ok ⟨memory', Function.update s.proc i p'⟩ := by
  simp only [step, taken, ok_bind]
  rfl

theorem step_kept (keeps : Keeps turn shared own) (kept : Kept shared own s) (i : ι) (a : α) :
    ∃ t p', step turn s (i, a) = .ok t ∧ Kept shared own t ∧ t.proc i = p' ∧
      turn (s.proc i) a s.memory = .ok (p', t.memory) ∧ ∀ j, j ≠ i → t.proc j = s.proc j := by
  obtain ⟨p', memory', taken, fine, still⟩ := keeps i (s.proc i) a s.memory (kept.own i) kept.shared
  have here : Function.update s.proc i p' i = p' := Function.update_self ..
  have others (j : ι) (other : j ≠ i) : Function.update s.proc i p' j = s.proc j :=
    Function.update_of_ne other ..
  have each (j : ι) : own j (Function.update s.proc i p' j) := by
    by_cases same : j = i
    · subst same
      rwa [here]
    · rw [others j same]
      exact kept.own j
  exact ⟨_, p', step_eq s i taken, ⟨still, each⟩, here, taken, others⟩

/-- No interleaving fails. -/
theorem run_kept (keeps : Keeps turn shared own) (kept : Kept shared own s) (actions : List (ι × α)) :
    ∃ t, run (step turn) s actions = .ok t ∧ Kept shared own t := by
  induction actions generalizing s with
  | nil => exact ⟨s, rfl, kept⟩
  | cons x rest ih =>
    obtain ⟨next, _, first, keptNext, _⟩ := step_kept keeps kept x.1 x.2
    obtain ⟨t, later, keptLast⟩ := ih keptNext
    exact ⟨t, (run_cons first rest).trans later, keptLast⟩

def moves (move : α → Bool) (i : ι) (actions : List (ι × α)) : Nat :=
  actions.countP fun x => decide (x.1 = i) && move x.2

/-- What a turn has to do for its process to come to its end: an end is for good, no turn leads away from
it, and each move leads nearer. -/
structure Nears (turn : π → α → μ → Except ε (π × μ)) (shared : μ → Prop) (own ended : π → Prop)
    (rank : π → Nat) (move : α → Bool) : Prop where
  stays : ∀ p a memory p' memory', own p → shared memory → turn p a memory = .ok (p', memory') →
    ended p → ended p'
  nearer : ∀ p a memory p' memory', own p → shared memory → turn p a memory = .ok (p', memory') →
    ended p' ∨ rank p' + (if move a then 1 else 0) ≤ rank p

/-- A process has ended after enough moves of its own, whatever happens in between. -/
theorem run_ends {ended : π → Prop} {rank : π → Nat} {move : α → Bool} (keeps : Keeps turn shared own)
    (kept : Kept shared own s) (actions : List (ι × α)) (i : ι)
    (nears : Nears turn shared (own i) ended rank move) (enough : rank (s.proc i) < moves move i actions) :
    ∃ t, run (step turn) s actions = .ok t ∧ ended (t.proc i) := by
  suffices general : ∃ t, run (step turn) s actions = .ok t ∧ (ended (s.proc i) → ended (t.proc i)) ∧
      (ended (t.proc i) ∨ moves move i actions ≤ rank (s.proc i)) by
    obtain ⟨t, done, _, reached | few⟩ := general
    · exact ⟨t, done, reached⟩
    · exact absurd few (Nat.not_le.mpr enough)
  clear enough
  induction actions generalizing s with
  | nil => exact ⟨s, rfl, id, .inr (Nat.zero_le _)⟩
  | cons x rest ih =>
    obtain ⟨j, a⟩ := x
    obtain ⟨next, p', first, keptNext, here, taken, others⟩ := step_kept keeps kept j a
    obtain ⟨t, later, still, either⟩ := ih keptNext
    refine ⟨t, (run_cons first rest).trans later, ?_⟩
    rw [moves, List.countP_cons, ← moves]
    by_cases same : j = i
    · subst same
      rw [here] at still either
      have stays := nears.stays _ _ _ _ _ (kept.own j) kept.shared taken
      refine ⟨fun ended => still (stays ended), ?_⟩
      rcases nears.nearer _ _ _ _ _ (kept.own j) kept.shared taken with done | less
      · exact .inl (still done)
      · refine either.imp_right fun few => ?_
        simp only [decide_true, Bool.true_and]
        omega
    · rw [others i (Ne.symm same)] at still either
      refine ⟨still, either.imp_right fun few => ?_⟩
      simpa [same] using few

end Parallel
end Tasks.Kit
