import Tasks.Kit.Run
import Tasks.Kit.Semaphore

/-! Named semaphores, which outlive the processes that use them: what the next run of a program
finds, when processes of the earlier ones may have ended with a semaphore in hand. -/
namespace Tasks.Kit

/-- `sem_open` with `O_CREAT`: a semaphore that exists keeps its value. -/
def semOpen (name : Option Nat) (value : Nat) : Nat := name.getD value

/-- A program that opens its semaphores with the value one and then forks. -/
structure Program (ι σ α : Type) where
  /-- What becomes of the names when the program ends before the fork. -/
  early : (ι → Option Nat) → (ι → Option Nat) → Prop
  /-- The states right after the fork, with these values in the semaphores. -/
  forked : (ι → Nat) → σ → Prop
  step : σ → α → σ → Prop
  /-- No process is left. -/
  ended : σ → Prop
  sems : σ → ι → Nat
  /-- The step ends no process that has a semaphore in hand. -/
  clean : σ → α → Prop

namespace Program

variable {ι σ α : Type} (program : Program ι σ α)

def opened (names : ι → Option Nat) (i : ι) : Nat := semOpen (names i) 1

/-- One run, with the steps that its processes took. -/
inductive Run (names : ι → Option Nat) : List (σ × α) → (ι → Option Nat) → Prop where
  | early (ends : program.early names names') : Run names [] names'
  | forked (start : program.forked (opened names) s) (trace : Trace program.step s steps t)
      (ended : program.ended t) : Run names steps fun i => some (program.sems t i)

def Clean (steps : List (σ × α)) : Prop := ∀ x ∈ steps, program.clean x.1 x.2

/-- Runs one after another, of which `allowed` says which. -/
def History (allowed : (ι → Option Nat) → List (σ × α) → (ι → Option Nat) → Prop) :
    (ι → Option Nat) → (ι → Option Nat) → Prop :=
  Relation.ReflTransGen fun names names' =>
    ∃ steps, program.Run names steps names' ∧ allowed names steps names'

/-- A run that unlinks no semaphore. -/
def Keeps (names : ι → Option Nat) (_ : List (σ × α)) (names' : ι → Option Nat) : Prop :=
  ∀ i, names i ≠ none → names' i ≠ none

/-- After clean runs all semaphores are at one; after any other run one of them is at zero, and
stays there until it is unlinked. -/
structure SurvivesIffClean : Prop where
  clean : ∀ names, program.History (fun _ steps _ => program.Clean steps) (fun _ => none) names →
    ∀ i, opened names i = 1
  lost : ∀ names steps names', program.History (fun _ _ _ => True) (fun _ => none) names →
    program.Run names steps names' → ¬ program.Clean steps →
    ∃ i, ∀ later, program.History Keeps names' later → opened later i = 0

structure Accounts (balance : σ → ι → Nat) (invariant : σ → Prop) : Prop where
  early : ∀ names names' i, program.early names names' →
    names' i = names i ∨ names' i = some (opened names i) ∨ names' i = none
  forked : ∀ sems s, program.forked sems s → invariant s ∧ ∀ i, balance s i = sems i
  kept : ∀ s a t, invariant s → program.step s a t → invariant t
  clean : ∀ s a t, invariant s → program.step s a t → program.clean s a →
    ∀ i, balance t i = balance s i
  unclean : ∀ s a t, invariant s → program.step s a t → ¬ program.clean s a →
    (∀ i, balance t i ≤ balance s i) ∧ ∃ i, balance t i < balance s i
  ended : ∀ s, program.ended s → ∀ i, balance s i = program.sems s i

section Accounts

variable {program} {balance : σ → ι → Nat} {invariant : σ → Prop} {names names' : ι → Option Nat}
  {steps : List (σ × α)} {s t : σ}

theorem Accounts.trace (accounts : program.Accounts balance invariant)
    (start : invariant s) (trace : Trace program.step s steps t) :
    invariant t ∧ (∀ i, balance t i ≤ balance s i) ∧
      (program.Clean steps → ∀ i, balance t i = balance s i) ∧
      (¬ program.Clean steps → ∃ i, balance t i < balance s i) := by
  induction trace with
  | nil => exact ⟨start, fun _ => Nat.le_refl _, fun _ _ => rfl, fun soiled => by simp [Clean] at soiled⟩
  | @snoc steps t a u _ last ih =>
    obtain ⟨there, less, same, lost⟩ := ih
    have split : program.Clean (steps ++ [(t, a)]) ↔ program.Clean steps ∧ program.clean t a := by
      simp [Clean, or_imp, forall_and]
    have next := accounts.kept t a u there last
    by_cases here : program.clean t a
    · have equal := accounts.clean t a u there last here
      refine ⟨next, fun i => equal i ▸ less i, ?_, ?_⟩
      · intro clean i
        rw [equal i, same (split.mp clean).1 i]
      · intro soiled
        obtain ⟨i, smaller⟩ := lost fun clean => soiled (split.mpr ⟨clean, here⟩)
        exact ⟨i, equal i ▸ smaller⟩
    · obtain ⟨down, i, smaller⟩ := accounts.unclean t a u there last here
      refine ⟨next, fun j => (down j).trans (less j), ?_, ?_⟩
      · intro clean
        exact absurd (split.mp clean).2 here
      · intro _
        exact ⟨i, Nat.lt_of_lt_of_le smaller (less i)⟩

/-- A run that began with the values `names` and left `names'`. -/
theorem Accounts.run (accounts : program.Accounts balance invariant)
    (run : program.Run names steps names') (i : ι) :
    (names' i = none ∨ opened names' i ≤ opened names i) ∧
      (program.Clean steps → names' i = none ∨ opened names' i = opened names i) := by
  cases run with
  | early ends =>
    rcases accounts.early names names' i ends with same | opens | unlinked
    · simp [opened, same]
    · simp [opened, opens, semOpen]
    · simp [unlinked]
  | @forked s _ t start trace ended =>
    obtain ⟨fine, first⟩ := accounts.forked _ s start
    obtain ⟨_, less, same, _⟩ := accounts.trace fine trace
    have final : opened (fun i => some (program.sems t i)) i = balance t i :=
      (accounts.ended t ended i).symm
    rw [final, ← first i]
    exact ⟨.inr (less i), fun clean => .inr (same clean i)⟩

theorem Accounts.most (accounts : program.Accounts balance invariant)
    (history : program.History (fun _ _ _ => True) (fun _ => none) names) (i : ι) :
    opened names i ≤ 1 := by
  induction history with
  | refl => exact Nat.le_refl 1
  | tail _ last ih =>
    obtain ⟨steps, run, _⟩ := last
    rcases (accounts.run run i).1 with unlinked | less
    · simp [opened, unlinked, semOpen]
    · exact less.trans ih

theorem Accounts.survives (accounts : program.Accounts balance invariant) :
    program.SurvivesIffClean := by
  constructor
  · intro names history i
    induction history with
    | refl => rfl
    | tail _ last ih =>
      obtain ⟨steps, run, clean⟩ := last
      rcases (accounts.run run i).2 clean with unlinked | same
      · simp [opened, unlinked, semOpen]
      · exact same.trans ih
  · intro names steps names' history run soiled
    cases run with
    | early ends => simp [Clean] at soiled
    | @forked s _ t start trace ended =>
      obtain ⟨fine, first⟩ := accounts.forked _ s start
      obtain ⟨_, _, _, lost⟩ := accounts.trace fine trace
      obtain ⟨i, smaller⟩ := lost soiled
      have most := accounts.most history i
      have final := accounts.ended t ended i
      refine ⟨i, fun later history => ?_⟩
      have zero : later i = some 0 := by
        induction history with
        | refl =>
          rw [first i] at smaller
          exact congrArg some (by omega)
        | tail _ last ih =>
          obtain ⟨steps, run, keeps⟩ := last
          have exists' := keeps i (by simp [ih])
          have less := (accounts.run run i).1.resolve_left exists'
          obtain ⟨value, some⟩ := Option.ne_none_iff_exists'.mp exists'
          simp only [opened, ih, some, semOpen, Option.getD_some, Nat.le_zero] at less
          rw [some, less]
      simp [opened, zero, semOpen]

end Accounts
end Program
end Tasks.Kit
