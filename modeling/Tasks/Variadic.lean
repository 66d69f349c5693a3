import Mathlib.Algebra.BigOperators.Group.List.Basic
import Mathlib.Algebra.BigOperators.Ring.List
import Mathlib.Data.Rat.Defs
import Mathlib.Tactic.Linarith
import Mathlib.Tactic.NormNum

/-! Module 2, Tasks 2.2, 2.3 and 6.3: a calculator with variadic functions, over exact numbers. The
functions of Tasks 2.2 and 2.3 are the same; Task 6.3 loads each of its own from a library. -/
namespace Tasks.Variadic

inductive Oper where
  | addition
  | substraction
  | multiplicate
  | division
  deriving DecidableEq, Repr

def Oper.apply : Oper → ℚ → ℚ → Option ℚ
  | .addition, a, b => some (a + b)
  | .substraction, a, b => some (a - b)
  | .multiplicate, a, b => some (a * b)
  | .division, a, b => if b = 0 then none else some (a / b)

/-- `va_arg(factor, double)`, with the arguments behind it. -/
def vaArg : List ℚ → Option (ℚ × List ℚ)
  | [] => none
  | x :: factor => some (x, factor)

/-- A loop that takes an argument at each turn. -/
def loop (step : ℚ → ℚ → Option ℚ) (result : ℚ) (factor : List ℚ) : Nat → Option ℚ
  | 0 => some result
  | turns + 1 => do
    let (x, factor) ← vaArg factor
    loop step (← step result x) factor turns

/-- Three of the functions take the first argument before the loop, which starts at 1. -/
def fromFirst (step : ℚ → ℚ → Option ℚ) (n : Int) (args : List ℚ) : Option ℚ := do
  let (result, factor) ← vaArg args
  loop step result factor (n - 1).toNat

namespace Main

def addition (n : Int) (args : List ℚ) : Option ℚ := loop Oper.addition.apply 0 args n.toNat

def substraction : Int → List ℚ → Option ℚ := fromFirst Oper.substraction.apply

def multiplicate : Int → List ℚ → Option ℚ := fromFirst Oper.multiplicate.apply

def division : Int → List ℚ → Option ℚ := fromFirst Oper.division.apply

end Main

namespace Library

/-- `addition.c`: the argument is doubled. -/
def addition (n : Int) (args : List ℚ) : Option ℚ :=
  loop (fun result x => some (result + 2 * x)) 0 args n.toNat

def substraction : Int → List ℚ → Option ℚ := fromFirst Oper.substraction.apply

def multiplicate : Int → List ℚ → Option ℚ := fromFirst Oper.multiplicate.apply

def division : Int → List ℚ → Option ℚ := fromFirst Oper.division.apply

end Library

def Oper.function : Oper → Int → List ℚ → Option ℚ
  | .addition => Main.addition
  | .substraction => Main.substraction
  | .multiplicate => Main.multiplicate
  | .division => Main.division

def Oper.calc : Oper → Int → List ℚ → Option ℚ
  | .addition => Library.addition
  | .substraction => Library.substraction
  | .multiplicate => Library.multiplicate
  | .division => Library.division

/-- The operation between the arguments, from the left. -/
def Oper.fold (op : Oper) : List ℚ → Option ℚ
  | [] => none
  | x :: rest => rest.foldlM op.apply x

def Agree (op : Oper) (n : Int) (args : List ℚ) : Prop :=
  ∃ value, op.fold (args.take n.toNat) = some value ∧ op.function n args = some value ∧
    op.calc n args = some value

section Folds

variable {step : ℚ → ℚ → Option ℚ} {result : ℚ} {factor args : List ℚ} {n : Int} {op : Oper}
variable {turns : Nat}

theorem loop_take (result : ℚ) (inside : turns ≤ factor.length) :
    loop step result factor turns = (factor.take turns).foldlM step result := by
  induction turns generalizing result factor with
  | zero => rfl
  | succ turns ih =>
    cases factor with
    | nil => simp at inside
    | cons x factor =>
      have later : turns ≤ factor.length := Nat.le_of_succ_le_succ inside
      simp only [loop, vaArg, List.take_succ_cons, List.foldlM_cons, Option.bind_eq_bind, Option.bind_some]
      apply congrArg
      funext next
      exact ih next later

theorem fromFirst_fold (positive : 1 ≤ n) (passed : n ≤ args.length) :
    fromFirst op.apply n args = op.fold (args.take n.toNat) := by
  cases args with
  | nil =>
    simp only [List.length_nil] at passed
    omega
  | cons x rest =>
    have turns : n.toNat = (n - 1).toNat + 1 := by omega
    have inside : (n - 1).toNat ≤ rest.length := by
      simp only [List.length_cons] at passed
      omega
    rw [turns, List.take_succ_cons]
    exact loop_take x inside

theorem foldlM_sum (g : ℚ → ℚ) (args : List ℚ) (result : ℚ) :
    args.foldlM (fun result x => some (result + g x)) result = some (result + (args.map g).sum) := by
  induction args generalizing result with
  | nil => simp
  | cons x rest ih =>
    rw [List.foldlM_cons, Option.bind_eq_bind, Option.bind_some, ih, List.map_cons, List.sum_cons,
      add_assoc]

theorem main_addition (inside : n.toNat ≤ args.length) :
    Main.addition n args = some (args.take n.toNat).sum := by
  rw [Main.addition, loop_take 0 inside]
  have summed := foldlM_sum id (args.take n.toNat) 0
  rw [List.map_id, zero_add] at summed
  exact summed

theorem library_addition (inside : n.toNat ≤ args.length) :
    Library.addition n args = some (2 * (args.take n.toNat).sum) := by
  have doubled := List.sum_map_mul_left (args.take n.toNat) id 2
  simp only [id_eq, List.map_id] at doubled
  rw [Library.addition, loop_take 0 inside, foldlM_sum, zero_add, doubled]

/-- A sum may start with zero or with its first term. -/
theorem fold_addition (nonempty : args ≠ []) : Oper.addition.fold args = some args.sum := by
  obtain ⟨x, rest, rfl⟩ := List.exists_cons_of_ne_nil nonempty
  have summed := foldlM_sum id rest x
  rw [List.map_id] at summed
  rw [List.sum_cons]
  exact summed

theorem foldlM_some (result : ℚ) (divisors : op = .division → ∀ x ∈ args, x ≠ 0) :
    ∃ value, args.foldlM op.apply result = some value := by
  induction args generalizing result with
  | nil => exact ⟨result, rfl⟩
  | cons x rest ih =>
    have first : ∃ next, op.apply result x = some next := by
      cases op with
      | division => exact ⟨_, if_neg (divisors rfl x List.mem_cons_self)⟩
      | _ => exact ⟨_, rfl⟩
    obtain ⟨next, applied⟩ := first
    rw [List.foldlM_cons, applied]
    exact ih next fun same y member => divisors same y (List.mem_cons_of_mem x member)

theorem fold_some (nonempty : args ≠ []) (divisors : op = .division → ∀ x ∈ args.tail, x ≠ 0) :
    ∃ value, op.fold args = some value := by
  obtain ⟨x, rest, rfl⟩ := List.exists_cons_of_ne_nil nonempty
  exact foldlM_some x divisors

/-- The libraries return what the functions do, but for the sum, which comes out doubled. -/
theorem agree_iff (op : Oper) (n : Int) (args : List ℚ) (positive : 1 ≤ n) (passed : n ≤ args.length)
    (divisors : op = .division → ∀ x ∈ (args.take n.toNat).tail, x ≠ 0) :
    Agree op n args ↔ (op = .addition → (args.take n.toNat).sum = 0) := by
  have inside : n.toNat ≤ args.length := by omega
  have nonempty : args.take n.toNat ≠ [] := by
    apply List.ne_nil_of_length_pos
    rw [List.length_take]
    omega
  obtain ⟨value, folded⟩ := fold_some nonempty divisors
  have same (function : Int → List ℚ → Option ℚ) (eq : function = fromFirst op.apply) :
      function n args = some value := by
    rw [eq, fromFirst_fold positive passed, folded]
  cases op with
  | addition =>
    have sum := fold_addition nonempty
    simp only [Agree, Oper.function, Oper.calc, main_addition inside, library_addition inside, sum,
      Option.some.injEq, true_implies]
    constructor
    · rintro ⟨_, rfl, _, doubled⟩
      linarith
    · intro zero
      exact ⟨0, zero, zero, by rw [zero, mul_zero]⟩
  | substraction => exact iff_of_true ⟨value, folded, same _ rfl, same _ rfl⟩ nofun
  | multiplicate => exact iff_of_true ⟨value, folded, same _ rfl, same _ rfl⟩ nofun
  | division => exact iff_of_true ⟨value, folded, same _ rfl, same _ rfl⟩ nofun

theorem agree_iff_quotient :
    Agree .division 3 [12, 3, 2] ↔ (Oper.division = .addition → (List.take 3 [(12 : ℚ), 3, 2]).sum = 0) :=
  agree_iff .division 3 [12, 3, 2] (by decide) (by decide) (by simp)

/-- `1 + 2` is 3 and, from the library, 6. -/
theorem library_sum_doubled : ¬ ∀ (op : Oper) (n : Int) (args : List ℚ), 1 ≤ n → n ≤ args.length →
    (op = .division → ∀ x ∈ (args.take n.toNat).tail, x ≠ 0) → Agree op n args := by
  intro agree
  obtain ⟨value, _, plain, doubled⟩ := agree .addition 2 [1, 2] (by decide) (by decide) nofun
  have two : Int.toNat 2 = 2 := rfl
  have three : Oper.addition.function 2 [1, 2] = some 3 := by
    apply (main_addition (by decide)).trans
    norm_num [two]
  have six : Oper.addition.calc 2 [1, 2] = some 6 := by
    apply (library_addition (by decide)).trans
    norm_num [two]
  simp only [three, Option.some.injEq] at plain
  simp only [six, Option.some.injEq, ← plain] at doubled
  norm_num at doubled

end Folds
end Tasks.Variadic
