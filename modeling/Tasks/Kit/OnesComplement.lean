import Mathlib.Algebra.BigOperators.Group.List.Basic
import Mathlib.Algebra.Order.Ring.Nat
import Mathlib.Algebra.Ring.Divisibility.Basic
import Mathlib.Data.Nat.ModEq

/-! One's complement sums of `w`-bit words, where a carry out of the top is added back at the
bottom. Zero has two names, `0` and `2 ^ w - 1`, so the sum is described exactly and not
only modulo `2 ^ w - 1`. -/
namespace Tasks.Kit.OnesComplement

def ones (w : Nat) : Nat := 2 ^ w - 1

def carry (w s : Nat) : Nat := s / 2 ^ w + s % 2 ^ w

/-- The running sum, with its carry brought round after each word. -/
def total (w : Nat) (words : List Nat) : Nat := words.foldl (fun s x => carry w (s + x)) 0

/-- The word that stands for a number: `0` for zero, else one of `1`, ..., `2 ^ w - 1`. -/
def residue (w n : Nat) : Nat := if n = 0 then 0 else (n - 1) % ones w + 1

variable {w : Nat} {words : List Nat}

theorem ones_pos (positive : 0 < w) : 0 < ones w := by
  have := Nat.one_lt_two_pow positive.ne'
  simp only [ones]
  omega

theorem residue_le (positive : 0 < w) (n : Nat) : residue w n ≤ ones w := by
  have := Nat.mod_lt (n - 1) (ones_pos positive)
  unfold residue
  split <;> omega

/-- One fold of the carry is enough. -/
theorem carry_eq (s : Nat) (small : s ≤ 2 * ones w) :
    carry w s = if s ≤ ones w then s else s - ones w := by
  have power : 2 ^ w = ones w + 1 := by
    have := Nat.two_pow_pos w
    simp only [ones]
    omega
  unfold carry
  rw [power]
  split
  · rw [Nat.div_eq_of_lt (by omega), Nat.mod_eq_of_lt (by omega)]
    omega
  · have quotient : s / (ones w + 1) = 1 := Nat.div_eq_of_lt_le (by omega) (by omega)
    have remainder := Nat.div_add_mod s (ones w + 1)
    rw [quotient] at remainder ⊢
    omega

theorem residue_add (positive : 0 < w) (n x : Nat) (small : x ≤ ones w) :
    carry w (residue w n + x) = residue w (n + x) := by
  have bound := residue_le positive n
  rw [carry_eq _ (by omega)]
  have onesPos := ones_pos positive
  rcases Nat.eq_zero_or_pos n with rfl | large
  · rcases Nat.eq_zero_or_pos x with rfl | some
    · simp [residue]
    · simp only [residue, if_true, Nat.zero_add, some.ne', if_false, if_pos small]
      rw [Nat.mod_eq_of_lt (by omega)]
      omega
  · have shape := Nat.div_add_mod (n - 1) (ones w)
    have remainder := Nat.mod_lt (n - 1) onesPos
    have sum : (n + x - 1) % ones w = ((n - 1) % ones w + x) % ones w := by
      rw [Nat.mod_add_mod]
      congr 1
      omega
    simp only [residue, large.ne', if_false, show n + x ≠ 0 by omega, sum]
    generalize (n - 1) % ones w = r at remainder
    by_cases fits : r + 1 + x ≤ ones w
    · rw [if_pos fits, Nat.mod_eq_of_lt (by omega)]
      omega
    · rw [if_neg fits, Nat.mod_eq_sub_mod (by omega), Nat.mod_eq_of_lt (by omega)]
      omega

/-- The loop computes the residue of the plain sum, at every length and in any order. -/
theorem total_eq (positive : 0 < w) (small : ∀ x ∈ words, x ≤ ones w) :
    total w words = residue w words.sum := by
  have general (n : Nat) : words.foldl (fun s x => carry w (s + x)) (residue w n) =
      residue w (n + words.sum) := by
    induction words generalizing n with
    | nil => simp
    | cons x rest ih =>
      rw [List.foldl_cons, residue_add positive n x (small x (by simp)),
        ih (fun y member => small y (by simp [member])), List.sum_cons, Nat.add_assoc]
  simpa [residue, total] using general 0

theorem residue_eq_ones (positive : 0 < w) (n : Nat) :
    residue w n = ones w ↔ 0 < n ∧ ones w ∣ n := by
  have onesPos := ones_pos positive
  rcases Nat.eq_zero_or_pos n with rfl | large
  · simp only [residue, if_true]
    omega
  · simp only [residue, large.ne', if_false, large, true_and]
    have shape := Nat.div_add_mod (n - 1) (ones w)
    have remainder := Nat.mod_lt (n - 1) onesPos
    constructor
    · intro full
      refine ⟨(n - 1) / ones w + 1, ?_⟩
      rw [Nat.mul_add, Nat.mul_one]
      omega
    · rintro ⟨q, rfl⟩
      obtain ⟨q, rfl⟩ := Nat.exists_eq_succ_of_ne_zero (Nat.pos_of_mul_pos_left large).ne'
      have same : ones w * (q + 1) - 1 = ones w * q + (ones w - 1) := by
        rw [Nat.mul_add, Nat.mul_one]
        omega
      rw [Nat.succ_eq_add_one, same, Nat.mul_add_mod, Nat.mod_eq_of_lt (by omega)]
      omega

/-- A word that is not a zero changes the sum it is added to. -/
theorem residue_add_ne (n : Nat) (some : 0 < x) (small : x < ones w) :
    residue w (n + x) ≠ residue w n := by
  intro same
  rcases Nat.eq_zero_or_pos n with rfl | large
  · simp [residue, some.ne'] at same
  · simp only [residue, large.ne', if_false, show n + x ≠ 0 by omega, Nat.add_right_cancel_iff] at same
    have divides : ones w ∣ n + x - 1 - (n - 1) := (Nat.modEq_iff_dvd' (by omega)).mp same.symm
    rw [show n + x - 1 - (n - 1) = x by omega] at divides
    exact Nat.not_dvd_of_pos_of_lt some small divides

/-- Adding the complement of a sum makes it all ones. -/
theorem residue_complement (positive : 0 < w) (n : Nat) :
    residue w (n + (ones w - residue w n)) = ones w := by
  have onesPos := ones_pos positive
  have bound := residue_le positive n
  rw [residue_eq_ones positive]
  rcases Nat.eq_zero_or_pos n with rfl | large
  · simp [residue, onesPos]
  · refine ⟨by omega, (n - 1) / ones w + 1, ?_⟩
    have shape := Nat.div_add_mod (n - 1) (ones w)
    simp only [residue, large.ne', if_false] at bound ⊢
    rw [Nat.mul_add, Nat.mul_one]
    omega

end Tasks.Kit.OnesComplement
