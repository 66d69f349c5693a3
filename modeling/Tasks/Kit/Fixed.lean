import Tasks.Kit.Scan
import Mathlib.Data.Rat.Floor
import Mathlib.Tactic.Linarith

/-! The text that `"%.2lf"` has for an exact number: two digits behind the point, a half rounded to
the even neighbour. -/
namespace Tasks.Kit.Fixed

def nearest (x : ℚ) : Nat :=
  if x - ⌊x⌋₊ < 1 / 2 then ⌊x⌋₊
  else if 1 / 2 < x - ⌊x⌋₊ then ⌊x⌋₊ + 1
  else if ⌊x⌋₊ % 2 = 0 then ⌊x⌋₊ else ⌊x⌋₊ + 1

def digit (n : Nat) : UInt8 := UInt8.ofNat (48 + n % 10)

def hundredths (x : ℚ) : Nat := nearest (|x| * 100)

def text (x : ℚ) : Bytes :=
  (if x < 0 then [45] else []) ++
    (Bytes.decimal (hundredths x / 100 : Nat) ++ [46, digit (hundredths x / 10), digit (hundredths x)])

section Bounds

variable {x : ℚ} {n room : Nat}

/-- A half is rounded up to an even number. -/
theorem nearest_lt_iff (nonneg : 0 ≤ x) (even : n % 2 = 0) : nearest x < n ↔ x + 1 / 2 < n := by
  have low : (⌊x⌋₊ : ℚ) ≤ x := Nat.floor_le nonneg
  have high : x < ⌊x⌋₊ + 1 := Nat.lt_floor_add_one x
  have cast (m : Nat) : m < n ↔ (m : ℚ) + 1 ≤ n := by
    rw [← Nat.cast_add_one, Nat.cast_le]
    exact Iff.rfl
  unfold nearest
  generalize ⌊x⌋₊ = below at low high
  split
  next less =>
    rw [cast]
    constructor
    · intro bound
      linarith
    · intro bound
      have before : (below : ℚ) < n := by linarith
      exact (cast below).mp (Nat.cast_lt.mp before)
  next notLess =>
    split
    next more =>
      rw [cast, Nat.cast_add_one]
      constructor
      · intro bound
        linarith
      · intro bound
        have before : ((below + 1 : Nat) : ℚ) < n := by
          rw [Nat.cast_add_one]
          linarith
        have later := (cast (below + 1)).mp (Nat.cast_lt.mp before)
        rwa [Nat.cast_add_one] at later
    next notMore =>
      have half : x + 1 / 2 = ((below + 1 : Nat) : ℚ) := by
        rw [Nat.cast_add_one]
        linarith
      rw [half, Nat.cast_lt]
      split <;> omega

theorem decimal_natural (m : Nat) (positive : 0 < n) :
    (Bytes.decimal (m : Nat)).length ≤ n ↔ m < 10 ^ n := by
  have digits := Nat.length_toDigits_le_iff (n := m) (by decide : 1 < 10) positive
  rw [← digits]
  simp [Bytes.decimal]

/-- The texts with at most `n` digits in front of the point. -/
theorem digits_le_iff (x : ℚ) (positive : 0 < n) :
    (Bytes.decimal (hundredths x / 100 : Nat)).length ≤ n ↔ |x| + 1 / 200 < 10 ^ n := by
  have even : 10 ^ n * 100 % 2 = 0 := by omega
  rw [decimal_natural _ positive, Nat.div_lt_iff_lt_mul (by decide), hundredths,
    nearest_lt_iff (by positivity) even, Nat.cast_mul, Nat.cast_pow]
  constructor <;> intro bound <;> push_cast at bound ⊢ <;> linarith

theorem text_length (x : ℚ) : (text x).length =
    (if x < 0 then 1 else 0) + (Bytes.decimal (hundredths x / 100 : Nat)).length + 3 := by
  simp only [text, List.length_append, List.length_cons, List.length_nil, apply_ite List.length,
    Nat.zero_add]
  omega

/-- The numbers whose texts leave room for a NUL. -/
theorem text_fits_iff (x : ℚ) (six : 6 ≤ room) :
    (text x).length < room ↔ -10 ^ (room - 5) + 1 / 200 < x ∧ x < 10 ^ (room - 4) - 1 / 200 := by
  have large : (1 : ℚ) ≤ 10 ^ (room - 5) := one_le_pow₀ (by norm_num)
  have larger : (1 : ℚ) ≤ 10 ^ (room - 4) := one_le_pow₀ (by norm_num)
  rw [text_length]
  split
  next negative =>
    have digits := digits_le_iff x (n := room - 5) (by omega)
    rw [abs_of_neg negative] at digits
    constructor
    · intro short
      have bound := digits.mp (by omega)
      exact ⟨by linarith, by linarith⟩
    · rintro ⟨bound, _⟩
      have short := digits.mpr (by linarith)
      omega
  next nonneg =>
    have digits := digits_le_iff x (n := room - 4) (by omega)
    rw [abs_of_nonneg (le_of_not_gt nonneg)] at digits
    constructor
    · intro short
      have bound := digits.mp (by omega)
      exact ⟨by linarith, by linarith⟩
    · rintro ⟨_, bound⟩
      have short := digits.mpr (by linarith)
      omega

theorem digit_solid (n : Nat) : digit n ≠ 0 := by
  intro zero
  have code := congrArg UInt8.toNat zero
  simp only [digit, UInt8.toNat_ofNat'] at code
  have small : n % 10 < 10 := Nat.mod_lt n (by decide)
  have zero' : (0 : UInt8).toNat = 0 := rfl
  omega

theorem decimal_solid (m : Nat) : 0 ∉ Bytes.decimal m := by
  intro member
  have isDigit := Scan.digits_digit (Scan.toDigits_digit m) 0 member
  exact absurd isDigit (by decide)

theorem text_solid (x : ℚ) : 0 ∉ text x := by
  have sign : 0 ∉ (if x < 0 then [45] else [] : Bytes) := by
    split <;> simp
  simp only [text, List.mem_append, List.mem_cons, List.not_mem_nil, sign, decimal_solid, false_or,
    (digit_solid _).symm]
  decide

end Bounds
end Tasks.Kit.Fixed
