import Mathlib.Algebra.Group.Nat.Defs

/-! The bits of 32-bit words, for masks that are read, joined and taken away. -/
namespace Tasks.Kit.Bits

def bit (a : UInt32) (i : Nat) : Bool := a.toBitVec.getLsbD i

variable {a b : UInt32} {i : Nat}

theorem bit_testBit (a : UInt32) (i : Nat) : bit a i = a.toNat.testBit i := rfl

@[simp] theorem bit_zero (i : Nat) : bit 0 i = false := Nat.zero_testBit i

@[simp] theorem bit_or (a b : UInt32) (i : Nat) : bit (a ||| b) i = (bit a i || bit b i) := by
  simp [bit]

@[simp] theorem bit_and (a b : UInt32) (i : Nat) : bit (a &&& b) i = (bit a i && bit b i) := by
  simp [bit]

theorem bit_not (a : UInt32) (inside : i < 32) : bit (~~~a) i = !bit a i := by
  simp [bit, inside]

theorem bit_high (a : UInt32) (outside : 32 ≤ i) : bit a i = false :=
  BitVec.getLsbD_of_ge _ _ outside

/-- Taking bits away, at any place. -/
@[simp high] theorem bit_and_not (a b : UInt32) (i : Nat) : bit (a &&& ~~~b) i = (bit a i && !bit b i) := by
  by_cases inside : i < 32
  · simp only [bit_and, bit_not b inside]
  · simp only [bit_high _ (Nat.not_lt.mp inside), Bool.false_and]

theorem ext (same : ∀ i, i < 32 → bit a i = bit b i) : a = b := by
  apply UInt32.toBitVec_inj.mp
  exact BitVec.eq_of_getLsbD_eq same

theorem toNat_ofInt (n : Nat) : (UInt32.ofInt n).toNat = n % 2 ^ 32 := by
  have cast : ((n : Int) % 2 ^ 32).toNat = n % 2 ^ 32 := Int.toNat_natCast (n % 2 ^ 32)
  rw [UInt32.ofInt, cast, UInt32.toNat_ofNat', Nat.mod_mod]

theorem low_eq_iff (n : Nat) : a.toNat % 2 ^ n = b.toNat % 2 ^ n ↔ ∀ i, i < n → bit a i = bit b i := by
  constructor
  · intro same i inside
    have here := congrArg (Nat.testBit · i) same
    simpa [bit_testBit, Nat.testBit_mod_two_pow, inside] using here
  · intro agree
    apply Nat.eq_of_testBit_eq
    intro i
    simp only [Nat.testBit_mod_two_pow]
    by_cases inside : i < n
    · simp only [inside, decide_true, Bool.true_and]
      exact agree i inside
    · simp only [inside, decide_false, Bool.false_and]

end Tasks.Kit.Bits
