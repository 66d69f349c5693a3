import Tasks.Subnet.Packets
import Mathlib.Algebra.Module.BigOperators
import Mathlib.Algebra.BigOperators.Fin
import Mathlib.Algebra.Order.Field.Rat

/-! Module 2, Task 3.2: which masks make a range of addresses of a subnet, which `main` never asks, and how
many of its packets it counts on the average. -/
namespace Tasks.Subnet

open Kit.Bits Kit.Wiring

section Ranges

/-- The subnet of a gateway goes from its network address to its broadcast address. -/
def Ranged (mask : UInt32) : Prop :=
  ∀ gateway ip : UInt32, isInSubnet ip gateway mask ↔ gateway &&& mask ≤ ip ∧ ip ≤ gateway ||| ~~~mask

variable {mask : UInt32} {k : Nat}

theorem bit_prefix (small : k ≤ 32) (form : mask.toNat = 2 ^ 32 - 2 ^ k) (i : Nat) :
    bit mask i = (decide (k ≤ i) && decide (i < 32)) := by
  have split : 2 ^ 32 - 2 ^ k = 2 ^ k * (2 ^ (32 - k) - 1) := by
    rw [Nat.mul_sub, ← Nat.pow_add, Nat.add_sub_cancel' small, Nat.mul_one]
  rw [bit_testBit, form, split, Nat.testBit_two_pow_mul, Nat.testBit_two_pow_sub_one]
  by_cases low : k ≤ i
  · simp only [low, decide_true, Bool.true_and, decide_eq_decide]
    omega
  · simp only [low, decide_false, Bool.false_and]

theorem and_prefix (small : k ≤ 32) (form : mask.toNat = 2 ^ 32 - 2 ^ k) (a : UInt32) :
    (a &&& mask).toNat = 2 ^ k * (a.toNat / 2 ^ k) := by
  apply Nat.eq_of_testBit_eq
  intro i
  rw [← bit_testBit, bit_and, bit_prefix small form, Nat.testBit_two_pow_mul, Nat.testBit_div_two_pow]
  by_cases low : k ≤ i
  · by_cases inside : i < 32
    · simp [low, inside, bit_testBit]
    · simp [bit_high a (Nat.not_lt.mp inside), low, ← bit_testBit]
  · simp [low]

theorem or_prefix (small : k ≤ 32) (form : mask.toNat = 2 ^ 32 - 2 ^ k) (a : UInt32) :
    (a ||| ~~~mask).toNat = 2 ^ k * (a.toNat / 2 ^ k) + (2 ^ k - 1) := by
  have below : 2 ^ k - 1 < 2 ^ k := Nat.sub_lt (Nat.two_pow_pos k) Nat.one_pos
  apply Nat.eq_of_testBit_eq
  intro i
  rw [← bit_testBit, bit_or, Nat.testBit_two_pow_mul_add _ below, Nat.testBit_two_pow_sub_one,
    Nat.testBit_div_two_pow]
  by_cases inside : i < 32
  · rw [bit_not mask inside, bit_prefix small form]
    by_cases low : i < k
    · simp [low, Nat.not_le.mpr low]
    · simp [low, Nat.not_lt.mp low, inside, bit_testBit]
  · have off : ¬ i < k := by omega
    simp [bit_high _ (Nat.not_lt.mp inside), off, ← bit_testBit, Nat.sub_add_cancel (Nat.not_lt.mp off)]

theorem ranged_prefix (small : k ≤ 32) (form : mask.toNat = 2 ^ 32 - 2 ^ k) : Ranged mask := by
  intro gateway ip
  have rest := Nat.div_add_mod ip.toNat (2 ^ k)
  have below := Nat.mod_lt ip.toNat (Nat.two_pow_pos k)
  have agree : isInSubnet ip gateway mask ↔ ip.toNat / 2 ^ k = gateway.toNat / 2 ^ k := by
    rw [isInSubnet, decide_eq_true_eq, ← UInt32.toNat_inj, and_prefix small form, and_prefix small form]
    exact Nat.mul_right_inj (Nat.two_pow_pos k).ne'
  rw [agree, UInt32.le_iff_toNat_le, UInt32.le_iff_toNat_le, and_prefix small form, or_prefix small form]
  constructor
  · intro same
    rw [← same]
    omega
  · rintro ⟨_, _⟩
    apply Nat.le_antisymm
    · apply Nat.le_of_lt_succ
      apply Nat.lt_of_mul_lt_mul_left (a := 2 ^ k)
      rw [Nat.mul_succ]
      omega
    · apply Nat.le_of_lt_succ
      apply Nat.lt_of_mul_lt_mul_left (a := 2 ^ k)
      rw [Nat.mul_succ]
      omega

/-- Every address up to the last of the network 0 is in it, so no bit below the highest free one is in the
mask. -/
theorem prefix_of_ranged (ranged : Ranged mask) : ∃ k ≤ 32, mask.toNat = 2 ^ 32 - 2 ^ k := by
  have whole : (~~~mask).toNat = 2 ^ 32 - 1 - mask.toNat := UInt32.toNat_not mask
  have range := mask.toNat_lt
  have inside (y : Nat) (low : y ≤ (~~~mask).toNat) : UInt32.ofNat y &&& mask = 0 := by
    have itself : (UInt32.ofNat y).toNat = y := by
      rw [UInt32.toNat_ofNat', Nat.mod_eq_of_lt]
      omega
    have here := (ranged 0 (UInt32.ofNat y)).mpr ⟨?_, ?_⟩
    · simpa [isInSubnet] using here
    · simp [UInt32.le_iff_toNat_le]
    · rw [UInt32.zero_or, UInt32.le_iff_toNat_le, itself]
      exact low
  by_cases none : (~~~mask).toNat = 0
  · refine ⟨0, by decide, ?_⟩
    omega
  · have highest := Nat.log2_self_le none
    have above := Nat.lt_log2_self (n := (~~~mask).toNat)
    have small : (~~~mask).toNat.log2 < 32 := (Nat.log2_lt none).mpr (~~~mask).toNat_lt
    have free (i : Nat) (low : i < (~~~mask).toNat.log2 + 1) : bit mask i = false := by
      have here := congrArg (bit · i) (inside (2 ^ i) (le_trans (Nat.pow_le_pow_right (by decide) (by omega))
        highest))
      have up : bit (UInt32.ofNat (2 ^ i)) i = true := by
        rw [bit_testBit, UInt32.toNat_ofNat', Nat.testBit_mod_two_pow, Nat.testBit_two_pow_self]
        simp only [Bool.and_true, decide_eq_true_eq]
        omega
      simpa [up] using here
    have ones : (~~~mask).toNat = 2 ^ ((~~~mask).toNat.log2 + 1) - 1 := by
      apply Nat.eq_of_testBit_eq
      intro i
      rw [Nat.testBit_two_pow_sub_one]
      by_cases low : i < (~~~mask).toNat.log2 + 1
      · rw [← bit_testBit, bit_not mask (by omega), free i low]
        simp only [low, Bool.not_false, decide_true]
      · simp only [low, decide_false]
        exact Nat.testBit_lt_two_pow (above.trans_le (Nat.pow_le_pow_right (by decide) (not_lt.mp low)))
    refine ⟨_, small, ?_⟩
    have := Nat.two_pow_pos ((~~~mask).toNat.log2 + 1)
    omega

/-- The subnets of a mask are ranges exactly when its ones are in front of its zeros. -/
theorem ranged_iff (mask : UInt32) : Ranged mask ↔ ∃ k ≤ 32, mask.toNat = 2 ^ 32 - 2 ^ k :=
  ⟨prefix_of_ranged, fun ⟨_, small, form⟩ => ranged_prefix small form⟩

end Ranges

section Mean

/-- How many results of `rand` go into a bit of the address. -/
def feeds (j : Fin 32) : Nat := if j.val = 31 then 3 else j.val / 8 + 1

/-- The part of all tuples that is counted: a bit is up unless all the results in it are down. -/
def share (gateway mask : UInt32) : ℚ :=
  ∏ j ∈ maskBits mask, if bit gateway j then 1 - 1 / 2 ^ feeds j else 1 / 2 ^ feeds j

theorem card_feeds : ∀ j : Fin 32, (Finset.univ.filter fun s => wire s = some j).card = feeds j := by
  decide +kernel

theorem card_bit (gateway mask : UInt32) (j : Fin 32) :
    (Nat.card { b : Sources wire (some j) → Bool //
        Local (maskBits mask) (fun j => bit gateway j) (some j) b } : ℚ) =
      2 ^ Nat.card (Sources wire (some j)) *
        if j ∈ maskBits mask then if bit gateway j then 1 - 1 / 2 ^ feeds j else 1 / 2 ^ feeds j else 1 := by
  have feeds_eq : Nat.card (Sources wire (some j)) = feeds j := (card_sources j).trans (card_feeds j)
  have positive : (2 : ℚ) ^ feeds j ≠ 0 := pow_ne_zero _ two_ne_zero
  by_cases masked : j ∈ maskBits mask
  · rw [card_wanted masked, if_pos masked, feeds_eq]
    cases bit gateway j with
    | true =>
      have nonempty : 1 ≤ 2 ^ feeds j := Nat.one_le_two_pow
      simp only [if_true]
      push_cast [nonempty]
      field_simp
    | false =>
      simp only [Bool.false_eq_true, if_false]
      push_cast
      field_simp
  · rw [card_free _ fun o member same => masked (by cases same; exact member), if_neg masked]
    push_cast
    ring

theorem counted_share (gateway mask : UInt32) : (counted gateway mask : ℚ) = 2 ^ 124 * share gateway mask := by
  have tuples : ((2 : ℚ) ^ 124) = ∏ k : Option (Fin 32), 2 ^ Nat.card (Sources wire k) := by
    have settings := card_settings wire
    rw [Nat.card_prod, Nat.card_fin, Nat.card_fin] at settings
    exact_mod_cast settings
  have rest : Nat.card { b : Sources wire none → Bool //
      Local (maskBits mask) (fun j => bit gateway j) none b } = 2 ^ Nat.card (Sources wire none) :=
    card_free none nofun
  rw [counted_matches, card_matches, tuples, Fintype.prod_option, Fintype.prod_option, rest]
  push_cast
  rw [Finset.prod_congr rfl fun j _ => card_bit gateway mask j, Finset.prod_mul_distrib, mul_assoc]
  congr 2
  rw [share]
  simp only [Finset.prod_ite_mem, Finset.univ_inter]

theorem countP_ofFn (p : α → Bool) {n : Nat} (xs : Fin n → α) :
    (List.ofFn xs).countP p = ∑ i, if p (xs i) then 1 else 0 := by
  induction n with
  | zero => rfl
  | succ n ih => rw [List.ofFn_succ, List.countP_cons, ih, Fin.sum_univ_succ, Nat.add_comm]

noncomputable instance : Fintype Rand := .ofEquiv _ (bits 31).symm

theorem card_rands : (Fintype.card (Fin 4 → Rand) : ℚ) = 2 ^ 124 := by
  rw [← Nat.card_eq_fintype_card, card_tuples]
  norm_num

theorem sum_counted (gateway mask : UInt32) :
    ∑ r : Fin 4 → Rand, (if isInSubnet (generateRandomIP r) gateway mask then 1 else 0) =
      counted gateway mask := by
  rw [← Finset.card_filter, counted, Nat.card_eq_fintype_card, Fintype.card_subtype]

/-- Over all results that `rand` can return for `n` packets, the packets counted are on the average this
part of them. -/
theorem mean_count (gateway mask : UInt32) (n : Nat) :
    (∑ packets : Fin n → Fin 4 → Rand, (ownSubnetCount gateway mask (List.ofFn packets) : ℚ)) /
        Fintype.card (Fin n → Fin 4 → Rand) = n * share gateway mask := by
  have each (i : Fin n) :
      ∑ packets : Fin n → Fin 4 → Rand,
          (if isInSubnet (generateRandomIP (packets i)) gateway mask then 1 else 0) =
        Fintype.card (Fin 4 → Rand) ^ (n - 1) * counted gateway mask := by
    have apart := Fintype.sum_piFinset_apply (ι := Fin n)
      (fun r => if isInSubnet (generateRandomIP r) gateway mask then 1 else 0) Finset.univ i
    rwa [Fintype.piFinset_univ, sum_counted, Finset.card_univ, Fintype.card_fin, smul_eq_mul] at apart
  have total : ∑ packets : Fin n → Fin 4 → Rand, ownSubnetCount gateway mask (List.ofFn packets) =
      n * (Fintype.card (Fin 4 → Rand) ^ (n - 1) * counted gateway mask) := by
    simp only [ownSubnetCount, countP_ofFn]
    rw [Finset.sum_comm, Finset.sum_congr rfl fun i _ => each i, Finset.sum_const, Finset.card_univ,
      Fintype.card_fin, smul_eq_mul]
  have whole : (Fintype.card (Fin n → Fin 4 → Rand) : ℚ) = (2 ^ 124) ^ n := by
    rw [Fintype.card_fun, Nat.cast_pow, card_rands, Fintype.card_fin]
  rw [← Nat.cast_sum, total, whole, Nat.cast_mul, Nat.cast_mul, Nat.cast_pow, card_rands, counted_share]
  cases n with
  | zero => simp
  | succ n =>
    have nonempty : ((2 : ℚ) ^ 124) ^ n ≠ 0 := pow_ne_zero _ (pow_ne_zero _ two_ne_zero)
    rw [Nat.add_sub_cancel, pow_succ _ n, div_eq_iff (mul_ne_zero nonempty (pow_ne_zero _ two_ne_zero))]
    ring

end Mean
end Tasks.Subnet
