import Tasks.Kit.Bits
import Tasks.Kit.Wiring
import Mathlib.Data.Rat.Defs
import Mathlib.Tactic.FieldSimp

/-! Module 2, Task 3.2: random packet addresses, and how many of them fall into a subnet. -/
namespace Tasks.Subnet

open Kit.Bits Kit.Wiring

/-- What `rand` returns, with `RAND_MAX` equal to 2^31 - 1. -/
abbrev Rand := BitVec 31

/-- `(uint32_t)rand()` -/
def unsigned (r : Rand) : UInt32 := .ofBitVec (r.setWidth 32)

def isInSubnet (ip subnet mask : UInt32) : Bool := ip &&& mask = subnet &&& mask

/-- The four results of `rand` are not cut to a byte each. -/
def generateRandomIP (r : Fin 4 → Rand) : UInt32 :=
  (unsigned (r 0) <<< 24) ||| (unsigned (r 1) <<< 16) ||| (unsigned (r 2) <<< 8) ||| unsigned (r 3)

def ownSubnetCount (gateway mask : UInt32) (packets : List (Fin 4 → Rand)) : Nat :=
  packets.countP fun r => isInSubnet (generateRandomIP r) gateway mask

noncomputable def counted (gateway mask : UInt32) : Nat :=
  Nat.card { r : Fin 4 → Rand // isInSubnet (generateRandomIP r) gateway mask }

noncomputable def returned (address : UInt32) : Nat :=
  Nat.card { r : Fin 4 → Rand // generateRandomIP r = address }

noncomputable def size (gateway mask : UInt32) : Nat :=
  Nat.card { ip : UInt32 // isInSubnet ip gateway mask }

/-- The fraction of tuples counted is the part of all addresses that the subnet is. -/
def Fair (gateway mask : UInt32) : Prop :=
  (counted gateway mask : ℚ) / Nat.card (Fin 4 → Rand) = size gateway mask / 2 ^ 32

section Bits

/-- The bit of the address that a bit of a result goes into, if it is not shifted out. -/
def wire (s : Fin 4 × Fin 31) : Option (Fin 32) :=
  if inside : s.2.val + 8 * (3 - s.1.val) < 32 then some ⟨_, inside⟩ else none

noncomputable def addressBits : UInt32 ≃ (Fin 32 → Bool) :=
  Equiv.trans ⟨UInt32.toBitVec, UInt32.ofBitVec, fun _ => rfl, fun _ => rfl⟩ (bits 32)

noncomputable def tupleBits : (Fin 4 → Rand) ≃ (Fin 4 × Fin 31 → Bool) :=
  (Equiv.piCongrRight fun _ => bits 31).trans (Equiv.curry _ _ _).symm

theorem shifted_bit (r : Rand) (n : Nat) (j : Fin 32) :
    ((unsigned r).toBitVec <<< n).getLsbD j = true ↔ ∃ i : Fin 31, i.val + n = j.val ∧ r.getLsbD i = true := by
  rw [BitVec.getLsbD_shiftLeft, unsigned, BitVec.getLsbD_setWidth]
  simp only [Bool.and_eq_true, Bool.not_eq_true', decide_eq_true_eq, decide_eq_false_iff_not]
  constructor
  · rintro ⟨⟨_, behind⟩, _, up⟩
    have range := BitVec.lt_of_getLsbD up
    exact ⟨⟨j - n, range⟩, by simp only; omega, up⟩
  · rintro ⟨i, place, up⟩
    have same : j.val - n = i.val := by omega
    exact ⟨⟨j.isLt, by omega⟩, by omega, same ▸ up⟩

/-- A bit of the address is up when a bit that goes into it is. -/
theorem generate_bit (r : Fin 4 → Rand) (j : Fin 32) :
    bit (generateRandomIP r) j = true ↔ ∃ s, wire s = some j ∧ tupleBits r s = true := by
  have goes (k : Fin 4) (i : Fin 31) : wire (k, i) = some j ↔ i.val + 8 * (3 - k.val) = j.val := by
    unfold wire
    split
    next => rw [Option.some.injEq, Fin.ext_iff]
    next outside =>
      have := j.isLt
      dsimp only at outside
      simp only [reduceCtorEq, false_iff]
      omega
  have or (a b : UInt32) : bit (a ||| b) j = true ↔ bit a j = true ∨ bit b j = true := by
    rw [bit_or, Bool.or_eq_true]
  have each : (∃ s, wire s = some j ∧ tupleBits r s = true) ↔
      ∃ k : Fin 4, ∃ i : Fin 31, i.val + 8 * (3 - k.val) = j.val ∧ (r k).getLsbD i = true := by
    rw [Prod.exists]
    exact exists_congr fun k => exists_congr fun i => and_congr_left fun _ => goes k i
  rw [each, generateRandomIP, or, or, or]
  constructor
  · rintro (((up | up) | up) | up)
    · exact ⟨0, (shifted_bit (r 0) 24 j).mp up⟩
    · exact ⟨1, (shifted_bit (r 1) 16 j).mp up⟩
    · exact ⟨2, (shifted_bit (r 2) 8 j).mp up⟩
    · exact ⟨3, (shifted_bit (r 3) 0 j).mp (by simpa [bit] using up)⟩
  · rintro ⟨k, from_⟩
    have calls : ∀ k : Fin 4, k = 0 ∨ k = 1 ∨ k = 2 ∨ k = 3 := by decide
    rcases calls k with rfl | rfl | rfl | rfl
    · exact .inl (.inl (.inl ((shifted_bit (r 0) 24 j).mpr from_)))
    · exact .inl (.inl (.inr ((shifted_bit (r 1) 16 j).mpr from_)))
    · exact .inl (.inr ((shifted_bit (r 2) 8 j).mpr from_))
    · have up := (shifted_bit (r 3) 0 j).mpr from_
      exact .inr (by simpa [bit] using up)

theorem wire_single : ∀ j : Fin 32, j.val < 8 → (Finset.univ.filter fun s => wire s = some j).card = 1 := by
  decide +kernel

theorem wire_several : ∀ j : Fin 32, 8 ≤ j.val → 2 ≤ (Finset.univ.filter fun s => wire s = some j).card := by
  decide +kernel

theorem card_sources (j : Fin 32) :
    Nat.card (Sources wire (some j)) = (Finset.univ.filter fun s => wire s = some j).card := by
  rw [Nat.card_eq_fintype_card, Fintype.card_subtype]

end Bits

section Fairness

variable {gateway mask : UInt32}

def maskBits (mask : UInt32) : Finset (Fin 32) := Finset.univ.filter fun j => bit mask j

theorem isInSubnet_iff (ip gateway mask : UInt32) :
    isInSubnet ip gateway mask ↔ ∀ j ∈ maskBits mask, bit ip j = true ↔ bit gateway j = true := by
  simp only [isInSubnet, decide_eq_true_eq, maskBits, Finset.mem_filter, Finset.mem_univ, true_and]
  constructor
  · intro same j masked
    have here := congrArg (bit · j) same
    simp only [bit_and, masked, Bool.and_true] at here
    rw [here]
  · intro agree
    apply ext
    intro j inside
    rw [bit_and, bit_and]
    cases masked : bit mask j with
    | true => rw [Bool.eq_iff_iff.mpr (agree ⟨j, inside⟩ masked)]
    | false => rw [Bool.and_false, Bool.and_false]

/-- Results of `rand` are counted by their bits. -/
theorem counted_matches (gateway mask : UInt32) :
    counted gateway mask =
      Nat.card { b : Fin 4 × Fin 31 → Bool // Matches wire (maskBits mask) (fun j => bit gateway j) b } := by
  refine Nat.card_congr (tupleBits.subtypeEquiv fun r => ?_)
  rw [isInSubnet_iff]
  exact forall_congr' fun j => forall_congr' fun _ => by rw [generate_bit]

theorem size_matches (gateway mask : UInt32) :
    size gateway mask =
      Nat.card { b : Fin 32 → Bool // Matches some (maskBits mask) (fun j => bit gateway j) b } := by
  refine Nat.card_congr (addressBits.subtypeEquiv fun ip => ?_)
  rw [isInSubnet_iff]
  apply forall_congr'
  intro j
  apply forall_congr'
  intro _
  have own : (∃ i, some i = some j ∧ addressBits ip i = true) ↔ bit ip j = true := by
    simp only [Option.some.injEq, exists_eq_left]
    rfl
  rw [own]

theorem size_eq (gateway mask : UInt32) : size gateway mask * 2 ^ (maskBits mask).card = 2 ^ 32 := by
  have single (j : Fin 32) : Nat.card (Sources (some : Fin 32 → Option (Fin 32)) (some j)) = 1 := by
    simp [Nat.card_eq_fintype_card, Fintype.card_subtype, Finset.filter_eq']
  have uniform := uniform_iff (some : Fin 32 → Option (Fin 32)) (maskBits mask) (fun j => bit gateway j)
    fun j _ => by rw [single]; decide
  have all := uniform.mpr fun j _ => single j
  rwa [← size_matches, Nat.card_fin] at all

theorem card_tuples : Nat.card (Fin 4 → Rand) = 2 ^ 124 := by
  rw [Nat.card_congr tupleBits, card_bits, Nat.card_prod, Nat.card_fin, Nat.card_fin]

/-- What counts as many tuples as the subnet deserves, without fractions. -/
theorem fair_iff_matches (gateway mask : UInt32) :
    Fair gateway mask ↔ counted gateway mask * 2 ^ (maskBits mask).card = 2 ^ 124 := by
  have size := size_eq gateway mask
  have cross : Fair gateway mask ↔ counted gateway mask * 2 ^ 32 = Subnet.size gateway mask * 2 ^ 124 := by
    rw [Fair, card_tuples, div_eq_div_iff (by positivity) (by positivity)]
    exact_mod_cast Iff.rfl
  rw [cross]
  constructor
  · intro equal
    apply Nat.eq_of_mul_eq_mul_right (Nat.two_pow_pos 32)
    calc counted gateway mask * 2 ^ (maskBits mask).card * 2 ^ 32
        = counted gateway mask * 2 ^ 32 * 2 ^ (maskBits mask).card := by ring
      _ = Subnet.size gateway mask * 2 ^ (maskBits mask).card * 2 ^ 124 := by rw [equal]; ring
      _ = 2 ^ 124 * 2 ^ 32 := by rw [size]; ring
  · intro equal
    apply Nat.eq_of_mul_eq_mul_right (Nat.two_pow_pos (maskBits mask).card)
    calc counted gateway mask * 2 ^ 32 * 2 ^ (maskBits mask).card
        = counted gateway mask * 2 ^ (maskBits mask).card * 2 ^ 32 := by ring
      _ = Subnet.size gateway mask * 2 ^ (maskBits mask).card * 2 ^ 124 := by rw [equal, size]; ring
      _ = Subnet.size gateway mask * 2 ^ 124 * 2 ^ (maskBits mask).card := by ring

/-- The mask has no bit that several results of `rand` go into. -/
theorem maskBits_low (mask : UInt32) : (∀ j ∈ maskBits mask, j.val < 8) ↔ mask.toNat < 2 ^ 8 := by
  simp only [maskBits, Finset.mem_filter, Finset.mem_univ, true_and]
  constructor
  · intro low
    apply Nat.lt_pow_two_of_testBit
    intro i high
    by_contra up
    have inside : i < 32 := by
      by_contra outside
      have small := Nat.testBit_lt_two_pow
        (mask.toNat_lt.trans_le (Nat.pow_le_pow_right (by decide) (not_lt.mp outside)))
      exact up small
    have here : i < 8 := low ⟨i, inside⟩ (by simpa [bit, BitVec.getLsbD] using up)
    omega
  · intro small j up
    by_contra high
    have off := Nat.testBit_lt_two_pow (small.trans_le (Nat.pow_le_pow_right (by decide) (not_lt.mp high)))
    simp only [bit, BitVec.getLsbD, UInt32.toNat_toBitVec, off, Bool.false_eq_true] at up

/-- The fraction counted is right exactly for masks inside the last octet. -/
theorem fair_iff (gateway mask : UInt32) : Fair gateway mask ↔ mask.toNat < 2 ^ 8 := by
  have fed : ∀ j ∈ maskBits mask, 0 < Nat.card (Sources wire (some j)) := by
    intro j _
    rw [card_sources]
    by_cases low : j.val < 8
    · rw [wire_single j low]
      decide
    · have several := wire_several j (by omega)
      omega
  have uniform := uniform_iff wire (maskBits mask) (fun j => bit gateway j) fed
  rw [← counted_matches, Nat.card_prod, Nat.card_fin, Nat.card_fin] at uniform
  rw [fair_iff_matches, uniform, ← maskBits_low]
  apply forall_congr'
  intro j
  apply forall_congr'
  intro _
  rw [card_sources]
  by_cases low : j.val < 8
  · simp only [wire_single j low, low]
  · have several := wire_several j (by omega)
    omega

theorem returned_counted (address : UInt32) : returned address = counted address 0xffffffff := by
  have whole (a : UInt32) : a &&& 0xffffffff = a := by
    apply UInt32.toNat_inj.mp
    rw [UInt32.toNat_and]
    exact Nat.and_two_pow_sub_one_of_lt_two_pow a.toNat_lt
  apply Nat.card_congr
  apply Equiv.subtypeEquivRight
  intro r
  simp only [isInSubnet, whole, decide_eq_true_eq]

theorem card_maskBits_full : (maskBits 0xffffffff).card = 32 := by decide +kernel

/-- No address is returned for one tuple in 2^32. -/
theorem returned_uneven (address : UInt32) : returned address * 2 ^ 32 ≠ 2 ^ 124 := by
  intro even
  have fair : Fair address 0xffffffff := by
    rwa [fair_iff_matches, card_maskBits_full, ← returned_counted]
  exact absurd ((fair_iff address 0xffffffff).mp fair) (by decide)

/-- Addresses that are all returned for as many tuples share them evenly. -/
theorem returned_even (same : ∀ a b, returned a = returned b) (address : UInt32) :
    returned address * 2 ^ 32 = 2 ^ 124 := by
  have all := Nat.card_congr (Equiv.sigmaFiberEquiv fun r => addressBits (generateRandomIP r))
  have each (b : Fin 32 → Bool) :
      Nat.card { r : Fin 4 → Rand // addressBits (generateRandomIP r) = b } = returned address := by
    rw [same address (addressBits.symm b)]
    apply Nat.card_congr
    apply Equiv.subtypeEquivRight
    intro r
    exact (Equiv.eq_symm_apply _).symm
  have : Finite (Fin 4 → Rand) := .of_equiv _ tupleBits.symm
  rw [Nat.card_sigma, card_tuples, Finset.sum_const_nat fun b _ => each b, Finset.card_univ,
    Fintype.card_fun, Fintype.card_bool, Fintype.card_fin] at all
  rw [Nat.mul_comm]
  exact all

/-- No address has its share of the tuples, and a subnet has it exactly when its mask leaves out the
bits that several results of `rand` go into. -/
theorem random_fair_iff (address gateway mask : UInt32) :
    returned address * 2 ^ 32 ≠ Nat.card (Fin 4 → Rand) ∧
      (¬ ∀ a b, returned a = returned b) ∧
      (Fair gateway mask ↔ mask.toNat < 2 ^ 8) := by
  refine ⟨?_, ?_, fair_iff gateway mask⟩
  · rw [card_tuples]
    exact returned_uneven address
  · intro same
    exact returned_uneven address (returned_even same address)

/-- 192.168.0.1 with the mask 255.255.255.0. -/
theorem own_subnet_unfair :
    ¬ ((∀ a b, returned a = returned b) ∧ ∀ gateway mask, Fair gateway mask) ∧
      ¬ Fair 0xc0a80001 0xffffff00 := by
  have unfair : ¬ Fair 0xc0a80001 0xffffff00 := by
    rw [fair_iff]
    decide
  exact ⟨fun law => unfair (law.2 _ _), unfair⟩

end Fairness
end Tasks.Subnet
