import Mathlib.Algebra.BigOperators.Option
import Mathlib.Algebra.Order.BigOperators.GroupWithZero.Finset
import Mathlib.Data.Fintype.BigOperators
import Mathlib.Data.Nat.Prime.Basic
import Mathlib.SetTheory.Cardinal.Finite

/-! Bits wired to outputs, several to one: an output is up when one of its sources is. Over all
settings of the bits, such outputs are uniform only where each of them has a single source. -/
namespace Tasks.Kit.Wiring

variable {ι κ : Type}

/-- The bits wired to an output; `none` is no output. -/
abbrev Sources (wire : ι → Option κ) (k : Option κ) := { i : ι // wire i = k }

/-- The outputs of a mask come up as they are wanted. -/
def Matches (wire : ι → Option κ) (mask : Finset κ) (want : κ → Bool) (bits : ι → Bool) : Prop :=
  ∀ k ∈ mask, (∃ i, wire i = some k ∧ bits i) ↔ want k

/-- What the sources of one output do for it. -/
def Local (mask : Finset κ) (want : κ → Bool) (k : Option κ) (bits : α → Bool) : Prop :=
  ∀ o ∈ mask, k = some o → ((∃ i, bits i) ↔ want o)

section Counting

variable {wire : ι → Option κ} {mask : Finset κ} {want : κ → Bool}

theorem matches_local (bits : ι → Bool) :
    Matches wire mask want bits ↔
      ∀ k : Option κ, Local mask want k fun i : Sources wire k => bits i.1 := by
  constructor
  · rintro meets _ o member rfl
    rw [← meets o member]
    exact ⟨fun ⟨⟨i, at_⟩, up⟩ => ⟨i, at_, up⟩, fun ⟨i, at_, up⟩ => ⟨⟨i, at_⟩, up⟩⟩
  · intro each o member
    rw [← each (some o) o member rfl]
    exact ⟨fun ⟨i, at_, up⟩ => ⟨⟨i, at_⟩, up⟩, fun ⟨⟨i, at_⟩, up⟩ => ⟨i, at_, up⟩⟩

def bySource (wire : ι → Option κ) : (ι → Bool) ≃ ∀ k : Option κ, Sources wire k → Bool :=
  ((Equiv.sigmaFiberEquiv wire).symm.arrowCongr (Equiv.refl Bool)).trans (Equiv.piCurry fun _ _ => Bool)

theorem card_bits (α : Type) [Finite α] : Nat.card (α → Bool) = 2 ^ Nat.card α := by
  rw [Nat.card_fun, Nat.card_eq_fintype_card, Fintype.card_bool]

/-- The outputs are independent. -/
theorem card_matches [Fintype κ] (wire : ι → Option κ) (mask : Finset κ) (want : κ → Bool) :
    Nat.card { bits : ι → Bool // Matches wire mask want bits } =
      ∏ k : Option κ, Nat.card { bits : Sources wire k → Bool // Local mask want k bits } := by
  have split : { bits : ι → Bool // Matches wire mask want bits } ≃
      { each : ∀ k : Option κ, Sources wire k → Bool // ∀ k, Local mask want k (each k) } :=
    (bySource wire).subtypeEquiv fun bits => matches_local bits
  rw [Nat.card_congr (split.trans Equiv.subtypePiEquivPi), Nat.card_pi]

theorem card_settings [Finite ι] [Fintype κ] (wire : ι → Option κ) :
    2 ^ Nat.card ι = ∏ k : Option κ, 2 ^ Nat.card (Sources wire k) := by
  rw [← card_bits, Nat.card_congr (bySource wire), Nat.card_pi]
  exact Finset.prod_congr rfl fun k _ => card_bits _

theorem card_free [Finite ι] (k : Option κ) (free : ∀ o ∈ mask, k ≠ some o) :
    Nat.card { bits : Sources wire k → Bool // Local mask want k bits } = 2 ^ Nat.card (Sources wire k) := by
  have every (bits : Sources wire k → Bool) : Local mask want k bits :=
    fun o member same => absurd same (free o member)
  rw [Nat.card_congr (Equiv.subtypeUnivEquiv every), card_bits]

/-- An output comes up in all settings of its sources but one. -/
theorem card_wanted [Finite ι] {o : κ} (member : o ∈ mask) :
    Nat.card { bits : Sources wire (some o) → Bool // Local mask want (some o) bits } =
      if want o then 2 ^ Nat.card (Sources wire (some o)) - 1 else 1 := by
  have meaning (bits : Sources wire (some o) → Bool) :
      Local mask want (some o) bits ↔ ((bits ≠ fun _ => false) ↔ want o) := by
    have up : (∃ i, bits i) ↔ bits ≠ fun _ => false := by simp [funext_iff]
    rw [← up]
    constructor
    · exact fun each => each o member rfl
    · rintro meets o' _ same
      cases same
      exact meets
  have := Fintype.ofFinite (Sources wire (some o))
  have := Classical.decEq (Sources wire (some o))
  rw [Nat.card_congr (Equiv.subtypeEquivRight meaning)]
  cases want o with
  | true =>
    simp only [iff_true, if_true]
    rw [← card_bits, Nat.card_eq_fintype_card, Nat.card_eq_fintype_card, Fintype.card_subtype_compl,
      Fintype.card_subtype_eq]
  | false =>
    simp only [Bool.false_eq_true, iff_false, not_not, if_false]
    rw [Nat.card_eq_fintype_card, Fintype.card_subtype_eq]

/-- A masked output is worth a factor of two. -/
def weight [DecidableEq κ] (mask : Finset κ) : Option κ → Nat
  | none => 1
  | some o => if o ∈ mask then 2 else 1

theorem prod_weight [Fintype κ] [DecidableEq κ] (mask : Finset κ) :
    ∏ k : Option κ, weight mask k = 2 ^ mask.card := by
  rw [Fintype.prod_option, weight, one_mul]
  simp [weight]

noncomputable def factor [DecidableEq κ] (wire : ι → Option κ) (mask : Finset κ) (want : κ → Bool)
    (k : Option κ) : Nat :=
  Nat.card { bits : Sources wire k → Bool // Local mask want k bits } * weight mask k

section Factors

variable [Finite ι] [DecidableEq κ]

theorem factor_free (k : Option κ) (free : ∀ o ∈ mask, k ≠ some o) :
    factor wire mask want k = 2 ^ Nat.card (Sources wire k) := by
  have light : weight mask k = 1 := by
    cases k with
    | none => rfl
    | some o => exact if_neg fun member => free o member rfl
  rw [factor, card_free k free, light, Nat.mul_one]

theorem factor_wanted {o : κ} (member : o ∈ mask) :
    factor wire mask want (some o) =
      (if want o then 2 ^ Nat.card (Sources wire (some o)) - 1 else 1) * 2 := by
  rw [factor, card_wanted member, weight, if_pos member]

theorem factor_single {o : κ} (member : o ∈ mask) (single : Nat.card (Sources wire (some o)) = 1) :
    factor wire mask want (some o) = 2 ^ Nat.card (Sources wire (some o)) := by
  rw [factor_wanted member, single]
  split <;> rfl

omit [Finite ι] in
theorem card_factors [Fintype κ] (wire : ι → Option κ) (mask : Finset κ) (want : κ → Bool) :
    Nat.card { bits : ι → Bool // Matches wire mask want bits } * 2 ^ mask.card =
      ∏ k : Option κ, factor wire mask want k := by
  rw [card_matches, ← prod_weight, ← Finset.prod_mul_distrib]
  rfl

/-- An odd factor above one is in no power of two. -/
theorem wanted_uneven [Fintype κ] {o : κ} (member : o ∈ mask) (up : want o)
    (several : 2 ≤ Nat.card (Sources wire (some o))) :
    ∏ k : Option κ, factor wire mask want k ≠ 2 ^ Nat.card ι := by
  intro even
  have divides : 2 ^ Nat.card (Sources wire (some o)) - 1 ∣ 2 ^ Nat.card ι := by
    rw [← even]
    have inside := Finset.dvd_prod_of_mem (factor wire mask want) (Finset.mem_univ (some o))
    rw [factor_wanted member, if_pos up] at inside
    exact (Nat.dvd_mul_right _ 2).trans inside
  have large : 2 ^ 2 ≤ 2 ^ Nat.card (Sources wire (some o)) := Nat.pow_le_pow_right (by decide) several
  have odd : Odd (2 ^ Nat.card (Sources wire (some o)) - 1) :=
    Nat.Even.sub_odd (by omega) (Nat.even_pow.mpr ⟨by decide, by omega⟩) odd_one
  have one := Nat.Coprime.eq_one_of_dvd ((Nat.coprime_two_right.mpr odd).pow_right _) divides
  omega

/-- Outputs that are wanted down come out too rarely. -/
theorem unwanted_rare [Fintype κ] {o : κ} (fed : ∀ o ∈ mask, 0 < Nat.card (Sources wire (some o)))
    (down : ∀ o ∈ mask, want o → Nat.card (Sources wire (some o)) < 2) (member : o ∈ mask)
    (several : 2 ≤ Nat.card (Sources wire (some o))) :
    ∏ k : Option κ, factor wire mask want k < 2 ^ Nat.card ι := by
  have low {o : κ} (member : o ∈ mask) (several : 2 ≤ Nat.card (Sources wire (some o))) :
      factor wire mask want (some o) < 2 ^ Nat.card (Sources wire (some o)) := by
    have large : 2 ^ 2 ≤ 2 ^ Nat.card (Sources wire (some o)) := Nat.pow_le_pow_right (by decide) several
    have off : ¬ want o = true := fun up => absurd (down o member up) (by omega)
    rw [factor_wanted member, if_neg off]
    omega
  have each (k : Option κ) : 0 < factor wire mask want k ∧
      factor wire mask want k ≤ 2 ^ Nat.card (Sources wire k) := by
    by_cases masked : ∃ o ∈ mask, k = some o
    · obtain ⟨o, member, rfl⟩ := masked
      by_cases single : Nat.card (Sources wire (some o)) = 1
      · rw [factor_single member single]
        exact ⟨Nat.two_pow_pos _, le_rfl⟩
      · have more : 2 ≤ Nat.card (Sources wire (some o)) := by
          have := fed o member
          omega
        refine ⟨?_, (low member more).le⟩
        have off : ¬ want o = true := fun up => absurd (down o member up) (by omega)
        rw [factor_wanted member, if_neg off]
        decide
    · rw [factor_free k fun o member same => masked ⟨o, member, same⟩]
      exact ⟨Nat.two_pow_pos _, le_rfl⟩
  rw [card_settings wire]
  exact Finset.prod_lt_prod (fun k _ => (each k).1) (fun k _ => (each k).2)
    ⟨some o, Finset.mem_univ _, low member several⟩

/-- The settings that match are the part of all of them that as many uniform bits would be exactly
where each output of the mask has one source. -/
theorem uniform_iff [Fintype κ] (wire : ι → Option κ) (mask : Finset κ) (want : κ → Bool)
    (fed : ∀ o ∈ mask, 0 < Nat.card (Sources wire (some o))) :
    Nat.card { bits : ι → Bool // Matches wire mask want bits } * 2 ^ mask.card = 2 ^ Nat.card ι ↔
      ∀ o ∈ mask, Nat.card (Sources wire (some o)) = 1 := by
  rw [card_factors]
  constructor
  · intro uniform
    have down : ∀ o ∈ mask, want o → Nat.card (Sources wire (some o)) < 2 := by
      intro o member up
      by_contra several
      exact wanted_uneven member up (by omega) uniform
    intro o member
    by_contra several
    have positive := fed o member
    exact absurd uniform (unwanted_rare fed down member (by omega)).ne
  · intro single
    rw [card_settings wire]
    refine Finset.prod_congr rfl fun k _ => ?_
    by_cases masked : ∃ o ∈ mask, k = some o
    · obtain ⟨o, member, rfl⟩ := masked
      exact factor_single member (single o member)
    · exact factor_free k fun o member same => masked ⟨o, member, same⟩

end Factors
end Counting

theorem bits_bijective (n : Nat) : Function.Bijective fun (a : BitVec n) (i : Fin n) => a.getLsbD i := by
  have asFin : Nat.card (BitVec n) = 2 ^ n := by
    rw [Nat.card_congr ⟨BitVec.toFin, BitVec.ofFin, fun _ => rfl, fun _ => rfl⟩, Nat.card_fin]
  rw [Nat.bijective_iff_injective_and_card, asFin, card_bits, Nat.card_fin]
  refine ⟨fun a b same => ?_, rfl⟩
  exact BitVec.eq_of_getLsbD_eq fun i inside => congrFun same ⟨i, inside⟩

noncomputable def bits (n : Nat) : BitVec n ≃ (Fin n → Bool) := .ofBijective _ (bits_bijective n)

end Tasks.Kit.Wiring
