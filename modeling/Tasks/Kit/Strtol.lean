import Tasks.Kit.Scan

/-! `strtol` in a base up to ten, with the bounds of `long`, and `atoi` as its cast to `int`. Both
stop at the first character that is no digit, and neither tells whether there was one. `%d` stores
what it matches in the same way. -/
namespace Tasks.Kit.Strtol

def digit (base : Nat) (x : UInt8) : Bool := 48 ≤ x.toNat && x.toNat < 48 + base

def value (base : Nat) (digits : Bytes) : Nat := digits.foldl (fun n x => base * n + (x.toNat - 48)) 0

def leading (base : Nat) (text : Bytes) : Nat := value base (text.takeWhile (digit base))

/-- White space and a sign may stand before the digits. -/
def signed (base : Nat) (text : Bytes) : Int :=
  match Scan.skip text with
  | [] => 0
  | x :: rest =>
    if x = 45 then -(leading base rest : Int)
    else if x = 43 then leading base rest
    else leading base (x :: rest)

def longMin : Int := -2 ^ 63
def longMax : Int := 2 ^ 63 - 1

def strtol (base : Nat) (text : Bytes) : Int := max longMin (min longMax (signed base text))

def atoi (text : Bytes) : Int := (strtol 10 text).bmod (2 ^ 32)

/-- `%d` into an `int`: the number as a `long`, cut. -/
def int (input : Bytes) : Option (Int × Bytes) :=
  (Scan.int input).map fun found => ((max longMin (min longMax found.1)).bmod (2 ^ 32), found.2)

structure IsInt (z : Int) : Prop where
  lower : -2 ^ 31 ≤ z
  upper : z < 2 ^ 31

section Digits

variable {base : Nat} {digits : Bytes} {x : UInt8}

theorem leading_digits (kept : ∀ x ∈ digits, digit base x) : leading base digits = value base digits := by
  rw [leading, List.takeWhile_eq_self_iff.mpr kept]

theorem digit_ten (x : UInt8) : digit 10 x = Scan.digit x := by
  apply Bool.eq_iff_iff.mpr
  simp only [digit, Scan.digit, Bool.and_eq_true, decide_eq_true_eq, UInt8.le_iff_toNat_le]
  exact and_congr Iff.rfl Nat.lt_succ_iff

theorem signed_digit (text : Bytes) (first : Scan.digit x) :
    signed base (x :: text) = leading base (x :: text) := by
  have solid := Scan.digit_not_blank first
  have front : Scan.skip (x :: text) = x :: text := by
    rw [Scan.skip, List.dropWhile_cons_of_neg (by simp [solid.1])]
  simp only [signed, front, if_neg solid.2.1, if_neg solid.2.2]

/-- Digits of a number that fits are read as they stand. -/
theorem strtol_digits (some : digits ≠ []) (kept : ∀ x ∈ digits, digit 10 x)
    (fits : (value 10 digits : Int) ≤ longMax) : strtol 10 digits = value 10 digits := by
  obtain ⟨x, more, rfl⟩ := List.exists_cons_of_ne_nil some
  have low : longMin ≤ 0 := by decide
  have first : Scan.digit x := digit_ten x ▸ kept x List.mem_cons_self
  rw [strtol, signed_digit more first, leading_digits kept]
  omega

theorem atoi_digits (some : digits ≠ []) (kept : ∀ x ∈ digits, digit 10 x)
    (fits : value 10 digits < 2 ^ 31) : atoi digits = value 10 digits := by
  have long : (value 10 digits : Int) ≤ longMax := by
    simp only [longMax]
    omega
  rw [atoi, strtol_digits some kept long, Int.bmod_eq_of_le (by omega) (by omega)]

end Digits

section Numerals

variable {text : Bytes} {z : Int}

theorem signed_numeral (numeral : Scan.Numeral text z) : signed 10 text = z := by
  have front : Scan.skip text = text := by
    have solid := numeral.solid []
    rw [List.append_nil] at solid
    exact Scan.skip_append (List.forall_mem_nil _) text solid
  have keep {digits : Bytes} (kept : ∀ x ∈ digits, Scan.digit x) : ∀ x ∈ digits, digit 10 x := by
    simpa only [digit_ten] using kept
  cases numeral with
  | plain kept some =>
    obtain ⟨x, more, rfl⟩ := List.exists_cons_of_ne_nil some
    rw [signed_digit more (kept x List.mem_cons_self), leading_digits (keep kept)]
    rfl
  | plus kept some =>
    simp only [signed, front, leading_digits (keep kept)]
    rfl
  | minus kept some =>
    simp only [signed, front, leading_digits (keep kept)]
    rfl

/-- A number of type `int`, with or without a sign, is read as it stands. -/
theorem atoi_numeral (numeral : Scan.Numeral text z) (low : -2 ^ 31 ≤ z) (high : z < 2 ^ 31) :
    atoi text = z := by
  have long : strtol 10 text = z := by
    rw [strtol, signed_numeral numeral, longMin, longMax]
    omega
  rw [atoi, long, Int.bmod_eq_of_le (by omega) (by omega)]

end Numerals

section Stored

variable {input rest : Bytes} {z : Int}

theorem bmod_int (z : Int) : IsInt (z.bmod (2 ^ 32)) := by
  have lower := Int.le_bmod (x := z) (m := 2 ^ 32) (by decide)
  have upper := Int.bmod_lt (x := z) (m := 2 ^ 32) (by decide)
  constructor <;> omega

theorem atoi_int (text : Bytes) : IsInt (atoi text) := bmod_int _

theorem int_isInt (found : int input = some (z, rest)) : IsInt z := by
  obtain ⟨_, _, same⟩ := Option.map_eq_some_iff.mp found
  cases same
  exact bmod_int _

theorem int_skip (input : Bytes) : int (Scan.skip input) = int input := by rw [int, Scan.int_skip, ← int]

theorem int_suffix (found : int input = some (z, rest)) : rest <:+ input := by
  obtain ⟨matched, number, same⟩ := Option.map_eq_some_iff.mp found
  cases same
  exact Scan.int_suffix number

theorem int_decimal (isInt : IsInt z) (ends : ∀ x ∈ rest.head?, Scan.digit x = false) :
    int (Bytes.decimal z ++ rest) = some (z, rest) := by
  have long : max longMin (min longMax z) = z := by
    obtain ⟨lower, upper⟩ := isInt
    rw [longMin, longMax]
    omega
  rw [int, Scan.int_decimal z ends, Option.map_some, long,
    Int.bmod_eq_of_le (by have := isInt.lower; omega) (by have := isInt.upper; omega)]

end Stored
end Tasks.Kit.Strtol
