import Tasks.Kit.Bytes
import Mathlib.Algebra.Group.Int.Defs
import Mathlib.Data.List.DropRight

/-! The conversions of a `scanf` format, each as a function from the input to what it matched and
the input behind it; `none` is a failure to match, at the end of the input too. -/
namespace Tasks.Kit.Scan

/-- `isspace` in the C locale. -/
def blank (x : UInt8) : Bool := x = 32 || 9 ≤ x && x ≤ 13

def digit (x : UInt8) : Bool := 48 ≤ x && x ≤ 57

/-- White space in a format. -/
def skip (input : Bytes) : Bytes := input.dropWhile blank

def value (digits : Bytes) : Nat := digits.foldl (fun n x => 10 * n + (x.toNat - 48)) 0

def number (input : Bytes) : Option (Nat × Bytes) :=
  if input.takeWhile digit = [] then none
  else some (value (input.takeWhile digit), input.dropWhile digit)

/-- The number that `%d` matches, whether or not an `int` can hold it. -/
def int (input : Bytes) : Option (Int × Bytes) :=
  match skip input with
  | [] => none
  | x :: rest =>
    if x = 45 then (number rest).map fun found => (-(found.1 : Int), found.2)
    else if x = 43 then (number rest).map fun found => ((found.1 : Int), found.2)
    else (number (x :: rest)).map fun found => ((found.1 : Int), found.2)

/-- An ordinary character of a format. -/
def literal (c : UInt8) : Bytes → Option Bytes
  | [] => none
  | x :: rest => if x = c then some rest else none

/-- `%<width>[...]` -/
def set (width : Nat) (keep : UInt8 → Bool) (input : Bytes) : Option (Bytes × Bytes) :=
  let text := (input.takeWhile keep).take width
  if text = [] then none else some (text, input.drop text.length)

section Conversions

variable {keep : UInt8 → Bool} {input text rest digits : Bytes} {width : Nat}

theorem takeWhile_append (kept : ∀ x ∈ text, keep x) (ends : ∀ x ∈ rest.head?, keep x = false) :
    (text ++ rest).takeWhile keep = text := by
  rw [List.takeWhile_append_of_pos kept]
  cases rest with
  | nil => simp
  | cons x rest => simp [ends x (by simp)]

theorem dropWhile_append (kept : ∀ x ∈ text, keep x) (ends : ∀ x ∈ rest.head?, keep x = false) :
    (text ++ rest).dropWhile keep = rest := by
  rw [List.dropWhile_append_of_pos kept]
  cases rest with
  | nil => rfl
  | cons x rest => simp [ends x (by simp)]

theorem number_append (kept : ∀ x ∈ digits, digit x) (some : digits ≠ [])
    (ends : ∀ x ∈ rest.head?, digit x = false) :
    number (digits ++ rest) = .some (value digits, rest) := by
  rw [number, takeWhile_append kept ends, dropWhile_append kept ends, if_neg some]

theorem set_append (kept : ∀ x ∈ text, keep x) (some : text ≠ []) (fits : text.length ≤ width)
    (ends : text.length = width ∨ ∀ x ∈ rest.head?, keep x = false) :
    set width keep (text ++ rest) = .some (text, rest) := by
  have matched : ((text ++ rest).takeWhile keep).take width = text := by
    rcases ends with full | ends
    · rw [List.takeWhile_append_of_pos kept, ← full, List.take_left]
    · rw [takeWhile_append kept ends, List.take_of_length_le fits]
  simp only [set, matched, if_neg some, List.drop_left]

/-- What a `%[` conversion may store. -/
theorem set_found (found : set width keep input = some (text, rest)) :
    input = text ++ rest ∧ text ≠ [] ∧ text.length ≤ width ∧ ∀ x ∈ text, keep x := by
  simp only [set] at found
  split at found
  next => contradiction
  next nonempty =>
    cases found
    refine ⟨?_, nonempty, List.length_take_le .., ?_⟩
    · have front : (input.takeWhile keep).take width <+: input :=
        (List.take_prefix ..).trans (List.takeWhile_prefix ..)
      conv_lhs => rw [← List.take_append_drop ((input.takeWhile keep).take width).length input,
        ← List.prefix_iff_eq_take.mp front]
    · intro x member
      exact List.mem_takeWhile_imp (List.mem_of_mem_take member)

theorem int_skip (input : Bytes) : int (skip input) = int input := by
  rw [int, skip, skip, List.dropWhile_idempotent, ← skip, int]

theorem int_suffix (found : int input = some (z, rest)) : rest <:+ input := by
  have ends {digits : Bytes} {n : Nat} (read : number digits = some (n, rest)) : rest <:+ digits := by
    unfold number at read
    split at read
    · contradiction
    · cases read
      exact List.dropWhile_suffix _
  have front : skip input <:+ input := List.dropWhile_suffix _
  unfold int at found
  split at found
  · contradiction
  next x behind shape =>
    have tail : behind <:+ input := (List.suffix_cons x behind).trans (shape ▸ front)
    split at found
    · obtain ⟨⟨n, last⟩, read, same⟩ := Option.map_eq_some_iff.mp found
      cases same
      exact (ends read).trans tail
    · split at found
      · obtain ⟨⟨n, last⟩, read, same⟩ := Option.map_eq_some_iff.mp found
        cases same
        exact (ends read).trans tail
      · obtain ⟨⟨n, last⟩, read, same⟩ := Option.map_eq_some_iff.mp found
        cases same
        exact (ends read).trans (shape ▸ front)

end Conversions

section Numerals

variable {input text rest gap : Bytes} {x : UInt8} {z : Int}

/-- The text of a number: digits, and maybe a sign. -/
inductive Numeral : Bytes → Int → Prop where
  | plain (kept : ∀ x ∈ digits, digit x) (some : digits ≠ []) : Numeral digits (value digits)
  | plus (kept : ∀ x ∈ digits, digit x) (some : digits ≠ []) : Numeral (43 :: digits) (value digits)
  | minus (kept : ∀ x ∈ digits, digit x) (some : digits ≠ []) : Numeral (45 :: digits) (-value digits)

theorem digit_not_blank (isDigit : digit x) : blank x = false ∧ x ≠ 45 ∧ x ≠ 43 := by
  simp only [digit, Bool.and_eq_true, decide_eq_true_eq, UInt8.le_iff_toNat_le] at isDigit
  have low : 48 ≤ x.toNat := isDigit.1
  refine ⟨?_, ?_, ?_⟩
  · simp only [blank, Bool.or_eq_false_iff, Bool.and_eq_false_iff, decide_eq_false_iff_not,
      UInt8.le_iff_toNat_le]
    refine ⟨?_, .inr fun small => ?_⟩
    · rintro rfl
      exact absurd low (by decide)
    · have high : x.toNat ≤ 13 := small
      omega
  · rintro rfl
    exact absurd low (by decide)
  · rintro rfl
    exact absurd low (by decide)

theorem Numeral.ne_nil (numeral : Numeral text z) : text ≠ [] := by
  cases numeral with
  | plain _ some => exact some
  | plus | minus => exact List.cons_ne_nil _ _

theorem Numeral.bytes (numeral : Numeral text z) (member : x ∈ text) : digit x ∨ x = 43 ∨ x = 45 := by
  cases numeral with
  | plain kept => exact .inl (kept x member)
  | plus kept =>
    rcases List.mem_cons.mp member with same | later
    · exact .inr (.inl same)
    · exact .inl (kept x later)
  | minus kept =>
    rcases List.mem_cons.mp member with same | later
    · exact .inr (.inr same)
    · exact .inl (kept x later)

theorem Numeral.solid (numeral : Numeral text z) (rest : Bytes) :
    ∀ x ∈ (text ++ rest).head?, blank x = false := by
  obtain ⟨y, front, rfl⟩ := List.exists_cons_of_ne_nil numeral.ne_nil
  intro x head
  obtain rfl : y = x := by simpa using head
  rcases numeral.bytes List.mem_cons_self with isDigit | rfl | rfl
  · exact (digit_not_blank isDigit).1
  · rfl
  · rfl

theorem number_found (found : number input = some (n, rest)) :
    ∃ digits, input = digits ++ rest ∧ (∀ x ∈ digits, digit x) ∧ digits ≠ [] ∧ n = value digits ∧
      ∀ x ∈ rest.head?, digit x = false := by
  unfold number at found
  split at found
  next => contradiction
  next some =>
    cases found
    refine ⟨_, List.takeWhile_append_dropWhile.symm, fun x member => List.mem_takeWhile_imp member, some,
      rfl, ?_⟩
    intro x head
    have stop := List.head?_dropWhile_not digit input
    rw [Option.mem_def.mp head] at stop
    simpa using stop

theorem skip_append (white : ∀ x ∈ gap, blank x) (rest : Bytes) (solid : ∀ x ∈ rest.head?, blank x = false) :
    skip (gap ++ rest) = rest := dropWhile_append white solid

/-- White space and a numeral, in front of anything but another digit. -/
theorem int_numeral (white : ∀ x ∈ gap, blank x) (numeral : Numeral text z)
    (ends : ∀ x ∈ rest.head?, digit x = false) : int (gap ++ (text ++ rest)) = some (z, rest) := by
  cases numeral with
  | plain kept some =>
    obtain ⟨x, digits, rfl⟩ := List.exists_cons_of_ne_nil some
    obtain ⟨solid, minus, plus⟩ := digit_not_blank (kept x List.mem_cons_self)
    have skipped := skip_append white (x :: digits ++ rest) (by simpa using solid)
    have read := number_append kept some ends
    rw [List.cons_append] at skipped read
    simp only [int, List.cons_append, skipped, if_neg minus, if_neg plus, read, Option.map_some]
  | @plus digits kept some =>
    have skipped := skip_append white (43 :: digits ++ rest) (by simp [blank])
    rw [List.cons_append] at skipped
    simp [int, skipped, number_append kept some ends]
  | @minus digits kept some =>
    have skipped := skip_append white (45 :: digits ++ rest) (by simp [blank])
    rw [List.cons_append] at skipped
    simp [int, skipped, number_append kept some ends]

theorem int_found (found : int input = some (z, rest)) :
    ∃ text, input = input.takeWhile blank ++ (text ++ rest) ∧ Numeral text z ∧
      ∀ x ∈ rest.head?, digit x = false := by
  have whole := List.takeWhile_append_dropWhile (p := blank) (l := input)
  unfold int at found
  split at found
  next => contradiction
  next x behind shape =>
    rw [← skip, shape] at whole
    split at found
    next minus =>
      obtain ⟨⟨n, last⟩, read, same⟩ := Option.map_eq_some_iff.mp found
      obtain ⟨digits, rfl, kept, some, rfl, ends⟩ := number_found read
      cases same
      exact ⟨45 :: digits, by rw [List.cons_append, ← minus, whole], .minus kept some, ends⟩
    next =>
      split at found
      next plus =>
        obtain ⟨⟨n, last⟩, read, same⟩ := Option.map_eq_some_iff.mp found
        obtain ⟨digits, rfl, kept, some, rfl, ends⟩ := number_found read
        cases same
        exact ⟨43 :: digits, by rw [List.cons_append, ← plus, whole], .plus kept some, ends⟩
      next =>
        obtain ⟨⟨n, last⟩, read, same⟩ := Option.map_eq_some_iff.mp found
        obtain ⟨digits, split, kept, some, rfl, ends⟩ := number_found read
        cases same
        exact ⟨digits, by rw [← split, whole], .plain kept some, ends⟩

theorem int_blank (white : blank x) (input : Bytes) : int (x :: input) = int input := by
  have same : skip (x :: input) = skip input := List.dropWhile_cons_of_pos white
  rw [← int_skip, same, int_skip]

/-- A newline behind a text changes no conversion. -/
theorem int_newline (input : Bytes) :
    int (input ++ [10]) = (int input).map fun found => (found.1, found.2 ++ [10]) := by
  have white (y) (member : y ∈ input.takeWhile blank) : blank y := List.mem_takeWhile_imp member
  cases found : int input with
  | some result =>
    obtain ⟨z, rest⟩ := result
    obtain ⟨text, shape, numeral, ends⟩ := int_found found
    have ends' : ∀ x ∈ (rest ++ [10]).head?, digit x = false := by
      cases rest with
      | nil => simp [digit]
      | cons y rest => simpa using ends
    have read := int_numeral white numeral ends'
    rw [← List.append_assoc, ← List.append_assoc, List.append_assoc _ text, ← shape] at read
    exact read
  | none =>
    cases again : int (input ++ [10]) with
    | none => rfl
    | some result =>
      obtain ⟨z, rest⟩ := result
      obtain ⟨text, shape, numeral, ends⟩ := int_found again
      have white (y) (member : y ∈ (input ++ [10]).takeWhile blank) : blank y := List.mem_takeWhile_imp member
      rcases List.eq_nil_or_concat rest with rfl | ⟨rest, y, rfl⟩
      · have newline := congrArg List.getLast? shape
        rw [List.append_nil, List.getLast?_concat, List.getLast?_append_of_ne_nil _ numeral.ne_nil] at newline
        have last := numeral.bytes (List.mem_of_getLast? newline.symm)
        simp [digit] at last
      · rw [List.concat_eq_append] at shape ends
        rw [← List.append_assoc text, ← List.append_assoc] at shape
        obtain ⟨same, _⟩ := List.append_inj' shape rfl
        have ends' : ∀ x ∈ rest.head?, digit x = false := fun x head =>
          ends x (by simp [Option.mem_def.mp head])
        have read := int_numeral white numeral ends'
        rw [← same, found] at read
        cases read

def numbers : Nat → Bytes → Option (List Int)
  | 0, _ => some []
  | n + 1, input =>
    match int input with
    | none => none
    | some (z, rest) => (numbers n rest).map (z :: ·)

theorem numbers_length (found : numbers n input = some zs) : zs.length = n := by
  induction n generalizing input zs with
  | zero =>
    cases found
    rfl
  | succ n ih =>
    simp only [numbers] at found
    split at found
    next => contradiction
    next z rest _ =>
      obtain ⟨others, later, rfl⟩ := Option.map_eq_some_iff.mp found
      rw [List.length_cons, ih later]

theorem numbers_newline (n : Nat) (input : Bytes) : numbers n (input ++ [10]) = numbers n input := by
  induction n generalizing input with
  | zero => rfl
  | succ n ih =>
    rw [numbers, numbers, int_newline]
    cases int input with
    | none => rfl
    | some found => simp only [Option.map_some, ih]

theorem numbers_blank (white : blank x) (input : Bytes) :
    numbers (n + 1) (x :: input) = numbers (n + 1) input := by
  rw [numbers, numbers, int_blank white]

end Numerals

section Decimal

variable {rest : Bytes} {x : UInt8}

theorem digit_code {c : Char} (isDigit : c.isDigit) : 48 ≤ c.toNat ∧ c.toNat ≤ 57 := by
  simp only [Char.isDigit, Bool.and_eq_true, decide_eq_true_eq, ge_iff_le,
    UInt32.le_iff_toNat_le] at isDigit
  exact isDigit

theorem digits_digit {cs : List Char} (isDigit : ∀ c ∈ cs, c.isDigit) :
    ∀ x ∈ cs.map fun c => UInt8.ofNat c.toNat, digit x := by
  intro x member
  obtain ⟨c, inside, rfl⟩ := List.mem_map.mp member
  have code := digit_code (isDigit c inside)
  have small : c.toNat % 2 ^ 8 = c.toNat := Nat.mod_eq_of_lt (by omega)
  simp only [digit, Bool.and_eq_true, decide_eq_true_eq, UInt8.le_iff_toNat_le, UInt8.toNat_ofNat',
    small]
  exact code

theorem digits_value {cs : List Char} (isDigit : ∀ c ∈ cs, c.isDigit) :
    value (cs.map fun c => UInt8.ofNat c.toNat) = Nat.ofDigitChars 10 cs 0 := by
  suffices general : ∀ n, (cs.map fun c => UInt8.ofNat c.toNat).foldl
      (fun n x => 10 * n + (x.toNat - 48)) n = Nat.ofDigitChars 10 cs n from general 0
  induction cs with
  | nil => simp
  | cons c cs ih =>
    intro n
    have code := digit_code (isDigit c (by simp))
    have small : c.toNat % 2 ^ 8 = c.toNat := Nat.mod_eq_of_lt (by omega)
    rw [List.map_cons, List.foldl_cons, ih fun c member => isDigit c (by simp [member]),
      Nat.ofDigitChars_cons, UInt8.toNat_ofNat', small]
    rfl

theorem toDigits_digit (n : Nat) : ∀ c ∈ Nat.toDigits 10 n, c.isDigit :=
  fun _ member => Nat.isDigit_of_mem_toDigits (by decide) (by decide) member

/-- A decimal number, in front of anything but another digit. -/
theorem number_digits (n : Nat) (ends : ∀ x ∈ rest.head?, digit x = false) :
    number ((Nat.toDigits 10 n).map (fun c => UInt8.ofNat c.toNat) ++ rest) = some (n, rest) := by
  rw [number_append (digits_digit (toDigits_digit n)) (by simp [Nat.toDigits_ne_nil]) ends,
    digits_value (toDigits_digit n), Nat.ofDigitChars_ten_toDigits]

theorem int_decimal (z : Int) (ends : ∀ x ∈ rest.head?, digit x = false) :
    int (Bytes.decimal z ++ rest) = some (z, rest) := by
  cases z with
  | ofNat n =>
    have read := number_digits n ends
    have isDigit := digits_digit (toDigits_digit n)
    cases shape : (Nat.toDigits 10 n).map fun c => UInt8.ofNat c.toNat with
    | nil => simp [Nat.toDigits_ne_nil] at shape
    | cons x digits =>
      rw [shape] at isDigit read
      obtain ⟨solid, minus, plus⟩ := digit_not_blank (isDigit x (by simp))
      have front : skip (x :: digits ++ rest) = x :: (digits ++ rest) := by simp [skip, solid]
      simp only [Bytes.decimal, shape, int, front, if_neg minus, if_neg plus]
      rw [← List.cons_append, read]
      rfl
  | negSucc n =>
    have front : skip (Bytes.decimal (.negSucc n) ++ rest) = Bytes.decimal (.negSucc n) ++ rest := by
      simp [skip, Bytes.decimal, blank]
    simp only [int, front]
    simp only [Bytes.decimal, List.cons_append, if_true, number_digits (n + 1) ends]
    rfl

/-- The longest texts of an `int`. -/
theorem decimal_length (z : Int) (lower : -2 ^ 31 ≤ z) (upper : z < 2 ^ 31) :
    (Bytes.decimal z).length ≤ 11 := by
  have digits (n : Nat) (small : n < 10 ^ 10) :
      ((Nat.toDigits 10 n).map fun c => UInt8.ofNat c.toNat).length ≤ 10 := by
    rw [List.length_map, Nat.length_toDigits_le_iff (by decide) (by decide)]
    exact small
  cases z with
  | ofNat n =>
    have short := digits n (by simp only [Int.ofNat_eq_natCast] at upper; omega)
    simp only [Bytes.decimal]
    omega
  | negSucc n =>
    have short := digits (n + 1) (by omega)
    simp only [Bytes.decimal, List.length_cons]
    omega

end Decimal

end Tasks.Kit.Scan
