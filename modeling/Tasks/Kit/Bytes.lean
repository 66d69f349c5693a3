import Tasks.Kit.Run
import Mathlib.Algebra.Group.Nat.Even
import Mathlib.Data.List.Basic
import Mathlib.Data.List.TakeWhile
import Mathlib.Order.Basic

/-! Arrays of bytes as C reads and writes them: every access is checked against the array,
words of 16 and 32 bits are little-endian and a string ends at its first NUL. -/
namespace Tasks.Kit

abbrev Bytes := List UInt8

namespace Bytes

def zeros (n : Nat) : Bytes := List.replicate n 0

def load (b : Bytes) (offset n : Nat) : Except Fault (Vector UInt8 n) :=
  if h : offset + n ≤ b.length then
    .ok ⟨((b.drop offset).take n).toArray, by simp; omega⟩
  else .error .outOfBounds

def memcpy (b : Bytes) (offset : Nat) (source : Bytes) : Except Fault Bytes :=
  if offset + source.length ≤ b.length then
    .ok (b.take offset ++ source ++ b.drop (offset + source.length))
  else .error .outOfBounds

def cstr (b : Bytes) (offset : Nat) : Except Fault Bytes :=
  if 0 ∈ b.drop offset then .ok ((b.drop offset).takeWhile (· ≠ 0)) else .error .outOfBounds

/-- Whether the string at the front of an array is a literal. -/
def sameText : Bytes → Bytes → Except Fault Bool
  | [], _ => .error .outOfBounds
  | x :: _, [] => .ok (x == 0)
  | x :: rest, y :: literal => if x = y then sameText rest literal else .ok false

/-- Whether `strcmp` with a literal returns zero; it reads no further than the first
difference. -/
def strcmp (b : Bytes) (offset : Nat) (literal : Bytes) : Except Fault Bool :=
  sameText (b.drop offset) literal

def ascii (s : String) : Bytes := s.toList.map fun c => UInt8.ofNat c.toNat

def low (w : UInt16) : UInt8 := UInt8.ofNat w.toNat
def high (w : UInt16) : UInt8 := UInt8.ofNat (w.toNat / 256)

def pair (lo hi : UInt8) : UInt16 := UInt16.ofNat (lo.toNat + 256 * hi.toNat)

def lower (w : UInt32) : UInt16 := UInt16.ofNat w.toNat
def upper (w : UInt32) : UInt16 := UInt16.ofNat (w.toNat / 2 ^ 16)

def quad (lo hi : UInt16) : UInt32 := UInt32.ofNat (lo.toNat + 2 ^ 16 * hi.toNat)

def swap (w : UInt16) : UInt16 := pair (high w) (low w)

/-- The words that start at even offsets; a last single byte is in none. -/
def words : Bytes → List UInt16
  | lo :: hi :: rest => pair lo hi :: words rest
  | _ => []

/-- The text of `%d`. -/
def decimal : Int → Bytes
  | .ofNat n => (Nat.toDigits 10 n).map fun c => UInt8.ofNat c.toNat
  | .negSucc n => 45 :: (Nat.toDigits 10 (n + 1)).map fun c => UInt8.ofNat c.toNat

section Arrays

variable {b before after text : Bytes}

@[simp] theorem zeros_length (n : Nat) : (zeros n).length = n := List.length_replicate

theorem zeros_add (m n : Nat) : zeros (m + n) = zeros m ++ zeros n := List.replicate_add ..

theorem load_isOk (b : Bytes) (offset n : Nat) (fits : offset + n ≤ b.length) :
    ∃ v, load b offset n = .ok v := by
  unfold load
  rw [dif_pos fits]
  exact ⟨_, rfl⟩

theorem load_get (read : load b offset n = .ok v) (i : Nat) (h : i < n) :
    b[offset + i]? = some v[i] := by
  unfold load at read
  split at read
  next fits =>
    cases read
    simp only [Vector.getElem_mk, List.getElem_toArray, List.getElem_take, List.getElem_drop]
    exact List.getElem?_eq_getElem (by omega)
  next => contradiction

theorem load_append (before : Bytes) (v : Vector UInt8 n) (after : Bytes) :
    load (before ++ v.toList ++ after) before.length n = .ok v := by
  have fits : before.length + n ≤ (before ++ v.toList ++ after).length := by simp
  unfold load
  rw [dif_pos fits]
  congr 1
  apply Vector.toList_inj.mp
  simp

theorem memcpy_append (before target after : Bytes) (source : Bytes)
    (same : source.length = target.length) :
    memcpy (before ++ target ++ after) before.length source = .ok (before ++ source ++ after) := by
  unfold memcpy
  rw [if_pos (by simp [same])]
  simp [same]

/-- A zeroed array that is filled from the front. -/
theorem memcpy_zeros (before source : Bytes) (n : Nat) :
    memcpy (before ++ zeros n) before.length source =
      if source.length ≤ n then .ok (before ++ source ++ zeros (n - source.length))
      else .error .outOfBounds := by
  split
  next fits =>
    obtain ⟨rest, rfl⟩ := Nat.exists_eq_add_of_le fits
    rw [zeros_add, ← List.append_assoc, memcpy_append _ _ _ _ (by simp)]
    simp
  next overrun =>
    unfold memcpy
    rw [if_neg]
    simp only [List.length_append, zeros_length]
    omega

theorem cstr_isOk (b : Bytes) (offset : Nat) :
    (∃ text, cstr b offset = .ok text) ↔ 0 ∈ b.drop offset := by
  unfold cstr
  split
  next ends => exact ⟨fun _ => ends, fun _ => ⟨_, rfl⟩⟩
  next endless => exact ⟨nofun, fun ends => absurd ends endless⟩

theorem cstr_text (found : cstr b offset = .ok text) :
    0 ∈ b.drop offset ∧ text = (b.drop offset).takeWhile (· ≠ 0) := by
  unfold cstr at found
  split at found
  next ends =>
    cases found
    exact ⟨ends, rfl⟩
  next => contradiction

/-- Zeros behind an array end its string and are no part of it. -/
theorem takeWhile_zeros (b : Bytes) (n : Nat) :
    (b ++ zeros n).takeWhile (· ≠ 0) = b.takeWhile (· ≠ 0) := by
  induction b with
  | nil => cases n <;> simp [zeros, List.replicate_succ]
  | cons x rest ih => simp only [List.cons_append, List.takeWhile_cons, ih]

theorem text_clean (clean : 0 ∉ text) : text.takeWhile (· ≠ 0) = text :=
  List.takeWhile_eq_self_iff.mpr fun x member => by
    simpa using fun zero : x = 0 => clean (zero ▸ member)

theorem text_append (clean : 0 ∉ text) (rest : Bytes) :
    (text ++ rest).takeWhile (· ≠ 0) = text ++ rest.takeWhile (· ≠ 0) :=
  List.takeWhile_append_of_pos fun x member => by
    simpa using fun zero : x = 0 => clean (zero ▸ member)

theorem text_nul (clean : 0 ∉ text) (after : Bytes) : (text ++ 0 :: after).takeWhile (· ≠ 0) = text := by
  rw [text_append clean]
  simp

/-- With a byte behind it that is not kept, what is kept of a text stops at some byte. -/
theorem takeWhile_stops (keep : UInt8 → Bool) (text : Bytes) (stop : keep z = false) (after : Bytes) :
    ∃ x behind, text ++ z :: after = text.takeWhile keep ++ x :: behind ∧ keep x = false := by
  induction text with
  | nil => exact ⟨z, after, rfl, stop⟩
  | cons y text ih =>
    cases kept : keep y with
    | false => exact ⟨y, text ++ z :: after, by simp [kept], kept⟩
    | true =>
      obtain ⟨x, behind, shape, stops⟩ := ih
      exact ⟨x, behind, by simp [kept, shape], stops⟩

theorem cstr_append (before : Bytes) (clean : 0 ∉ text) (after : Bytes) :
    cstr (before ++ text ++ 0 :: after) before.length = .ok text := by
  have rest : (before ++ text ++ 0 :: after).drop before.length = text ++ 0 :: after := by simp
  rw [cstr, rest, if_pos (by simp), text_nul clean]

/-- The string of a text that ends with a NUL, at its first one. -/
theorem cstr_front (before text after : Bytes) :
    cstr (before ++ text ++ 0 :: after) before.length = .ok (text.takeWhile (· ≠ 0)) := by
  by_cases nul : 0 ∈ text
  · obtain ⟨front, rest, rfl, clean⟩ := List.eq_append_cons_of_mem nul
    have shape : before ++ (front ++ 0 :: rest) ++ 0 :: after =
        before ++ front ++ 0 :: (rest ++ 0 :: after) := by simp
    rw [text_nul clean, shape]
    exact cstr_append before clean _
  · rw [text_clean nul]
    exact cstr_append before nul after

theorem splitOn_cons (clean : x ∉ text) (rest : Bytes) :
    (text ++ x :: rest).splitOn x = text :: rest.splitOn x := by
  rw [List.splitOn_append_cons_of_beq text rest (beq_self_eq_true x), List.splitOn_eq_singleton clean]
  rfl

/-- The array around a string. -/
theorem cstr_split (found : cstr b offset = .ok text) :
    ∃ before after, b = before ++ text ++ 0 :: after ∧ before.length = offset ∧ 0 ∉ text := by
  obtain ⟨ends, rfl⟩ := cstr_text found
  have inside : offset ≤ b.length := by
    by_contra outside
    rw [List.drop_of_length_le (Nat.le_of_not_le outside)] at ends
    simp at ends
  have whole := List.takeWhile_append_dropWhile (p := fun x => decide (x ≠ 0)) (l := b.drop offset)
  have clean : 0 ∉ (b.drop offset).takeWhile (fun x => decide (x ≠ 0)) := fun member =>
    absurd (List.mem_takeWhile_imp member) (by decide)
  cases shape : (b.drop offset).dropWhile (fun x => decide (x ≠ 0)) with
  | nil =>
    rw [shape, List.append_nil] at whole
    exact absurd ends (whole ▸ clean)
  | cons x after =>
    have zero : x = 0 := by
      have head := List.head?_dropWhile_not (fun x => decide (x ≠ 0)) (b.drop offset)
      rw [shape] at head
      simpa using head
    refine ⟨b.take offset, after, ?_, List.length_take_of_le inside, clean⟩
    rw [shape, zero] at whole
    rw [List.append_assoc, whole, List.take_append_drop]

theorem cstr_take (found : cstr (b.take k) offset = .ok text) : cstr b offset = .ok text := by
  obtain ⟨before, after, shape, rfl, clean⟩ := cstr_split found
  have whole := List.take_append_drop k b
  rw [shape, List.append_assoc, List.cons_append] at whole
  rw [← whole]
  exact cstr_append before clean (after ++ b.drop k)

theorem sameText_isOk (b literal : Bytes) (longer : literal.length < b.length) :
    ∃ same, sameText b literal = .ok same := by
  induction b, literal using sameText.induct with
  | case1 literal => simp at longer
  | case2 x rest => exact ⟨_, rfl⟩
  | case3 rest y literal ih =>
    simp only [List.length_cons] at longer
    simp only [sameText, if_true]
    exact ih (by omega)
  | case4 x rest y literal different =>
    simp only [sameText, if_neg different]
    exact ⟨_, rfl⟩

theorem strcmp_isOk (b : Bytes) (offset : Nat) (literal : Bytes)
    (longer : offset + literal.length < b.length) : ∃ same, strcmp b offset literal = .ok same := by
  apply sameText_isOk
  rw [List.length_drop]
  omega

theorem sameText_text (text literal : Bytes) (clean : 0 ∉ text) (cleanLiteral : 0 ∉ literal)
    (after : Bytes) : sameText (text ++ 0 :: after) literal = .ok (text == literal) := by
  induction text generalizing literal with
  | nil =>
    cases literal with
    | nil => rfl
    | cons y literal =>
      have different : (0 : UInt8) ≠ y := fun zero => cleanLiteral (by simp [zero])
      simp [sameText, different]
  | cons x text ih =>
    simp only [List.mem_cons, not_or] at clean
    cases literal with
    | nil =>
      have different : x ≠ 0 := Ne.symm clean.1
      simp [sameText, different]
    | cons y literal =>
      simp only [List.mem_cons, not_or] at cleanLiteral
      by_cases same : x = y
      · subst same
        simp [sameText, ih literal clean.2 cleanLiteral.2]
      · simp [sameText, same]

theorem strcmp_append (before : Bytes) (clean : 0 ∉ text) (literal : Bytes) (cleanLiteral : 0 ∉ literal)
    (after : Bytes) :
    strcmp (before ++ text ++ 0 :: after) before.length literal = .ok (text == literal) := by
  have rest : (before ++ text ++ 0 :: after).drop before.length = text ++ 0 :: after := by simp
  rw [strcmp, rest]
  exact sameText_text text literal clean cleanLiteral after

theorem strcmp_cstr (found : cstr b offset = .ok text) (cleanLiteral : 0 ∉ literal) :
    strcmp b offset literal = .ok (text == literal) := by
  obtain ⟨before, after, rfl, rfl, clean⟩ := cstr_split found
  exact strcmp_append before clean literal cleanLiteral after

end Arrays

section Words

theorem pair_toNat (lo hi : UInt8) : (pair lo hi).toNat = lo.toNat + 256 * hi.toNat := by
  have := lo.toNat_lt
  have := hi.toNat_lt
  simp only [pair, UInt16.toNat_ofNat']
  omega

@[simp] theorem low_pair (lo hi : UInt8) : low (pair lo hi) = lo := by
  have := lo.toNat_lt
  apply UInt8.toNat_inj.mp
  simp only [low, pair_toNat, UInt8.toNat_ofNat']
  omega

@[simp] theorem high_pair (lo hi : UInt8) : high (pair lo hi) = hi := by
  have := lo.toNat_lt
  have := hi.toNat_lt
  apply UInt8.toNat_inj.mp
  simp only [high, pair_toNat, UInt8.toNat_ofNat']
  omega

@[simp] theorem pair_low_high (w : UInt16) : pair (low w) (high w) = w := by
  have := w.toNat_lt
  apply UInt16.toNat_inj.mp
  simp only [pair_toNat, low, high, UInt8.toNat_ofNat']
  omega

@[simp] theorem quad_lower_upper (w : UInt32) : quad (lower w) (upper w) = w := by
  have := w.toNat_lt
  apply UInt32.toNat_inj.mp
  simp only [quad, lower, upper, UInt16.toNat_ofNat', UInt32.toNat_ofNat']
  omega

@[simp] theorem swap_swap (w : UInt16) : swap (swap w) = w := by simp [swap]

theorem short_cases (b : Bytes) (short : ∀ lo hi rest, b = lo :: hi :: rest → False) :
    b = [] ∨ ∃ x, b = [x] := by
  cases b with
  | nil => exact .inl rfl
  | cons x rest =>
    cases rest with
    | nil => exact .inr ⟨x, rfl⟩
    | cons y rest => exact (short x y rest rfl).elim

theorem words_append (a b : Bytes) (even : Even a.length) :
    words (a ++ b) = words a ++ words b := by
  induction a using words.induct with
  | case1 lo hi rest ih =>
    have shorter : Even rest.length := by
      simpa [Nat.even_add_one] using even
    simp [words, ih shorter]
  | case2 a short =>
    rcases short_cases a short with rfl | ⟨x, rfl⟩
    · simp [words]
    · exact absurd even (by simp)

theorem words_length (a : Bytes) : (words a).length = a.length / 2 := by
  induction a using words.induct with
  | case1 lo hi rest ih =>
    simp only [words, List.length_cons, ih]
    omega
  | case2 a short => rcases short_cases a short with rfl | ⟨x, rfl⟩ <;> simp [words]

theorem decimal_clean (z : Int) : 0 ∉ decimal z := by
  have digit (n : Nat) : 0 ∉ (Nat.toDigits 10 n).map fun c => UInt8.ofNat c.toNat := by
    intro member
    obtain ⟨c, isDigit, zero⟩ := List.mem_map.mp member
    have range := Nat.isDigit_of_mem_toDigits (by decide) (by decide) isDigit
    simp only [Char.isDigit, Bool.and_eq_true, decide_eq_true_eq, ge_iff_le,
      UInt32.le_iff_toNat_le] at range
    have code := congrArg UInt8.toNat zero
    simp only [UInt8.toNat_ofNat', Char.toNat] at code
    simp at code range
    omega
  cases z with
  | ofNat n => exact digit n
  | negSucc n => simpa [decimal] using digit (n + 1)

end Words
end Bytes
end Tasks.Kit
