import Tasks.Kit.Fixed
import Tasks.Tcp.Calculator

/-! The answers of the calculators. Task 16 has the `calculate` of Task 15. -/
namespace Tasks.Tcp.Calculator

open Kit Kit.Bytes

inductive Oper where
  | sum
  | division
  | multiplication
  | subtraction
  deriving DecidableEq, Repr

def Oper.name : Oper → Bytes
  | .sum => ascii "+"
  | .division => ascii "/"
  | .multiplication => ascii "*"
  | .subtraction => ascii "-"

def Oper.func (lib : Doubles D) : Oper → D → D → D
  | .sum => lib.add
  | .division => Calculator.division lib
  | .multiplication => lib.mul
  | .subtraction => lib.sub

def answer (lib : Doubles D) (task : Task) (result : Option D) (buff text : Bytes) : Option Bytes := do
  let (_, buff) ← calculate lib task result buff text
  (cstr buff 0).toOption

section Replies

variable {lib : Doubles D} {task : Task} {text : Bytes} {op : Oper}

theorem find_name (lib : Doubles D) (task : Task) (op : Oper) :
    (operation lib).find? (fun entry => task.named op.name entry.1) = some (op.name, op.func lib) := by
  cases task <;> cases op <;> rfl

theorem name_length (op : Oper) : op.name.length = 1 := by
  cases op <;> rfl

theorem name_division (op : Oper) : op.name = ascii "/" ↔ op = .division := by
  cases op <;> decide

theorem copy_text (task : Task) (buff : Bytes) (clean : 0 ∉ text) (short : text.length < 1024) :
    cstr (task.copy buff text) 0 = .ok text := by
  cases task with
  | task15 => exact cstr_overlay clean buff []
  | task18 =>
    obtain ⟨n, room⟩ : ∃ n, 1024 - text.length = n + 1 := ⟨1023 - text.length, by omega⟩
    rw [Task.copy, room]
    exact cstr_overlay clean buff (zeros n)

theorem printed_text (task : Task) (buff : Bytes) (clean : 0 ∉ text) :
    cstr (task.printed buff text) 0 = .ok (text.take (task.room - 1)) :=
  cstr_overlay (fun member => clean (List.mem_of_mem_take member)) buff []

theorem divideByZero_text (task : Task) (buff : Bytes) :
    cstr (task.copy buff task.divideByZero) 0 = .ok task.divideByZero := by
  apply copy_text
  · cases task <;> decide
  · cases task <;> decide

/-- The reply to a request with a known operator: a zero is a division by zero if the operator is
`/`, and a number is cut to the room for it. -/
theorem calculate_known (lib : Doubles D) (scanned : lib.scan text = ⟨op.name, some (a, b)⟩)
    (solid : ∀ x, 0 ∉ lib.print x) (task : Task) (result : Option D) (buff : Bytes) :
    ∃ buff', calculate lib task result buff text = some (some (op.func lib a b), buff') ∧
      cstr buff' 0 = .ok (if lib.isZero (op.func lib a b) = true ∧ op = .division then task.divideByZero
        else (lib.print (op.func lib a b)).take (task.room - 1)) := by
  have short : ¬ 2 ≤ op.name.length := by
    rw [name_length]
    decide
  simp only [calculate, scanned, if_neg short, find_name, Bool.and_eq_true, decide_eq_true_eq,
    name_division]
  split
  · exact ⟨_, rfl, divideByZero_text task buff⟩
  · exact ⟨_, rfl, printed_text task buff (solid _)⟩

theorem answer_known (lib : Doubles D) (scanned : lib.scan text = ⟨op.name, some (a, b)⟩)
    (solid : ∀ x, 0 ∉ lib.print x) (task : Task) (result : Option D) (buff : Bytes) :
    answer lib task result buff text =
      some (if lib.isZero (op.func lib a b) = true ∧ op = .division then task.divideByZero
        else (lib.print (op.func lib a b)).take (task.room - 1)) := by
  obtain ⟨buff', done, sent⟩ := calculate_known lib scanned solid task result buff
  simp only [answer, done, Option.bind_eq_bind, Option.bind_some, sent]
  rfl

end Replies

section Exact

def rationals (scan : Bytes → Scanned ℚ) : Doubles ℚ where
  scan := scan
  print := Fixed.text
  zero := 0
  isZero x := x = 0
  add := (· + ·)
  sub := (· - ·)
  mul := (· * ·)
  div := (· / ·)

/-- An `sscanf` for the requests in a table. -/
def known (table : List (Bytes × Scanned ℚ)) (text : Bytes) : Scanned ℚ :=
  (table.lookup text).getD ⟨[], none⟩

/-- What a request asks for; there is no quotient by zero. -/
def Oper.value : Oper → ℚ → ℚ → Option ℚ
  | .sum, a, b => some (a + b)
  | .division, a, b => if b = 0 then none else some (a / b)
  | .multiplication, a, b => some (a * b)
  | .subtraction, a, b => some (a - b)

def Task.Fits (task : Task) (x : ℚ) : Prop :=
  -10 ^ (task.room - 5) + 1 / 200 < x ∧ x < 10 ^ (task.room - 4) - 1 / 200

variable {scan : Bytes → Scanned ℚ} {task : Task} {text : Bytes} {op : Oper} {a b x : ℚ}

theorem text_cut_iff (task : Task) (x : ℚ) :
    (Fixed.text x).take (task.room - 1) = Fixed.text x ↔ task.Fits x := by
  have six : 6 ≤ task.room := by
    cases task <;> decide
  rw [List.take_eq_self_iff, Task.Fits, ← Fixed.text_fits_iff x six]
  omega

theorem func_value (scan : Bytes → Scanned ℚ) (asked : op.value a b = some x) :
    op.func (rationals scan) a b = x := by
  cases op with
  | division =>
    by_cases zero : b = 0
    · simp [Oper.value, zero] at asked
    · simpa [Oper.value, Oper.func, Calculator.division, rationals, zero] using asked
  | _ => simpa [Oper.value, Oper.func, rationals] using asked

theorem value_none_iff : op.value a b = none ↔ op = .division ∧ b = 0 := by
  cases op <;> simp [Oper.value]

theorem quotient_zero_iff (asked : Oper.division.value a b = some x) : x = 0 ↔ a = 0 := by
  by_cases zero : b = 0
  · simp [Oper.value, zero] at asked
  · simp only [Oper.value, if_neg zero, Option.some.injEq] at asked
    rw [← asked, div_eq_zero_iff, or_iff_left zero]

theorem zero_text (task : Task) : Fixed.text 0 ≠ task.divideByZero := by
  have zero : Fixed.text 0 = ascii "0.00" := by decide +kernel
  rw [zero]
  cases task <;> decide

/-- The report is right but for a zero over another number, and a number is sent as a whole if it
fits. -/
theorem report_iff (task : Task) (scan : Bytes → Scanned ℚ) (result : Option ℚ) (buff text : Bytes)
    (op : Oper) (a b : ℚ) (scanned : scan text = ⟨op.name, some (a, b)⟩) :
    answer (rationals scan) task result buff text =
        some (((op.value a b).map Fixed.text).getD task.divideByZero) ↔
      op = .division ∧ b = 0 ∨
        ∃ x, op.value a b = some x ∧ ¬ (op = .division ∧ a = 0) ∧ task.Fits x := by
  rw [answer_known (rationals scan) scanned Fixed.text_solid]
  cases asked : op.value a b with
  | none =>
    obtain ⟨rfl, rfl⟩ := value_none_iff.mp asked
    simp [Oper.func, Calculator.division, rationals]
  | some x =>
    have quotient : ¬ (op = .division ∧ b = 0) := fun zero => by simp [value_none_iff.mpr zero] at asked
    rw [func_value scan asked]
    simp only [rationals, decide_eq_true_eq, Option.map_some, Option.getD_some, Option.some.injEq, quotient,
      false_or, exists_eq_left']
    by_cases divided : op = .division ∧ a = 0
    · obtain ⟨rfl, zero⟩ := divided
      have zero' : x = 0 := (quotient_zero_iff asked).mpr zero
      subst zero'
      simp [zero, (zero_text task).symm]
    · have number : ¬ (x = 0 ∧ op = .division) := by
        rintro ⟨zero, rfl⟩
        exact divided ⟨rfl, (quotient_zero_iff asked).mp zero⟩
      rw [if_neg number, text_cut_iff]
      simp [divided]

theorem report_iff_sum :
    answer (rationals (known [(ascii "2 + 3", ⟨ascii "+", some (2, 3)⟩)])) .task18 none (zeros 1024)
          (ascii "2 + 3") =
        some (((Oper.sum.value 2 3).map Fixed.text).getD Task.task18.divideByZero) ↔
      Oper.sum = .division ∧ (3 : ℚ) = 0 ∨
        ∃ x, Oper.sum.value 2 3 = some x ∧ ¬ (Oper.sum = .division ∧ (2 : ℚ) = 0) ∧ Task.task18.Fits x :=
  report_iff .task18 (known [(ascii "2 + 3", ⟨ascii "+", some (2, 3)⟩)]) none (zeros 1024)
    (ascii "2 + 3") .sum 2 3 rfl

/-- `0 / 5` is reported as a division by zero. -/
theorem zero_quotient_reported : ¬ ∀ (task : Task) (scan : Bytes → Scanned ℚ) (result : Option ℚ)
    (buff text : Bytes) (op : Oper) (a b : ℚ), scan text = ⟨op.name, some (a, b)⟩ →
      answer (rationals scan) task result buff text =
        some (((op.value a b).map Fixed.text).getD task.divideByZero) := by
  intro law
  generalize scans : known [(ascii "0 / 5", ⟨ascii "/", some (0, 5)⟩)] = scan
  have scanned : scan (ascii "0 / 5") = ⟨Oper.division.name, some (0, 5)⟩ := by
    rw [← scans]
    rfl
  have reported := law .task15 scan none (zeros 1024) _ .division 0 5 scanned
  have zero : Oper.division.value 0 5 = some 0 := by norm_num [Oper.value]
  rw [answer_known (rationals scan) scanned Fixed.text_solid, func_value scan zero, zero,
    if_pos ⟨by simp [rationals], rfl⟩] at reported
  exact zero_text .task15 (Option.some.inj reported).symm

/-- Seven characters are sent by both servers. -/
theorem number_sent_iff (result result' : Option ℚ) (buff buff' : Bytes)
    (scanned : scan text = ⟨op.name, some (a, b)⟩) (asked : op.value a b = some x) (nonzero : x ≠ 0) :
    (∃ number, answer (rationals scan) .task15 result buff text = some number ∧
        answer (rationals scan) .task18 result' buff' text = some number) ↔
      Task.task18.Fits x := by
  have number : ¬ (x = 0 ∧ op = .division) := fun zero => nonzero zero.1
  have same : (Fixed.text x).take 7 = (Fixed.text x).take 1023 ↔ (Fixed.text x).take 7 = Fixed.text x := by
    rw [List.take_eq_take_iff, List.take_eq_self_iff]
    omega
  rw [answer_known (rationals scan) scanned Fixed.text_solid,
    answer_known (rationals scan) scanned Fixed.text_solid, func_value scan asked]
  simp only [rationals, decide_eq_true_eq, if_neg number, Task.room, Option.some.injEq, exists_eq_left']
  exact same.trans (text_cut_iff .task18 x)

/-- The two servers send the same text for a number if it fits into the size of a pointer. -/
theorem same_number_iff (scan : Bytes → Scanned ℚ) (result result' : Option ℚ) (buff buff' text : Bytes)
    (op : Oper) (a b x : ℚ) (scanned : scan text = ⟨op.name, some (a, b)⟩)
    (asked : op.value a b = some x) (nonzero : x ≠ 0) :
    (∃ number, answer (rationals scan) .task15 result buff text = some number ∧
        answer (rationals scan) .task18 result' buff' text = some number) ↔
      -1000 + 1 / 200 < x ∧ x < 10000 - 1 / 200 := by
  have room : Task.task18.Fits x ↔ -1000 + 1 / 200 < x ∧ x < 10000 - 1 / 200 := by
    norm_num [Task.Fits, Task.room]
  rw [← room]
  exact number_sent_iff result result' buff buff' scanned asked nonzero

theorem same_number_iff_product :
    (∃ number, answer (rationals (known [(ascii "2 * 3", ⟨ascii "*", some (2, 3)⟩)])) .task15 none
          (zeros 1024) (ascii "2 * 3") = some number ∧
        answer (rationals (known [(ascii "2 * 3", ⟨ascii "*", some (2, 3)⟩)])) .task18 none
          (zeros 1024) (ascii "2 * 3") = some number) ↔
      -1000 + 1 / 200 < (6 : ℚ) ∧ (6 : ℚ) < 10000 - 1 / 200 :=
  same_number_iff (known [(ascii "2 * 3", ⟨ascii "*", some (2, 3)⟩)]) none none (zeros 1024) (zeros 1024)
    (ascii "2 * 3") .multiplication 2 3 6 rfl (by norm_num [Oper.value]) (by norm_num)

/-- The product of 100 and 100 has eight characters. -/
theorem product_cut : ¬ ∀ (scan : Bytes → Scanned ℚ) (result result' : Option ℚ) (buff buff' text : Bytes)
    (op : Oper) (a b x : ℚ), scan text = ⟨op.name, some (a, b)⟩ → op.value a b = some x → x ≠ 0 →
      ∃ number, answer (rationals scan) .task15 result buff text = some number ∧
        answer (rationals scan) .task18 result' buff' text = some number := by
  intro law
  generalize scans : known [(ascii "100 * 100", ⟨ascii "*", some (100, 100)⟩)] = scan
  have scanned : scan (ascii "100 * 100") = ⟨Oper.multiplication.name, some (100, 100)⟩ := by
    rw [← scans]
    rfl
  have asked : Oper.multiplication.value 100 100 = some 10000 := by norm_num [Oper.value]
  have sent := law scan none none (zeros 1024) (zeros 1024) _ .multiplication 100 100 10000 scanned asked
    (by norm_num)
  have fits := (number_sent_iff none none (zeros 1024) (zeros 1024) scanned asked (by norm_num)).mp sent
  norm_num [Task.Fits, Task.room] at fits

end Exact
end Tasks.Tcp.Calculator
