import Tasks.Tcp.Answers

/-! The calculators with every access of `calculate` checked: what one `read` may deliver without
an undefined behaviour. -/
namespace Tasks.Tcp.Calculator

open Kit Kit.Bytes

inductive Hazard where
  /-- Reading behind `buff`. -/
  | buff
  /-- Storing more than one character and a NUL in `temp`. -/
  | temp
  /-- Reading `result` before it was assigned. -/
  | result
  /-- Looking behind `operation`. -/
  | operation
  deriving DecidableEq, Repr

def string (buff : Bytes) : Except Hazard Bytes := (cstr buff 0).mapError fun _ => .buff

section Handling

variable (lib : Doubles D)

/-- `operation[i].name` -/
def nameAt (i : Nat) : Except Hazard Bytes :=
  match (operation lib)[i]? with
  | some op => .ok op.1
  | none => .error .operation

/-- `left` turns of the loop over `operation` from `i` on, with `i` behind it. -/
def lookup (task : Task) (temp : Bytes) (i : Nat) : Nat → Except Hazard Nat
  | 0 => .ok i
  | left + 1 => do
    let name ← nameAt lib i
    if task.named temp name then return i else lookup task temp (i + 1) left

/-- `result` behind the loop, which has called a function if it broke off. -/
def assigned (i : Nat) (a b : D) (result : Option D) : Option D :=
  match (operation lib)[i]? with
  | some op => some (op.2 a b)
  | none => result

def written (result : Option D) (buff : Bytes) : Except Hazard (Option D × Bytes) := do
  let _ ← string buff
  return (result, buff)

/-- `result` and `buff` after the reply to what one `read` has put into `buff`. -/
def handle (task : Task) (result : Option D) (buff got : Bytes) : Except Hazard (Option D × Bytes) := do
  let buff := overlay buff got
  let text ← string buff
  let scanned := lib.scan text
  if 2 ≤ scanned.temp.length then .error .temp
  else
    match scanned.operands with
    | none => written result (task.copy buff incorrect)
    | some (a, b) => do
      let i ← lookup lib task scanned.temp 0 4
      match assigned lib i a b (task.before result) with
      | none => .error .result
      | some result =>
        if lib.isZero result then do
          let name ← nameAt lib i
          if name = ascii "/" then written (some result) (task.copy buff task.divideByZero)
          else written (some result) (task.printed buff (lib.print result))
        else written (some result) (task.printed buff (lib.print result))

variable {lib} {task : Task} {buff got text : Bytes} {result : Option D}

theorem lookup_drop (task : Task) (temp : Bytes) (i left : Nat)
    (whole : i + left = (operation lib).length) :
    lookup lib task temp i left =
      .ok (i + ((operation lib).drop i).findIdx fun op => task.named temp op.1) := by
  induction left generalizing i with
  | zero =>
    have none : (operation lib).drop i = [] := List.drop_of_length_le (by omega)
    rw [none]
    rfl
  | succ left ih =>
    have inside : i < (operation lib).length := by omega
    have name : nameAt lib i = .ok (operation lib)[i].1 := by
      rw [nameAt, List.getElem?_eq_getElem inside]
    rw [lookup, name, ok_bind, ih (i + 1) (by omega), List.drop_eq_getElem_cons inside, List.findIdx_cons]
    cases task.named temp (operation lib)[i].1 with
    | true => rfl
    | false =>
      rw [cond_false, Nat.add_assoc, Nat.add_comm 1]
      rfl

theorem written_some (result : Option D) (ends : 0 ∈ buff) : written result buff = .ok (result, buff) := by
  obtain ⟨text, found⟩ := (cstr_isOk buff 0).mpr ends
  rw [written, string, found]
  rfl

theorem copy_ends (task : Task) (buff : Bytes) (short : text.length < 1024) : 0 ∈ task.copy buff text := by
  cases task with
  | task15 => simp [Task.copy, overlay]
  | task18 =>
    have room : 1024 - text.length ≠ 0 := by omega
    simp [Task.copy, overlay, zeros, List.mem_replicate, room]

theorem printed_ends (task : Task) (buff text : Bytes) : 0 ∈ task.printed buff text := by
  simp [Task.printed, overlay]

/-- Where no access goes wrong, this is `calculate`. -/
theorem handle_ok_iff (found : cstr (overlay buff got) 0 = .ok text) :
    handle lib task result buff got = .ok out ↔
      calculate lib task result (overlay buff got) text = some out := by
  have looked : lookup lib task (lib.scan text).temp 0 4 =
      .ok ((operation lib).findIdx fun op => task.named (lib.scan text).temp op.1) := by
    rw [lookup_drop task _ 0 4 rfl, Nat.zero_add, List.drop_zero]
  have entry : (operation lib)[(operation lib).findIdx fun op => task.named (lib.scan text).temp op.1]? =
      (operation lib).find? fun op => task.named (lib.scan text).temp op.1 :=
    List.find?_eq_getElem?_findIdx.symm
  have refused : 0 ∈ task.copy (overlay buff got) incorrect := copy_ends task _ (by decide)
  have divided : 0 ∈ task.copy (overlay buff got) task.divideByZero := by
    apply copy_ends
    cases task <;> decide
  simp only [handle, string, found, Except.mapError, ok_bind, calculate]
  by_cases long : 2 ≤ (lib.scan text).temp.length
  · simp [long]
  · rw [if_neg long, if_neg long]
    cases (lib.scan text).operands with
    | none => simp [written_some, refused]
    | some operands =>
      obtain ⟨a, b⟩ := operands
      simp only [looked, ok_bind, assigned, nameAt, entry]
      cases (operation lib).find? fun op => task.named (lib.scan text).temp op.1 with
      | some op =>
        by_cases zero : lib.isZero (op.2 a b)
        · by_cases quotient : op.1 = ascii "/"
          · simp [zero, quotient, written_some, divided]
          · simp [zero, quotient, written_some, printed_ends]
        · simp [zero, written_some, printed_ends]
      | none =>
        cases task.before result with
        | none => simp
        | some last =>
          by_cases zero : lib.isZero last
          · simp [zero]
          · simp [zero, written_some, printed_ends]

/-- A request is handled in bounds if it ends with a NUL, its token is one character, and its
operator is known or, in the loop of Task 15, there is a result that is not zero. -/
theorem in_bounds_iff (lib : Doubles D) (task : Task) (result : Option D) (buff got : Bytes) :
    (∃ out, handle lib task result buff got = .ok out) ↔
      0 ∈ overlay buff got ∧ Defined lib task result ((overlay buff got).takeWhile (· ≠ 0)) := by
  have handled (ends : 0 ∈ overlay buff got) : (∃ out, handle lib task result buff got = .ok out) ↔
      Defined lib task result ((overlay buff got).takeWhile (· ≠ 0)) := by
    have found : cstr (overlay buff got) 0 = .ok ((overlay buff got).takeWhile (· ≠ 0)) := if_pos ends
    rw [← calculate_isSome lib task result (overlay buff got), Option.isSome_iff_exists]
    exact exists_congr fun out => handle_ok_iff found
  constructor
  · rintro ⟨out, done⟩
    obtain ⟨text, found, _⟩ := bind_eq_ok.mp done
    have ends : 0 ∈ overlay buff got := by
      by_contra endless
      rw [string, cstr, List.drop_zero, if_neg endless] at found
      cases found
    exact ⟨ends, (handled ends).mp ⟨out, done⟩⟩
  · rintro ⟨ends, defined⟩
    exact (handled ends).mpr defined

/-- The first request, with an operator that the array does not have. -/
theorem result_unassigned : ¬ ∀ (lib : Doubles ℚ) (task : Task) (result : Option ℚ) (buff got : Bytes),
    buff.length = 1024 → 1 ≤ got.length → got.length ≤ 1024 →
      ∃ out, handle lib task result buff got = .ok out := by
  intro law
  obtain ⟨out, done⟩ := law (rationals (known [(ascii "1 % 2", ⟨ascii "%", some (1, 2)⟩)])) .task15 none
    (zeros 1024) (ascii "1 % 2" ++ [0]) (zeros_length 1024) (by decide) (by decide)
  have unassigned : handle (rationals (known [(ascii "1 % 2", ⟨ascii "%", some (1, 2)⟩)])) .task15 none
      (zeros 1024) (ascii "1 % 2" ++ [0]) = .error .result := rfl
  cases unassigned.symm.trans done

end Handling
end Tasks.Tcp.Calculator
