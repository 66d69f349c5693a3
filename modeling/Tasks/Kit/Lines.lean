import Tasks.Kit.Bytes

/-! `fgets` on an input that is given as a whole, and the text that a program keeps of a line. -/
namespace Tasks.Kit.Lines

/-- The bytes up to a newline, at most `n`, and the rest of the input. -/
def readLine : Nat → Bytes → Bytes × Bytes
  | 0, input => ([], input)
  | _ + 1, [] => ([], [])
  | n + 1, x :: rest =>
    if x = 10 then ([x], rest) else (x :: (readLine n rest).1, (readLine n rest).2)

def fgets (size : Nat) (input : Bytes) : Option (Bytes × Bytes) :=
  if input = [] then none else some (readLine (size - 1) input)

/-- The text in an array after `fgets`, which leaves it as it is at the end of the input, and the
rest of the input. -/
def fgetsText (size : Nat) (input text : Bytes) : Bytes × Bytes :=
  match fgets size input with
  | none => (text, input)
  | some (line, rest) => (line.takeWhile (· ≠ 0), rest)

/-- The string left in the buffer after `buffer[strcspn(buffer, "\n")] = 0`. -/
def message (line : Bytes) : Bytes := line.takeWhile fun x => x ≠ 0 && x ≠ 10

theorem readLine_length (n : Nat) (input : Bytes) : (readLine n input).1.length ≤ n := by
  induction n generalizing input with
  | zero => simp [readLine]
  | succ n ih =>
    cases input with
    | nil => simp [readLine]
    | cons x rest =>
      rw [readLine]
      split
      · simp
      · simpa using ih rest

theorem readLine_head (n : Nat) (input : Bytes) : (readLine (n + 1) input).1.head? = input.head? := by
  cases input with
  | nil => rfl
  | cons x rest =>
    rw [readLine]
    split <;> rfl

theorem message_readLine (n : Nat) (input : Bytes) :
    message (readLine n input).1 = (message input).take n := by
  induction n generalizing input with
  | zero => simp [readLine, message]
  | succ n ih =>
    cases input with
    | nil => simp [readLine, message]
    | cons x rest =>
      have ih := ih rest
      simp only [message] at ih ⊢
      by_cases newline : x = 10
      · simp [readLine, newline]
      · by_cases nul : x = 0
        · simp [readLine, nul]
        · simpa [readLine, newline, nul] using ih

theorem readLine_text (text rest : Bytes) (oneLine : 10 ∉ text) (short : text.length < n) :
    readLine n (text ++ 10 :: rest) = (text ++ [10], rest) := by
  induction text generalizing n with
  | nil =>
    cases n with
    | zero => simp at short
    | succ n => simp [readLine]
  | cons x text ih =>
    simp only [List.mem_cons, not_or] at oneLine
    cases n with
    | zero => simp at short
    | succ n =>
      have different : x ≠ 10 := Ne.symm oneLine.1
      have later := ih (n := n) oneLine.2 (by simpa using short)
      simp [readLine, different, later]

/-- A line that is too long is cut, and leaves its newline in the input. -/
theorem readLine_long (oneLine : 10 ∉ text) (long : n ≤ text.length) (rest : Bytes) :
    readLine n (text ++ rest) = (text.take n, text.drop n ++ rest) := by
  induction n generalizing text with
  | zero => rfl
  | succ n ih =>
    cases text with
    | nil => simp at long
    | cons x text =>
      simp only [List.mem_cons, not_or] at oneLine
      have other : x ≠ 10 := Ne.symm oneLine.1
      have later := ih oneLine.2 (Nat.le_of_succ_le_succ long)
      simp [readLine, other, later]

/-- A last line without a newline. -/
theorem readLine_last (oneLine : 10 ∉ text) (short : text.length ≤ n) : readLine n text = (text, []) := by
  induction text generalizing n with
  | nil => cases n <;> rfl
  | cons x text ih =>
    simp only [List.mem_cons, not_or] at oneLine
    cases n with
    | zero => simp at short
    | succ n =>
      have other : x ≠ 10 := Ne.symm oneLine.1
      have later := ih oneLine.2 (Nat.le_of_succ_le_succ short)
      simp [readLine, other, later]

theorem fgets_line (text rest : Bytes) (oneLine : 10 ∉ text) (short : text.length < size - 1) :
    fgets size (text ++ 10 :: rest) = some (text ++ [10], rest) := by
  rw [fgets, if_neg (by simp), readLine_text text rest oneLine short]

theorem fgets_long (oneLine : 10 ∉ text) (long : size - 1 ≤ text.length) (filled : text ++ rest ≠ []) :
    fgets size (text ++ rest) = some (text.take (size - 1), text.drop (size - 1) ++ rest) := by
  rw [fgets, if_neg filled, readLine_long oneLine long]

theorem fgets_last (oneLine : 10 ∉ text) (short : text.length ≤ size - 1) (filled : text ≠ []) :
    fgets size text = some (text, []) := by
  rw [fgets, if_neg filled, readLine_last oneLine short]

/-- A text up to its newline, or to a NUL in front of that. -/
theorem message_stop (clean : 0 ∉ text) (oneLine : 10 ∉ text) (stops : x = 0 ∨ x = 10) (rest : Bytes) :
    message (text ++ x :: rest) = text := by
  rw [message, List.takeWhile_append_of_pos]
  · rcases stops with rfl | rfl <;> simp
  · intro y member
    have nul : y ≠ 0 := fun same => clean (same ▸ member)
    have newline : y ≠ 10 := fun same => oneLine (same ▸ member)
    simp [nul, newline]

theorem message_text (text : Bytes) (clean : 0 ∉ text) (oneLine : 10 ∉ text) (rest : Bytes) :
    message (text ++ 10 :: rest) = text := message_stop clean oneLine (.inr rfl) rest

theorem message_split (oneLine : 10 ∉ text) (ending : tail = [] ∨ tail = [10]) :
    message (text ++ tail) = text.takeWhile (· ≠ 0) := by
  induction text with
  | nil => rcases ending with rfl | rfl <;> rfl
  | cons x text ih =>
    simp only [List.mem_cons, not_or] at oneLine
    have later := ih oneLine.2
    rw [message] at later
    by_cases nul : x = 0
    · simp [message, nul]
    · simpa [message, nul, Ne.symm oneLine.1] using later

theorem message_fgets (found : fgets size input = some (line, rest)) :
    message line = (message input).take (size - 1) := by
  unfold fgets at found
  split at found
  next => contradiction
  next =>
    have read : (readLine (size - 1) input).1 = line := congrArg Prod.fst (Option.some.inj found)
    rw [← read, message_readLine]

theorem fgets_isSome (size : Nat) (more : input ≠ []) : ∃ line rest, fgets size input = some (line, rest) := by
  unfold fgets
  rw [if_neg more]
  exact ⟨_, _, rfl⟩

end Tasks.Kit.Lines
