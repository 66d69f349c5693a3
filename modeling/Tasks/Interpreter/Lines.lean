import Tasks.Interpreter.Session

/-! Which inputs end the interpreter's session after a child for each of their lines. One `fgets` takes
125 bytes, so that a longer line comes as several. -/
namespace Tasks.Interpreter

open Kit Kit.Bytes Kit.Strtok Kit.Lines

/-- What the lines ask for: the words of each that has one, up to `exit`. -/
def commands (lines : List Bytes) : List (List Bytes) :=
  ((lines.map (fields 32)).filter (· ≠ [])).takeWhile fun words => words.head? ≠ some (ascii "exit")

def lead (line : Bytes) : Nat := 125 * ((line.takeWhile (· = 32)).length / 125)

def string (line : Bytes) : Bytes := (line.take 125).takeWhile (· ≠ 0)

structure Plain (line : Bytes) : Prop where
  clean : 0 ∉ line
  few : (fields 32 line).length ≤ maxArgs
  other : (fields 32 line).head? ≠ some (ascii "exit")
  whole : ∀ x ∈ line.drop (lead line + 125), x = 32

/-- A line of the word `exit`, which is not cut, and not more than nine words that are read with it. -/
structure Ends (line : Bytes) : Prop where
  first : (fields 32 line).head? = some (ascii "exit")
  read : (fields 32 (string (line.drop (lead line)))).head? = some (ascii "exit")
  few : (fields 32 (string (line.drop (lead line)))).length ≤ maxArgs

def Ended (lines : List Bytes) : Prop :=
  ∃ before line after, lines = before ++ line :: after ∧ (∀ plain ∈ before, Plain plain) ∧ Ends line

section Reading

variable {stdin rest line tail spaces : Bytes} {words : List Bytes} {children : List (List Bytes)}

/-- What one read leaves of a line and what is behind it. -/
def behind (line tail : Bytes) : Bytes := if 125 ≤ line.length then line.drop 125 ++ tail else tail.drop 1

theorem fgets_behind (oneLine : 10 ∉ line) (ends : ∀ x ∈ tail.head?, x = 10) (filled : line ++ tail ≠ []) :
    ∃ mark, fgets maxLengthString (line ++ tail) = some (line.take 125 ++ mark, behind line tail) ∧
      (mark = [] ∨ mark = [10]) := by
  by_cases long : 125 ≤ line.length
  · refine ⟨[], ?_, .inl rfl⟩
    rw [behind, if_pos long, List.append_nil]
    exact fgets_long oneLine long filled
  · have short : line.length < 125 := Nat.lt_of_not_le long
    rw [behind, if_neg long, List.take_of_length_le (Nat.le_of_lt short)]
    cases tail with
    | nil =>
      refine ⟨[], ?_, .inl rfl⟩
      rw [List.append_nil] at filled ⊢
      exact fgets_last oneLine (Nat.le_of_lt short) filled
    | cons x rest =>
      obtain rfl := ends x rfl
      exact ⟨[10], fgets_line line rest oneLine short, .inr rfl⟩

theorem reads_behind (oneLine : 10 ∉ line) (ends : ∀ x ∈ tail.head?, x = 10) (filled : line ++ tail ≠ []) :
    Reads (line ++ tail) words rest ↔ line.head? ≠ some 0 ∧ words = fields 32 (string line) ∧
      words.length ≤ maxArgs ∧ rest = behind line tail := by
  obtain ⟨mark, got, ending⟩ := fgets_behind oneLine ends filled
  have front : 10 ∉ line.take 125 := fun member => oneLine (List.mem_of_mem_take member)
  have head : (line.take 125 ++ mark).head? = some 0 ↔ line.head? = some 0 := by
    cases line with
    | nil => rcases ending with rfl | rfl <;> simp
    | cons x line => simp
  constructor
  · rintro ⟨_, got', solid, rfl, few⟩
    cases got.symm.trans got'
    rw [message_split front ending] at few ⊢
    exact ⟨head.not.mp solid, rfl, few, rfl⟩
  · rintro ⟨solid, rfl, few, rfl⟩
    exact ⟨_, got, head.not.mpr solid, by rw [message_split front ending, string], few⟩

theorem hears_again (read : Reads stdin [] rest) : Hears stdin children ↔ Hears rest children := by
  refine ⟨fun hears => ?_, .again read⟩
  cases hears with
  | again read' later => rwa [(read.unique read').2]
  | leave read' => cases (read.unique read').1
  | child read' => cases (read.unique read').1

theorem Hears.reads (hears : Hears stdin children) : ∃ words rest, Reads stdin words rest := by
  cases hears with
  | again read | leave read | child read => exact ⟨_, _, read⟩

/-- A child's arguments are strings. -/
theorem Hears.clean (hears : Hears stdin children) (child : words ∈ children) (member : word ∈ words) :
    0 ∉ word := by
  induction hears with
  | again _ _ ih => exact ih child
  | leave => cases child
  | child read _ _ ih =>
    rcases List.mem_cons.mp child with rfl | later
    · obtain ⟨line, _, _, same, _⟩ := read
      rw [same] at member
      intro nul
      simpa using List.mem_takeWhile_imp (mem_fields member nul)
    · exact ih later

theorem hears_lead (blank : ∀ x ∈ spaces, x = 32) (whole : spaces.length = 125 * k) (rest : Bytes) :
    Hears (spaces ++ rest) children ↔ Hears rest children := by
  induction k generalizing spaces with
  | zero => rw [List.length_eq_zero_iff.mp whole, List.nil_append]
  | succ k ih =>
    have oneLine : 10 ∉ spaces := fun member => absurd (blank 10 member) (by decide)
    have long : 125 ≤ spaces.length := by omega
    have none : fields 32 (message (spaces.take 125)) = [] := fields_delims fun x member =>
      blank x (List.mem_of_mem_take (List.takeWhile_sublist _ |>.mem member))
    have solid : (spaces.take 125).head? ≠ some 0 := fun head =>
      absurd (blank 0 (List.mem_of_mem_take (List.mem_of_mem_head? head))) (by decide)
    have filled : spaces ≠ [] := List.ne_nil_of_length_pos (by omega)
    have read : Reads (spaces ++ rest) [] (spaces.drop 125 ++ rest) :=
      ⟨_, fgets_long oneLine long (List.append_ne_nil_of_left_ne_nil filled rest), solid, none.symm,
        Nat.zero_le _⟩
    have fewer : (spaces.drop 125).length = 125 * k := by
      rw [List.length_drop]
      omega
    rw [hears_again read, ih (fun x member => blank x (List.mem_of_mem_drop member)) fewer]

end Reading

section Lines

variable {line tail : Bytes} {word : Bytes} {words : List Bytes} {children : List (List Bytes)}

/-- A line from the read on in which its first word begins. -/
structure Opened (line front gap word more : Bytes) : Prop where
  whole : line = front ++ (gap ++ (word ++ more))
  length : front.length = lead line
  skipped : ∀ x ∈ front, x = 32
  spaces : ∀ x ∈ gap, x = 32
  short : gap.length < 125
  filled : word ≠ []
  clean : 32 ∉ word

theorem opened (first : fields 32 line = word :: words) :
    ∃ front gap more, Opened line front gap word more := by
  rcases token_split 32 line with delims | ⟨spaces, token, more, rfl, delims, filled, clean, ends⟩
  · rw [fields_delims delims] at first
    cases first
  · rw [fields_token delims filled clean ends] at first
    cases first
    have skipped := (skip_spaces more delims filled clean).1
    have far : lead (spaces ++ (word ++ more)) = 125 * (spaces.length / 125) := by rw [lead, skipped]
    refine ⟨spaces.take (125 * (spaces.length / 125)), spaces.drop (125 * (spaces.length / 125)), more, ?_, ?_,
      fun x member => delims x (List.mem_of_mem_take member),
      fun x member => delims x (List.mem_of_mem_drop member), ?_, filled, clean⟩
    · rw [← List.append_assoc (spaces.take _), List.take_append_drop]
    · rw [far, List.length_take_of_le (Nat.mul_div_le _ _)]
    · rw [List.length_drop]
      omega

namespace Opened

variable {front gap more : Bytes}

theorem drop (opened : Opened line front gap word more) : line.drop (lead line) = gap ++ (word ++ more) := by
  rw [← opened.length]
  nth_rewrite 1 [opened.whole]
  rw [List.drop_left]

theorem hears (opened : Opened line front gap word more) (tail : Bytes) :
    Hears (line ++ tail) children ↔ Hears (gap ++ (word ++ more) ++ tail) children := by
  have whole : line ++ tail = front ++ (gap ++ (word ++ more) ++ tail) := by
    rw [← List.append_assoc, ← opened.whole]
  rw [whole]
  exact hears_lead opened.skipped opened.length _

theorem head (opened : Opened line front gap word more) (solid : word.head? ≠ some 0) :
    (gap ++ (word ++ more)).head? ≠ some 0 := by
  obtain ⟨y, rest, rfl⟩ := List.exists_cons_of_ne_nil opened.filled
  cases gap with
  | nil => simpa using solid
  | cons x gap => simp [opened.spaces x List.mem_cons_self]

theorem reads (opened : Opened line front gap word more) (oneLine : 10 ∉ line) (ends : ∀ x ∈ tail.head?, x = 10)
    (words : List Bytes) (rest : Bytes) :
    Reads (gap ++ (word ++ more) ++ tail) words rest ↔ (gap ++ (word ++ more)).head? ≠ some 0 ∧
      words = fields 32 (string (gap ++ (word ++ more))) ∧ words.length ≤ maxArgs ∧
      rest = behind (gap ++ (word ++ more)) tail := by
  have within : 10 ∉ gap ++ (word ++ more) := opened.drop ▸ fun member => oneLine (List.mem_of_mem_drop member)
  exact reads_behind within ends (by simp [opened.filled])

end Opened

end Lines

section Inputs

variable {stdin line tail : Bytes} {lines : List Bytes} {children : List (List Bytes)}

def start (stdin : Bytes) (args : Args) : Shell := ⟨stdin, [], args⟩

end Inputs
end Tasks.Interpreter
