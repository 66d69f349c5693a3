import Tasks.Kit.Chars
import Tasks.Kit.Lines

/-! Members that are set from words and from lines of input. -/
namespace Tasks.Kit.Chars

open Lines

/-- `scanf("%s", member)`, which has no bound on the word. -/
def scan (member : Chars size) : Option Bytes → Except Overrun (Chars size)
  | none => .ok member
  | some word => put member word

/-- A prompt for a line: an empty line keeps the member; `bounds` is the member that is
searched for the newline. -/
def prompt (buffer member : Chars size) (bounds : Chars size → Chars size) (input : Bytes) :
    Except Overrun (Chars size × Chars size × Bytes) := do
  let (buffer, input) ← receive buffer input (fgets size input)
  if buffer.toList.head? = some 10 then return (buffer, member, input)
  else
    let member := strncpy buffer
    let i ← strcspn (bounds member)
    return (buffer, ← cut member i, input)

theorem receive_line (field : Chars (n + 2)) (more : input ≠ []) :
    ∃ field', field.receive input (fgets (n + 2) input) = .ok (field', (readLine (n + 1) input).2) ∧
      Stores field' (readLine (n + 1) input).1 ∧ field'.toList.head? = input.head? := by
  obtain ⟨field', stored, after, whole⟩ := field.put_stores (readLine (n + 1) input).1
    (Nat.lt_succ_of_le (readLine_length (n + 1) input))
  have read : fgets (n + 2) input = some (readLine (n + 1) input) := if_neg more
  refine ⟨field', ?_, ⟨after, whole⟩, ?_⟩
  · rw [read, receive, stored]
    rfl
  · obtain ⟨x, rest, rfl⟩ := List.exists_cons_of_ne_nil more
    have head := readLine_head n (x :: rest)
    obtain ⟨line, shape⟩ := List.head?_eq_some_iff.mp head
    rw [whole, shape]
    rfl

theorem scan_within (member : Chars size) (word : Option Bytes) : Within (scan member word) := by
  cases word with
  | none => exact .ok _
  | some word => exact put_within member word

theorem prompt_within (buffer member : Chars size) (bounds : Chars size → Chars size) (input : Bytes) :
    Within (prompt buffer member bounds input) := by
  refine .bind (receive_within ..) fun ⟨_, _⟩ _ => ?_
  dsimp only
  split
  · exact .ok _
  · exact .bind (strcspn_within _) fun _ _ => .bind (cut_within ..) fun _ _ => .ok _

end Tasks.Kit.Chars
