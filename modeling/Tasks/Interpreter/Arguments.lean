import Tasks.Kit.Cells
import Tasks.Kit.Stream
import Tasks.Kit.Strtok
import Tasks.Kit.Lines
import Mathlib.Data.List.Forall2

/-! Module 3, Task 2: the command interpreter reads a line and cuts it into the arguments of a
program. -/
namespace Tasks.Interpreter

open Kit Kit.Bytes Kit.Strtok Kit.Lines

def maxLengthString : Nat := 126
def maxArgs : Nat := 10

/-- The array `args`, with offsets in `input` as pointers; `NULL` is `none`. -/
abbrev Args := List (Option Nat)

/-- What is left of `stdin`, `input` as far as it has been written, and `args`. -/
structure Shell where
  stdin : Bytes
  input : Bytes
  args : Args

/-- `input` after a line, with its newline cut; `input[strlen(input) - 1]` of an empty string is in
front of the array. -/
def receive (input line : Bytes) : Except Fault Bytes := do
  let input := overlay input (line ++ [0])
  let text ← cstr input 0
  if text = [] then .error .outOfBounds
  else if text.getLast? = some 10 then return input.set (text.length - 1) 0
  else return input

/-- `left` more turns of the loop over the tokens. -/
def collect (input : Bytes) (args : Args) (argCount : Nat) (arg : Option (Nat × Nat)) :
    Nat → Except Fault (Bytes × Args × Nat)
  | 0 => .ok (input, args, argCount)
  | left + 1 =>
    match arg with
    | none => .ok (input, args, argCount)
    | some (start, saved) => do
      let args ← Cells.write args argCount (some start)
      let (input, arg) ← strtokAt 32 input saved
      collect input args (argCount + 1) arg left

/-- The loop ends when `argCount` is 11, and `NULL` is stored behind it. -/
def tokenise (input : Bytes) (args : Args) : Except Fault (Bytes × Args × Nat) := do
  let (input, arg) ← strtokAt 32 input 0
  let (input, args, argCount) ← collect input args 0 arg 11
  return (input, ← Cells.write args argCount none, argCount)

/-- The loop of `main` up to the arguments; at the end of `stdin` the line before is still in `input`. -/
def Shell.arguments (s : Shell) : Except Fault (Shell × Nat) := do
  let (stdin, input) ← match fgets maxLengthString s.stdin with
    | none => pure (s.stdin, s.input)
    | some (line, rest) => do pure (rest, ← receive s.input line)
  let (input, args, argCount) ← tokenise input s.args
  return (⟨stdin, input, args⟩, argCount)

def vector (input : Bytes) : Args → Except Fault (List Bytes)
  | [] => .error .outOfBounds
  | none :: _ => .ok []
  | some i :: rest => do
    let arg ← cstr input i
    let others ← vector input rest
    return arg :: others

/-- A line in front of `stdin` that fits into `input` with what ends it. -/
def Fits (stdin text : Bytes) : Prop :=
  (∃ rest, stdin = text ++ 10 :: rest ∧ text.length + 1 < maxLengthString) ∨
    stdin = text ∧ text ≠ [] ∧ text.length < maxLengthString

/-- At most ten words; a line with a NUL has ten in front of it, and a space behind them. -/
def Few (text : Bytes) : Prop :=
  (fields 32 (text.takeWhile (· ≠ 0))).length ≤ maxArgs ∧
    (0 ∈ text → (fields 32 (text.takeWhile (· ≠ 0))).length = maxArgs ∧
      (text.takeWhile (· ≠ 0)).getLast? = some 32)

instance (text : Bytes) : Decidable (Few text) := inferInstanceAs (Decidable (_ ∧ _))

def Shell.HoldsWords (s : Shell) (text : Bytes) : Prop :=
  ∃ next argCount, s.arguments = .ok (next, argCount) ∧
    vector next.input next.args = .ok ((fields 32 text).take maxArgs)

section Tokens

variable {input line text token rest : Bytes} {args spare : Args} {ptrs : List Nat} {ws : List Bytes}

def Pointers (input : Bytes) (k : Nat) : List Nat → List Bytes → Prop :=
  List.Forall₂ fun i w => cstr (input.take k) i = .ok w

theorem Pointers.keep {k k' : Nat} {input input' : Bytes} (pointers : Pointers input k ptrs ws)
    (further : k ≤ k') (front : input'.take k = input.take k) : Pointers input' k' ptrs ws := by
  refine List.Forall₂.imp (fun i w found => ?_) pointers
  apply cstr_take (k := k)
  rw [List.take_take, Nat.min_eq_left further, front]
  exact found

theorem vector_pointers (pointers : Pointers input k ptrs ws) (more : Args) :
    vector input (ptrs.map some ++ none :: more) = .ok ws := by
  induction pointers with
  | nil => rfl
  | cons here _ ih =>
    rw [List.map_cons, List.cons_append, vector, cstr_take here, ok_bind, ih]
    rfl

/-- The loop stores a pointer for each of the next `left` tokens. -/
theorem collect_spec (left : Nat) (stored : cstr (input.take (saved + 1)) start = .ok token)
    (behind : cstr input saved = .ok rest) (pointers : Pointers input (saved + 1) ptrs ws)
    (room : left ≤ spare.length) :
    ∃ input' ptrs' spare' k,
      collect input (ptrs.map some ++ spare) ptrs.length (some (start, saved)) left =
        .ok (input', ptrs'.map some ++ spare', ptrs'.length) ∧
      Pointers input' k ptrs' (ws ++ (token :: fields 32 rest).take left) ∧
      (ptrs'.map some ++ spare').length = (ptrs.map some ++ spare).length ∧
      input'.take (saved + 1) = input.take (saved + 1) := by
  induction left generalizing input start saved token rest ptrs ws spare with
  | zero => exact ⟨input, ptrs, spare, saved + 1, rfl, by simpa using pointers, rfl, rfl⟩
  | succ left ih =>
    obtain ⟨old, spare, rfl⟩ := List.exists_cons_of_length_pos (Nat.zero_lt_of_lt room)
    have shorter : left ≤ spare.length := Nat.le_of_succ_le_succ room
    have written : Cells.write (ptrs.map some ++ old :: spare) ptrs.length (some start) =
        .ok ((ptrs ++ [start]).map some ++ spare) := by
      have write := Cells.write_append (ptrs.map some) old (some start) spare
      rw [List.length_map] at write
      rw [write, List.map_append, List.append_assoc]
      rfl
    have length : ((ptrs ++ [start]).map some ++ spare).length = (ptrs.map some ++ old :: spare).length := by
      simp
    have more : Pointers input (saved + 1) (ptrs ++ [start]) (ws ++ [token]) :=
      List.rel_append pointers (.cons stored .nil)
    have count : ptrs.length + 1 = (ptrs ++ [start]).length := by simp
    rcases strtokAt_cases 32 behind with
      ⟨none, last⟩ | ⟨input', start', saved', token', rest', next, fields, cut⟩
    · refine ⟨input, ptrs ++ [start], spare, saved + 1, ?_, ?_, length, rfl⟩
      · rw [collect, written, ok_bind, last, ok_bind, count]
        cases left <;> rfl
      · simpa [none] using more
    · have within : saved + 1 ≤ saved' + 1 := by
        have := cut.further
        omega
      have kept : Pointers input' (saved' + 1) (ptrs ++ [start]) (ws ++ [token]) := more.keep within cut.front
      obtain ⟨input'', ptrs'', spare'', k, done, pointers'', length'', front''⟩ :=
        ih cut.stored cut.behind kept shorter
      refine ⟨input'', ptrs'', spare'', k, ?_, ?_, length''.trans length, ?_⟩
      · rw [collect, written, ok_bind, next, ok_bind, count]
        exact done
      · rw [fields, List.take_succ_cons]
        rwa [List.append_assoc] at pointers''
      · have first := congrArg (List.take (saved + 1)) front''
        rw [List.take_take, List.take_take, Nat.min_eq_left within] at first
        exact first.trans cut.front

structure Ready (s : Shell) (stdin text : Bytes) : Prop where
  stdin : s.stdin = stdin
  array : s.args.length = maxArgs + 1
  words : vector s.input s.args = .ok (fields 32 text)
  /-- The string at the front of `input` is cut behind its first word. -/
  front : ∃ t, cstr s.input 0 = .ok t ∧ fields 32 t = (fields 32 text).take 1

/-- When `NULL` is stored, the loop has stored the pointers of eleven words at most. -/
theorem tokenise_loop (next : strtokAt 32 input 0 = .ok (input', some (start, saved)))
    (more : fields 32 text = token :: fields 32 rest) (cut : Cut 32 input 0 input' start saved token rest)
    (array : args.length = maxArgs + 1) :
    ∃ input'' ptrs spare k, Pointers input'' k ptrs ((fields 32 text).take 11) ∧
      ptrs.length + spare.length = maxArgs + 1 ∧ input''.take (saved + 1) = input'.take (saved + 1) ∧
      tokenise input args = Cells.write (ptrs.map some ++ spare) ptrs.length none >>=
        fun args => .ok (input'', args, ptrs.length) := by
  have room : 11 ≤ args.length := Nat.le_of_eq array.symm
  obtain ⟨input'', ptrs, spare, k, done, pointers, length, front⟩ :=
    collect_spec 11 cut.stored cut.behind List.Forall₂.nil room
  rw [List.nil_append, ← more] at pointers
  refine ⟨input'', ptrs, spare, k, pointers, ?_, front, ?_⟩
  · rw [← array, ← List.length_map some, ← List.length_append]
    exact length
  · have looped : collect input' args 0 (some (start, saved)) 11 =
        .ok (input'', ptrs.map some ++ spare, ptrs.length) := done
    simp only [tokenise, next, ok_bind, looped]
    rfl

theorem tokenise_cases (found : cstr input 0 = .ok text) (array : args.length = maxArgs + 1) :
    ((fields 32 text).length ≤ maxArgs ∧ ∃ input' args',
      tokenise input args = .ok (input', args', (fields 32 text).length) ∧
        ∀ stdin, Ready ⟨stdin, input', args'⟩ stdin text) ∨
      maxArgs < (fields 32 text).length ∧ tokenise input args = .error .outOfBounds := by
  rcases strtokAt_cases 32 found with ⟨none, last⟩ | ⟨input', start, saved, token, rest, next, more, cut⟩
  · obtain ⟨old, spare, rfl⟩ := List.exists_cons_of_length_eq_add_one array
    have words : vector input (.none :: spare) = .ok (fields 32 text) := by
      rw [none]
      rfl
    refine .inl ⟨by simp [none], input, .none :: spare, ?_, fun stdin => ⟨rfl, array, words, text, found, ?_⟩⟩
    · simp only [tokenise, last, ok_bind, collect, none]
      rfl
    · rw [none, List.take_nil]
  · obtain ⟨input'', ptrs, spare, k, pointers, cells, front, run⟩ := tokenise_loop next more cut array
    have count := pointers.length_eq
    rw [List.length_take] at count
    by_cases few : (fields 32 text).length ≤ maxArgs
    · have within : (fields 32 text).length ≤ 11 := Nat.le_succ_of_le few
      have same : ptrs.length = (fields 32 text).length := by omega
      rw [List.take_of_length_le within] at pointers
      have room : 0 < spare.length := by omega
      obtain ⟨stale, spare, rfl⟩ := List.exists_cons_of_length_pos room
      have written := Cells.write_append (ptrs.map some) stale .none spare
      rw [List.length_map] at written
      obtain ⟨t, first, single⟩ := cut.first
      refine .inl ⟨few, input'', ptrs.map some ++ .none :: spare, ?_, fun stdin => ⟨rfl, ?_, ?_, t, ?_, ?_⟩⟩
      · rw [run, written, same]
        rfl
      · rw [← cells]
        simp
      · exact vector_pointers pointers spare
      · exact cstr_take (front ▸ first)
      · rw [single, more]
        rfl
    · have full : ¬ ptrs.length < (ptrs.map some ++ spare).length := by
        rw [List.length_append, List.length_map]
        simp only [maxArgs] at few cells
        omega
      refine .inr ⟨Nat.lt_of_not_le few, ?_⟩
      rw [run, Cells.write, if_neg full]
      rfl

end Tokens

section Lines

variable {s : Shell} {stdin input line text tail rest front more : Bytes}

theorem receive_string (shape : overlay input (line ++ [0]) = front ++ 0 :: more) (clean : 0 ∉ front) :
    receive input line = if front = [] then .error .outOfBounds
      else if front.getLast? = some 10 then .ok ((front ++ 0 :: more).set (front.length - 1) 0)
      else .ok (front ++ 0 :: more) := by
  simp only [receive, shape, cstr_packet clean, ok_bind]
  rfl

/-- A text with its newline, or without one at the end of `stdin`, is the string. -/
theorem receive_clean (input : Bytes) (clean : 0 ∉ text) (oneLine : 10 ∉ text)
    (ending : tail = [] ∨ tail = [10]) (filled : text ++ tail ≠ []) :
    ∃ input', receive input (text ++ tail) = .ok input' ∧ cstr input' 0 = .ok text := by
  have solid : 0 ∉ text ++ tail := by
    rcases ending with rfl | rfl <;> simp [clean]
  have shape : overlay input (text ++ tail ++ [0]) =
      text ++ tail ++ 0 :: input.drop (text ++ tail ++ [0]).length := by
    rw [overlay, List.append_assoc (text ++ tail), List.singleton_append]
  have received := receive_string shape solid
  rw [if_neg filled] at received
  rcases ending with rfl | rfl
  · have last : (text ++ []).getLast? ≠ some 10 := by
      rw [List.append_nil]
      exact fun last => oneLine (List.mem_of_getLast? last)
    rw [if_neg last] at received
    refine ⟨_, received, ?_⟩
    rw [List.append_nil]
    exact cstr_packet clean _
  · rw [if_pos (by simp)] at received
    refine ⟨_, received, ?_⟩
    have newline : (text ++ [10]).length - 1 = text.length := by simp
    rw [newline, List.append_assoc, List.set_append_right _ _ (Nat.le_refl _), Nat.sub_self]
    exact cstr_packet clean _

/-- The string of a line ends at a NUL in it, so that nothing is cut. -/
theorem receive_nul (input : Bytes) (clean : 0 ∉ front) (oneLine : 10 ∉ front) (after tail : Bytes) :
    ∃ more, receive input (front ++ 0 :: after ++ tail) =
      if front = [] then .error .outOfBounds else .ok (front ++ 0 :: more) := by
  have shape : overlay input (front ++ 0 :: after ++ tail ++ [0]) =
      front ++ 0 :: (after ++ tail ++ [0] ++ input.drop (front ++ 0 :: after ++ tail ++ [0]).length) := by
    simp only [overlay, List.append_assoc, List.cons_append]
  have last : front.getLast? ≠ some 10 := fun last => oneLine (List.mem_of_getLast? last)
  have received := receive_string shape clean
  rw [if_neg last] at received
  exact ⟨_, received⟩

/-- A line that starts with a NUL is no string to cut a newline from; any other is the string in front
of its first NUL. -/
theorem receive_text (input : Bytes) (oneLine : 10 ∉ text) (ending : tail = [] ∨ tail = [10])
    (filled : text ++ tail ≠ []) :
    (text.head? = some 0 ∧ receive input (text ++ tail) = .error .outOfBounds) ∨
      text.head? ≠ some 0 ∧ ∃ input', receive input (text ++ tail) = .ok input' ∧
        cstr input' 0 = .ok (text.takeWhile (· ≠ 0)) := by
  by_cases nul : 0 ∈ text
  · obtain ⟨front, after, rfl, clean⟩ := List.eq_append_cons_of_mem nul
    have front10 : 10 ∉ front := fun member => oneLine (List.mem_append_left _ member)
    obtain ⟨more, received⟩ := receive_nul input clean front10 after tail
    cases front with
    | nil => exact .inl ⟨rfl, received⟩
    | cons x front =>
      refine .inr ⟨fun head => clean (List.mem_of_mem_head? head), _, received, ?_⟩
      rw [text_nul clean]
      exact cstr_packet clean more
  · obtain ⟨input', received, found⟩ := receive_clean input nul oneLine ending filled
    refine .inr ⟨fun head => nul (List.mem_of_mem_head? head), input', received, ?_⟩
    rw [text_clean nul, found]

theorem arguments_line (array : s.args.length = maxArgs + 1)
    (got : fgets maxLengthString s.stdin = some (text ++ tail, rest)) (oneLine : 10 ∉ text)
    (ending : tail = [] ∨ tail = [10]) (filled : text ++ tail ≠ []) :
    (text.head? ≠ some 0 ∧ (fields 32 (text.takeWhile (· ≠ 0))).length ≤ maxArgs ∧
      ∃ next, s.arguments = .ok (next, (fields 32 (text.takeWhile (· ≠ 0))).length) ∧
        Ready next rest (text.takeWhile (· ≠ 0))) ∨
      (text.head? = some 0 ∨ maxArgs < (fields 32 (text.takeWhile (· ≠ 0))).length) ∧
        s.arguments = .error .outOfBounds := by
  rcases receive_text s.input oneLine ending filled with ⟨head, fails⟩ | ⟨head, input, received, found⟩
  · refine .inr ⟨.inl head, ?_⟩
    simp only [Shell.arguments, got, fails, error_bind]
  · rcases tokenise_cases found array with ⟨few, input', args', done, ready⟩ | ⟨many, fails⟩
    · refine .inl ⟨head, few, ⟨rest, input', args'⟩, ?_, ready rest⟩
      simp only [Shell.arguments, got, received, ok_bind, pure_bind, done]
      rfl
    · refine .inr ⟨.inr many, ?_⟩
      simp only [Shell.arguments, got, received, ok_bind, pure_bind, fails, error_bind]

theorem arguments_end (array : s.args.length = maxArgs + 1) (ended : s.stdin = [])
    (found : cstr s.input 0 = .ok text) (few : (fields 32 text).length ≤ maxArgs) :
    ∃ next, s.arguments = .ok (next, (fields 32 text).length) ∧ Ready next [] text := by
  rcases tokenise_cases found array with ⟨_, input', args', done, ready⟩ | ⟨many, _⟩
  · refine ⟨⟨[], input', args'⟩, ?_, ready []⟩
    simp only [Shell.arguments, fgets, ended, if_true, pure_bind, done, ok_bind]
    rfl
  · exact absurd few (Nat.not_le_of_lt many)

theorem fits_fgets (oneLine : 10 ∉ text) (fits : Fits stdin text) :
    ∃ tail rest, fgets maxLengthString stdin = some (text ++ tail, rest) ∧ (tail = [] ∨ tail = [10]) ∧
      text ++ tail ≠ [] := by
  rcases fits with ⟨rest, rfl, short⟩ | ⟨rfl, filled, short⟩
  · exact ⟨[10], rest, fgets_line text rest oneLine (Nat.lt_sub_of_add_lt short), .inr rfl, by simp⟩
  · refine ⟨[], [], ?_, .inl rfl, by simpa using filled⟩
    rw [List.append_nil]
    exact fgets_last oneLine (Nat.le_sub_one_of_lt short) filled

/-- The words in front of a NUL are the first ten of the line. -/
theorem words_nul (clean : 0 ∉ front) (few : (fields 32 front).length ≤ maxArgs) (more : Bytes) :
    fields 32 front = (fields 32 (front ++ 0 :: more)).take maxArgs ↔
      (fields 32 front).length = maxArgs ∧ front.getLast? = some 32 := by
  constructor
  · intro same
    obtain ⟨start, w, w', others, rfl, single, edge, split⟩ :=
      fields_within (show (0 : UInt8) ≠ 32 by decide) front more
    rw [split] at same
    rw [fields_behind edge, List.length_append] at few ⊢
    -- A word with the NUL in it is none of the string's.
    have behind : maxArgs ≤ (fields 32 start).length := by
      by_contra before
      obtain ⟨n, room⟩ := Nat.exists_eq_add_of_lt (Nat.lt_of_not_le before)
      rw [room, Nat.add_assoc, List.take_length_add_append, List.take_succ_cons] at same
      have word : w ++ 0 :: w' ∈ fields 32 (start ++ w) := by simp [same]
      exact clean (mem_fields word (by simp))
    have none : w = [] := by
      by_contra some
      rw [fields_single single some, List.length_singleton] at few
      omega
    subst none
    rw [fields_nil, List.length_nil] at few ⊢
    refine ⟨by omega, ?_⟩
    rw [List.append_nil]
    cases last : start.getLast? with
    | none =>
      rw [List.getLast?_eq_none_iff.mp last] at behind
      simp [maxArgs] at behind
    | some y => rw [edge y last]
  · rintro ⟨full, last⟩
    have edge : ∀ x ∈ front.getLast?, x = 32 := by simp [last]
    rw [fields_behind edge, ← full, List.take_left]

theorem holdsWords_iff (array : s.args.length = maxArgs + 1) (oneLine : 10 ∉ text)
    (fits : Fits s.stdin text) : s.HoldsWords text ↔ Few text := by
  obtain ⟨tail, rest, got, ending, filled⟩ := fits_fgets oneLine fits
  rcases arguments_line array got oneLine ending filled with ⟨head, few, next, done, ready⟩ | ⟨fails, broken⟩
  · have words : s.HoldsWords text ↔ fields 32 (text.takeWhile (· ≠ 0)) = (fields 32 text).take maxArgs := by
      constructor
      · rintro ⟨next', argCount, done', holds⟩
        cases done.symm.trans done'
        exact Except.ok.inj (ready.words.symm.trans holds)
      · intro same
        exact ⟨next, _, done, same ▸ ready.words⟩
    rw [words, Few, and_iff_right few]
    by_cases nul : 0 ∈ text
    · obtain ⟨front, more, rfl, clean⟩ := List.eq_append_cons_of_mem nul
      rw [text_nul clean] at few ⊢
      rw [words_nul clean few more, imp_iff_right nul]
    · rw [text_clean nul] at few ⊢
      simp [nul, List.take_of_length_le few]
  · refine iff_of_false (fun ⟨next, argCount, done, _⟩ => ?_) fun few => ?_
    · rw [broken] at done
      cases done
    · rcases fails with head | many
      · cases text with
        | nil => simp at head
        | cons x text =>
          obtain rfl : x = 0 := by simpa using head
          have full := (few.2 List.mem_cons_self).1
          simp [maxArgs] at full
      · exact Nat.not_le_of_lt many few.1

theorem holdsWords_iff_spaces :
    (Shell.mk (ascii " ls   -l \n") [] (List.replicate (maxArgs + 1) none)).HoldsWords (ascii " ls   -l ") :=
  (holdsWords_iff (by decide) (by decide) (.inl ⟨[], by decide, by decide⟩)).mpr (by decide)

/-- After eleven words `NULL` is stored behind the array. -/
theorem eleven_words_overrun :
    ¬ ∀ s : Shell, s.args.length = maxArgs + 1 → ∀ text, 10 ∉ text → Fits s.stdin text →
      s.HoldsWords text := by
  intro all
  have fits : Fits (ascii "a b c d e f g h i j k\n") (ascii "a b c d e f g h i j k") :=
    .inl ⟨[], by decide, by decide⟩
  obtain ⟨next, argCount, done, _⟩ :=
    all ⟨ascii "a b c d e f g h i j k\n", [], List.replicate (maxArgs + 1) none⟩ (by decide) _ (by decide) fits
  cases done

end Lines
end Tasks.Interpreter
