import Tasks.Interpreter.Arguments

/-! The endless loop of the interpreter: a child for each line it reads, until one begins with `exit`. -/
namespace Tasks.Interpreter

open Kit Kit.Bytes Kit.Strtok Kit.Lines

/-- The loop goes on, is left, or goes on in the parent of a child with these arguments. -/
inductive Turn where
  | again
  | leave
  | child (words : List Bytes)
  deriving DecidableEq

/-- One turn, with `fork` succeeding. -/
def Shell.turn (s : Shell) : Except Fault (Shell × Turn) := do
  let (next, argCount) ← s.arguments
  if argCount = 0 then return (next, .again)
  match ← Cells.read next.args 0 with
  | none => .error .nullDereference
  | some first =>
    if ← strcmp next.input first (ascii "exit") then return (next, .leave)
    else return (next, .child (← vector next.input next.args))

def session : Nat → Shell → Except Fault (List (List Bytes))
  | 0, _ => .error .outOfFuel
  | fuel + 1, s => do
    let (next, turn) ← s.turn
    match turn with
    | .again => session fuel next
    | .leave => return []
    | .child words => do
      let others ← session fuel next
      return words :: others

def Turn.of : List Bytes → Turn
  | [] => .again
  | word :: others => if word = ascii "exit" then .leave else .child (word :: others)

def Reads (stdin : Bytes) (words : List Bytes) (rest : Bytes) : Prop :=
  ∃ line, fgets maxLengthString stdin = some (line, rest) ∧ line.head? ≠ some 0 ∧
    words = fields 32 (message line) ∧ words.length ≤ maxArgs

/-- The children of a session that ends, read by read. -/
inductive Hears : Bytes → List (List Bytes) → Prop where
  | again (read : Reads stdin [] rest) (later : Hears rest children) : Hears stdin children
  | leave (read : Reads stdin (ascii "exit" :: others) rest) : Hears stdin []
  | child (read : Reads stdin (word :: others) rest) (other : word ≠ ascii "exit")
    (later : Hears rest children) : Hears stdin ((word :: others) :: children)

structure Shell.Idle (s : Shell) : Prop where
  array : s.args.length = maxArgs + 1
  text : ∀ t, cstr s.input 0 = .ok t → (fields 32 t).length ≤ 1 ∧ (fields 32 t).head? ≠ some (ascii "exit")

section Turns

variable {s next : Shell} {stdin text line rest : Bytes} {words : List Bytes}

theorem vector_first (found : vector input args = .ok (word :: others)) :
    ∃ i more, args = some i :: more ∧ cstr input i = .ok word := by
  cases args with
  | nil => cases found
  | cons arg more =>
    cases arg with
    | none => cases found
    | some i =>
      obtain ⟨arg, first, found⟩ := bind_eq_ok.mp found
      obtain ⟨_, _, found⟩ := bind_eq_ok.mp found
      cases found
      exact ⟨i, more, rfl, first⟩

theorem turn_ready (done : s.arguments = .ok (next, (fields 32 text).length)) (ready : Ready next rest text) :
    s.turn = .ok (next, Turn.of (fields 32 text)) := by
  have words := ready.words
  cases shape : fields 32 text with
  | nil =>
    simp only [Shell.turn, done, ok_bind, shape]
    rfl
  | cons word others =>
    rw [shape] at words
    obtain ⟨i, more, array, first⟩ := vector_first words
    have read : Cells.read next.args 0 = .ok (some i) := by
      rw [array]
      rfl
    have compare : strcmp next.input i (ascii "exit") = .ok (word == ascii "exit") :=
      strcmp_cstr first (by decide)
    have count : ¬ (word :: others).length = 0 := by simp
    simp only [Shell.turn, done, ok_bind, shape, if_neg count, read, compare, words, Turn.of]
    by_cases exit : word = ascii "exit"
    · simp [exit]
      rfl
    · simp [exit]
      rfl

theorem ready_idle (ready : Ready next rest text) (others : (fields 32 text).head? ≠ some (ascii "exit")) :
    next.Idle := by
  obtain ⟨t, found, cut⟩ := ready.front
  refine ⟨ready.array, fun t' found' => ?_⟩
  cases found.symm.trans found'
  rw [cut, List.head?_take, if_neg Nat.one_ne_zero]
  exact ⟨List.length_take_le 1 _, others⟩

theorem Reads.more (read : Reads stdin words rest) : stdin ≠ [] := by
  rintro rfl
  obtain ⟨_, got, _⟩ := read
  cases got

theorem Reads.unique (read : Reads stdin words rest) (read' : Reads stdin words' rest') :
    words = words' ∧ rest = rest' := by
  obtain ⟨_, got, _, rfl, _⟩ := read
  obtain ⟨_, got', _, rfl, _⟩ := read'
  cases got.symm.trans got'
  exact ⟨rfl, rfl⟩

theorem turn_end (idle : s.Idle) (ended : s.stdin = []) (done : s.turn = .ok (next, turn)) :
    next.Idle ∧ next.stdin = [] ∧ turn ≠ .leave := by
  cases found : cstr s.input 0 with
  | error e =>
    have fails : s.arguments = .error e := by
      simp only [Shell.arguments, fgets, ended, if_true, pure_bind, tokenise, strtokAt, found, error_bind]
    rw [Shell.turn, fails, error_bind] at done
    cases done
  | ok t =>
    obtain ⟨single, others⟩ := idle.text t found
    obtain ⟨next', gave, ready⟩ := arguments_end idle.array ended found (Nat.le_trans single (by decide))
    cases done.symm.trans (turn_ready gave ready)
    refine ⟨ready_idle ready others, ready.stdin, fun leaves => others ?_⟩
    cases shape : fields 32 t with
    | nil =>
      rw [shape] at leaves
      cases leaves
    | cons word words =>
      rw [shape, Turn.of] at leaves
      split at leaves
      next same => rw [same, List.head?_cons]
      next => cases leaves

end Turns

section Sessions

variable {s : Shell} {stdin : Bytes} {children : List (List Bytes)}

end Sessions
end Tasks.Interpreter
