import Tasks.Kit.Stream
import Tasks.Kit.Strtok
import Tasks.Shell.Chmod
import Tasks.Kit.Lines

/-! Module 2, Task 3.1: the loop of `main`, which reads lines into one array and obeys their words. There is
no `string.h` in the source, and so a pointer of `strtok` goes through an `int`. -/
namespace Tasks.Shell

open Kit Kit.Bytes Kit.Strtok Kit.Lines

/-- What the system has to say in one turn: whether `open` or `chmod` succeeds, the mask for new files, and the
names of the directory in the order of `readdir`. -/
structure Answer where
  succeeds : Bool
  umask : Mode
  entries : List Bytes

def createFile (files : Files) (answer : Answer) (filename : Option Bytes) : Files :=
  match filename with
  -- `open` fails on `NULL`
  | none => files
  | some filename =>
    if answer.succeeds && (files filename).isNone then
      Function.update files filename (some (0o100000 ||| (0o644 &&& ~~~answer.umask)))
    else files

/-- The test for a leading `.` skips nothing here either. -/
def simpleCheck (entries : List Bytes) : Bytes := entries.flatMap (· ++ ascii "\n")

def longCheck (files : Files) (entries : List Bytes) : Bytes :=
  (coolCheck files entries).flatMap fun line => line.1 ++ ascii " " ++ line.2 ++ ascii "\n"

def perform (files : Files) (answer : Answer) (command : Bytes) (arg1 arg2 : Option Bytes) : Files × Bytes :=
  if command = ascii "touch" then (createFile files answer arg1, [])
  else if command = ascii "ls" then
    (files, if arg1 = some (ascii "-l") then longCheck files answer.entries else simpleCheck answer.entries)
  else if command = ascii "chmod" then
    let done := chmod files answer.succeeds arg1 arg2
    (done.files, done.printed ++ done.report.text (arg2.getD []))
  else (files, ascii "Unknown command: " ++ command ++ ascii "\n")

/-- The words of a line: whether the loop is left, the files, and what is printed. -/
def obey (files : Files) (answer : Answer) : List Bytes → Bool × Files × Bytes
  | [] => (false, files, [])
  | command :: args =>
    if command = ascii "exit" then (true, files, [])
    else (false, perform files answer command args[0]? args[1]?)

/-- Where `input` is: all of it in front of the addresses that an `int` loses, or none of it. -/
structure Place where
  address : Nat
  side : address + 100 ≤ 2 ^ 31 ∨ 2 ^ 31 ≤ address

def Place.Low (place : Place) : Prop := place.address + 100 ≤ 2 ^ 31

/-- A pointer as an undeclared function returns it: cut to an `int` and extended again. -/
def implicit (pointer : Nat) : Int := (pointer : Int).bmod (2 ^ 32)

def Place.word (place : Place) (input : Bytes) (start : Nat) : Except Fault Bytes :=
  if implicit (place.address + start) = (place.address + start : Nat) then cstr input start
  else .error .outOfBounds

structure Loop where
  place : Place
  stdin : Bytes
  /-- The array, as far as it has been written. -/
  input : Bytes
  files : Files
  printed : Bytes
  left : Bool

/-- `input[strcspn(input, "\n")] = '\0'` -/
def cut (input : Bytes) : Except Fault Bytes :=
  if (message input).length < input.length then .ok (input.set (message input).length 0)
  else .error .outOfBounds

/-- At the end of `stdin` the array stays as it is. -/
def Loop.receive (s : Loop) : Bytes × Bytes :=
  match fgets 100 s.stdin with
  | none => (s.stdin, s.input)
  | some (line, rest) => (rest, overlay s.input (line ++ [0]))

/-- One turn of the loop. -/
def Loop.turn (s : Loop) (answer : Answer) : Except Fault Loop := do
  if s.left then return s
  let (stdin, input) := s.receive
  let (input, starts) ← strtoks 32 3 (← cut input) 0
  let words ← starts.mapM (s.place.word input)
  let (left, files, printed) := obey s.files answer words
  return ⟨s.place, stdin, input, files, s.printed ++ ascii ">>> " ++ printed, left⟩

def Loop.start (place : Place) (stdin input : Bytes) (files : Files) : Loop :=
  ⟨place, stdin, input, files, [], false⟩

def Place.Reads (place : Place) (words : List Bytes) : Prop := place.Low ∨ words = []

section Pointers

variable {place : Place} {input : Bytes} {starts : List Nat} {words : List Bytes}

theorem implicit_low (pointer : Nat) (low : pointer < 2 ^ 31) : implicit pointer = pointer :=
  Int.bmod_eq_of_le (by omega) (by omega)

theorem implicit_high (pointer : Nat) (high : 2 ^ 31 ≤ pointer) : implicit pointer ≠ pointer := by
  intro same
  have bound : (pointer : Int).bmod (2 ^ 32) < ((2 ^ 32 : Nat) + 1) / 2 := Int.bmod_lt (by omega)
  unfold implicit at same
  omega

theorem cstr_inside (found : cstr input start = .ok text) : start < input.length := by
  obtain ⟨before, after, rfl, rfl, _⟩ := cstr_split found
  simp only [List.length_append, List.length_cons]
  omega

/-- Below the bound the words are the strings in the array. -/
theorem words_low (low : place.Low) (fits : input.length ≤ 100)
    (found : starts.mapM (cstr input) = .ok words) : starts.mapM (place.word input) = .ok words := by
  induction starts generalizing words with
  | nil =>
    cases found
    rfl
  | cons start starts ih =>
    rw [List.mapM_cons] at found
    obtain ⟨word, here, found⟩ := bind_eq_ok.mp found
    obtain ⟨others, later, found⟩ := bind_eq_ok.mp found
    cases found
    have inside := cstr_inside here
    have bound : place.address + start < 2 ^ 31 := by
      rw [Place.Low] at low
      omega
    have whole : place.word input start = .ok word := by
      rw [Place.word, if_pos (implicit_low _ bound), here]
    rw [List.mapM_cons, whole, ok_bind, ih later, ok_bind]
    rfl

/-- Behind it the first word is looked for elsewhere. -/
theorem words_high (high : ¬ place.Low) (found : starts.mapM (cstr input) = .ok words) (some : words ≠ []) :
    starts.mapM (place.word input) = .error .outOfBounds := by
  cases starts with
  | nil =>
    cases found
    exact absurd rfl some
  | cons start starts =>
    have far : 2 ^ 31 ≤ place.address := place.side.resolve_left high
    have lost : place.word input start = .error .outOfBounds :=
      if_neg (implicit_high _ (far.trans (Nat.le_add_right ..)))
    rw [List.mapM_cons, lost]
    rfl

theorem words_read (fits : input.length ≤ 100) (found : starts.mapM (cstr input) = .ok words)
    (reads : place.Reads words) : starts.mapM (place.word input) = .ok words := by
  rcases reads with low | rfl
  · exact words_low low fits found
  · cases starts with
    | nil => rfl
    | cons start starts =>
      rw [List.mapM_cons] at found
      obtain ⟨word, _, found⟩ := bind_eq_ok.mp found
      obtain ⟨others, _, found⟩ := bind_eq_ok.mp found
      cases found

theorem Place.Reads.take (reads : place.Reads words) (n : Nat) : place.Reads (words.take n) :=
  reads.imp_right fun none => by rw [none, List.take_nil]

end Pointers

section Turns

variable {s : Loop} {stdin input text : Bytes} {files : Files}

theorem message_clean (line : Bytes) : 0 ∉ message line ∧ 10 ∉ message line := by
  constructor
  all_goals
    intro member
    have kept := List.mem_takeWhile_imp member
    simp at kept

/-- A line with its NUL goes on with what ends its text. -/
theorem message_ends (line : Bytes) :
    ∃ x more, line ++ [0] = message line ++ x :: more ∧ (x = 0 ∨ x = 10) := by
  induction line with
  | nil => exact ⟨0, [], rfl, .inl rfl⟩
  | cons y line ih =>
    by_cases stops : y = 0 ∨ y = 10
    · refine ⟨y, line ++ [0], ?_, stops⟩
      rcases stops with rfl | rfl <;> simp [message]
    · obtain ⟨x, more, whole, ends⟩ := ih
      rw [not_or] at stops
      refine ⟨x, more, ?_, ends⟩
      have first : message (y :: line) = y :: message line := by simp [message, stops.1, stops.2]
      rw [first, List.cons_append, whole, List.cons_append]

theorem cut_string (clean : 0 ∉ text) (oneLine : 10 ∉ text) (stops : x = 0 ∨ x = 10) (more : Bytes) :
    ∃ b, cut (text ++ x :: more) = .ok b ∧ cstr b 0 = .ok text ∧
      b.length = (text ++ x :: more).length := by
  refine ⟨text ++ 0 :: more, ?_, cstr_packet clean more, by simp⟩
  rw [cut, message_stop clean oneLine stops, if_pos (by simp), List.set_append_right _ _ (Nat.le_refl _),
    Nat.sub_self, List.set_cons_zero]

structure Loop.Keeps (s : Loop) (words : List Bytes) : Prop where
  string : ∃ t, cstr s.input 0 = .ok t ∧ 10 ∉ t ∧ fields 32 t = words.take 1

def Loop.after (s : Loop) (answer : Answer) (words : List Bytes) (stdin input : Bytes) : Loop :=
  let (left, files, printed) := obey s.files answer words
  ⟨s.place, stdin, input, files, s.printed ++ ascii ">>> " ++ printed, left⟩

structure Turn (s : Loop) (answer : Answer) (words : List Bytes) (stdin : Bytes) : Prop where
  obeys : s.place.Reads words → ∃ input, s.turn answer = .ok (s.after answer words stdin input) ∧
    (s.after answer words stdin input).Keeps words ∧ input.length ≤ 100
  faults : ¬ s.place.Reads words → s.turn answer = .error .outOfBounds

theorem turn_string (going : s.left = false) (received : s.receive = (stdin, input)) (ready : cut input = .ok b)
    (found : cstr b 0 = .ok text) (oneLine : 10 ∉ text) (fits : b.length ≤ 100) (answer : Answer) :
    Turn s answer ((fields 32 text).take 3) stdin := by
  obtain ⟨input', starts, t, cuts, words, _, front, alone⟩ := strtoks_spec 32 3 found
  have first : fields 32 t = (fields 32 text).take 1 := alone (by decide)
  have size : input'.length ≤ 100 := (strtoks_length 3 found cuts).trans_le fits
  have turn : s.turn answer = do
      let words ← starts.mapM (s.place.word input')
      let (left, files, printed) := obey s.files answer words
      return ⟨s.place, stdin, input', files, s.printed ++ ascii ">>> " ++ printed, left⟩ := by
    simp only [Loop.turn, going, Bool.false_eq_true, if_false, received, ready, ok_bind, cuts]
  constructor
  · intro reads
    refine ⟨input', ?_, ⟨t, front, fun newline => ?_, ?_⟩, size⟩
    · rw [turn, words_read size words reads]
      rfl
    · have other : (10 : UInt8) ≠ 32 := by decide
      obtain ⟨word, member, inside⟩ := exists_field other newline
      rw [first] at member
      exact oneLine (mem_fields (List.mem_of_mem_take member) inside)
    · rw [first, List.take_take]
      rfl
  · intro cut
    rw [Place.Reads, not_or] at cut
    rw [turn, words_high cut.1 words cut.2]
    rfl

theorem turn_end {last : List Bytes} (going : s.left = false) (fits : s.input.length ≤ 100) (keeps : s.Keeps last)
    (ended : fgets 100 s.stdin = none) (answer : Answer) : Turn s answer (last.take 1) s.stdin := by
  obtain ⟨t, front, oneLine, first⟩ := keeps
  have received : s.receive = (s.stdin, s.input) := by rw [Loop.receive, ended]
  obtain ⟨before, behind, array, zero, clean⟩ := cstr_split front
  obtain rfl := List.length_eq_zero_iff.mp zero
  obtain ⟨b, ready, found, same⟩ := cut_string clean oneLine (.inl rfl) behind
  rw [← List.nil_append t, ← array] at ready same
  have again := turn_string going received ready found oneLine (same ▸ fits) answer
  have whole : (fields 32 t).take 3 = last.take 1 := by
    rw [first, List.take_take]
    rfl
  rwa [whole] at again

structure Loop.Idle (s : Loop) : Prop where
  going : s.left = false
  ended : s.stdin = []
  fits : s.input.length ≤ 100
  keeps : ∃ last, s.Keeps last ∧ last.head? ≠ some (ascii "exit") ∧ s.place.Reads last

theorem obey_left (files : Files) (answer : Answer) (order : List Bytes) :
    (obey files answer order).1 = true ↔ order.head? = some (ascii "exit") := by
  cases order with
  | nil => simp [obey]
  | cons command args =>
    by_cases exit : command = ascii "exit"
    · simp [obey, exit]
    · simp [obey, exit]

/-- A command by itself changes no file. -/
theorem obey_alone (files : Files) (answer : Answer) {order : List Bytes}
    (other : order.head? ≠ some (ascii "exit")) :
    (obey files answer (order.take 1)).1 = false ∧ (obey files answer (order.take 1)).2.1 = files := by
  match order with
  | [] => exact ⟨rfl, rfl⟩
  | command :: args =>
    have stays : command ≠ ascii "exit" := fun same => other (by rw [same]; rfl)
    simp only [List.take_succ_cons, List.take_zero, obey, if_neg stays, perform, true_and]
    split
    · rfl
    · split
      · rfl
      · split <;> rfl

theorem after_idle {order : List Bytes} (answer : Answer)
    (going : (s.after answer order stdin input).left = false)
    (kept : (s.after answer order stdin input).Keeps order) (fits : input.length ≤ 100)
    (reads : s.place.Reads order) (ended : stdin = []) : (s.after answer order stdin input).Idle := by
  refine ⟨going, ended, fits, order, kept, fun exit => ?_, reads⟩
  have leaves : (s.after answer order stdin input).left = true := (obey_left s.files answer order).mpr exit
  rw [going] at leaves
  cases leaves

theorem Loop.Idle.turn (idle : s.Idle) (answer : Answer) :
    ∃ next, s.turn answer = .ok next ∧ next.Idle ∧ next.files = s.files := by
  obtain ⟨last, keeps, other, reads⟩ := idle.keeps
  have again := turn_end idle.going idle.fits keeps (by rw [idle.ended]; rfl) answer
  obtain ⟨input', done, kept, fits⟩ := again.obeys (reads.take 1)
  obtain ⟨stays, same⟩ := obey_alone s.files answer other
  exact ⟨_, done, after_idle answer stays kept fits (reads.take 1) idle.ended, same⟩

theorem Loop.Idle.run (idle : s.Idle) (answers : List Answer) :
    ∃ t, run Loop.turn s answers = .ok t ∧ t.left = false ∧ t.files = s.files := by
  induction answers generalizing s with
  | nil => exact ⟨s, rfl, idle.going, rfl⟩
  | cons answer answers ih =>
    obtain ⟨next, done, idle', same⟩ := idle.turn answer
    obtain ⟨t, later, stays, same'⟩ := ih idle'
    exact ⟨t, (run_cons done answers).trans later, stays, same'.trans same⟩

end Turns
end Tasks.Shell
