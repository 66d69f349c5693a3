import Tasks.Kit.Scan
import Tasks.Kit.Stream
import Tasks.Kit.Lines
import Mathlib.Data.List.Forall2

/-! The commands of the taxi's `main.c`: one `fgets` of at most 49 bytes is one command, and `sscanf` reads its
numbers from the byte behind the one that follows the word. -/
namespace Tasks.Taxi.Commands

open Kit Kit.Bytes Kit.Lines

def InRange (z : Int) : Prop := -2 ^ 31 ≤ z ∧ z < 2 ^ 31

instance (z : Int) : Decidable (InRange z) := inferInstanceAs (Decidable (_ ∧ _))

/-- What `%d` stores for a numeral, which may be any `int` where the number is none. -/
structure Conversion where
  store : Int → Int
  int : ∀ z, InRange (store z)
  exact : ∀ z, InRange z → store z = z

inductive Action where
  | createDriver
  | getDrivers
  | sendTask (pid timer : Int)
  | getStatus (pid : Int)
  | sendTaskUsage
  | getStatusUsage
  | unknown
  deriving DecidableEq

/-- `strncmp` with all of a literal. -/
def samePrefix : Bytes → Bytes → Except Fault Bool
  | _, [] => .ok true
  | [], _ :: _ => .error .outOfBounds
  | x :: rest, y :: literal => if x = y then samePrefix rest literal else .ok false

/-- `cmd[strcspn(cmd, "\n")] = 0` -/
def cutLine (cmd : Bytes) : Except Fault Bytes :=
  if (message cmd).length < cmd.length then .ok (cmd.set (message cmd).length 0) else .error .outOfBounds

/-- `sscanf` with `%d %d`. -/
def sscanf2 (text : Bytes) : Option (Int × Int) := do
  let (pid, rest) ← Scan.int text
  let (timer, _) ← Scan.int (Scan.skip rest)
  return (pid, timer)

/-- One command in the array `cmd`. -/
def command (conv : Conversion) (cmd : Bytes) : Except Fault Action := do
  let cmd ← cutLine cmd
  if ← strcmp cmd 0 (ascii "create_driver") then return .createDriver
  else if ← strcmp cmd 0 (ascii "get_drivers") then return .getDrivers
  else if ← samePrefix cmd (ascii "send_task") then
    match sscanf2 (← cstr cmd 10) with
    | some (pid, timer) => return .sendTask (conv.store pid) (conv.store timer)
    | none => return .sendTaskUsage
  else if ← samePrefix cmd (ascii "get_status") then
    match Scan.int (← cstr cmd 11) with
    | some (pid, _) => return .getStatus (conv.store pid)
    | none => return .getStatusUsage
  else return .unknown

/-- The commands of events of `stdin`, each with what `cmd` holds when its block is entered. -/
def commands (conv : Conversion) : List (Vector UInt8 50) → Bytes → Except Fault (List Action)
  | [], _ => .ok []
  | cmd :: later, stdin =>
    match fgets 50 stdin with
    | none => commands conv later stdin
    | some (line, rest) => do
      let action ← command conv (overlay cmd.toList (line ++ [0]))
      let others ← commands conv later rest
      return action :: others

def lines (stdin : Bytes) : List Bytes :=
  if (stdin.splitOn 10).getLast? = some [] then (stdin.splitOn 10).dropLast else stdin.splitOn 10

inductive Spelled : List Int → Bytes → Prop where
  | nil : Spelled [] []
  | cons (some : gap ≠ []) (blanks : ∀ x ∈ gap, x = 32 ∨ x = 9) (numeral : Scan.Numeral text z)
    (later : Spelled zs rest) : Spelled (z :: zs) (gap ++ (text ++ rest))

/-- What a line may cause. -/
inductive Allowed : Bytes → Action → Prop where
  | createDriver : Allowed (ascii "create_driver") .createDriver
  | getDrivers : Allowed (ascii "get_drivers") .getDrivers
  | sendTask (spelled : Spelled [pid, timer] text) : Allowed (ascii "send_task" ++ text) (.sendTask pid timer)
  | getStatus (spelled : Spelled [pid] text) : Allowed (ascii "get_status" ++ text) (.getStatus pid)
  | print (message : action ∈ [Action.sendTaskUsage, .getStatusUsage, .unknown]) : Allowed line action

/-- One action for each line, once there have been events enough, whatever is in the arrays. -/
def OneEach (conv : Conversion) (stdin : Bytes) : Prop :=
  ∀ events : List (Vector UInt8 50), stdin.length ≤ events.length →
    ∃ actions, commands conv events stdin = .ok actions ∧ List.Forall₂ Allowed (lines stdin) actions

def found (word : Bytes) (n : Nat) (line : Bytes) : Option (List Int) :=
  Scan.numbers n ((line.drop (word.length + 1)).takeWhile (· ≠ 0))

/-- In front of each of `n` numbers there are blanks and no other white space, each is an `int`, and nothing is
behind the last. -/
def Tidy : Nat → Bytes → Prop
  | 0, text => text = []
  | n + 1, text => text.takeWhile Scan.blank ≠ [] ∧ (∀ x ∈ text.takeWhile Scan.blank, x = 32 ∨ x = 9) ∧
    ∃ z rest, Scan.int text = some (z, rest) ∧ InRange z ∧ Tidy n rest

/-- A line on which the numbers of a command are not found, or are tidy. -/
def Separate (word : Bytes) (n : Nat) (line : Bytes) : Prop :=
  word <+: line → found word n line ≠ none → Tidy n (line.drop word.length)

structure Fine (line : Bytes) : Prop where
  exact : line.takeWhile (· ≠ 0) ∈ [ascii "create_driver", ascii "get_drivers"] → 0 ∉ line
  sendTask : Separate (ascii "send_task") 2 line
  getStatus : Separate (ascii "get_status") 1 line

/-- Every line fits into `cmd` and is fine, and a last one without a newline is more than a command's word. -/
structure Handled (stdin : Bytes) : Prop where
  ended : ∀ line ∈ (stdin.splitOn 10).dropLast, line.length < 49 ∧ Fine line
  last : ∀ line ∈ (stdin.splitOn 10).getLast?, line.length ≤ 49 ∧ Fine line ∧
    line ≠ ascii "send_task" ∧ line ≠ ascii "get_status"

def answer (conv : Conversion) (line : Bytes) : Action :=
  if line.takeWhile (· ≠ 0) = ascii "create_driver" then .createDriver
  else if line.takeWhile (· ≠ 0) = ascii "get_drivers" then .getDrivers
  else if ascii "send_task" <+: line then
    match found (ascii "send_task") 2 line with
    | some [pid, timer] => .sendTask (conv.store pid) (conv.store timer)
    | _ => .sendTaskUsage
  else if ascii "get_status" <+: line then
    match found (ascii "get_status") 1 line with
    | some [pid] => .getStatus (conv.store pid)
    | _ => .getStatusUsage
  else .unknown

section Grammar

variable {text line word rest : Bytes} {zs : List Int} {n : Nat}

theorem Spelled.white (x : UInt8) (blank : x = 32 ∨ x = 9) : Scan.blank x ∧ Scan.digit x = false := by
  rcases blank with rfl | rfl <;> decide

theorem Spelled.head (spelled : Spelled zs text) : ∀ x ∈ text.head?, Scan.digit x = false := by
  cases spelled with
  | nil => simp
  | @cons gap word z zs rest some blanks =>
    obtain ⟨x, gap, rfl⟩ := List.exists_cons_of_ne_nil some
    simpa using (Spelled.white x (blanks x List.mem_cons_self)).2

theorem Spelled.numbers (spelled : Spelled zs text) : Scan.numbers zs.length text = some zs := by
  induction spelled with
  | nil => rfl
  | cons some blanks numeral later ih =>
    have read := Scan.int_numeral (fun x member => (Spelled.white x (blanks x member)).1) numeral later.head
    simp only [List.length_cons, Scan.numbers, read, ih, Option.map_some]

theorem Spelled.clean (spelled : Spelled zs text) : 0 ∉ text := by
  induction spelled with
  | nil => exact List.not_mem_nil
  | cons some blanks numeral later ih =>
    refine List.not_mem_append (fun member => ?_) (List.not_mem_append (fun member => ?_) ih)
    · exact absurd (blanks 0 member) (by decide)
    · exact absurd (numeral.bytes member) (by decide)

theorem tidy_iff : Tidy n text ↔ ∃ zs, zs.length = n ∧ Spelled zs text ∧ ∀ z ∈ zs, InRange z := by
  induction n generalizing text with
  | zero =>
    constructor
    · rintro rfl
      exact ⟨[], rfl, .nil, List.forall_mem_nil _⟩
    · rintro ⟨zs, empty, spelled, _⟩
      obtain rfl := List.length_eq_zero_iff.mp empty
      cases spelled
      rfl
  | succ n ih =>
    constructor
    · rintro ⟨some, blanks, z, rest, read, range, tidy⟩
      obtain ⟨zs, length, spelled, ranges⟩ := ih.mp tidy
      obtain ⟨word, shape, numeral, _⟩ := Scan.int_found read
      refine ⟨z :: zs, by rw [List.length_cons, length], ?_, List.forall_mem_cons.mpr ⟨range, ranges⟩⟩
      rw [shape]
      exact .cons some blanks numeral spelled
    · rintro ⟨zs, length, spelled, ranges⟩
      cases spelled with
      | nil => cases length
      | @cons gap word z zs rest some blanks numeral later =>
        obtain ⟨range, ranges⟩ := List.forall_mem_cons.mp ranges
        have white (x) (member : x ∈ gap) := (Spelled.white x (blanks x member)).1
        have front := Scan.takeWhile_append white (numeral.solid rest)
        refine ⟨by rwa [front], by rwa [front], z, rest, Scan.int_numeral white numeral later.head, range, ?_⟩
        exact ih.mpr ⟨zs, Nat.succ.inj length, later, ranges⟩

/-- The numbers of a line of the grammar are found. -/
theorem Spelled.found (spelled : Spelled zs text) (some : zs ≠ []) (word : Bytes) :
    found word zs.length (word ++ text) = .some zs := by
  have read := spelled.numbers
  have clean := spelled.clean
  cases spelled with
  | nil => exact absurd rfl some
  | @cons gap digits z zs rest filled blanks numeral later =>
    obtain ⟨x, gap, rfl⟩ := List.exists_cons_of_ne_nil filled
    have behind : (word ++ (x :: gap ++ (digits ++ rest))).drop (word.length + 1) = gap ++ (digits ++ rest) :=
      List.drop_length_add_append 1
    have tail : 0 ∉ gap ++ (digits ++ rest) := fun member => clean (List.mem_cons_of_mem x member)
    have white := (Spelled.white x (blanks x List.mem_cons_self)).1
    rw [List.cons_append, List.length_cons, Scan.numbers_blank white] at read
    rw [Commands.found, behind, text_clean tail, List.length_cons, read]

/-- What a command makes of the numbers it finds is what the line spells if and only if they are tidy. -/
theorem spelled_iff_tidy (conv : Conversion) (reads : found word n (word ++ text) = some zs) (more : 0 < n) :
    Spelled (zs.map conv.store) text ↔ Tidy n text := by
  have length := Scan.numbers_length reads
  have nonempty : zs ≠ [] := List.length_pos_iff.mp (length ▸ more)
  rw [tidy_iff]
  constructor
  · intro spelled
    have again := spelled.found (by simpa using nonempty) word
    rw [List.length_map, length, reads] at again
    obtain same := Option.some.inj again
    refine ⟨zs, length, by rwa [← same] at spelled, fun z member => ?_⟩
    rw [same] at member
    obtain ⟨z', _, rfl⟩ := List.mem_map.mp member
    exact conv.int z'
  · rintro ⟨zs', length', spelled, ranges⟩
    have again := spelled.found (List.length_pos_iff.mp (length' ▸ more)) word
    rw [length', reads] at again
    cases again
    have same : zs.map conv.store = zs := calc
      zs.map conv.store = zs.map id := List.map_congr_left fun z member => conv.exact z (ranges z member)
      _ = zs := List.map_id zs
    rwa [same]

end Grammar
section Answers

variable {line word text : Bytes} {conv : Conversion}

theorem prefix_front (clean : 0 ∉ word) : word <+: line ↔ word <+: line.takeWhile (· ≠ 0) := by
  constructor
  · rintro ⟨text, rfl⟩
    rw [text_append clean]
    exact List.prefix_append ..
  · exact fun front => front.trans (List.takeWhile_prefix _)

theorem front_eq_iff (front : line.takeWhile (· ≠ 0) = word) : 0 ∉ line ↔ line = word := by
  rw [← front, eq_comm, List.takeWhile_eq_self_iff]
  constructor
  · intro clean x member
    simpa using fun zero : x = 0 => clean (zero ▸ member)
  · intro solid member
    simpa using solid 0 member

theorem separate_other (front : line.takeWhile (· ≠ 0) = text) (clean : 0 ∉ word) (other : ¬ word <+: text) :
    Separate word n line :=
  fun begins => absurd (front ▸ (prefix_front clean).mp begins) other

theorem allowed_sendTask :
    Allowed (ascii "send_task" ++ text) (.sendTask pid timer) ↔ Spelled [pid, timer] text := by
  refine ⟨fun allowed => ?_, .sendTask⟩
  generalize same : ascii "send_task" ++ text = line at allowed
  cases allowed with
  | sendTask spelled => rwa [List.append_cancel_left same]
  | print message => simp at message

theorem allowed_getStatus : Allowed (ascii "get_status" ++ text) (.getStatus pid) ↔ Spelled [pid] text := by
  refine ⟨fun allowed => ?_, .getStatus⟩
  generalize same : ascii "get_status" ++ text = line at allowed
  cases allowed with
  | getStatus spelled => rwa [List.append_cancel_left same]
  | print message => simp at message

theorem allowed_createDriver : Allowed line .createDriver ↔ line = ascii "create_driver" := by
  constructor
  · intro allowed
    cases allowed with
    | createDriver => rfl
    | print message => simp at message
  · rintro rfl
    exact .createDriver

theorem allowed_getDrivers : Allowed line .getDrivers ↔ line = ascii "get_drivers" := by
  constructor
  · intro allowed
    cases allowed with
    | getDrivers => rfl
    | print message => simp at message
  · rintro rfl
    exact .getDrivers

theorem separate_iff (reads : found word n (word ++ text) = some zs) :
    Separate word n (word ++ text) ↔ Tidy n text := by
  have behind : (word ++ text).drop word.length = text := List.drop_left
  constructor
  · intro separate
    have tidy := separate (List.prefix_append ..) (by simp [reads])
    rwa [behind] at tidy
  · intro tidy _ _
    rwa [behind]

/-- Two words that begin differently. -/
theorem separate_head (other : word.head? ≠ text.head?) (some : word ≠ []) (some' : text ≠ []) (rest : Bytes) :
    Separate word n (text ++ rest) := by
  rintro ⟨tail, same⟩
  have heads := congrArg List.head? same
  rw [List.head?_append_of_ne_nil _ some, List.head?_append_of_ne_nil _ some'] at heads
  exact absurd heads other

theorem allowed_iff_fine (conv : Conversion) (line : Bytes) : Allowed line (answer conv line) ↔ Fine line := by
  by_cases create : line.takeWhile (· ≠ 0) = ascii "create_driver"
  · rw [answer, if_pos create, allowed_createDriver, ← front_eq_iff create]
    exact ⟨fun clean => ⟨fun _ => clean, separate_other create (by decide) (by decide),
      separate_other create (by decide) (by decide)⟩, fun fine => fine.exact (List.mem_pair.mpr (.inl create))⟩
  by_cases drivers : line.takeWhile (· ≠ 0) = ascii "get_drivers"
  · rw [answer, if_neg create, if_pos drivers, allowed_getDrivers, ← front_eq_iff drivers]
    exact ⟨fun clean => ⟨fun _ => clean, separate_other drivers (by decide) (by decide),
      separate_other drivers (by decide) (by decide)⟩, fun fine => fine.exact (List.mem_pair.mpr (.inr drivers))⟩
  have exact : line.takeWhile (· ≠ 0) ∈ [ascii "create_driver", ascii "get_drivers"] → 0 ∉ line := by
    intro member
    rcases List.mem_pair.mp member with same | same
    · exact absurd same create
    · exact absurd same drivers
  by_cases send : ascii "send_task" <+: line
  · rw [answer, if_neg create, if_neg drivers, if_pos send]
    obtain ⟨text, rfl⟩ := send
    have status : Separate (ascii "get_status") 1 (ascii "send_task" ++ text) :=
      separate_head (by decide) (by decide) (by decide) text
    cases reads : found (ascii "send_task") 2 (ascii "send_task" ++ text) with
    | none => exact ⟨fun _ => ⟨exact, fun _ some => absurd reads some, status⟩, fun _ => .print (by simp)⟩
    | some zs =>
      obtain ⟨pid, timer, rfl⟩ := List.length_eq_two.mp (Scan.numbers_length reads)
      rw [allowed_sendTask]
      have tidy := (spelled_iff_tidy conv reads Nat.two_pos).trans (separate_iff reads).symm
      exact ⟨fun spelled => ⟨exact, tidy.mp spelled, status⟩, fun fine => tidy.mpr fine.sendTask⟩
  by_cases status : ascii "get_status" <+: line
  · rw [answer, if_neg create, if_neg drivers, if_neg send, if_pos status]
    obtain ⟨text, rfl⟩ := status
    have task : Separate (ascii "send_task") 2 (ascii "get_status" ++ text) :=
      separate_head (by decide) (by decide) (by decide) text
    cases reads : found (ascii "get_status") 1 (ascii "get_status" ++ text) with
    | none => exact ⟨fun _ => ⟨exact, task, fun _ some => absurd reads some⟩, fun _ => .print (by simp)⟩
    | some zs =>
      obtain ⟨pid, rfl⟩ := List.length_eq_one_iff.mp (Scan.numbers_length reads)
      rw [allowed_getStatus]
      have tidy := (spelled_iff_tidy conv reads Nat.one_pos).trans (separate_iff reads).symm
      exact ⟨fun spelled => ⟨exact, task, tidy.mp spelled⟩, fun fine => tidy.mpr fine.getStatus⟩
  · rw [answer, if_neg create, if_neg drivers, if_neg send, if_neg status]
    exact ⟨fun _ => ⟨exact, fun begins => absurd begins send, fun begins => absurd begins status⟩,
      fun _ => .print (by simp)⟩

end Answers
section Arrays

variable {line mark front word text more : Bytes} {conv : Conversion}

theorem samePrefix_front (clean : 0 ∉ word) (front more : Bytes) :
    samePrefix (front ++ 0 :: more) word = .ok (decide (word <+: front)) := by
  induction word generalizing front with
  | nil => cases front <;> simp [samePrefix]
  | cons y word ih =>
    simp only [List.mem_cons, not_or] at clean
    cases front with
    | nil => simp [samePrefix, clean.1]
    | cons x front =>
      rw [List.cons_append, samePrefix]
      by_cases same : x = y
      · rw [if_pos same, ih clean.2]
        simp [List.cons_prefix_cons, same]
      · rw [if_neg same]
        simp [List.cons_prefix_cons, Ne.symm same]

theorem cutLine_append (clean : 0 ∉ front) (oneLine : 10 ∉ front) (stops : x = 0 ∨ x = 10) (more : Bytes) :
    cutLine (front ++ x :: more) = .ok (front ++ 0 :: more) := by
  rw [cutLine, message_stop clean oneLine stops, if_pos (by simp),
    List.set_append_right _ _ (Nat.le_refl _), Nat.sub_self,
    List.set_cons_zero]

/-- The array after the cut, around the string of the line. -/
theorem cutLine_cases (oneLine : 10 ∉ line) (ending : mark = [] ∨ mark = [10]) (more : Bytes) :
    ∃ front tail, cutLine (line ++ mark ++ 0 :: more) = .ok (front ++ 0 :: tail) ∧
      line.takeWhile (· ≠ 0) = front ∧ 0 ∉ front ∧
      (line = front ∧ (mark = [] ∨ tail = 0 :: more) ∨
        ∃ after, line = front ++ 0 :: after ∧ tail = after ++ mark ++ 0 :: more) := by
  by_cases nul : 0 ∈ line
  · obtain ⟨front, after, rfl, clean⟩ := List.eq_append_cons_of_mem nul
    have front10 : 10 ∉ front := fun member => oneLine (List.mem_append_left _ member)
    refine ⟨front, after ++ mark ++ 0 :: more, ?_, text_nul clean after, clean, .inr ⟨after, rfl, rfl⟩⟩
    have cut := cutLine_append clean front10 (.inl rfl) (after ++ mark ++ 0 :: more)
    rw [← cut, List.append_assoc, List.append_assoc, List.append_assoc, List.cons_append]
  · rcases ending with rfl | rfl
    · refine ⟨line, more, ?_, text_clean nul, nul, .inl ⟨rfl, .inl rfl⟩⟩
      rw [List.append_nil, cutLine_append nul oneLine (.inl rfl)]
    · refine ⟨line, 0 :: more, ?_, text_clean nul, nul, .inl ⟨rfl, .inr rfl⟩⟩
      rw [List.append_assoc, List.singleton_append, cutLine_append nul oneLine (.inr rfl)]

theorem numbers_mark (n : Nat) (ending : mark = [] ∨ mark = [10]) (text : Bytes) :
    Scan.numbers n ((text ++ mark).takeWhile (· ≠ 0)) = Scan.numbers n (text.takeWhile (· ≠ 0)) := by
  rcases ending with rfl | rfl
  · rw [List.append_nil]
  · by_cases nul : 0 ∈ text
    · obtain ⟨front, after, rfl, clean⟩ := List.eq_append_cons_of_mem nul
      rw [List.append_assoc, List.cons_append, text_nul clean, text_nul clean]
    · rw [text_clean nul, text_clean (List.not_mem_append nul (by simp)), Scan.numbers_newline]

/-- What `sscanf` gets has the numbers of the line, unless the line is the word alone and has no newline. -/
theorem cstr_found (begins : word <+: line) (clean : 0 ∉ word) (ending : mark = [] ∨ mark = [10])
    (enough : mark = [] → line ≠ word)
    (shape : line = front ∧ (mark = [] ∨ tail = 0 :: more) ∨
      ∃ after, line = front ++ 0 :: after ∧ tail = after ++ mark ++ 0 :: more)
    (nul : 0 ∉ front) :
    ∃ text, cstr (front ++ 0 :: tail) (word.length + 1) = .ok text ∧
      ∀ n, Scan.numbers n text = found word n line := by
  obtain ⟨rest, rfl⟩ : word <+: front := by
    have string := (prefix_front clean).mp begins
    rcases shape with ⟨rfl, _⟩ | ⟨after, rfl, _⟩
    · rwa [text_clean nul] at string
    · rwa [text_nul nul] at string
  cases rest with
  | nil =>
    rw [List.append_nil] at shape ⊢
    rcases shape with ⟨rfl, rfl | rfl⟩ | ⟨after, rfl, rfl⟩
    · exact absurd rfl (enough rfl)
    · have string := cstr_front (line ++ [0]) [] more
      refine ⟨[], by simpa using string, fun n => ?_⟩
      rw [found, List.drop_of_length_le (Nat.le_succ _), List.takeWhile_nil]
    · have string := cstr_front (word ++ [0]) (after ++ mark) more
      refine ⟨(after ++ mark).takeWhile (· ≠ 0), by simpa using string, fun n => ?_⟩
      rw [numbers_mark n ending, found, List.drop_length_add_append, List.drop_one, List.tail_cons]
  | cons x rest =>
    have solid : 0 ∉ rest := fun member => nul (by simp [member])
    have string := cstr_append (word ++ [x]) solid tail
    refine ⟨rest, by simpa using string, fun n => ?_⟩
    rcases shape with ⟨rfl, _⟩ | ⟨after, rfl, _⟩
    · rw [found, List.drop_length_add_append, List.drop_one, List.tail_cons, text_clean solid]
    · rw [found, List.append_assoc, List.drop_length_add_append, List.cons_append, List.drop_one, List.tail_cons,
        text_nul solid]

theorem numbers_two (text : Bytes) : Scan.numbers 2 text = (sscanf2 text).map fun pair => [pair.1, pair.2] := by
  simp only [Scan.numbers, sscanf2, Scan.int_skip]
  cases Scan.int text with
  | none => rfl
  | some first =>
    simp only [Option.bind_eq_bind, Option.bind_some]
    cases Scan.int first.2 with
    | none => rfl
    | some second => rfl

theorem numbers_one (text : Bytes) : Scan.numbers 1 text = (Scan.int text).map fun found => [found.1] := by
  simp only [Scan.numbers]
  cases Scan.int text <;> rfl

/-- A line that is read whole is answered, whatever else is in the array. -/
theorem command_line (conv : Conversion) (oneLine : 10 ∉ line) (ending : mark = [] ∨ mark = [10])
    (task : mark = [] → line ≠ ascii "send_task") (status : mark = [] → line ≠ ascii "get_status")
    (more : Bytes) : command conv (line ++ mark ++ 0 :: more) = .ok (answer conv line) := by
  obtain ⟨front, tail, cut, string, clean, shape⟩ := cutLine_cases oneLine ending more
  have compare (literal : Bytes) (solid : 0 ∉ literal) :
      strcmp (front ++ 0 :: tail) 0 literal = .ok (front == literal) :=
    strcmp_append [] clean literal solid tail
  have begins (word : Bytes) (solid : 0 ∉ word) :
      samePrefix (front ++ 0 :: tail) word = .ok (decide (word <+: line)) := by
    have same : word <+: line ↔ word <+: front := by rw [prefix_front solid, string]
    rw [samePrefix_front solid, decide_eq_decide.mpr same]
  have texts (word : Bytes) (solid : 0 ∉ word) (enough : mark = [] → line ≠ word) (front : word <+: line) :=
    cstr_found front solid ending enough shape clean
  have create := compare (ascii "create_driver") (by decide)
  have drivers := compare (ascii "get_drivers") (by decide)
  have send := begins (ascii "send_task") (by decide)
  have get := begins (ascii "get_status") (by decide)
  simp only [command, cut, ok_bind, create, drivers, send, get, beq_iff_eq, decide_eq_true_eq, answer, string]
  split_ifs with _ _ sends gets
  · rfl
  · rfl
  · obtain ⟨text, found, same⟩ := texts (ascii "send_task") (by decide) task sends
    have stored : cstr (front ++ 0 :: tail) 10 = .ok text := found
    rw [← same, numbers_two, stored, ok_bind]
    cases sscanf2 text <;> rfl
  · obtain ⟨text, found, same⟩ := texts (ascii "get_status") (by decide) status gets
    have stored : cstr (front ++ 0 :: tail) 11 = .ok text := found
    rw [← same, numbers_one, stored, ok_bind]
    cases Scan.int text <;> rfl
  · rfl

end Arrays

section Inputs

variable {stdin line tail rest : Bytes} {conv : Conversion} {events : List (Vector UInt8 50)}
  {actions : List Action}

theorem lines_line (oneLine : 10 ∉ line) (ends : ∀ x ∈ tail.head?, x = 10) (filled : line ++ tail ≠ []) :
    lines (line ++ tail) = line :: lines (tail.drop 1) := by
  cases tail with
  | nil =>
    rw [List.append_nil] at filled ⊢
    simp [lines, List.splitOn_eq_singleton oneLine, filled]
  | cons x rest =>
    obtain rfl := ends x rfl
    have split := splitOn_cons oneLine rest
    have more : rest.splitOn 10 ≠ [] := List.splitOn_ne_nil 10 rest
    simp only [lines, split, List.drop_one, List.tail_cons, List.getLast?_cons_of_ne_nil more,
      List.dropLast_cons_of_ne_nil more]
    split <;> rfl

theorem lines_last (oneLine : 10 ∉ line) (filled : line ≠ []) : lines line = [line] := by
  have ends : ∀ x ∈ ([] : Bytes).head?, x = 10 := by simp
  have single := lines_line oneLine ends (by simpa using filled)
  rwa [List.append_nil] at single

@[simp] theorem lines_nil : lines [] = [] := rfl

theorem handled_last (oneLine : 10 ∉ line) : Handled line ↔ line.length ≤ 49 ∧ Fine line ∧
    line ≠ ascii "send_task" ∧ line ≠ ascii "get_status" := by
  have split := List.splitOn_eq_singleton oneLine
  constructor
  · intro handled
    exact handled.last line (by simp [split])
  · intro last
    exact ⟨by simp [split], by simpa [split] using last⟩

theorem handled_cons (oneLine : 10 ∉ line) :
    Handled (line ++ 10 :: rest) ↔ (line.length < 49 ∧ Fine line) ∧ Handled rest := by
  have split := splitOn_cons oneLine rest
  have more : rest.splitOn 10 ≠ [] := List.splitOn_ne_nil 10 rest
  constructor
  · rintro ⟨ended, last⟩
    rw [split, List.dropLast_cons_of_ne_nil more, List.forall_mem_cons] at ended
    rw [split, List.getLast?_cons_of_ne_nil more] at last
    exact ⟨ended.1, ended.2, last⟩
  · rintro ⟨here, ended, last⟩
    refine ⟨?_, ?_⟩
    · rw [split, List.dropLast_cons_of_ne_nil more, List.forall_mem_cons]
      exact ⟨here, ended⟩
    · rwa [split, List.getLast?_cons_of_ne_nil more]

theorem handled_nil : Handled [] := by
  refine (handled_last List.not_mem_nil).mpr
    ⟨Nat.zero_le _, ⟨fun _ => List.not_mem_nil, ?_, ?_⟩, by decide, by decide⟩
  · exact fun begins => absurd begins (by decide)
  · exact fun begins => absurd begins (by decide)

/-- One read: a whole line, a last one, or the front of a line that is too long. -/
theorem fgets_cases (more : stdin ≠ []) :
    (∃ line rest, stdin = line ++ 10 :: rest ∧ 10 ∉ line ∧ line.length < 49 ∧
        fgets 50 stdin = some (line ++ [10], rest)) ∨
      (10 ∉ stdin ∧ stdin.length ≤ 49 ∧ fgets 50 stdin = some (stdin, [])) ∨
      ∃ line tail, stdin = line ++ tail ∧ 10 ∉ line ∧ (∀ x ∈ tail.head?, x = 10) ∧ 49 ≤ line.length ∧
        line.drop 49 ++ tail ≠ [] ∧ fgets 50 stdin = some (line.take 49, line.drop 49 ++ tail) := by
  by_cases newline : 10 ∈ stdin
  · obtain ⟨line, rest, rfl, oneLine⟩ := List.eq_append_cons_of_mem newline
    by_cases short : line.length < 49
    · exact .inl ⟨line, rest, rfl, oneLine, short, fgets_line line rest oneLine short⟩
    · have enough := Nat.le_of_not_lt short
      exact .inr (.inr ⟨line, 10 :: rest, rfl, oneLine, by simp, enough, by simp, fgets_long oneLine enough more⟩)
  · by_cases short : stdin.length ≤ 49
    · exact .inr (.inl ⟨newline, short, fgets_last newline short more⟩)
    · have enough : 49 ≤ stdin.length := Nat.le_of_lt (Nat.lt_of_not_le short)
      have whole : stdin = stdin ++ [] := (List.append_nil stdin).symm
      refine .inr (.inr ⟨stdin, [], whole, newline, by simp, enough, by simpa using short, ?_⟩)
      nth_rewrite 1 [whole]
      exact fgets_long newline enough (whole ▸ more)

theorem commands_nil (conv : Conversion) (events : List (Vector UInt8 50)) :
    commands conv events [] = .ok [] := by
  induction events with
  | nil => rfl
  | cons cmd later ih => exact ih

theorem commands_cons (got : fgets 50 stdin = some (line, rest)) (cmd : Vector UInt8 50)
    (later : List (Vector UInt8 50)) : commands conv (cmd :: later) stdin = (do
      let action ← command conv (overlay cmd.toList (line ++ [0]))
      let others ← commands conv later rest
      return action :: others) := by
  rw [commands, got]

theorem command_overlay (conv : Conversion) (cmd : Bytes) (oneLine : 10 ∉ line)
    (ending : mark = [] ∨ mark = [10]) (task : mark = [] → line ≠ ascii "send_task")
    (status : mark = [] → line ≠ ascii "get_status") :
    command conv (overlay cmd (line ++ mark ++ [0])) = .ok (answer conv line) := by
  rw [overlay, List.append_assoc (line ++ mark), List.singleton_append]
  exact command_line conv oneLine ending task status _

/-- No read finishes more than one line. -/
theorem lines_le (done : commands conv events stdin = .ok actions) (enough : stdin.length ≤ events.length) :
    (lines stdin).length ≤ actions.length := by
  induction events generalizing stdin actions with
  | nil =>
    obtain rfl := List.length_eq_zero_iff.mp (Nat.le_zero.mp enough)
    exact Nat.zero_le _
  | cons cmd later ih =>
    by_cases more : stdin = []
    · subst more
      exact Nat.zero_le _
    · rcases fgets_cases more with
        ⟨line, rest, rfl, oneLine, short, got⟩ | ⟨oneLine, short, got⟩ |
          ⟨line, tail, rfl, oneLine, ends, long, some, got⟩
      all_goals
        rw [commands_cons got] at done
        obtain ⟨action, _, done⟩ := bind_eq_ok.mp done
        obtain ⟨others, after, done⟩ := bind_eq_ok.mp done
        cases done
      · have fewer := ih after (by simp at enough ⊢; omega)
        rw [lines_line oneLine (by simp) (by simp)]
        exact Nat.succ_le_succ fewer
      · simp [lines_last oneLine more]
      · have fewer := ih after (by simp at enough ⊢; omega)
        rw [lines_line (fun member => oneLine (List.mem_of_mem_drop member)) ends some] at fewer
        rw [lines_line oneLine ends more]
        exact Nat.le_succ_of_le fewer

theorem handled_each (handled : Handled stdin) (enough : stdin.length ≤ events.length) :
    ∃ actions, commands conv events stdin = .ok actions ∧ List.Forall₂ Allowed (lines stdin) actions := by
  induction events generalizing stdin with
  | nil =>
    obtain rfl := List.length_eq_zero_iff.mp (Nat.le_zero.mp enough)
    exact ⟨[], rfl, .nil⟩
  | cons cmd later ih =>
    by_cases more : stdin = []
    · subst more
      exact ⟨[], commands_nil conv _, .nil⟩
    · rcases fgets_cases more with
        ⟨line, rest, rfl, oneLine, short, got⟩ | ⟨oneLine, short, got⟩ |
          ⟨line, tail, rfl, oneLine, ends, long, some, got⟩
      · obtain ⟨⟨_, fine⟩, others⟩ := (handled_cons oneLine).mp handled
        obtain ⟨actions, done, each⟩ := ih others (by simp at enough; omega)
        refine ⟨answer conv line :: actions, ?_, ?_⟩
        · rw [commands_cons got, command_overlay conv _ oneLine (.inr rfl) nofun nofun, ok_bind, done]
          rfl
        · rw [lines_line oneLine (by simp) (by simp)]
          exact .cons ((allowed_iff_fine conv line).mpr fine) each
      · obtain ⟨_, fine, task, status⟩ := (handled_last oneLine).mp handled
        have answered := command_overlay conv cmd.toList oneLine (.inl rfl) (fun _ => task) fun _ => status
        rw [List.append_nil] at answered
        refine ⟨[answer conv stdin], ?_, ?_⟩
        · rw [commands_cons got, answered, ok_bind, commands_nil]
          rfl
        · rw [lines_last oneLine more]
          exact .cons ((allowed_iff_fine conv stdin).mpr fine) .nil
      · cases tail with
        | nil =>
          rw [List.append_nil] at handled some
          have fits := ((handled_last oneLine).mp handled).1
          exact absurd (List.drop_of_length_le fits) some
        | cons x rest =>
          obtain rfl := ends x rfl
          exact absurd ((handled_cons oneLine).mp handled).1.1 (Nat.not_lt.mpr long)

/-- A command's word with no newline is followed by what the array held. -/
theorem command_bare (conv : Conversion) (bare : line = ascii "send_task" ∨ line = ascii "get_status") :
    command conv (overlay (Vector.replicate 50 1).toList (line ++ [0])) = .error .outOfBounds := by
  rcases bare with rfl | rfl <;> rfl

/-- Arrays without a NUL are enough to find every defect. -/
theorem each_handled (n : Nat) (enough : stdin.length ≤ n)
    (done : commands conv (List.replicate n (Vector.replicate 50 1)) stdin = .ok actions)
    (each : List.Forall₂ Allowed (lines stdin) actions) : Handled stdin := by
  induction n generalizing stdin actions with
  | zero =>
    obtain rfl := List.length_eq_zero_iff.mp (Nat.le_zero.mp enough)
    exact handled_nil
  | succ n ih =>
    by_cases more : stdin = []
    · subst more
      exact handled_nil
    · rw [List.replicate_succ] at done
      rcases fgets_cases more with
        ⟨line, rest, rfl, oneLine, short, got⟩ | ⟨oneLine, short, got⟩ |
          ⟨line, tail, rfl, oneLine, ends, long, some, got⟩
      all_goals
        rw [commands_cons got] at done
        obtain ⟨action, first, done⟩ := bind_eq_ok.mp done
        obtain ⟨others, after, done⟩ := bind_eq_ok.mp done
        cases done
      · rw [command_overlay conv _ oneLine (.inr rfl) nofun nofun] at first
        cases first
        rw [lines_line oneLine (by simp) (by simp)] at each
        cases each with
        | cons allowed each =>
          have fine := (allowed_iff_fine conv line).mp allowed
          exact (handled_cons oneLine).mpr ⟨⟨short, fine⟩, ih (by simp at enough; omega) after each⟩
      · rw [lines_last oneLine more] at each
        by_cases bare : stdin = ascii "send_task" ∨ stdin = ascii "get_status"
        · rw [command_bare conv bare] at first
          cases first
        · rw [not_or] at bare
          have answered := command_overlay conv (Vector.replicate 50 1).toList oneLine (.inl rfl)
            (fun _ => bare.1) fun _ => bare.2
          rw [List.append_nil, first] at answered
          cases answered
          cases each with
          | cons allowed each =>
            exact (handled_last oneLine).mpr ⟨short, (allowed_iff_fine conv stdin).mp allowed, bare.1, bare.2⟩
      · -- The rest of the line is an action of its own.
        have fewer := lines_le after (by simp at enough ⊢; omega)
        rw [lines_line (fun member => oneLine (List.mem_of_mem_drop member)) ends some] at fewer
        have count := each.length_eq
        rw [lines_line oneLine ends more] at count
        simp only [List.length_cons] at fewer count
        omega

theorem oneEach_iff (conv : Conversion) (stdin : Bytes) : OneEach conv stdin ↔ Handled stdin := by
  constructor
  · intro each
    obtain ⟨actions, done, allowed⟩ := each (List.replicate stdin.length (Vector.replicate 50 1)) (by simp)
    exact each_handled stdin.length (Nat.le_refl _) done allowed
  · exact fun handled events enough => handled_each handled enough

def wrapped : Conversion where
  store z := z.bmod (2 ^ 32)
  int z := by
    have lower := Int.le_bmod (x := z) (m := 2 ^ 32) (by decide)
    have upper := Int.bmod_lt (x := z) (m := 2 ^ 32) (by decide)
    constructor <;> omega
  exact z range := Int.bmod_eq_of_le (by simpa using range.1) (by simpa using range.2)

/-- The byte behind the word is skipped whatever it is: the task goes to driver 2. -/
theorem glued_argument_sends : ¬ ∀ conv stdin, OneEach conv stdin := by
  intro all
  obtain ⟨actions, done, each⟩ := all wrapped (ascii "send_task12 10" ++ [10])
    (List.replicate 15 (Vector.replicate 50 0)) (by decide)
  have oneLine : 10 ∉ ascii "send_task12 10" := by decide
  have got : fgets 50 (ascii "send_task12 10" ++ [10]) = some (ascii "send_task12 10" ++ [10], []) :=
    fgets_line _ [] oneLine (by decide)
  have sends : answer wrapped (ascii "send_task12 10") = .sendTask 2 10 := by decide
  rw [List.replicate_succ, commands_cons got, command_overlay _ _ oneLine (.inr rfl) nofun nofun, ok_bind,
    commands_nil, sends] at done
  cases done
  rw [lines_line oneLine (by simp) (by decide)] at each
  cases each with
  | cons allowed _ =>
    have spelled : Spelled [2, 10] (ascii "12 10") := allowed_sendTask.mp allowed
    generalize same : ascii "12 10" = text at spelled
    cases spelled with
    | @cons gap _ _ _ _ some blanks =>
      obtain ⟨x, gap, rfl⟩ := List.exists_cons_of_ne_nil some
      obtain rfl : 49 = x := Option.some.inj (congrArg List.head? same)
      exact absurd (blanks 49 List.mem_cons_self) (by decide)

end Inputs
end Tasks.Taxi.Commands
