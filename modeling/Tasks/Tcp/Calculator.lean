import Tasks.Kit.Run
import Tasks.Kit.Stream
import Tasks.Kit.Lines

/-! Module 3, Tasks 15 and 18: a calculator behind a TCP connection. The client and its loop are
the same in both; the server of Task 18 serves its connections with `select`. -/
namespace Tasks.Tcp.Calculator

open Kit Kit.Bytes Kit.Lines

inductive Task where
  | task15
  | task18
  deriving DecidableEq, Repr

/-- What `sscanf` makes of `"%lf %s %lf"`. -/
structure Scanned (D : Type) where
  /-- What it stores in `temp`, nothing if it does not come so far. -/
  temp : Bytes
  operands : Option (D × D)

structure Doubles (D : Type) where
  scan : Bytes → Scanned D
  /-- The text of `"%.2lf"`. -/
  print : D → Bytes
  zero : D
  isZero : D → Bool
  add : D → D → D
  sub : D → D → D
  mul : D → D → D
  div : D → D → D

section Server

variable (lib : Doubles D)

def division (a b : D) : D := if lib.isZero b then lib.zero else lib.div a b

def operation : List (Bytes × (D → D → D)) :=
  [(ascii "+", lib.add), (ascii "/", division lib), (ascii "*", lib.mul), (ascii "-", lib.sub)]

def Task.named : Task → Bytes → Bytes → Bool
  | .task15, temp, name => temp = name
  | .task18, temp, name => temp.head? = name.head?

def prompt : Bytes := ascii "Enter a +-*/ b\n"

def incorrect : Bytes := ascii "Incorrect data\n"

def Task.divideByZero : Task → Bytes
  | .task15 => ascii "You can't divide by zero.\n"
  | .task18 => ascii "You can't divide by zero\n"

/-- `strcpy` into `buff`, in Task 18 `strncpy` with its size. -/
def Task.copy : Task → Bytes → Bytes → Bytes
  | .task15, buff, text => overlay buff (text ++ [0])
  | .task18, buff, text => overlay buff (text ++ zeros (1024 - text.length))

/-- `sizeof(buff)` in `calculate`, where `buff` is a pointer in Task 18. -/
def Task.room : Task → Nat
  | .task15 => 1024
  | .task18 => 8

def Task.printed (task : Task) (buff text : Bytes) : Bytes :=
  overlay buff (text.take (task.room - 1) ++ [0])

/-- What is in `result` before the operation: in Task 15 the last result. -/
def Task.before : Task → Option D → Option D
  | .task15, result => result
  | .task18, _ => none

/-- `result` and `buff` after the reply to a text; none where the behaviour is undefined, because
`temp` has room for one character only, or because no operation has the name. -/
def calculate (task : Task) (result : Option D) (buff text : Bytes) : Option (Option D × Bytes) :=
  let scanned := lib.scan text
  if 2 ≤ scanned.temp.length then none
  else
    match scanned.operands with
    | none => some (result, task.copy buff incorrect)
    | some (a, b) =>
      match (operation lib).find? fun op => task.named scanned.temp op.1 with
      | some op =>
        let result := op.2 a b
        if lib.isZero result && op.1 = ascii "/" then
          some (some result, task.copy buff task.divideByZero)
        else some (some result, task.printed buff (lib.print result))
      | none =>
        -- Behind the array is `operation[4]`, which is looked at if `result` is zero.
        match task.before result with
        | none => none
        | some result =>
          if lib.isZero result then none else some (some result, task.printed buff (lib.print result))

def Defined (task : Task) (result : Option D) (text : Bytes) : Prop :=
  (lib.scan text).temp.length < 2 ∧
    ((lib.scan text).operands.isSome →
      (∃ op ∈ operation lib, task.named (lib.scan text).temp op.1) ∨
        ∃ last, task.before result = some last ∧ lib.isZero last = false)

theorem calculate_isSome (task : Task) (result : Option D) (buff text : Bytes) :
    (calculate lib task result buff text).isSome ↔ Defined lib task result text := by
  unfold calculate Defined
  dsimp only
  by_cases long : 2 ≤ (lib.scan text).temp.length
  · have undefined : ¬ (lib.scan text).temp.length < 2 := Nat.not_lt.mpr long
    rw [if_pos long]
    exact iff_of_false (by simp) fun defined => undefined defined.1
  · rw [if_neg long]
    have short := Nat.lt_of_not_le long
    cases (lib.scan text).operands with
    | none => simp [short]
    | some operands =>
      cases found : (operation lib).find? fun op => task.named (lib.scan text).temp op.1 with
      | some op =>
        have known : ∃ op ∈ operation lib, task.named (lib.scan text).temp op.1 :=
          ⟨op, List.mem_of_find?_eq_some found, by simpa using List.find?_some found⟩
        simp only [short, known, true_or, implies_true, and_self, iff_true]
        split <;> rfl
      | none =>
        have unknown : ¬ ∃ op ∈ operation lib, task.named (lib.scan text).temp op.1 := by
          simpa using found
        cases task.before result with
        | none => simp [short, unknown]
        | some last => by_cases zero : lib.isZero last <;> simp [short, unknown, zero]

end Server

inductive Client where
  | typing
  /-- It has read `q`. -/
  | stopped
  /-- The connection is gone. -/
  | failed
  deriving DecidableEq, Repr

inductive Server where
  | reading
  /-- It has read to the end of the stream. -/
  | closed
  /-- A `write` failed, or `select` timed out. -/
  | ended
  | undefined
  deriving DecidableEq, Repr

structure Session (D : Type) where
  client : Client
  stdin : Bytes
  /-- The text in `message`. -/
  message : Bytes
  sent : List Bytes
  stream : Bytes
  server : Server
  buff : Bytes
  /-- `result` of Task 15, once it is assigned. -/
  result : Option D
  /-- The texts passed to `sscanf`. -/
  evaluated : List Bytes

def Session.start (task : Task) (stdin message buff : Bytes) : Session D :=
  ⟨.typing, stdin, message, [], [], .reading, task.copy buff prompt, none, []⟩

/-- The client's loop: the newline is compared with, not replaced by, the NUL. -/
def typeLine (c : Session D) : Session D :=
  let line := fgetsText 1024 c.stdin c.message
  if line.1 = ascii "q" then { c with client := .stopped, message := line.1, stdin := line.2 }
  else
    { c with
      message := line.1
      stdin := line.2
      sent := c.sent ++ [line.1]
      stream := c.stream ++ (line.1 ++ [0]) }

/-- What the server does with the bytes of one `read`, up to the next prompt. -/
def serve (lib : Doubles D) (task : Task) (c : Session D) (got : Bytes) : Session D :=
  let buff := overlay c.buff got
  let c := { c with stream := c.stream.drop got.length, buff := buff }
  match cstr buff 0 with
  | .error _ => { c with server := .undefined }
  | .ok text =>
    let c := { c with evaluated := c.evaluated ++ [text] }
    match calculate lib task c.result buff text with
    | none => { c with server := .undefined }
    | some (result, buff) => { c with result := result, buff := task.copy buff prompt }

inductive Event where
  | type
  | read (got : Bytes)
  | readEnd
  | quit
  | fail
  deriving DecidableEq, Repr

inductive Step (lib : Doubles D) (task : Task) (c : Session D) : Event → Session D → Prop where
  | type (here : c.client = .typing) : Step lib task c .type (typeLine c)
  | read (here : c.server = .reading) (taken : Front got (c.stream.take 1024)) :
      Step lib task c (.read got) (serve lib task c got)
  | readEnd (here : c.server = .reading) (empty : c.stream = []) (closed : c.client ≠ .typing) :
      Step lib task c .readEnd { c with server := .closed }
  /-- Nobody reads the replies any more, or in Task 18 nothing came for a minute. -/
  | quit (here : c.server = .reading)
      (why : c.client ≠ .typing ∨ task = .task18 ∧ c.stream = []) :
      Step lib task c .quit { c with server := .ended }
  | fail (here : c.client = .typing) (gone : c.server ≠ .reading) :
      Step lib task c .fail { c with client := .failed }

/-- Each `read` returns one text with its NUL, to which the reply is defined, and the server does
not end before the client and with something to read. -/
def Careful (lib : Doubles D) (task : Task) (c : Session D) : Event → Prop
  | .read got => ∃ text, 0 ∉ text ∧ got = text ++ [0] ∧ Defined lib task c.result text
  | .quit => c.stream = [] ∧ c.client ≠ .typing
  | _ => True

structure Typed where
  lines : List Bytes
  text : ∀ line ∈ lines, 0 ∉ line ∧ 10 ∉ line ∧ line.length < 1023 ∧ line ≠ ascii "q"
  /-- What follows the newline behind `q`, none if `q` ends the input. -/
  after : Option Bytes

def quitting : Option Bytes → Bytes
  | none => ascii "q"
  | some rest => ascii "q\n" ++ rest

def Typed.input (typed : Typed) : Bytes := typed.lines.flatMap (· ++ [10]) ++ quitting typed.after

def Typed.requests (typed : Typed) : List Bytes := typed.lines.map (· ++ [10])

end Tasks.Tcp.Calculator
