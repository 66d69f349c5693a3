import Tasks.Kit.Run
import Mathlib.Logic.Function.Basic

/-! Module 3, Task 5: the parent hands the file over with a signal, and the child tests its flag
and then pauses in two steps. -/
namespace Tasks.Numbers.Handover

open Kit

inductive Signal where
  | usr1
  | usr2
  deriving DecidableEq, Repr

def Signal.other : Signal → Signal
  | .usr1 => .usr2
  | .usr2 => .usr1

/-- What the handler leaves in `access_flag`. -/
def Signal.handler : Signal → Bool
  | .usr1 => true
  | .usr2 => false

inductive Child where
  | testing
  /-- The flag was down, and `pause` is not called yet. -/
  | pausing
  | paused
  | opening
  | writing
  | sleeping
  | gone
  deriving DecidableEq, Repr

inductive Parent where
  | calling
  | opening
  | reading
  | appending
  | recalling
  | sleeping
  | closing
  | gone
  deriving DecidableEq, Repr

structure System where
  /-- The child's `access_flag`. -/
  accessFlag : Bool
  /-- Signals sent to the child and not yet delivered. -/
  pending : Signal → Bool
  child : Child
  parent : Parent
  /-- The parent has not closed its own writing end of the pipe. -/
  writeEnd : Bool
  pipe : List Int
  receivedNumber : Int
  /-- The content of `number.txt`, as far as it was appended. -/
  file : List Int

def System.start (receivedNumber : Int) : System :=
  ⟨false, fun _ => false, .testing, .calling, true, [], receivedNumber, []⟩

/-- Where a handler that has run leaves the child: `pause` and `sleep` return. -/
def Child.awake : Child → Child
  | .paused | .sleeping => .testing
  | point => point

inductive Event where
  | deliver (signal : Signal)
  | test
  | pause
  | readFile
  | openFails
  | write (random : Int)
  | brokenPipe
  | wake
  | kill (signal : Signal)
  | parentOpens
  | parentFails
  | read
  | append
  | parentWakes
  | close
  deriving DecidableEq, Repr

/-- One step of one process, or the delivery of a signal to the child; `capacity` is how many
numbers the pipe holds, and a `write` that a signal interrupts is restarted. -/
inductive Step (capacity : Nat) (s : System) : Event → System → Prop where
  | deliver (signal : Signal) (sent : s.pending signal = true) (alive : s.child ≠ .gone) :
      Step capacity s (.deliver signal) { s with
        pending := Function.update s.pending signal false
        accessFlag := signal.handler
        child := s.child.awake }
  | test (here : s.child = .testing) :
      Step capacity s .test { s with child := if s.accessFlag then .opening else .pausing }
  | pause (here : s.child = .pausing) : Step capacity s .pause { s with child := .paused }
  | readFile (here : s.child = .opening) : Step capacity s .readFile { s with child := .writing }
  | openFails (here : s.child = .opening) : Step capacity s .openFails { s with child := .gone }
  | write (random : Int) (here : s.child = .writing) (read : s.parent ≠ .gone)
      (room : s.pipe.length < capacity) :
      Step capacity s (.write random) { s with child := .sleeping, pipe := s.pipe ++ [random] }
  /-- Writing into a pipe that nobody reads raises `SIGPIPE`. -/
  | brokenPipe (here : s.child = .writing) (unread : s.parent = .gone) :
      Step capacity s .brokenPipe { s with child := .gone }
  | wake (here : s.child = .sleeping) : Step capacity s .wake { s with child := .testing }
  | call (here : s.parent = .calling) :
      Step capacity s (.kill .usr1)
        { s with parent := .opening, pending := Function.update s.pending .usr1 true }
  | parentOpens (here : s.parent = .opening) :
      Step capacity s .parentOpens { s with parent := .reading }
  /-- `fopen` or `read` failed. -/
  | parentFails (here : s.parent = .opening ∨ s.parent = .reading) :
      Step capacity s .parentFails { s with parent := .gone }
  | read (here : s.parent = .reading) (more : s.pipe = number :: rest) :
      Step capacity s .read { s with parent := .appending, pipe := rest, receivedNumber := number }
  /-- At the end of the pipe `read` returns 0 and `receivedNumber` stays as it is. -/
  | readEnd (here : s.parent = .reading) (empty : s.pipe = []) (closed : s.child = .gone)
      (closed' : s.writeEnd = false) :
      Step capacity s .read { s with parent := .appending }
  | append (here : s.parent = .appending) :
      Step capacity s .append { s with parent := .recalling, file := s.file ++ [s.receivedNumber] }
  | dismiss (here : s.parent = .recalling) :
      Step capacity s (.kill .usr2)
        { s with parent := .sleeping, pending := Function.update s.pending .usr2 true }
  | parentWakes (here : s.parent = .sleeping) :
      Step capacity s .parentWakes { s with parent := .closing }
  | close (here : s.parent = .closing) :
      Step capacity s .close { s with parent := .calling, writeEnd := false }

def Next (capacity : Nat) (s t : System) : Prop := ∃ event, Step capacity s event t

/-- The child waits for a signal and the parent for a number, and neither is on its way. -/
def Stuck (s : System) : Prop :=
  s.child = .paused ∧ (∀ signal, s.pending signal = false) ∧ s.parent = .reading ∧ s.pipe = []

/-- The parent has sent `SIGUSR1` in this round and has no number yet. -/
def System.Waiting (s : System) : Prop :=
  (s.parent = .opening ∨ s.parent = .reading) ∧ s.pipe = []

/-- A child that misses the signal: it pauses after `SIGUSR1`, as its test is already done, and
after `SIGUSR2`, as it is to test the flag before it writes again. -/
def Child.misses : Signal → Child → Bool
  | .usr1, .pausing => true
  | .usr2, .testing | .usr2, .pausing | .usr2, .paused | .usr2, .sleeping => true
  | _, _ => false

/-- While the parent waits, the last signal in flight does not reach a child that misses it. -/
def Careful (s : System) : Event → Prop
  | .deliver signal => ¬ (s.Waiting ∧ s.pending signal.other = false ∧ s.child.misses signal)
  | _ => True

def CarefulNext (capacity : Nat) (s t : System) : Prop :=
  ∃ event, Step capacity s event t ∧ Careful s event

variable {capacity : Nat} {s t : System} {event : Event}

def System.Heard (s : System) : Prop :=
  s.child = .opening ∨ s.child = .writing ∨ s.child = .gone ∨
    s.accessFlag = true ∧ (s.child = .testing ∨ s.child = .sleeping)

def Answered (s : System) : Prop :=
  s.Waiting → (∀ signal, s.pending signal = false) → s.Heard

/-- What the child does of its own accord while the parent waits. -/
theorem answered_child (answered : Answered s) (parent : t.parent = s.parent) (pipe : t.pipe = s.pipe)
    (pending : t.pending = s.pending) (heard : s.Heard → t.Heard) : Answered t := by
  intro waiting none
  rw [System.Waiting, parent, pipe] at waiting
  rw [pending] at none
  exact heard (answered waiting none)

theorem answered_parent (away : ¬ (t.parent = .opening ∨ t.parent = .reading)) : Answered t :=
  fun waiting => absurd waiting.1 away

theorem step_answered (answered : Answered s) (step : Step capacity s event t)
    (careful : Careful s event) : Answered t := by
  cases step with
  | deliver signal sent alive =>
    intro waiting none
    have last : s.pending signal.other = false := by
      have other := none signal.other
      cases signal <;> simpa [Signal.other] using other
    have hears : ¬ s.child.misses signal := fun misses => careful ⟨waiting, last, misses⟩
    cases signal <;> cases point : s.child <;>
      simp [System.Heard, Signal.handler, Child.awake, Child.misses, point] at hears alive ⊢
  | test here =>
    refine answered_child answered rfl rfl rfl fun heard => ?_
    have raised : s.accessFlag = true := by simpa [System.Heard, here] using heard
    simp [System.Heard, raised]
  | pause here => exact answered_child answered rfl rfl rfl (by simp [System.Heard, here])
  | readFile here | openFails here | brokenPipe here =>
    exact answered_child answered rfl rfl rfl (by simp [System.Heard])
  | wake here => exact answered_child answered rfl rfl rfl (by simp [System.Heard, here])
  | write random here read room =>
    intro waiting
    simp [System.Waiting] at waiting
  | call here =>
    intro waiting none
    have sent := none .usr1
    simp at sent
  | parentOpens here =>
    intro waiting none
    exact answered ⟨.inl here, waiting.2⟩ none
  | parentFails here | read here | readEnd here | append here | dismiss here | parentWakes here
  | close here => exact answered_parent (by simp)

theorem answered_not_stuck (answered : Answered s) : ¬ Stuck s := by
  rintro ⟨paused, none, reading, empty⟩
  have heard := answered ⟨.inr reading, empty⟩ none
  simp [System.Heard, paused] at heard

/-- A child that pauses once more without a signal in flight. -/
theorem pausing_stuck (none : ∀ signal, s.pending signal = false) (pausing : s.child = .pausing)
    (waiting : s.Waiting) : ∃ u, Relation.ReflTransGen (Next capacity) s u ∧ Stuck u := by
  obtain ⟨opening | reading, empty⟩ := waiting
  · exact ⟨_, .tail (.single ⟨_, .parentOpens opening⟩) ⟨_, .pause pausing⟩, rfl, none, rfl, empty⟩
  · exact ⟨_, .single ⟨_, .pause pausing⟩, rfl, none, reading, empty⟩

theorem testing_stuck (none : ∀ signal, s.pending signal = false) (testing : s.child = .testing)
    (down : s.accessFlag = false) (waiting : s.Waiting) :
    ∃ u, Relation.ReflTransGen (Next capacity) s u ∧ Stuck u := by
  have tested : Step capacity s .test { s with child := .pausing } := by
    have tested : Step capacity s .test _ := .test testing
    simpa [down] using tested
  obtain ⟨u, path, stuck⟩ := pausing_stuck (s := { s with child := .pausing }) none rfl waiting
  exact ⟨u, .head ⟨_, tested⟩ path, stuck⟩

/-- Any other delivery can leave both processes waiting for each other. -/
theorem careless_stuck (step : Step capacity s event t) (careless : ¬ Careful s event) :
    ∃ u, Relation.ReflTransGen (Next capacity) t u ∧ Stuck u := by
  cases step with
  | deliver signal sent alive =>
    simp only [Careful, not_not] at careless
    obtain ⟨waiting, last, misses⟩ := careless
    have none : ∀ other, Function.update s.pending signal false other = false := by
      intro other
      cases signal <;> cases other <;> simp_all [Signal.other]
    by_cases pausing : s.child = .pausing
    · exact pausing_stuck none (by simp [pausing, Child.awake]) waiting
    · have down : signal = .usr2 ∧ s.child.awake = .testing := by
        cases signal <;> cases point : s.child <;> simp_all [Child.misses, Child.awake]
      obtain ⟨rfl, testing⟩ := down
      exact testing_stuck none testing rfl waiting
  | test | pause | readFile | openFails | write | brokenPipe | wake | call | parentOpens | parentFails
  | read | readEnd | append | dismiss | parentWakes | close => exact absurd trivial careless

/-- Careful deliveries never leave the two processes waiting for each other, and after any other
delivery they can come to it. -/
structure StuckIffCareless (capacity : Nat) (start : System) : Prop where
  careful : ∀ s, Relation.ReflTransGen (CarefulNext capacity) start s → ¬ Stuck s
  careless : ∀ s event t, Relation.ReflTransGen (Next capacity) start s → Step capacity s event t →
    ¬ Careful s event → ∃ u, Relation.ReflTransGen (Next capacity) t u ∧ Stuck u

/-- When a wake-up is lost, for a pipe of any capacity. -/
theorem lost_wakeup_iff (capacity : Nat) (receivedNumber : Int) :
    StuckIffCareless capacity (.start receivedNumber) := by
  constructor
  · intro s path
    refine answered_not_stuck (reachable_invariant Answered ?_ path ?_)
    · rintro s t answered ⟨event, step, careful⟩
      exact step_answered answered step careful
    · exact answered_parent (by simp [System.start])
  · intro s event t _ step careless
    exact careless_stuck step careless

/-- The first `SIGUSR1` arrives between the child's test and its `pause`. -/
theorem first_wakeup_lost :
    ¬ ∀ s, Relation.ReflTransGen (Next 16384) (.start 0) s → ¬ Stuck s := by
  intro law
  have tested : Relation.ReflTransGen (Next 16384) (.start 0) _ := .single ⟨_, .test rfl⟩
  have called := (tested.tail ⟨_, .call rfl⟩).tail ⟨_, .parentOpens rfl⟩
  have delivered := called.tail ⟨_, .deliver .usr1 rfl (by decide)⟩
  have paused := delivered.tail ⟨_, .pause rfl⟩
  refine law _ paused ⟨rfl, fun signal => ?_, rfl, rfl⟩
  cases signal <;> rfl

end Tasks.Numbers.Handover
