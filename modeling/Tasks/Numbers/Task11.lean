import Tasks.Kit.Pipe
import Tasks.Kit.Semaphore

/-! Module 3, Task 11: the reader counts itself in and out, and the first one in takes the file from
the writer, who waits for it only with a number from the pipe in hand. -/
namespace Tasks.Numbers.Task11

open Kit

/-- Where the reader is in its loop; `failed` is on the way out after `fopen` failed. -/
inductive Reading where
  | idle
  | entering
  | claiming
  | admitted
  | opening
  | writing
  | leaving (failed : Bool)
  | uncounting (failed : Bool)
  | releasing (failed : Bool)
  | departing (failed : Bool)
  | quitting
  | gone
  deriving DecidableEq, Repr

inductive Writing where
  | reading
  | waiting
  | appending
  | leaving
  | failing
  deriving DecidableEq, Repr

structure System where
  readersMutex : Nat
  resourceMutex : Nat
  readersCount : Int
  reader : Reading
  writer : Writing
  /-- The writer is no more. -/
  ended : Bool
  pipe : List Int
  receivedNumber : Int
  /-- The content of `number.txt`, as far as it was appended. -/
  file : List Int
  deriving DecidableEq, Repr

def System.start (readersMutex resourceMutex : Nat) (receivedNumber : Int) : System :=
  ⟨readersMutex, resourceMutex, 0, .idle, .reading, false, [], receivedNumber, []⟩

inductive Event where
  | enter
  | count
  | claim
  | proceed
  | readFile
  | openFails
  | write (random : Int)
  | writeFails
  | brokenPipe
  | leave
  | uncount
  | release
  | depart
  | exit
  | killReader
  | read
  | readFails
  | wait
  | append
  | appendFails
  | post
  | postAndExit
  | killWriter
  deriving DecidableEq, Repr

def Event.writes : Event → List Int
  | .write random => [random]
  | _ => []

inductive Step (capacity : Nat) (s : System) : Event → System → Prop where
  | enter (here : s.reader = .idle) (taken : semWait s.readersMutex = some m) :
      Step capacity s .enter { s with reader := .entering, readersMutex := m }
  | count (here : s.reader = .entering) :
      Step capacity s .count { s with
        readersCount := s.readersCount + 1
        reader := if s.readersCount + 1 = 1 then .claiming else .admitted }
  | claim (here : s.reader = .claiming) (taken : semWait s.resourceMutex = some m) :
      Step capacity s .claim { s with reader := .admitted, resourceMutex := m }
  | proceed (here : s.reader = .admitted) :
      Step capacity s .proceed { s with reader := .opening, readersMutex := semPost s.readersMutex }
  | readFile (here : s.reader = .opening) : Step capacity s .readFile { s with reader := .writing }
  | openFails (here : s.reader = .opening) :
      Step capacity s .openFails { s with reader := .leaving true }
  | write (random : Int) (here : s.reader = .writing) (alive : s.ended = false)
      (room : s.pipe.length < capacity) :
      Step capacity s (.write random)
        { s with reader := .leaving false, pipe := s.pipe ++ [random] }
  | writeFails (here : s.reader = .writing) :
      Step capacity s .writeFails { s with reader := .leaving false }
  /-- Writing into a pipe that nobody reads raises `SIGPIPE`. -/
  | brokenPipe (here : s.reader = .writing) (unread : s.ended = true) :
      Step capacity s .brokenPipe { s with reader := .gone }
  | leave (here : s.reader = .leaving failed) (taken : semWait s.readersMutex = some m) :
      Step capacity s .leave { s with reader := .uncounting failed, readersMutex := m }
  | uncount (here : s.reader = .uncounting failed) :
      Step capacity s .uncount { s with
        readersCount := s.readersCount - 1
        reader := if s.readersCount - 1 = 0 then .releasing failed else .departing failed }
  | release (here : s.reader = .releasing failed) :
      Step capacity s .release
        { s with reader := .departing failed, resourceMutex := semPost s.resourceMutex }
  | depart (here : s.reader = .departing failed) :
      Step capacity s .depart { s with
        reader := if failed then .quitting else .idle
        readersMutex := semPost s.readersMutex }
  | exit (here : s.reader = .quitting) : Step capacity s .exit { s with reader := .gone }
  | killReader (alive : s.reader ≠ .gone) : Step capacity s .killReader { s with reader := .gone }
  | read (alive : s.ended = false) (here : s.writer = .reading) (more : s.pipe = number :: rest) :
      Step capacity s .read
        { s with writer := .waiting, pipe := rest, receivedNumber := number }
  /-- At the end of the pipe `read` returns 0 and `receivedNumber` stays as it is. -/
  | readEnd (alive : s.ended = false) (here : s.writer = .reading) (empty : s.pipe = [])
      (closed : s.reader = .gone) :
      Step capacity s .read { s with writer := .waiting }
  | readFails (alive : s.ended = false) (here : s.writer = .reading) :
      Step capacity s .readFails { s with ended := true }
  | wait (alive : s.ended = false) (here : s.writer = .waiting)
      (taken : semWait s.resourceMutex = some m) :
      Step capacity s .wait { s with writer := .appending, resourceMutex := m }
  | append (alive : s.ended = false) (here : s.writer = .appending) :
      Step capacity s .append { s with writer := .leaving, file := s.file ++ [s.receivedNumber] }
  | appendFails (alive : s.ended = false) (here : s.writer = .appending) :
      Step capacity s .appendFails { s with writer := .failing }
  | post (alive : s.ended = false) (here : s.writer = .leaving) :
      Step capacity s .post
        { s with writer := .reading, resourceMutex := semPost s.resourceMutex }
  | postAndExit (alive : s.ended = false) (here : s.writer = .failing) :
      Step capacity s .postAndExit { s with ended := true, resourceMutex := semPost s.resourceMutex }
  | killWriter (alive : s.ended = false) : Step capacity s .killWriter { s with ended := true }

variable {capacity : Nat} {s t : System} {event : Event}

section Belt

def Writing.holdsNumber : Writing → Bool
  | .waiting | .appending | .failing => true
  | .reading | .leaving => false

def System.belt (s : System) : Belt Int :=
  ⟨s.pipe, if s.writer.holdsNumber then [s.receivedNumber] else [], s.file⟩

def System.Careful (s : System) (event : Event) : Prop := event = .read → s.pipe ≠ []

theorem silence (trace : Trace (Step capacity) s steps t) (closed : s.reader = .gone) :
    written Event.writes steps = [] ∧ t.reader = .gone := by
  induction trace with
  | nil => exact ⟨rfl, closed⟩
  | snoc _ last ih =>
    obtain ⟨none, closed⟩ := ih
    cases last with
    | enter here | count here | claim here | proceed here | readFile here | openFails here
    | write _ here | writeFails here | brokenPipe here | leave here | uncount here | release here
    | depart here | exit here => simp [closed] at here
    | killReader alive => exact absurd closed alive
    | read | readEnd | readFails | wait | append | appendFails | post | postAndExit | killWriter =>
      exact ⟨by simp [none, Event.writes], closed⟩

theorem step_moves (step : Step capacity s event t) (careful : s.Careful event) :
    s.belt.Moves event.writes t.belt := by
  cases step with
  | enter | count | claim | proceed | readFile | openFails | writeFails | brokenPipe | leave
  | uncount | release | depart | exit | killReader | readFails | killWriter | postAndExit => exact .rest
  | write random => exact .write random
  | read alive here more => exact .take (by simp [System.belt, here, Writing.holdsNumber]) more
  | readEnd alive here empty => exact absurd empty (careful rfl)
  | append alive here =>
    have files := Belt.Moves.file (b := s.belt)
    have hand : s.belt.hand = [s.receivedNumber] := by
      simp [System.belt, here, Writing.holdsNumber]
    rwa [hand] at files
  | wait alive here | appendFails alive here | post alive here =>
    have rests := Belt.Moves.rest (b := s.belt)
    simpa [System.belt, here, Writing.holdsNumber, Event.writes] using rests

/-- At the end of the pipe the reader is gone, and the writer takes its last number once more. -/
theorem careless_step (step : Step capacity s event t) (careless : ¬ s.Careful event) :
    event.writes = [] ∧ s.belt.Invents t.belt ∧ t.reader = .gone := by
  simp only [System.Careful, Classical.not_imp, not_not] at careless
  obtain ⟨rfl, empty⟩ := careless
  cases step with
  | read alive here more => simp [more] at empty
  | readEnd alive here _ closed =>
    have free : s.belt.hand = [] := by simp [System.belt, here, Writing.holdsNumber]
    exact ⟨rfl, ⟨free, empty, s.receivedNumber, rfl⟩, closed⟩

theorem conveys (capacity : Nat) :
    Conveys (Step capacity) System.belt Event.writes System.Careful where
  moves := fun _ _ _ step careful => step_moves step careful
  invents := by
    intro s event t step careless
    obtain ⟨silent, invents, _⟩ := careless_step step careless
    exact ⟨silent, invents⟩
  closed := by
    intro s event t steps u step careless later
    obtain ⟨_, _, closed⟩ := careless_step step careless
    exact (silence later closed).1

end Belt

end Tasks.Numbers.Task11
