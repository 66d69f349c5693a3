import Tasks.Kit.Run
import Tasks.Kit.Semaphore
import Mathlib.Data.Fin.VecNotation
import Mathlib.Data.Fin.Tuple.Basic

/-! Module 3, Tasks 9 and 10: readers of `number.txt` and the writer behind a pipe, which is both
filled and emptied inside the sections. The two programs differ in their semaphores. -/
namespace Tasks.Numbers

open Kit

/-- The writer is `none`. -/
abbrev Proc (n : Nat) := Option (Fin n)

/-- Where a reader is in its loop, or on the way out after `fopen` failed. -/
inductive Reading where
  | idle
  | opening
  | writing
  | leaving
  | quitting
  | gone
  deriving DecidableEq, Repr

inductive Writing where
  | idle
  | polling
  | reading
  | appending
  | leaving
  deriving DecidableEq, Repr

/-- What a program calls around its sections; `none` is waiting. -/
structure Lock (σ : Type) (n : Nat) where
  startRead : σ → Fin n → Option σ
  endRead : σ → Fin n → Option σ
  startWrite : σ → Option σ
  polls : Bool
  /-- What the writer polls for. -/
  unread : σ → Bool
  endWrite : σ → Option σ
  /-- What becomes of the semaphores when a reader gives up inside its section. -/
  giveUp : σ → Fin n → σ

structure System (σ : Type) (n : Nat) where
  lock : σ
  reader : Fin n → Reading
  writer : Writing
  pipe : List Int
  receivedNumber : Int
  /-- The content of `number.txt`, as far as it was appended. -/
  file : List Int

namespace System

variable {σ : Type} {n : Nat}

def start (lock : σ) (receivedNumber : Int) (file : List Int) : System σ n :=
  ⟨lock, fun _ => .idle, .idle, [], receivedNumber, file⟩

def readerTo (s : System σ n) (i : Fin n) (point : Reading) : System σ n :=
  { s with reader := Function.update s.reader i point }

def Inside (s : System σ n) : Proc n → Prop
  | some i => s.reader i = .opening ∨ s.reader i = .writing ∨ s.reader i = .leaving
  | none => s.writer ≠ .idle

instance (s : System σ n) : DecidablePred s.Inside
  | some _ => inferInstanceAs (Decidable (_ ∨ _))
  | none => inferInstanceAs (Decidable (_ ≠ _))

end System

inductive Action (n : Nat) where
  | startRead (i : Fin n)
  | readFile (i : Fin n)
  | openFails (i : Fin n)
  | write (i : Fin n) (random : Int)
  | endRead (i : Fin n)
  | exit (i : Fin n)
  | startWrite
  | poll
  | read
  | append
  | endWrite
  deriving DecidableEq, Repr

variable {σ : Type} {n : Nat}

/-- One step of one process; `capacity` is how many numbers the pipe holds. -/
inductive Step (lock : Lock σ n) (capacity : Nat) (s : System σ n) : Action n → System σ n → Prop where
  | startRead (i : Fin n) (here : s.reader i = .idle) (taken : lock.startRead s.lock i = some l) :
      Step lock capacity s (.startRead i) { s.readerTo i .opening with lock := l }
  | readFile (i : Fin n) (here : s.reader i = .opening) :
      Step lock capacity s (.readFile i) (s.readerTo i .writing)
  | openFails (i : Fin n) (here : s.reader i = .opening) :
      Step lock capacity s (.openFails i) { s.readerTo i .quitting with lock := lock.giveUp s.lock i }
  | write (i : Fin n) (random : Int) (here : s.reader i = .writing) (room : s.pipe.length < capacity) :
      Step lock capacity s (.write i random)
        { s.readerTo i .leaving with pipe := s.pipe ++ [random] }
  | endRead (i : Fin n) (here : s.reader i = .leaving) (given : lock.endRead s.lock i = some l) :
      Step lock capacity s (.endRead i) { s.readerTo i .idle with lock := l }
  /-- The end of the process closes its end of the pipe. -/
  | exit (i : Fin n) (here : s.reader i = .quitting) :
      Step lock capacity s (.exit i) (s.readerTo i .gone)
  | startWrite (here : s.writer = .idle) (taken : lock.startWrite s.lock = some l) :
      Step lock capacity s .startWrite
        { s with lock := l, writer := if lock.polls then .polling else .reading }
  | poll (here : s.writer = .polling) (unread : lock.unread s.lock) :
      Step lock capacity s .poll { s with writer := .reading }
  | read (here : s.writer = .reading) (more : s.pipe = number :: rest) :
      Step lock capacity s .read
        { s with writer := .appending, pipe := rest, receivedNumber := number }
  /-- At the end of the pipe `read` returns 0 and `receivedNumber` stays as it is. -/
  | readEnd (here : s.writer = .reading) (empty : s.pipe = []) (closed : ∀ i, s.reader i = .gone) :
      Step lock capacity s .read { s with writer := .appending }
  | append (here : s.writer = .appending) :
      Step lock capacity s .append { s with writer := .leaving, file := s.file ++ [s.receivedNumber] }
  | endWrite (here : s.writer = .leaving) (given : lock.endWrite s.lock = some l) :
      Step lock capacity s .endWrite { s with writer := .idle, lock := l }

def Next (lock : Lock σ n) (capacity : Nat) (s t : System σ n) : Prop :=
  ∃ action, Step lock capacity s action t

namespace Task9

/-- Semaphore 0 admits to the sections, semaphore 1 counts the readers inside. -/
abbrev SemSet (n : Nat) := Semaphores (Fin 2) (Proc n)

def initSemaphores (semid : SemSet n) : SemSet n := (semid.setval 0 1).setval 1 0

def startRead (semid : SemSet n) (i : Fin n) : Option (SemSet n) :=
  semid.semop (some i) [⟨0, -1⟩, ⟨1, 1⟩]

def endRead (semid : SemSet n) (i : Fin n) : Option (SemSet n) :=
  semid.semop (some i) [⟨1, -1⟩, ⟨0, 1⟩]

/-- The first half of `startWrite`; the other is the polling for no readers. -/
def startWrite (semid : SemSet n) : Option (SemSet n) := semid.semop none [⟨0, -1⟩]

def endWrite (semid : SemSet n) : Option (SemSet n) := semid.semop none [⟨0, 1⟩]

def lock (n : Nat) : Lock (SemSet n) n where
  startRead := startRead
  endRead := endRead
  startWrite := startWrite
  polls := true
  unread semid := semid.val 1 = 0
  endWrite := endWrite
  giveUp semid i := semid.exit (some i)

end Task9

namespace Task10

/-- One reader and one semaphore, which is posted before an error exit too. -/
def lock : Lock Nat 1 where
  startRead sem _ := semWait sem
  endRead sem _ := some (semPost sem)
  startWrite := semWait
  polls := false
  unread _ := true
  endWrite sem := some (semPost sem)
  giveUp sem _ := semPost sem

end Task10

end Tasks.Numbers
