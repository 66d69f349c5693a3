import Tasks.Numbers.Sections
import Tasks.Kit.Pipe

/-! The ways out of the loops of Tasks 9 and 10: the writer's own errors, a pipe without its other
end, and signals that kill a process wherever it is. -/
namespace Tasks.Numbers

open Kit

/-- What the end of a process means for the semaphores of a program. -/
structure Ends (σ : Type) (n : Nat) where
  /-- What the kernel does to them when a process is killed. -/
  killed : σ → Proc n → σ
  /-- What the writer does to them before it exits on an error. -/
  writerFails : σ → σ
  /-- Whether a reader leaves its loop when `write` fails. -/
  leaves : Bool

structure Session (σ : Type) (n : Nat) where
  system : System σ n
  /-- The writer is no more. -/
  ended : Bool

namespace Session

variable {σ : Type} {n : Nat}

def start (lock : σ) (receivedNumber : Int) : Session σ n := ⟨.start lock receivedNumber [], false⟩

def Inside (s : Session σ n) : Proc n → Prop
  | some i => s.system.Inside (some i)
  | none => s.ended = false ∧ s.system.Inside none

end Session

inductive Event (n : Nat) where
  | act (action : Action n)
  | writeFails (i : Fin n)
  | brokenPipe (i : Fin n)
  | writerFails
  | kill (p : Proc n)
  deriving DecidableEq, Repr

def Event.writes : Event n → List Int
  | .act (.write _ random) => [random]
  | _ => []

/-- What a step needs of the writer: that it takes the step, or that the pipe still has its end. -/
def Action.needsWriter : Action n → Bool
  | .write .. | .startWrite | .poll | .read | .append | .endWrite => true
  | .startRead _ | .readFile _ | .openFails _ | .endRead _ | .exit _ => false

variable {σ : Type} {n : Nat}

inductive Session.Step (lock : Lock σ n) (ends : Ends σ n) (capacity : Nat) (s : Session σ n) :
    Event n → Session σ n → Prop where
  | act (alive : action.needsWriter → s.ended = false)
      (step : Numbers.Step lock capacity s.system action t) :
      Step lock ends capacity s (.act action) { s with system := t }
  | writeFails (i : Fin n) (here : s.system.reader i = .writing) :
      Step lock ends capacity s (.writeFails i) { s with
        system := if ends.leaves then
            { s.system.readerTo i .quitting with lock := lock.giveUp s.system.lock i }
          else s.system.readerTo i .leaving }
  /-- Writing into a pipe that nobody reads raises `SIGPIPE`. -/
  | brokenPipe (i : Fin n) (here : s.system.reader i = .writing) (unread : s.ended = true) :
      Step lock ends capacity s (.brokenPipe i) { s with
        system := { s.system.readerTo i .gone with lock := ends.killed s.system.lock (some i) } }
  /-- `read` or `fopen` failed. -/
  | writerFails (here : s.system.writer = .reading ∨ s.system.writer = .appending)
      (alive : s.ended = false) :
      Step lock ends capacity s .writerFails
        ⟨{ s.system with lock := ends.writerFails s.system.lock }, true⟩
  | killReader (i : Fin n) (alive : s.system.reader i ≠ .gone) :
      Step lock ends capacity s (.kill (some i)) { s with
        system := { s.system.readerTo i .gone with lock := ends.killed s.system.lock (some i) } }
  | killWriter (alive : s.ended = false) :
      Step lock ends capacity s (.kill none)
        ⟨{ s.system with lock := ends.killed s.system.lock none }, true⟩

/-- Semaphores taken with `SEM_UNDO` are given back by the kernel, however a process ends. -/
def Task9.ends (n : Nat) : Ends (Task9.SemSet n) n where
  killed semid p := semid.exit p
  writerFails semid := semid.exit none
  leaves := false

/-- A named semaphore stays as it is when a process is killed. -/
def Task10.ends : Ends Nat 1 where
  killed sem _ := sem
  writerFails sem := semPost sem
  leaves := true

section Belt

variable {lock : Lock σ n} {ends : Ends σ n} {capacity : Nat}

def System.belt (s : System σ n) : Belt Int :=
  ⟨s.pipe, if s.writer = .appending then [s.receivedNumber] else [], s.file⟩

def Session.Careful (s : Session σ n) (event : Event n) : Prop :=
  event = .act .read → s.system.pipe ≠ []

theorem belt_same {s t : System σ n} (pipe : t.pipe = s.pipe) (file : t.file = s.file)
    (free : s.writer ≠ .appending) (free' : t.writer ≠ .appending) : s.belt.Moves [] t.belt := by
  have same : t.belt = s.belt := by simp [System.belt, pipe, file, free, free']
  rw [same]
  exact .rest

theorem step_moves {s t : System σ n} (step : Step lock capacity s action t)
    (careful : action = .read → s.pipe ≠ []) :
    s.belt.Moves (Event.act action).writes t.belt := by
  cases step with
  | startRead | readFile | openFails | endRead | exit => exact .rest
  | write i random here room => exact .write random
  | startWrite here taken =>
    refine belt_same rfl rfl (by simp [here]) ?_
    dsimp only
    split <;> simp
  | poll here unread => exact belt_same rfl rfl (by simp [here]) (by simp)
  | read here more => exact .take (by simp [System.belt, here]) more
  | readEnd here empty closed => exact absurd empty (careful rfl)
  | append here =>
    have files := Belt.Moves.file (b := s.belt)
    rwa [show s.belt.hand = [s.receivedNumber] by simp [System.belt, here]] at files
  | endWrite here given => exact belt_same rfl rfl (by simp [here]) (by simp)

theorem silence {s t : Session σ n} (trace : Trace (Session.Step lock ends capacity) s steps t)
    (closed : ∀ i, s.system.reader i = .gone) :
    written Event.writes steps = [] ∧ ∀ i, t.system.reader i = .gone := by
  induction trace with
  | nil => exact ⟨rfl, closed⟩
  | snoc _ last ih =>
    obtain ⟨none, closed⟩ := ih
    cases last with
    | act alive step =>
      cases step with
      | startRead i here | readFile i here | openFails i here | write i _ here | endRead i here
      | exit i here => simp [closed i] at here
      | startWrite | poll | read | readEnd | append | endWrite =>
        exact ⟨by simp [none, Event.writes], closed⟩
    | writeFails i here | brokenPipe i here => simp [closed i] at here
    | killReader i alive => exact absurd (closed i) alive
    | writerFails | killWriter => exact ⟨by simp [none, Event.writes], closed⟩

/-- At the end of the pipe the readers are gone, and the writer takes its last number once more. -/
theorem careless_step {s t : Session σ n} (step : Session.Step lock ends capacity s event t)
    (careless : ¬ s.Careful event) :
    event.writes = [] ∧ s.system.belt.Invents t.system.belt ∧ ∀ i, t.system.reader i = .gone := by
  simp only [Session.Careful, Classical.not_imp, not_not] at careless
  obtain ⟨rfl, empty⟩ := careless
  cases step with
  | act alive step =>
    cases step with
    | read here more => simp [more] at empty
    | readEnd here _ closed =>
      have free : s.system.belt.hand = [] := by simp [System.belt, here]
      exact ⟨rfl, ⟨free, empty, s.system.receivedNumber, rfl⟩, closed⟩

/-- Both programs convey what their readers write, except for reads at the end of the pipe. -/
theorem session_conveys (lock : Lock σ n) (ends : Ends σ n) (capacity : Nat) :
    Conveys (Session.Step lock ends capacity) (fun s => s.system.belt) Event.writes
      Session.Careful where
  moves := by
    intro s event t step careful
    cases step with
    | act alive step => exact step_moves step fun read => careful (congrArg _ read)
    | writeFails i here =>
      have same : (if ends.leaves then
          { s.system.readerTo i .quitting with lock := lock.giveUp s.system.lock i }
          else s.system.readerTo i .leaving).belt = s.system.belt := by
        split <;> rfl
      dsimp only
      rw [same]
      exact .rest
    | brokenPipe | writerFails | killReader | killWriter => exact .rest
  invents := by
    intro s event t step careless
    obtain ⟨silent, invents, _⟩ := careless_step step careless
    exact ⟨silent, invents⟩
  closed := by
    intro s event t steps u step careless later
    obtain ⟨_, _, closed⟩ := careless_step step careless
    exact (silence later closed).1

end Belt

end Tasks.Numbers
