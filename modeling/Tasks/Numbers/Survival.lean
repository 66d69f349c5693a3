import Tasks.Kit.NamedSemaphore
import Tasks.Numbers.Ends
import Tasks.Numbers.Exclusion
import Tasks.Numbers.Task11

/-! The semaphores of Tasks 10 and 11 after runs that were killed: at one, unless a process ended
between its `sem_wait` and its `sem_post`. -/
namespace Tasks.Numbers

open Kit

namespace Task10

/-- How `main` can end before its fork. -/
inductive Early (names : Unit → Option Nat) : (Unit → Option Nat) → Prop where
  | unopened : Early names names
  | opened : Early names fun i => some (Program.opened names i)
  /-- `pipe` or `fork` failed. -/
  | unlinked : Early names fun _ => none

/-- No process ends inside its section, neither by a signal nor by the broken pipe. -/
def Clean (s : Session Nat 1) : Event 1 → Prop
  | .kill p => ¬ s.Inside p
  | .brokenPipe _ => False
  | _ => True

def program (capacity : Nat) : Program Unit (Session Nat 1) (Event 1) where
  early := Early
  forked sems s := ∃ receivedNumber, s = .start (sems ()) receivedNumber
  step := Session.Step Task10.lock Task10.ends capacity
  ended s := s.ended = true ∧ s.system.reader 0 = .gone
  sems s _ := s.system.lock
  clean := Clean

def readerHolds : Reading → Nat
  | .opening | .writing | .leaving => 1
  | .idle | .quitting | .gone => 0

def writerHolds : Writing → Nat
  | .polling | .reading | .appending | .leaving => 1
  | .idle => 0

def balance (s : Session Nat 1) : Nat :=
  s.system.lock + readerHolds (s.system.reader 0) + if s.ended then 0 else writerHolds s.system.writer

variable {capacity : Nat} {s t : Session Nat 1} {event : Event 1}

theorem balance_reader (s : Session Nat 1) (i : Fin 1) (point : Reading) (sem : Nat) :
    balance { s with system := { s.system.readerTo i point with lock := sem } } =
      sem + readerHolds point + if s.ended then 0 else writerHolds s.system.writer := by
  obtain rfl : i = 0 := Subsingleton.elim ..
  simp [balance, System.readerTo]

theorem balance_at (s : Session Nat 1) (i : Fin 1) (here : s.system.reader i = point) :
    balance s = s.system.lock + readerHolds point + if s.ended then 0 else writerHolds s.system.writer := by
  obtain rfl : i = 0 := Subsingleton.elim ..
  rw [← here, balance]

theorem balance_writer (s : Session Nat 1) (alive : s.ended = false) :
    balance s = s.system.lock + readerHolds (s.system.reader 0) + writerHolds s.system.writer := by
  rw [balance, alive]
  rfl

theorem act_balance {u : System Nat 1} (step : Step Task10.lock capacity s.system action u)
    (alive : action.needsWriter → s.ended = false) : balance { s with system := u } = balance s := by
  cases step with
  | startRead i here taken =>
    have spent := semWait_eq taken
    rw [balance_reader, balance_at s i here, spent]
    simp [readerHolds, semPost]
  | readFile i here =>
    rw [balance_at s i here]
    exact balance_reader s i .writing s.system.lock
  | openFails i here =>
    rw [balance_reader, balance_at s i here]
    rfl
  | write i random here room =>
    rw [balance_at s i here]
    exact balance_reader s i .leaving s.system.lock
  | endRead i here given =>
    cases given
    rw [balance_reader, balance_at s i here]
    rfl
  | exit i here =>
    rw [balance_at s i here]
    exact balance_reader s i .gone s.system.lock
  | startWrite here taken =>
    have awake : s.ended = false := alive rfl
    have spent := semWait_eq taken
    rw [balance_writer s awake, here, spent]
    simp [balance, awake, writerHolds, Task10.lock, semPost]
    omega
  | poll here | read here | readEnd here | append here =>
    have awake : s.ended = false := alive rfl
    rw [balance_writer s awake, here]
    simp [balance, awake, writerHolds]
  | endWrite here given =>
    have awake : s.ended = false := alive rfl
    cases given
    rw [balance_writer s awake, here]
    simp [balance, awake, writerHolds, semPost]
    omega

def lost (s : Session Nat 1) : Event 1 → Nat
  | .kill (some i) => readerHolds (s.system.reader i)
  | .kill none => writerHolds s.system.writer
  | .brokenPipe _ => 1
  | _ => 0

theorem step_balance (step : Session.Step Task10.lock Task10.ends capacity s event t) :
    balance t + lost s event = balance s := by
  cases step with
  | act alive step => exact act_balance step alive
  | writeFails i here =>
    rw [balance_at s i here]
    exact balance_reader s i .quitting (semPost s.system.lock)
  | brokenPipe i here unread =>
    rw [balance_reader, balance_at s i here]
    simp [readerHolds, lost, Task10.ends]
    omega
  | writerFails here alive => 
    have holds : writerHolds s.system.writer = 1 := by rcases here with here | here <;> rw [here] <;> rfl
    rw [balance_writer s alive, holds]
    simp [balance, lost, Task10.ends, semPost]
    omega
  | killReader i alive =>
    rw [balance_reader, balance_at s i rfl]
    simp [readerHolds, lost, Task10.ends]
    omega
  | killWriter alive => 
    rw [balance_writer s alive]
    simp [balance, lost, Task10.ends]

theorem clean_iff (step : Session.Step Task10.lock Task10.ends capacity s event t) :
    Clean s event ↔ lost s event = 0 := by
  cases step with
  | act | writeFails | writerFails => simp [Clean, lost]
  | brokenPipe => simp [Clean, lost]
  | killReader i =>
    cases here : s.system.reader i <;>
      simp [Clean, lost, Session.Inside, System.Inside, here, readerHolds]
  | killWriter alive =>
    cases here : s.system.writer <;>
      simp [Clean, lost, Session.Inside, System.Inside, here, writerHolds, alive]

theorem accounts (capacity : Nat) :
    (program capacity).Accounts (fun s _ => balance s) fun _ => True where
  early := by
    intro names names' i early
    cases early with
    | unopened => exact .inl rfl
    | opened => exact .inr (.inl rfl)
    | unlinked => exact .inr (.inr rfl)
  forked := by
    rintro sems s ⟨receivedNumber, rfl⟩
    exact ⟨trivial, fun _ => rfl⟩
  kept := fun _ _ _ _ _ => trivial
  clean := by
    intro s event t _ step clean _
    have whole := step_balance step
    rwa [(clean_iff step).mp clean, Nat.add_zero] at whole
  unclean := by
    intro s event t _ step soiled
    have whole := step_balance step
    have some := mt (clean_iff step).mpr soiled
    exact ⟨fun _ => by omega, (), by omega⟩
  ended := by
    rintro s ⟨ended, gone⟩ _
    simp [balance, ended, gone, readerHolds, program]

end Task10

namespace Task11

inductive Name where
  | readersMutex
  | resourceMutex
  deriving DecidableEq, Repr

def names (readersMutex resourceMutex : Option Nat) : Name → Option Nat
  | .readersMutex => readersMutex
  | .resourceMutex => resourceMutex

inductive Early (found : Name → Option Nat) : (Name → Option Nat) → Prop where
  | unopened : Early found found
  | readers : Early found
      (names (some (Program.opened found .readersMutex)) (found .resourceMutex))
  | resource : Early found
      (names (found .readersMutex) (some (Program.opened found .resourceMutex)))
  | opened : Early found fun i => some (Program.opened found i)
  /-- Killed between the two calls of `sem_unlink`. -/
  | half : Early found (names none (some (Program.opened found .resourceMutex)))
  /-- `pipe` or `fork` failed. -/
  | unlinked : Early found fun _ => none

def Reading.holds : Reading → Name → Bool
  | .entering, .readersMutex | .claiming, .readersMutex | .admitted, _ => true
  | .opening, .resourceMutex | .writing, .resourceMutex | .leaving _, .resourceMutex => true
  | .uncounting _, _ | .releasing _, _ | .departing _, .readersMutex => true
  | _, _ => false

def Writing.holds : Writing → Name → Bool
  | .appending, .resourceMutex | .leaving, .resourceMutex | .failing, .resourceMutex => true
  | _, _ => false

/-- No process ends with a semaphore in hand, neither by a signal nor by the broken pipe. -/
def Clean (s : System) : Event → Prop
  | .killReader => ∀ name, s.reader.holds name = false
  | .killWriter => ∀ name, s.writer.holds name = false
  | .brokenPipe => False
  | _ => True

def System.sem (s : System) : Name → Nat
  | .readersMutex => s.readersMutex
  | .resourceMutex => s.resourceMutex

def program (capacity : Nat) : Program Name System Event where
  early := Early
  forked sems s := ∃ receivedNumber,
    s = .start (sems .readersMutex) (sems .resourceMutex) receivedNumber
  step := Step capacity
  ended s := s.ended = true ∧ s.reader = .gone
  sems := System.sem
  clean := Clean

def System.balance (s : System) (name : Name) : Nat :=
  s.sem name + (s.reader.holds name).toNat + if s.ended then 0 else (s.writer.holds name).toNat

/-- The reader has counted itself in between the two steps that change the count. -/
def Counted (s : System) : Prop :=
  match s.reader with
  | .idle | .entering | .releasing _ | .departing _ => s.readersCount = 0
  | .claiming | .admitted | .opening | .writing | .leaving _ | .uncounting _ => s.readersCount = 1
  | .quitting | .gone => True

def lost (s : System) (name : Name) : Event → Nat
  | .killReader | .brokenPipe => (s.reader.holds name).toNat
  | .killWriter => (s.writer.holds name).toNat
  | _ => 0

theorem step_counted (counted : Counted s) (step : Step capacity s event t) : Counted t := by
  cases step with
  | enter here | count here | claim here | proceed here | readFile here | openFails here
  | write _ here | writeFails here | leave here | uncount here | release here =>
    simp [Counted, here] at counted ⊢
    simp [counted]
  | @depart failed here =>
    simp [Counted, here] at counted
    cases failed <;> simp [Counted, counted]
  | brokenPipe | exit | killReader => trivial
  | read | readEnd | readFails | wait | append | appendFails | post | postAndExit | killWriter =>
    exact counted

theorem step_balance (counted : Counted s) (step : Step capacity s event t) (name : Name) :
    t.balance name + lost s name event = s.balance name := by
  cases step with
  | enter here taken | leave here taken | claim here taken =>
    have spent := semWait_eq taken
    cases name <;> simp [System.balance, System.sem, here, Reading.holds, lost, spent, semPost]
  | count here | uncount here =>
    simp only [Counted, here] at counted
    cases name <;> simp [System.balance, System.sem, here, Reading.holds, lost, counted]
  | proceed here | release here =>
    cases name <;> simp [System.balance, System.sem, here, Reading.holds, lost, semPost]
  | @depart failed here =>
    cases failed <;> cases name <;>
      simp [System.balance, System.sem, here, Reading.holds, lost, semPost]
  | readFile here | openFails here | write _ here | writeFails here | exit here =>
    cases name <;> simp [System.balance, System.sem, here, Reading.holds, lost]
  | brokenPipe here =>
    cases name <;> simp [System.balance, System.sem, here, Reading.holds, lost]
    omega
  | killReader => 
    cases name <;> simp [System.balance, System.sem, Reading.holds, lost] <;> omega
  | read alive here | readEnd alive here | append alive here | appendFails alive here | readFails alive here =>
    cases name <;> simp [System.balance, System.sem, here, Writing.holds, lost]
  | wait alive here taken =>
    have spent := semWait_eq taken
    cases name <;> simp [System.balance, System.sem, here, Writing.holds, lost, spent, semPost, alive]
    omega
  | post alive here | postAndExit alive here =>
    cases name <;> simp [System.balance, System.sem, here, Writing.holds, lost, semPost, alive]
    omega
  | killWriter alive => 
    cases name <;> simp [System.balance, System.sem, lost, alive]

theorem clean_iff (step : Step capacity s event t) :
    Clean s event ↔ ∀ name, lost s name event = 0 := by
  cases step with
  | killReader | killWriter => simp [Clean, lost]
  | brokenPipe here =>
    simp only [Clean, lost, here, false_iff, not_forall]
    exact ⟨.resourceMutex, by simp [Reading.holds]⟩
  | enter | count | claim | proceed | readFile | openFails | write | writeFails | leave | uncount
  | release | depart | exit | read | readEnd | readFails | wait | append | appendFails | post
  | postAndExit => simp [Clean, lost]

theorem accounts (capacity : Nat) : (program capacity).Accounts System.balance Counted where
  early := by
    intro found left name early
    cases early with
    | unopened => exact .inl rfl
    | opened => exact .inr (.inl rfl)
    | unlinked => exact .inr (.inr rfl)
    | readers => cases name <;> simp [names]
    | resource => cases name <;> simp [names]
    | half => cases name <;> simp [names]
  forked := by
    rintro sems s ⟨receivedNumber, rfl⟩
    refine ⟨rfl, fun name => ?_⟩
    cases name <;> simp [System.balance, System.start, System.sem, Reading.holds, Writing.holds]
  kept := fun _ _ _ counted step => step_counted counted step
  clean := by
    intro s event t counted step clean name
    have whole := step_balance counted step name
    rwa [(clean_iff step).mp clean name, Nat.add_zero] at whole
  unclean := by
    intro s event t counted step soiled
    have whole := step_balance counted step
    obtain ⟨name, some⟩ := not_forall.mp (mt (clean_iff step).mpr soiled)
    refine ⟨fun name => ?_, name, ?_⟩
    · have one := whole name
      omega
    · have one := whole name
      omega
  ended := by
    rintro s ⟨ended, gone⟩ name
    cases name <;> simp [System.balance, ended, gone, Reading.holds, program]

end Task11

/-- A semaphore is at one for the next run unless a process of an earlier run ended between its
`sem_wait` and its `sem_post`; then it is at zero until a run unlinks it. -/
theorem semaphores_survive_iff (capacity : Nat) :
    (Task10.program capacity).SurvivesIffClean ∧ (Task11.program capacity).SurvivesIffClean :=
  ⟨(Task10.accounts capacity).survives, (Task11.accounts capacity).survives⟩

/-- The writer of Task 10 waits for its first number when both processes are killed. -/
theorem killed_writer_locks_out :
    ¬ ∀ names, (Task10.program 16384).History (fun _ _ _ => True) (fun _ => none) names →
      ∀ name, Program.opened names name = 1 := by
  intro law
  have entered : Trace (Task10.program 16384).step (.start 1 0) _ _ :=
    .snoc .nil (.act (fun _ => rfl) (.startWrite rfl rfl))
  have killed := (entered.snoc (.killWriter rfl)).snoc (.killReader 0 (by decide))
  have run : (Task10.program 16384).Run (fun _ => none) _ _ :=
    .forked ⟨0, rfl⟩ killed ⟨rfl, rfl⟩
  exact absurd (law _ (.single ⟨_, run, trivial⟩) ()) (by decide)

end Tasks.Numbers
