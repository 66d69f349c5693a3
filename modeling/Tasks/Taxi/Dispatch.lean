import Tasks.Taxi.Network

/-! How events find their branches. `epoll` hands back the number that a source was registered
under, and numbers of queues and of descriptors are not from one series. -/
namespace Tasks.Taxi
open Kit

/-- What the kernel hands out: the CLI's queue, the queue of each driver, and the descriptor
of each timer that a driver opens. -/
structure Numbering where
  cliMq : Nat
  driverMq : Int → Nat
  timerFd : Int → Nat → Nat

def stdinFileno : Int := 0

/-- The branches that `main` runs for an event, one test after the other. -/
def cliBranches (cliMq key : Int) : List Source :=
  (if key = cliMq then [.queue] else []) ++ if key = stdinFileno then [.stdin] else []

def Numbering.key (ν : Numbering) : Source → Int
  | .queue => ν.cliMq
  | .stdin => stdinFileno

inductive Registered where
  | queue
  | timer
  deriving DecidableEq, Repr

def Driver.branch (d : Driver) (key : Int) : Option Registered :=
  if key = d.mqId then some .queue
  else if d.timerFd ≠ -1 ∧ key = d.timerFd then some .timer
  else none

def Driver.key (d : Driver) : Registered → Int
  | .queue => d.mqId
  | .timer => d.timerFd

/-- A driver with its queue and the number of timers it has opened. -/
structure Desk where
  driver : Driver
  queue : List DriverMsg
  opened : Nat

def Desk.start (ν : Numbering) (pid : Int) : Desk := ⟨.start pid (ν.driverMq pid), [], 0⟩

def Desk.handled (ν : Numbering) (s : Desk) (key : Int) : Desk :=
  let next := s.driver.handle s.queue key (ν.timerFd s.driver.pid s.opened)
  { driver := next.1
    queue := next.2.1
    opened := s.opened + match next.2.2 with
      | .accepted _ => 1
      | _ => 0 }

/-- A source can be reported: the queue at any time, a timer when it was set. -/
def Desk.Ready (s : Desk) : Registered → Prop
  | .queue => True
  | .timer => 0 < s.driver.timer

inductive Desk.Step (ν : Numbering) (s : Desk) : Desk → Prop where
  | arrive (msg : DriverMsg) : Desk.Step ν s { s with queue := s.queue ++ [msg] }
  | event (source : Registered) (ready : s.Ready source) :
      Desk.Step ν s (s.handled ν (s.driver.key source))

/-- Each event of each run is handled by the branch of its source and by no other. -/
structure Dispatched (ν : Numbering) : Prop where
  driver : ∀ pid s, Relation.ReflTransGen (Desk.Step ν) (.start ν pid) s →
    ∀ source, s.Ready source → s.driver.branch (s.driver.key source) = some source
  cli : ∀ source, cliBranches ν.cliMq (ν.key source) = [source]

section Branches

variable {ν : Numbering} {s : Desk} {d : Driver}

/-- The branches are those of the loop: the queue's takes a message, the timer's completes. -/
theorem handle_branch (d : Driver) (queue : List DriverMsg) (key : Int) (fd : Nat) :
    d.handle queue key fd = match d.branch key with
      | some .queue => match queue with
        | [] => (d, [], .ignored)
        | msg :: rest => ((d.receive msg fd).1, rest, (d.receive msg fd).2)
      | some .timer => (d.expire.1, queue, d.expire.2)
      | none => (d, queue, .ignored) := by
  unfold Driver.handle Driver.branch
  by_cases mine : key = d.mqId
  · cases queue with
    | nil => simp only [if_pos mine]
    | cons msg rest => simp only [if_pos mine]
  · by_cases late : d.timerFd ≠ -1 ∧ key = d.timerFd
    · simp only [if_neg mine, if_pos late]
    · simp only [if_neg mine, if_neg late]

theorem cli_dispatched (ν : Numbering) :
    (∀ source, cliBranches ν.cliMq (ν.key source) = [source]) ↔ ν.cliMq ≠ 0 := by
  constructor
  · intro right same
    have both := right .queue
    simp [cliBranches, Numbering.key, stdinFileno, same] at both
  · intro apart source
    have stdinApart : (0 : Int) ≠ ν.cliMq := by exact_mod_cast apart.symm
    cases source with
    | queue => simp [cliBranches, Numbering.key, stdinFileno, apart]
    | stdin => simp [cliBranches, Numbering.key, stdinFileno, stdinApart]

structure Numbered (ν : Numbering) (pid : Int) (d : Driver) : Prop where
  own : d.pid = pid
  mqId : d.mqId = ν.driverMq pid
  timer : (∃ n, d.timerFd = ν.timerFd pid n) ∨ d.timer = 0

/-- An event has the outcome of one branch of the loop. -/
theorem Desk.handled_cases (ν : Numbering) (s : Desk) (key : Int) :
    ∃ after, Handled s.driver key (ν.timerFd s.driver.pid s.opened) s.queue after ∧
      (s.handled ν key).driver = after.1 :=
  ⟨_, handle_handled _ _ _ _, rfl⟩

theorem step_numbered (numbered : Numbered ν pid s.driver) (step : Desk.Step ν s next) :
    Numbered ν pid next.driver := by
  cases step with
  | arrive msg => exact numbered
  | event source ready =>
    obtain ⟨own, mqId, timer⟩ := numbered
    obtain ⟨after, handled, same⟩ := s.handled_cases ν (s.driver.key source)
    rw [same]
    generalize s.queue = queue at handled
    cases handled with
    | idle | foreign | reject => exact ⟨own, mqId, timer⟩
    | accept => exact ⟨own, mqId, .inl ⟨s.opened, by rw [own]⟩⟩
    | complete => exact ⟨own, mqId, .inr rfl⟩

theorem timer_branch (opened : 0 ≤ d.timerFd) :
    d.branch (d.key .timer) = some .timer ↔ d.timerFd ≠ d.mqId := by
  have running : d.timerFd ≠ -1 := by omega
  unfold Driver.branch Driver.key
  by_cases same : d.timerFd = d.mqId
  · simp [same]
  · simp [same, running]

end Branches

section Rounds

variable {ν : Numbering} {s : Desk}

def freeDesk (ν : Numbering) (pid : Int) (n : Nat) : Desk := ⟨.start pid (ν.driverMq pid), [], n⟩

def busyDesk (ν : Numbering) (pid : Int) (n : Nat) : Desk where
  driver := ⟨pid, ν.driverMq pid, true, 1, ν.timerFd pid n, 1⟩
  queue := []
  opened := n + 1

theorem busy_timer (ν : Numbering) (pid : Int) (n : Nat) :
    Driver.branch (busyDesk ν pid n).driver (Driver.key (busyDesk ν pid n).driver .timer) =
      some .timer ↔ ν.timerFd pid n ≠ ν.driverMq pid :=
  (timer_branch (Int.natCast_nonneg _)).trans (not_congr Int.ofNat_inj)

theorem busy_path (ν : Numbering) (pid : Int) (n : Nat) :
    Relation.ReflTransGen (Desk.Step ν) (freeDesk ν pid n) (busyDesk ν pid n) := by
  have arrived : Desk.Step ν (freeDesk ν pid n)
      { freeDesk ν pid n with queue := [⟨.task, 0, 1⟩] } := .arrive ⟨.task, 0, 1⟩
  have taken : Desk.Step ν { freeDesk ν pid n with queue := [⟨.task, 0, 1⟩] } (busyDesk ν pid n) := by
    have step := Desk.Step.event (ν := ν)
      (s := { freeDesk ν pid n with queue := [⟨.task, 0, 1⟩] }) .queue trivial
    have result : Desk.handled ν { freeDesk ν pid n with queue := [⟨.task, 0, 1⟩] }
        (Driver.key (freeDesk ν pid n).driver .queue) = busyDesk ν pid n := by
      simp [Desk.handled, Driver.handle, Driver.key, Driver.receive, freeDesk, Driver.start, busyDesk]
    exact result ▸ step
  exact .tail (.single arrived) taken

/-- A timer that is told from the queue completes the task. -/
theorem free_step (ν : Numbering) (pid : Int) (n : Nat) (apart : ν.timerFd pid n ≠ ν.driverMq pid) :
    Desk.Step ν (busyDesk ν pid n) (freeDesk ν pid (n + 1)) := by
  have step := Desk.Step.event (ν := ν) (s := busyDesk ν pid n) .timer Int.one_pos
  have numbers : (ν.timerFd pid n : Int) ≠ ν.driverMq pid := by exact_mod_cast apart
  have opened : (ν.timerFd pid n : Int) ≠ -1 := by omega
  have result : Desk.handled ν (busyDesk ν pid n) (Driver.key (busyDesk ν pid n).driver .timer) =
      freeDesk ν pid (n + 1) := by
    simp [Desk.handled, Driver.handle, Driver.key, busyDesk, numbers, opened, Driver.expire, freeDesk,
      Driver.start]
  exact result ▸ step

theorem free_path (dispatched : Dispatched ν) (pid : Int) (n : Nat) :
    Relation.ReflTransGen (Desk.Step ν) (.start ν pid) (freeDesk ν pid n) := by
  induction n with
  | zero => exact .refl
  | succ n ih =>
    have busy := ih.trans (busy_path ν pid n)
    have right := dispatched.driver pid _ busy .timer Int.one_pos
    exact busy.tail (free_step ν pid n ((busy_timer ν pid n).mp right))

end Rounds

/-- Every event finds its branch exactly under the numberings in which no timer of a driver
gets the number of the driver's queue and the CLI's queue is not numbered like standard input. -/
theorem dispatched_iff (ν : Numbering) :
    Dispatched ν ↔ (∀ pid n, ν.timerFd pid n ≠ ν.driverMq pid) ∧ ν.cliMq ≠ 0 := by
  constructor
  · intro dispatched
    refine ⟨fun pid n => ?_, (cli_dispatched ν).mp dispatched.cli⟩
    have busy := (free_path dispatched pid n).trans (busy_path ν pid n)
    have right := dispatched.driver pid _ busy .timer Int.one_pos
    exact (busy_timer ν pid n).mp right
  · intro ⟨apart, cli⟩
    refine ⟨fun pid s path source ready => ?_, (cli_dispatched ν).mpr cli⟩
    have numbered := reachable_invariant (fun s => Numbered ν pid s.driver)
      (fun _ _ => step_numbered) path ⟨rfl, rfl, .inr rfl⟩
    cases source with
    | queue => exact if_pos rfl
    | timer =>
      rcases numbered.timer with ⟨n, fd⟩ | unset
      · refine (timer_branch (by omega)).mpr ?_
        rw [fd, numbered.mqId]
        exact_mod_cast apart pid n
      · have late : 0 < s.driver.timer := ready
        omega

/-- Queue 5 of the driver and descriptor 5 of its timer: the expiry is taken for a message. -/
theorem dispatch_collision : ¬ ∀ ν, Dispatched ν := by
  intro law
  have right := (law ⟨1, fun _ => 5, fun _ _ => 5⟩).driver 100 _ (busy_path _ 100 0) .timer Int.one_pos
  exact absurd right (by decide)

end Tasks.Taxi
