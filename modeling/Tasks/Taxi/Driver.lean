import Mathlib.Data.List.Basic

/-! Additional Task 2, `structs.h` and `cli.c`: the process of one driver. Its loop handles
the events of `epoll_wait` one by one and tells them apart by their keys. -/
namespace Tasks.Taxi

inductive MessageType where
  | register
  | task
  | statusReq
  | statusResp
  | statusUpdate
  | busyResp
  deriving DecidableEq, Repr

/-- `driver_msg` without `mtype`, which is always 1, and the text that nobody sets. -/
structure DriverMsg where
  type : MessageType
  pid : Int
  data : Int
  deriving DecidableEq, Repr

/-- The variables of the loop; `timer` is the time that the open timer was set to. -/
structure Driver where
  pid : Int
  mqId : Int
  busy : Bool
  remaining : Int
  timerFd : Int
  timer : Int
  deriving DecidableEq, Repr

def Driver.start (pid mqId : Int) : Driver := ⟨pid, mqId, false, 0, -1, 0⟩

inductive Reaction where
  | ignored
  | accepted (update : DriverMsg)
  | rejected (busyMsg : DriverMsg)
  | completed (update : DriverMsg)
  deriving DecidableEq, Repr

def Reaction.sent : Reaction → List DriverMsg
  | .ignored => []
  | .accepted msg => [msg]
  | .rejected msg => [msg]
  | .completed msg => [msg]

/-- A message taken from the driver's queue; `fd` is what `timerfd_create` returns. -/
def Driver.receive (d : Driver) (msg : DriverMsg) (fd : Nat) : Driver × Reaction :=
  if msg.type = .task then
    if !d.busy then
      ({ d with busy := true, remaining := msg.data, timerFd := fd, timer := msg.data },
        .accepted ⟨.statusUpdate, d.pid, msg.data⟩)
    else (d, .rejected ⟨.busyResp, d.pid, d.remaining⟩)
  else (d, .ignored)

def Driver.expire (d : Driver) : Driver × Reaction :=
  ({ d with busy := false, remaining := 0, timerFd := -1, timer := 0 },
    .completed ⟨.statusUpdate, d.pid, 0⟩)

/-- One event with its key: the driver, what is left of its queue and the reaction. -/
def Driver.handle (d : Driver) (queue : List DriverMsg) (key : Int) (fd : Nat) :
    Driver × List DriverMsg × Reaction :=
  if key = d.mqId then
    match queue with
    | [] => (d, [], .ignored)
    | msg :: rest => ((d.receive msg fd).1, rest, (d.receive msg fd).2)
  else if d.timerFd ≠ -1 ∧ key = d.timerFd then (d.expire.1, queue, d.expire.2)
  else (d, queue, .ignored)

/-- The branches of the loop body, each with its guard and its outcome. -/
inductive Handled (d : Driver) (key : Int) (fd : Nat) :
    List DriverMsg → Driver × List DriverMsg × Reaction → Prop where
  | idle (queue : List DriverMsg) (quiet : key = d.mqId → queue = []) :
      Handled d key fd queue (d, queue, .ignored)
  | foreign (msg : DriverMsg) (rest : List DriverMsg) (mine : key = d.mqId) (other : msg.type ≠ .task) :
      Handled d key fd (msg :: rest) (d, rest, .ignored)
  | reject (msg : DriverMsg) (rest : List DriverMsg) (mine : key = d.mqId) (task : msg.type = .task)
      (busy : d.busy = true) :
      Handled d key fd (msg :: rest) (d, rest, .rejected ⟨.busyResp, d.pid, d.remaining⟩)
  | accept (msg : DriverMsg) (rest : List DriverMsg) (mine : key = d.mqId) (task : msg.type = .task)
      (free : d.busy = false) :
      Handled d key fd (msg :: rest)
        ({ d with busy := true, remaining := msg.data, timerFd := fd, timer := msg.data }, rest,
          .accepted ⟨.statusUpdate, d.pid, msg.data⟩)
  | complete (queue : List DriverMsg) (other : key ≠ d.mqId) (running : d.timerFd ≠ -1)
      (due : key = d.timerFd) :
      Handled d key fd queue
        ({ d with busy := false, remaining := 0, timerFd := -1, timer := 0 }, queue,
          .completed ⟨.statusUpdate, d.pid, 0⟩)

theorem handle_handled (d : Driver) (queue : List DriverMsg) (key : Int) (fd : Nat) :
    Handled d key fd queue (d.handle queue key fd) := by
  unfold Driver.handle
  by_cases mine : key = d.mqId
  · rw [if_pos mine]
    cases queue with
    | nil => exact .idle [] fun _ => rfl
    | cons msg rest =>
      by_cases task : msg.type = .task
      · cases busy : d.busy with
        | true => simpa [Driver.receive, task, busy] using Handled.reject msg rest mine task busy
        | false => simpa [Driver.receive, task, busy] using Handled.accept msg rest mine task busy
      · simpa [Driver.receive, task] using Handled.foreign msg rest mine task
  · rw [if_neg mine]
    by_cases due : d.timerFd ≠ -1 ∧ key = d.timerFd
    · rw [if_pos due]
      exact .complete queue mine due.1 due.2
    · rw [if_neg due]
      exact .idle queue fun same => absurd same mine

theorem handle_identity (d : Driver) (queue : List DriverMsg) (key : Int) (fd : Nat) :
    (d.handle queue key fd).1.pid = d.pid ∧ (d.handle queue key fd).1.mqId = d.mqId := by
  have handled := handle_handled d queue key fd
  generalize d.handle queue key fd = next at handled
  cases handled <;> exact ⟨rfl, rfl⟩

/-- A driver sends only in its own name, and never registers again. -/
theorem handle_sent (d : Driver) (queue : List DriverMsg) (key : Int) (fd : Nat) :
    ∀ msg ∈ (d.handle queue key fd).2.2.sent, msg.pid = d.pid ∧ msg.type ≠ .register := by
  have handled := handle_handled d queue key fd
  generalize d.handle queue key fd = next at handled
  cases handled <;> simp [Reaction.sent]

end Tasks.Taxi
