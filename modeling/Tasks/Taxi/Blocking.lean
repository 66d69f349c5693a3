import Tasks.Taxi.Network
import Mathlib.Algebra.BigOperators.Group.Finset.Basic
import Mathlib.Algebra.Order.BigOperators.Group.Finset

/-! When the CLI and a driver can wait for each other, each before a full queue. What decides
is how many messages the drivers can still send before they need a new task. -/
namespace Tasks.Taxi
open Kit

/-- The timer can expire and its event be told from one of the queue. -/
def Driver.due (d : Driver) : Bool :=
  decide (0 < d.timer) && decide (d.timerFd ≠ d.mqId) && decide (d.timerFd ≠ -1)

def sets (msg : DriverMsg) : Bool := decide (0 < msg.data)

/-- A reply to each task of a queue and a completion for each that sets a timer, where the
others can be taken while a timer runs. -/
def armed (queue : List DriverMsg) : Nat := queue.length + queue.countP sets

/-- The same for a free driver: a first task that sets no timer makes it busy for ever. -/
def idle : List DriverMsg → Nat
  | [] => 0
  | msg :: rest => if sets msg then 2 + armed rest else 1 + rest.length

def Driver.replies (d : Driver) (queue : List DriverMsg) : Nat :=
  if d.busy then (if d.due then 1 + armed queue else queue.length) else idle queue

structure Calm (capacity : Nat) (d : Driver) (queue : List DriverMsg) : Prop where
  tasks : ∀ msg ∈ queue, msg.type = .task
  short : queue.length ≤ capacity
  free : d.busy = false → d.timer = 0

section Drivers

variable {d : Driver} {queue : List DriverMsg} {capacity : Nat}

@[simp] theorem armed_cons (msg : DriverMsg) (rest : List DriverMsg) :
    armed (msg :: rest) = 1 + armed rest + if sets msg then 1 else 0 := by
  simp only [armed, List.length_cons, List.countP_cons]
  omega

theorem idle_le_armed (queue : List DriverMsg) : idle queue ≤ armed queue := by
  cases queue with
  | nil => exact Nat.zero_le _
  | cons msg rest =>
    rw [armed_cons, idle]
    split
    · omega
    · simp only [armed]
      omega

theorem due_timer (due : d.due = true) : 0 < d.timer := by
  simp only [Driver.due, Bool.and_eq_true, decide_eq_true_eq] at due
  exact due.1.1

theorem due_busy (calm : Calm capacity d queue) (timed : 0 < d.timer) : d.busy = true := by
  by_contra free
  have zero := calm.free (by simpa using free)
  omega

theorem complete_due (other : key ≠ d.mqId) (running : d.timerFd ≠ -1) (late : key = d.timerFd)
    (ready : key = d.mqId ∨ key = d.timerFd ∧ 0 < d.timer) : d.due = true := by
  have timed : 0 < d.timer := by
    rcases ready with mine | ⟨_, timed⟩
    · exact absurd mine other
    · exact timed
  simp only [Driver.due, Bool.and_eq_true, decide_eq_true_eq]
  exact ⟨⟨timed, late ▸ other⟩, running⟩

theorem handle_replies (calm : Calm capacity d queue) (key : Int) (fd : Nat)
    (due : key = d.mqId ∨ key = d.timerFd ∧ 0 < d.timer) :
    (d.handle queue key fd).2.2.sent.length +
      (d.handle queue key fd).1.replies (d.handle queue key fd).2.1 ≤ d.replies queue := by
  have handled := handle_handled d queue key fd
  generalize d.handle queue key fd = next at handled
  cases handled with
  | idle queue quiet => simp [Reaction.sent]
  | foreign msg rest mine other => exact absurd (calm.tasks msg (by simp)) other
  | reject msg rest mine task busy =>
    simp only [Reaction.sent, Driver.replies, busy, if_true, armed_cons, List.length_cons,
      List.length_nil]
    split <;> omega
  | accept msg rest mine task free =>
    simp only [Reaction.sent, Driver.replies, free, if_true, List.length_singleton, idle,
      Bool.false_eq_true, if_false]
    by_cases timed : sets msg = true
    · rw [if_pos timed]
      split
      · omega
      · simp only [armed]
        omega
    · have never : (Driver.due { d with
          busy := true, remaining := msg.data, timerFd := fd, timer := msg.data }) = false := by
        by_contra late
        exact timed (decide_eq_true (due_timer (by simpa using late)))
      rw [if_neg timed, never]
      simp
  | complete queue other running late =>
    have isDue := complete_due other running late due
    simp only [Reaction.sent, Driver.replies, due_busy calm (due_timer isDue), isDue,
      if_true,
      List.length_singleton, Bool.false_eq_true, if_false]
    have := idle_le_armed queue
    omega

theorem handle_calm (calm : Calm capacity d queue) (key : Int) (fd : Nat) :
    Calm capacity (d.handle queue key fd).1 (d.handle queue key fd).2.1 := by
  obtain ⟨tasks, short, free⟩ := calm
  have handled := handle_handled d queue key fd
  generalize d.handle queue key fd = next at handled
  have shorter (msg : DriverMsg) (rest : List DriverMsg) (h : (msg :: rest).length ≤ capacity) :
      rest.length ≤ capacity := by
    rw [List.length_cons] at h
    omega
  cases handled with
  | idle queue quiet => exact ⟨tasks, short, free⟩
  | foreign msg rest mine other =>
    exact ⟨fun msg member => tasks msg (by simp [member]), shorter _ _ short, free⟩
  | reject msg rest mine task busy =>
    exact ⟨fun msg member => tasks msg (by simp [member]), shorter _ _ short, free⟩
  | accept msg rest mine task free =>
    exact ⟨fun msg member => tasks msg (by simp [member]), shorter _ _ short, nofun⟩
  | complete queue other running late => exact ⟨tasks, short, fun _ => rfl⟩

/-- A driver that takes no task sends at most the completion of its running one. -/
theorem handle_kept (d : Driver) (queue : List DriverMsg) (key : Int) (fd : Nat)
    (due : key = d.mqId ∨ key = d.timerFd ∧ 0 < d.timer) :
    (d.handle queue key fd).2.1.length < queue.length ∨
      (d.handle queue key fd).2.1 = queue ∧
        (d.handle queue key fd).2.2.sent.length + (d.handle queue key fd).1.due.toNat ≤
          d.due.toNat := by
  have handled := handle_handled d queue key fd
  generalize d.handle queue key fd = next at handled
  cases handled with
  | idle queue quiet => exact .inr ⟨rfl, by simp [Reaction.sent]⟩
  | foreign | reject | accept => exact .inl (by simp)
  | complete queue other running late =>
    have isDue := complete_due other running late due
    have spent : (Driver.due { d with busy := false, remaining := 0, timerFd := -1, timer := 0 }) =
        false := rfl
    exact .inr ⟨rfl, by simp [Reaction.sent, spent, isDue]⟩

theorem handle_due (due : d.due = true) (queue : List DriverMsg) (fd : Nat) :
    d.handle queue d.timerFd fd = (d.expire.1, queue, d.expire.2) := by
  simp only [Driver.due, Bool.and_eq_true, decide_eq_true_eq] at due
  unfold Driver.handle
  rw [if_neg due.1.2, if_pos ⟨due.2, rfl⟩]

theorem handle_reject (busy : d.busy = true) (task : msg.type = .task) (rest : List DriverMsg)
    (fd : Nat) :
    d.handle (msg :: rest) d.mqId fd = (d, rest, .rejected ⟨.busyResp, d.pid, d.remaining⟩) := by
  simp [Driver.handle, Driver.receive, task, busy]

/-- A free driver with a task takes it; the kernel can hand out a descriptor that is not the
queue's number. -/
theorem free_progress (free : d.busy = false) (task : msg.type = .task) (rest : List DriverMsg) :
    ∃ fd, (d.handle (msg :: rest) d.mqId fd).2.2.sent.length = 1 ∧
      1 + (d.handle (msg :: rest) d.mqId fd).1.replies (d.handle (msg :: rest) d.mqId fd).2.1 =
        idle (msg :: rest) := by
  have apart : ((d.mqId.natAbs + 1 : Nat) : Int) ≠ d.mqId := by omega
  have opened : ((d.mqId.natAbs + 1 : Nat) : Int) ≠ -1 := by omega
  refine ⟨d.mqId.natAbs + 1, ?_⟩
  have accepted : d.handle (msg :: rest) d.mqId (d.mqId.natAbs + 1) =
      ({ d with busy := true, remaining := msg.data, timerFd := (d.mqId.natAbs + 1 : Nat),
                timer := msg.data }, rest, .accepted ⟨.statusUpdate, d.pid, msg.data⟩) := by
    simp [Driver.handle, Driver.receive, task, free]
  have isDue : (Driver.due { d with
      busy := true, remaining := msg.data, timerFd := (d.mqId.natAbs + 1 : Nat),
      timer := msg.data }) = sets msg := by
    simp only [Driver.due, sets, decide_eq_true apart, decide_eq_true opened, Bool.and_true]
  rw [accepted]
  refine ⟨rfl, ?_⟩
  simp only [Driver.replies, isDue, if_true, idle]
  split <;> omega

/-- A driver that still has messages to send can get to its next one without losing any: it
lets the timer run out before a task that sets one, and takes the others before. -/
theorem replies_progress (calm : Calm capacity d queue) (more : 0 < d.replies queue) :
    ∃ key fd, (key = d.mqId ∨ key = d.timerFd ∧ 0 < d.timer) ∧
      (d.handle queue key fd).2.2.sent.length = 1 ∧
      1 + (d.handle queue key fd).1.replies (d.handle queue key fd).2.1 = d.replies queue := by
  cases busy : d.busy with
  | false =>
    rw [Driver.replies, busy, if_neg Bool.false_ne_true] at more ⊢
    cases queue with
    | nil => simp [idle] at more
    | cons msg rest =>
      obtain ⟨fd, progress⟩ := free_progress busy (calm.tasks msg (by simp)) rest
      exact ⟨d.mqId, fd, .inl rfl, progress⟩
  | true =>
    cases due : d.due with
    | false =>
      rw [Driver.replies, busy, if_pos rfl, due, if_neg Bool.false_ne_true] at more ⊢
      obtain ⟨msg, rest, rfl⟩ := List.exists_cons_of_length_pos more
      refine ⟨d.mqId, 0, .inl rfl, ?_⟩
      rw [handle_reject busy (calm.tasks msg (by simp))]
      simp [Reaction.sent, Driver.replies, busy, due, Nat.add_comm]
    | true =>
      rw [Driver.replies, busy, if_pos rfl, due, if_pos rfl]
      have completed : (d.handle queue d.timerFd 0).2.2.sent.length = 1 ∧
          1 + (d.handle queue d.timerFd 0).1.replies (d.handle queue d.timerFd 0).2.1 =
            1 + idle queue := by
        rw [handle_due due]
        exact ⟨rfl, rfl⟩
      cases queue with
      | nil => exact ⟨d.timerFd, 0, .inr ⟨rfl, due_timer due⟩, completed⟩
      | cons msg rest =>
        by_cases again : sets msg = true
        · refine ⟨d.timerFd, 0, .inr ⟨rfl, due_timer due⟩, completed.1, completed.2.trans ?_⟩
          simp only [idle, again, if_true, armed_cons]
          omega
        · refine ⟨d.mqId, 0, .inl rfl, ?_⟩
          rw [handle_reject busy (calm.tasks msg (by simp))]
          simp [Reaction.sent, Driver.replies, busy, due, again]

end Drivers

def Network.taskQueue (k : Kernel) (n : Network) (pid : Int) : List DriverMsg :=
  n.system.queues (k.driverMq pid)

/-- What the driver can send without a new task. -/
def Network.outstanding (k : Kernel) (n : Network) (pid : Int) : Nat :=
  (n.unsent pid).length + (n.system.drivers pid).elim 0 fun d => d.replies (n.taskQueue k pid)

/-- What the driver can send without taking a task. -/
def Network.own (n : Network) (pid : Int) : Nat :=
  (n.unsent pid).length + (n.system.drivers pid).elim 0 fun d => d.due.toNat

/-- The messages in the CLI's queue and those that can still get there while the CLI waits
for room in the queue of `pid`. -/
def Network.coming (k : Kernel) (n : Network) (pid : Int) : Nat :=
  (cliQueue k n.system).length + ∑ e ∈ n.forked.erase pid, n.outstanding k e + n.own pid

structure Stuck (k : Kernel) (capacity : Nat) (n : Network) (pid : Int) : Prop where
  sending : ∃ msg events, n.phase = .sending (k.driverMq pid) msg events
  full : ¬ HasRoom (some capacity) (n.taskQueue k pid)
  unsent : n.unsent pid ≠ []
  cliFull : ¬ HasRoom (some capacity) (cliQueue k n.system)

/-- The driver has room for the task, or nothing to send before it takes one, or all that is
coming fits into the CLI's queue. -/
def Careful (k : Kernel) (capacity : Nat) (n : Network) (pid : Int) : Prop :=
  HasRoom (some capacity) (n.taskQueue k pid) ∨ n.own pid = 0 ∨ n.coming k pid ≤ capacity

structure Tame (k : Kernel) (capacity : Nat) (n : Network) : Prop where
  sound : Sound k n
  calm : ∀ pid d, n.system.drivers pid = some d → Calm capacity d (n.taskQueue k pid)

section Queues

variable {k : Kernel} {capacity : Nat} {n next : Network} {d : Driver}

theorem hasRoom_some (queue : List DriverMsg) : HasRoom (some capacity) queue ↔ queue.length < capacity := by
  simp [HasRoom]

theorem live_mq (sound : Sound k n) (live : n.system.drivers pid = some d) :
    d.mqId = k.driverMq pid ∧ k.driverMq pid ≠ k.cliMq ∧ d.pid = pid := by
  obtain ⟨positive, same, mq⟩ := sound.orderly.identity pid d live
  exact ⟨mq, driverMq_ne positive, same⟩

theorem handle_cliQueue (sound : Sound k n) (live : n.system.drivers pid = some d) (key : Int)
    (fd : Nat) : cliQueue k (n.handle pid d key fd).system = cliQueue k n.system := by
  obtain ⟨mq, apart, _⟩ := live_mq sound live
  exact take_other _ (by rw [mq]; exact apart.symm)

theorem handle_self (sound : Sound k n) (live : n.system.drivers pid = some d) (key : Int) (fd : Nat) :
    (n.handle pid d key fd).system.drivers pid = some (d.handle (n.taskQueue k pid) key fd).1 ∧
    (n.handle pid d key fd).taskQueue k pid = (d.handle (n.taskQueue k pid) key fd).2.1 ∧
    (n.handle pid d key fd).unsent pid = (d.handle (n.taskQueue k pid) key fd).2.2.sent := by
  obtain ⟨mq, _, same⟩ := live_mq sound live
  simp [Network.handle, System.handled, Network.taskQueue, System.take, mq, same]

theorem handle_elsewhere (sound : Sound k n) (live : n.system.drivers pid = some d) (key : Int)
    (fd : Nat) (other : e ≠ pid) :
    (n.handle pid d key fd).system.drivers e = n.system.drivers e ∧
    (n.handle pid d key fd).taskQueue k e = n.taskQueue k e ∧
    (n.handle pid d key fd).unsent e = n.unsent e := by
  obtain ⟨mq, _, same⟩ := live_mq sound live
  have apart : k.driverMq e ≠ k.driverMq pid := fun h => other (driverMq_inj h)
  simp [Network.handle, System.handled, Network.taskQueue, System.take, mq, same, other, apart]

theorem report_cliQueue (n : Network) (msg : DriverMsg) (rest : List DriverMsg) :
    cliQueue k (n.report k pid msg rest).system = cliQueue k n.system ++ [msg] := send_same _ _ _

theorem report_taskQueue (sound : Sound k n) (live : n.system.drivers e = some d) (msg : DriverMsg)
    (rest : List DriverMsg) : (n.report k pid msg rest).taskQueue k e = n.taskQueue k e :=
  send_other _ (live_mq sound live).2.1

theorem outstanding_congr (drivers : next.system.drivers e = n.system.drivers e)
    (queue : ∀ d, n.system.drivers e = some d → next.taskQueue k e = n.taskQueue k e)
    (unsent : next.unsent e = n.unsent e) : next.outstanding k e = n.outstanding k e := by
  unfold Network.outstanding
  rw [drivers, unsent]
  cases live : n.system.drivers e with
  | none => rfl
  | some d => rw [queue d live]

theorem own_congr (drivers : next.system.drivers e = n.system.drivers e)
    (unsent : next.unsent e = n.unsent e) : next.own e = n.own e := by
  simp only [Network.own, drivers, unsent]

theorem coming_other (k : Kernel) (n next : Network) (different : e ≠ pid) (member : e ∈ n.forked)
    (forked : next.forked = n.forked) (own : next.own pid = n.own pid)
    (others : ∀ f, f ≠ e → next.outstanding k f = n.outstanding k f) :
    next.coming k pid + (cliQueue k n.system).length + n.outstanding k e =
      n.coming k pid + (cliQueue k next.system).length + next.outstanding k e := by
  have inside : e ∈ n.forked.erase pid := Finset.mem_erase.mpr ⟨different, member⟩
  have rest : ∑ f ∈ (n.forked.erase pid).erase e, next.outstanding k f =
      ∑ f ∈ (n.forked.erase pid).erase e, n.outstanding k f :=
    Finset.sum_congr rfl fun f inside => others f (Finset.ne_of_mem_erase inside)
  have before := Finset.add_sum_erase (n.forked.erase pid) (n.outstanding k) inside
  have after := Finset.add_sum_erase (n.forked.erase pid) (next.outstanding k) inside
  simp only [Network.coming, forked, own]
  omega

theorem coming_self (k : Kernel) (n next : Network) (pid : Int) (forked : next.forked = n.forked)
    (others : ∀ f, f ≠ pid → next.outstanding k f = n.outstanding k f) :
    next.coming k pid + (cliQueue k n.system).length + n.own pid =
      n.coming k pid + (cliQueue k next.system).length + next.own pid := by
  have rest : ∑ f ∈ n.forked.erase pid, next.outstanding k f =
      ∑ f ∈ n.forked.erase pid, n.outstanding k f :=
    Finset.sum_congr rfl fun f inside => others f (Finset.ne_of_mem_erase inside)
  simp only [Network.coming, forked, rest]
  omega

theorem handle_coming (sound : Sound k n) (live : n.system.drivers e = some d)
    (sentAll : n.unsent e = []) (key : Int) (fd : Nat) (different : e ≠ pid) :
    (n.handle e d key fd).coming k pid + d.replies (n.taskQueue k e) =
      n.coming k pid + ((d.handle (n.taskQueue k e) key fd).2.2.sent.length +
        (d.handle (n.taskQueue k e) key fd).1.replies (d.handle (n.taskQueue k e) key fd).2.1) := by
  have member := sound.forked e (by simp [live])
  obtain ⟨drivers, queue, unsent⟩ := handle_self sound live key fd
  have untouched (f : Int) (other : f ≠ e) := handle_elsewhere sound live key fd other
  have balance := coming_other k n (n.handle e d key fd) different member rfl
    (own_congr (untouched pid different.symm).1 (untouched pid different.symm).2.2)
    fun f other => outstanding_congr (untouched f other).1 (fun _ _ => (untouched f other).2.1)
      (untouched f other).2.2
  have before : n.outstanding k e = d.replies (n.taskQueue k e) := by
    simp [Network.outstanding, sentAll, live]
  have after : (n.handle e d key fd).outstanding k e =
      (d.handle (n.taskQueue k e) key fd).2.2.sent.length +
        (d.handle (n.taskQueue k e) key fd).1.replies (d.handle (n.taskQueue k e) key fd).2.1 := by
    simp [Network.outstanding, drivers, queue, unsent]
  rw [handle_cliQueue sound live] at balance
  omega

theorem handle_coming_self (sound : Sound k n) (live : n.system.drivers pid = some d)
    (sentAll : n.unsent pid = []) (key : Int) (fd : Nat) :
    (n.handle pid d key fd).own pid = (d.handle (n.taskQueue k pid) key fd).2.2.sent.length +
        (d.handle (n.taskQueue k pid) key fd).1.due.toNat ∧ n.own pid = d.due.toNat ∧
      (n.handle pid d key fd).coming k pid + n.own pid =
        n.coming k pid + (n.handle pid d key fd).own pid := by
  obtain ⟨drivers, queue, unsent⟩ := handle_self sound live key fd
  have untouched (f : Int) (other : f ≠ pid) := handle_elsewhere sound live key fd other
  have balance := coming_self k n (n.handle pid d key fd) pid rfl
    fun f other => outstanding_congr (untouched f other).1 (fun _ _ => (untouched f other).2.1)
      (untouched f other).2.2
  rw [handle_cliQueue sound live] at balance
  refine ⟨by simp [Network.own, drivers, unsent], by simp [Network.own, live, sentAll], ?_⟩
  omega

theorem report_coming (sound : Sound k n) (turn : n.unsent e = msg :: rest) (pid : Int) :
    (n.report k e msg rest).coming k pid = n.coming k pid ∧
      (n.report k e msg rest).own pid + (if e = pid then 1 else 0) = n.own pid := by
  have alive : (n.system.drivers e).isSome := by
    by_contra dead
    rw [Option.not_isSome_iff_eq_none] at dead
    simp [sound.unborn e dead] at turn
  have unsent (f : Int) : (n.report k e msg rest).unsent f = if f = e then rest else n.unsent f := by
    simp [Network.report, Function.update_apply]
  have others (f : Int) (other : f ≠ e) :
      (n.report k e msg rest).outstanding k f = n.outstanding k f :=
    outstanding_congr rfl (fun d live => report_taskQueue sound live msg rest) (by simp [unsent, other])
  have longer : (cliQueue k (n.report k e msg rest).system).length =
      (cliQueue k n.system).length + 1 := by
    rw [report_cliQueue]
    simp
  by_cases same : e = pid
  · subst same
    have own : (n.report k e msg rest).own e + 1 = n.own e := by
      have drivers : (n.report k e msg rest).system.drivers e = n.system.drivers e := rfl
      simp only [Network.own, drivers, unsent, turn, if_true, List.length_cons]
      omega
    have balance := coming_self k n (n.report k e msg rest) e rfl others
    rw [if_pos rfl]
    exact ⟨by omega, own⟩
  · have own : (n.report k e msg rest).own pid = n.own pid :=
      own_congr rfl (by simp [unsent, Ne.symm same])
    have one : (n.report k e msg rest).outstanding k e + 1 = n.outstanding k e := by
      obtain ⟨d, live⟩ := Option.isSome_iff_exists.mp alive
      have drivers : (n.report k e msg rest).system.drivers e = n.system.drivers e := rfl
      simp only [Network.outstanding, drivers, unsent, turn, if_true, List.length_cons, live,
        Option.elim_some, report_taskQueue sound live]
      omega
    have balance := coming_other k n (n.report k e msg rest) same (sound.forked e alive) rfl
      own others
    rw [if_neg same]
    exact ⟨by omega, by omega⟩

end Queues

section Moves

variable {k : Kernel} {capacity : Nat} {n next : Network} {d : Driver}

theorem start_tame (k : Kernel) (capacity : Nat) : Tame k capacity .start :=
  ⟨start_sound k, nofun⟩

theorem handle_tame (tame : Tame k capacity n) (live : n.system.drivers pid = some d) (key : Int)
    (fd : Nat) : Tame k capacity (n.handle pid d key fd) := by
  refine ⟨event_sound tame.sound live key fd, fun e d' live' => ?_⟩
  by_cases same : e = pid
  · subst same
    obtain ⟨drivers, queue, _⟩ := handle_self tame.sound live key fd
    rw [drivers] at live'
    cases live'
    rw [queue]
    exact handle_calm (tame.calm e d live) key fd
  · obtain ⟨drivers, queue, _⟩ := handle_elsewhere tame.sound live key fd same
    rw [drivers] at live'
    rw [queue]
    exact tame.calm e d' live'

theorem report_tame (tame : Tame k capacity n) (turn : n.unsent pid = msg :: rest) :
    Tame k capacity (n.report k pid msg rest) := by
  refine ⟨report_sound tame.sound turn, fun e d live => ?_⟩
  rw [report_taskQueue tame.sound live]
  exact tame.calm e d live

theorem createDriver_calm (tame : Tame k capacity n) (positive : 0 < pid)
    (fresh : n.system.drivers pid = none) (e : Int) (d : Driver)
    (live : (n.system.spawn k pid).drivers e = some d) : Calm capacity d (n.taskQueue k e) := by
  by_cases same : e = pid
  · subst same
    have started : d = .start e (k.driverMq e) := by
      simpa [System.spawn, eq_comm] using live
    have empty : n.taskQueue k e = [] := tame.sound.orderly.unborn e positive fresh
    rw [started, empty]
    exact ⟨by simp, by simp, fun _ => rfl⟩
  · simp only [System.spawn, Function.update_of_ne same] at live
    exact tame.calm e d live

theorem deliver_calm (tame : Tame k capacity n) (turn : n.phase = .sending queue msg events)
    (room : HasRoom (some capacity) (n.system.queues queue)) (e : Int) (d : Driver)
    (live : n.system.drivers e = some d) :
    Calm capacity d ((n.system.send queue [msg]).queues (k.driverMq e)) := by
  have old := tame.calm e d live
  obtain ⟨type, _⟩ := tame.sound.sending queue msg events turn
  by_cases same : k.driverMq e = queue
  · subst same
    rw [hasRoom_some] at room
    rw [send_same]
    refine ⟨fun other member => ?_, ?_, old.free⟩
    · rcases List.mem_append.mp member with older | last
      · exact old.tasks other older
      · rw [List.mem_singleton.mp last]
        exact type
    · rw [List.length_append, List.length_singleton]
      omega
  · rw [send_other _ same]
    exact old

theorem move_tame (tame : Tame k capacity n) (move : Move k (some capacity) n act next) :
    Tame k capacity next := by
  have sound := move_sound tame.sound move
  cases move with
  | poll events turn ready once queue => exact ⟨sound, tame.calm⟩
  | receive msg rest events turn head =>
    refine ⟨sound, fun pid d live => ?_⟩
    have apart := (live_mq tame.sound live).2.1
    have queue : (n.system.cliMessage k msg rest).queues (k.driverMq pid) = n.taskQueue k pid :=
      take_other rest apart
    rw [Network.taskQueue, queue]
    exact tame.calm pid d live
  | drained events turn empty => exact ⟨sound, tame.calm⟩
  | createDriver pid events turn positive fresh =>
    exact ⟨sound, createDriver_calm tame positive fresh⟩
  | sendTask self pid timer queue msg events turn found => exact ⟨sound, tame.calm⟩
  | otherCommand events turn => exact ⟨sound, tame.calm⟩
  | deliver queue msg events turn room => exact ⟨sound, deliver_calm tame turn room⟩
  | event pid key fd d live sentAll due => exact handle_tame tame live key fd
  | report pid msg rest turn room => exact report_tame tame turn

/-- While the CLI waits with care, no driver's event or message ends that. -/
theorem handle_careful (tame : Tame k capacity n) (careful : Careful k capacity n pid)
    (live : n.system.drivers e = some d) (sentAll : n.unsent e = []) (fd : Nat)
    (due : key = d.mqId ∨ key = d.timerFd ∧ 0 < d.timer) :
    Careful k capacity (n.handle e d key fd) pid := by
  have calm := tame.calm e d live
  by_cases same : e = pid
  · subst same
    obtain ⟨after, before, balance⟩ := handle_coming_self tame.sound live sentAll key fd
    obtain ⟨_, queue, _⟩ := handle_self tame.sound live key fd
    rcases handle_kept d (n.taskQueue k e) key fd due with shorter | ⟨kept, fewer⟩
    · have short := calm.short
      exact .inl ((hasRoom_some _).mpr (by rw [queue]; omega))
    · rcases careful with room | silent | fits
      · exact .inl (by rw [queue, kept]; exact room)
      · exact .inr (.inl (by omega))
      · exact .inr (.inr (by omega))
  · obtain ⟨drivers, queue, unsent⟩ := handle_elsewhere tame.sound live key fd (Ne.symm same)
    rcases careful with room | silent | fits
    · exact .inl (queue ▸ room)
    · exact .inr (.inl ((own_congr drivers unsent).trans silent))
    · have balance := handle_coming tame.sound live sentAll key fd same
      have spent := handle_replies calm key fd due
      exact .inr (.inr (by omega))

theorem report_careful (tame : Tame k capacity n) (careful : Careful k capacity n pid)
    (turn : n.unsent e = msg :: rest) (target : n.system.drivers pid = some d) :
    Careful k capacity (n.report k e msg rest) pid := by
  obtain ⟨coming, own⟩ := report_coming tame.sound turn pid
  rcases careful with room | silent | fits
  · refine .inl ?_
    rw [report_taskQueue tame.sound target]
    exact room
  · exact .inr (.inl (by omega))
  · exact .inr (.inr (by omega))

/-- Care rules out that both wait. -/
theorem Careful.not_stuck (careful : Careful k capacity n pid) : ¬ Stuck k capacity n pid := by
  intro stuck
  have cliFull := stuck.cliFull
  rw [hasRoom_some] at cliFull
  have some : (n.unsent pid).length ≠ 0 := by simpa using stuck.unsent
  rcases careful with room | silent | fits
  · exact stuck.full room
  · simp only [Network.own] at silent
    omega
  · simp only [Network.coming, Network.own] at fits
    omega

def Waiting (k : Kernel) (capacity : Nat) (n : Network) : Prop :=
  ∀ pid msg events, n.phase = .sending (k.driverMq pid) msg events → Careful k capacity n pid

def CarefulMove (k : Kernel) (capacity : Nat) (n next : Network) : Prop :=
  ∃ act, Move k (some capacity) n act next ∧
    ∀ self pid timer, act = .sendTask self pid timer → Careful k capacity n pid

theorem sendTask_target (sound : Sound k n)
    (found : Taxi.sendTask n.system.table self pid timer = some (queue, msg)) :
    queue = k.driverMq pid := by
  obtain ⟨info, member, rfl, rfl, _⟩ := sendTask_some found
  exact sound.orderly.queued info member

theorem sending_live (sound : Sound k n) (phase : n.phase = .sending (k.driverMq pid) msg events) :
    ∃ d, n.system.drivers pid = some d := by
  obtain ⟨_, info, member, same⟩ := sound.sending _ _ _ phase
  rw [driverMq_inj same]
  exact Option.isSome_iff_exists.mp (sound.orderly.alive info member)

theorem move_waiting (tame : Tame k capacity n) (waiting : Waiting k capacity n)
    (move : CarefulMove k capacity n next) : Waiting k capacity next := by
  obtain ⟨act, move, careful⟩ := move
  intro pid msg events phase
  cases move with
  | poll | drained | createDriver | otherCommand | deliver => cases phase
  | receive _ _ _ turn _ =>
    rw [turn] at phase
    cases phase
  | sendTask self pid' timer queue _ _ turn found =>
    cases phase
    rw [driverMq_inj (sendTask_target tame.sound found)]
    exact careful self pid' timer rfl
  | event e key fd d live sentAll due =>
    exact handle_careful tame (waiting pid msg events phase) live sentAll fd due
  | report e _ _ turn _ =>
    obtain ⟨d, live⟩ := sending_live tame.sound phase
    exact report_careful tame (waiting pid msg events phase) turn live

/-- One more message in the CLI's queue, and nothing else of what matters changed. -/
structure Fuller (k : Kernel) (capacity : Nat) (n : Network) (pid : Int) (next : Network) : Prop where
  path : Relation.ReflTransGen (Moves k (some capacity)) n next
  tame : Tame k capacity next
  phase : next.phase = n.phase
  queue : next.taskQueue k pid = n.taskQueue k pid
  own : next.own pid ≠ 0
  coming : next.coming k pid = n.coming k pid
  longer : (cliQueue k next.system).length = (cliQueue k n.system).length + 1

theorem report_fuller (tame : Tame k capacity n) (target : n.system.drivers pid = some d)
    (turn : n.unsent e = msg :: rest) (room : (cliQueue k n.system).length < capacity)
    (own : (if e = pid then 1 else 0) < n.own pid) :
    Fuller k capacity n pid (n.report k e msg rest) where
  path := .single ⟨_, .report e msg rest turn ((hasRoom_some _).mpr room)⟩
  tame := report_tame tame turn
  phase := rfl
  queue := report_taskQueue tame.sound target msg rest
  own := by
    have balance := (report_coming tame.sound turn pid).2
    omega
  coming := (report_coming tame.sound turn pid).1
  longer := by
    rw [report_cliQueue]
    simp

/-- Another driver with messages to come can put one into the CLI's queue. -/
theorem other_fuller (tame : Tame k capacity n) (target : n.system.drivers pid = some d)
    (different : e ≠ pid) (more : n.outstanding k e ≠ 0)
    (room : (cliQueue k n.system).length < capacity) (own : n.own pid ≠ 0) :
    ∃ next, Fuller k capacity n pid next := by
  cases unsent : n.unsent e with
  | cons msg rest =>
    refine ⟨_, report_fuller tame target unsent room ?_⟩
    rw [if_neg different]
    omega
  | nil =>
    cases live : n.system.drivers e with
    | none => simp [Network.outstanding, unsent, live] at more
    | some d' =>
      have replies : 0 < d'.replies (n.taskQueue k e) := by
        simp only [Network.outstanding, unsent, live, List.length_nil, Option.elim_some] at more
        omega
      obtain ⟨key, fd, due, one, rest⟩ := replies_progress (tame.calm e d' live) replies
      have balance := handle_coming tame.sound live unsent key fd different
      obtain ⟨_, _, sent⟩ := handle_self tame.sound live key fd
      obtain ⟨drivers, queue, kept⟩ := handle_elsewhere tame.sound live key fd (Ne.symm different)
      have cliQueue := handle_cliQueue tame.sound live key fd
      have ownKept : (n.handle e d' key fd).own pid = n.own pid := own_congr drivers kept
      obtain ⟨msg, turn⟩ := List.length_eq_one_iff.mp (sent ▸ one)
      have full := report_fuller (handle_tame tame live key fd) (drivers.trans target) turn
        (by rw [cliQueue]; exact room) (by rw [if_neg different, ownKept]; omega)
      exact ⟨_, {
        path := .head ⟨_, .event e key fd d' live unsent due⟩ full.path
        tame := full.tame
        phase := full.phase
        queue := full.queue.trans queue
        own := full.own
        coming := full.coming.trans (by omega)
        longer := by rw [full.longer, cliQueue] }⟩

/-- With more to come than fits, the CLI's queue can grow until it is full. -/
theorem fuller (tame : Tame k capacity n) (target : n.system.drivers pid = some d)
    (own : n.own pid ≠ 0) (many : capacity < n.coming k pid)
    (room : (cliQueue k n.system).length < capacity) : ∃ next, Fuller k capacity n pid next := by
  by_cases two : 1 < n.own pid
  · have sends : n.unsent pid ≠ [] := by
      intro silent
      simp only [Network.own, silent, target, List.length_nil, Option.elim_some] at two
      have := Bool.toNat_le d.due
      omega
    obtain ⟨msg, rest, turn⟩ := List.exists_cons_of_ne_nil sends
    exact ⟨_, report_fuller tame target turn room (by rwa [if_pos rfl])⟩
  · have others : ∑ e ∈ n.forked.erase pid, n.outstanding k e ≠ 0 := by
      simp only [Network.coming] at many
      omega
    obtain ⟨e, member, more⟩ := Finset.exists_ne_zero_of_sum_ne_zero others
    exact other_fuller tame target (Finset.ne_of_mem_erase member) more room own

/-- Without care the drivers can bring it about that both wait. -/
theorem stuck_reachable (tame : Tame k capacity n) (target : n.system.drivers pid = some d)
    (sending : n.phase = .sending (k.driverMq pid) msg events)
    (full : ¬ HasRoom (some capacity) (n.taskQueue k pid)) (own : n.own pid ≠ 0)
    (many : capacity < n.coming k pid) :
    ∃ later, Relation.ReflTransGen (Moves k (some capacity)) n later ∧ Stuck k capacity later pid := by
  induction room : capacity - (cliQueue k n.system).length generalizing n d with
  | succ room ih =>
    obtain ⟨next, more⟩ := fuller tame target own many (by omega)
    obtain ⟨d', target'⟩ := sending_live more.tame.sound (more.phase.trans sending)
    have longer := more.longer
    obtain ⟨later, path, stuck⟩ := ih more.tame target' (more.phase.trans sending)
      (more.queue ▸ full) more.own (more.coming ▸ many) (by omega)
    exact ⟨later, more.path.trans path, stuck⟩
  | zero =>
    have cliFull : ¬ HasRoom (some capacity) (cliQueue k n.system) := by
      rw [hasRoom_some]
      omega
    by_cases silent : n.unsent pid = []
    · -- the timer of the driver expires and its completion has to wait
      have due : d.due = true := by
        simpa [Network.own, silent, target] using own
      obtain ⟨_, queue, sent⟩ := handle_self tame.sound target d.timerFd 0
      rw [handle_due due] at queue sent
      refine ⟨n.handle pid d d.timerFd 0,
        .single ⟨_, .event pid d.timerFd 0 d target silent (.inr ⟨rfl, due_timer due⟩)⟩, ?_⟩
      constructor
      case sending => exact ⟨_, _, sending⟩
      case full => rwa [queue]
      case unsent => simp [sent, Driver.expire, Reaction.sent]
      case cliFull => rwa [handle_cliQueue tame.sound target]
    · exact ⟨n, .refl, ⟨_, _, sending⟩, full, silent, cliFull⟩

end Moves

theorem careful_of_roomy (move : RoomyMove k (some capacity) n next) : CarefulMove k capacity n next := by
  obtain ⟨act, move, room⟩ := move
  exact ⟨act, move, fun self pid timer same => .inl (room self pid timer same)⟩

/-- As long as `send_task` is entered with care, the CLI and a driver never wait for each
other; where it is entered without, the drivers can bring this about. -/
theorem no_circular_wait (k : Kernel) (capacity : Nat)
    (path : Relation.ReflTransGen (CarefulMove k capacity) .start n) :
    (∀ pid, ¬ Stuck k capacity n pid) ∧
      ∀ self pid timer next, Move k (some capacity) n (.sendTask self pid timer) next →
        ¬ Careful k capacity n pid →
          ∃ later, Relation.ReflTransGen (Moves k (some capacity)) next later ∧
            Stuck k capacity later pid := by
  obtain ⟨tame, waiting⟩ := reachable_invariant (fun n => Tame k capacity n ∧ Waiting k capacity n)
    (fun n next ⟨tame, waiting⟩ move =>
      ⟨move_tame tame move.choose_spec.1, move_waiting tame waiting move⟩)
    path ⟨start_tame k capacity, nofun⟩
  constructor
  · intro pid stuck
    obtain ⟨msg, events, sending⟩ := stuck.sending
    exact (waiting pid msg events sending).not_stuck stuck
  · intro self pid timer next move careless
    have tame' := move_tame tame move
    simp only [Careful, not_or, Nat.not_le] at careless
    cases move with
    | sendTask _ _ _ queue msg events turn found =>
      have target := sendTask_target tame.sound found
      subst target
      obtain ⟨d, live⟩ := sending_live tame'.sound rfl
      exact stuck_reachable tame' live rfl careless.1 careless.2.1 careless.2.2

theorem no_circular_wait_answered : (∀ pid, ¬ Stuck plainKernel 1 answered pid) ∧
    ∀ self pid timer next, Move plainKernel (some 1) answered (.sendTask self pid timer) next →
      ¬ Careful plainKernel 1 answered pid →
        ∃ later, Relation.ReflTransGen (Moves plainKernel (some 1)) next later ∧
          Stuck plainKernel 1 later pid :=
  no_circular_wait plainKernel 1
    (Relation.ReflTransGen.mono (fun _ _ => careful_of_roomy) _ _
      (answered_path (by simp [HasRoom])))

/-- Driver 100 is about to answer its first task, has the second in its queue, and the CLI
waits to send the third. -/
def crowded : Network where
  system := answering.system.send (plainKernel.driverMq 100) [⟨.task, 1, 5⟩]
  phase := .sending (plainKernel.driverMq 100) ⟨.task, 1, 5⟩ []
  unsent := answering.unsent
  forked := {100}

theorem crowded_path : Relation.ReflTransGen (Moves plainKernel (some 1)) .start crowded := by
  have first : Relation.ReflTransGen (Moves plainKernel (some 1)) .start answering :=
    Relation.ReflTransGen.mono (fun _ _ => RoomyMove.moves) _ _
      (answering_path (by simp [HasRoom]))
  have second := Relation.ReflTransGen.mono (fun _ _ => RoomyMove.moves) _ _
    (task_path (some 1) answering.system answering.unsent {100} (by simp [HasRoom]; decide) rfl rfl)
  have delivered : Moves plainKernel (some 1)
      ⟨answering.system, .sending (plainKernel.driverMq 100) ⟨.task, 1, 5⟩ [], answering.unsent, {100}⟩
      ⟨crowded.system, .batch [], answering.unsent, {100}⟩ :=
    ⟨_, .deliver _ _ [] rfl (by simp [HasRoom]; decide)⟩
  have typed : Moves plainKernel (some 1)
      ⟨crowded.system, .batch [], answering.unsent, {100}⟩
      ⟨crowded.system, .batch [.stdin], answering.unsent, {100}⟩ :=
    ⟨_, .poll [.stdin] rfl (by decide) (by decide) (by decide)⟩
  have entered : Moves plainKernel (some 1)
      ⟨crowded.system, .batch [.stdin], answering.unsent, {100}⟩ crowded :=
    ⟨_, .sendTask 1 100 5 _ _ [] rfl rfl⟩
  exact .tail (.tail (.tail (first.trans second) delivered) typed) entered

/-- With queues of one message: the driver sends its answer, its timer expires, and both wait. -/
theorem circular_wait : ¬ ∀ k capacity n pid, 0 < capacity →
    Relation.ReflTransGen (Moves k (some capacity)) .start n → ¬ Stuck k capacity n pid := by
  intro law
  have tame := reachable_invariant (Tame plainKernel 1) (fun _ _ tame ⟨_, move⟩ => move_tame tame move)
    crowded_path (start_tame plainKernel 1)
  obtain ⟨d, live⟩ : ∃ d, crowded.system.drivers 100 = some d := ⟨_, rfl⟩
  obtain ⟨later, path, stuck⟩ := stuck_reachable tame live rfl (by rw [hasRoom_some]; decide)
    (by decide) (by decide)
  exact law plainKernel 1 later 100 (by decide) (crowded_path.trans path) stuck

end Tasks.Taxi
