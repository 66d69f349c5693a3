import Tasks.Taxi.Driver

/-! One driver over all its events: every task that it receives is answered once, and every
accepted task but the running one has been completed. -/
namespace Tasks.Taxi

/-- A driver with its queue; `received` and `log` record what it took and what it did. -/
structure Station where
  driver : Driver
  queue : List DriverMsg
  received : List DriverMsg
  log : List Reaction

def Station.start (pid mqId : Int) : Station := ⟨.start pid mqId, [], [], []⟩

/-- An event is a key of `epoll_wait` and the descriptor that a new timer would get. -/
def Station.event (s : Station) (event : Int × Nat) : Station :=
  let next := s.driver.handle s.queue event.1 event.2
  { driver := next.1
    queue := next.2.1
    received := s.received ++ if event.1 = s.driver.mqId then s.queue.take 1 else []
    log := s.log ++ [next.2.2] }

inductive Action where
  | arrive (msg : DriverMsg)
  | wake (events : List (Int × Nat))

def Station.step (s : Station) : Action → Station
  | .arrive msg => { s with queue := s.queue ++ [msg] }
  | .wake events => events.foldl Station.event s

def DriverMsg.isTask (msg : DriverMsg) : Bool := msg.type == .task

@[simp] def Reaction.accepts : Reaction → Bool
  | .accepted _ => true
  | _ => false

@[simp] def Reaction.rejects : Reaction → Bool
  | .rejected _ => true
  | _ => false

@[simp] def Reaction.completes : Reaction → Bool
  | .completed _ => true
  | _ => false

structure Conserved (s : Station) : Prop where
  answered : s.received.countP DriverMsg.isTask =
    s.log.countP Reaction.accepts + s.log.countP Reaction.rejects
  finished : s.log.countP Reaction.accepts =
    s.log.countP Reaction.completes + if s.driver.busy then 1 else 0
  timed : s.driver.timerFd ≠ -1 ↔ s.driver.busy = true
  labelled : ∀ r ∈ s.log, ∀ msg ∈ r.sent,
    msg.type = if r.rejects then .busyResp else .statusUpdate

theorem start_conserved (pid mqId : Int) : Conserved (.start pid mqId) := by
  constructor <;> simp [Station.start, Driver.start]

theorem event_conserved (kept : Conserved s) (event : Int × Nat) : Conserved (s.event event) := by
  obtain ⟨answered, finished, timed, labelled⟩ := kept
  have handled := handle_handled s.driver s.queue event.1 event.2
  unfold Station.event
  generalize s.driver.handle s.queue event.1 event.2 = next at handled
  generalize s.queue = queue at handled
  have label (r : Reaction) (right : ∀ msg ∈ r.sent,
      msg.type = if r.rejects then .busyResp else .statusUpdate) :
      ∀ r' ∈ s.log ++ [r], ∀ msg ∈ r'.sent,
        msg.type = if r'.rejects then .busyResp else .statusUpdate := by
    intro r' member
    rcases List.mem_append.mp member with earlier | last
    · exact labelled r' earlier
    · rw [List.mem_singleton.mp last]
      exact right
  cases handled with
  | idle queue quiet =>
    have nothing : (if event.1 = s.driver.mqId then queue.take 1 else []) = [] := by
      split
      next mine => simp [quiet mine]
      next => rfl
    rw [nothing]
    exact ⟨by simpa using answered, by simpa using finished, timed, label _ (by simp [Reaction.sent])⟩
  | foreign msg rest mine other =>
    have untasked : msg.isTask = false := by simpa [DriverMsg.isTask] using other
    exact ⟨by simpa [mine, untasked] using answered, by simpa using finished, timed,
      label _ (by simp [Reaction.sent])⟩
  | reject msg rest mine task busy =>
    have tasked : msg.isTask = true := by simp [DriverMsg.isTask, task]
    refine ⟨?_, by simpa using finished, timed, label _ (by simp [Reaction.sent])⟩
    simp [mine, tasked, answered, Nat.add_assoc]
  | accept msg rest mine task free =>
    have tasked : msg.isTask = true := by simp [DriverMsg.isTask, task]
    simp only [free, Bool.false_eq_true, if_false, Nat.add_zero] at finished
    refine ⟨?_, ?_, ?_, label _ (by simp [Reaction.sent])⟩
    · simp [mine, tasked, answered]
      omega
    · simp [finished]
    · simp
  | complete queue other running due =>
    have busy := timed.mp running
    simp only [busy, if_true] at finished
    refine ⟨?_, ?_, ?_, label _ (by simp [Reaction.sent])⟩
    · simpa [other] using answered
    · simp [finished]
    · simp

theorem step_conserved (kept : Conserved s) (action : Action) : Conserved (s.step action) := by
  cases action with
  | arrive msg => exact ⟨kept.answered, kept.finished, kept.timed, kept.labelled⟩
  | wake events =>
    simp only [Station.step]
    induction events generalizing s with
    | nil => exact kept
    | cons event rest ih => exact ih (event_conserved kept event)

/-- A task that finds the driver busy changes nothing about the running one. -/
theorem busy_unchanged (s : Station) (fd : Nat) (head : s.queue = msg :: rest)
    (task : msg.type = .task) (busy : s.driver.busy = true) :
    (s.event (s.driver.mqId, fd)).driver = s.driver := by
  simp [Station.event, Driver.handle, head, Driver.receive, task, busy]

/-- Whatever arrives, in whatever order and whatever batches the events are handled. -/
theorem task_conservation (pid mqId : Int) (actions : List Action) :
    let s := actions.foldl Station.step (.start pid mqId)
    Conserved s ∧ ∀ msg rest fd, s.queue = msg :: rest → msg.type = .task → s.driver.busy = true →
      (s.event (s.driver.mqId, fd)).driver = s.driver := by
  refine ⟨?_, fun msg rest fd => busy_unchanged _ fd⟩
  suffices general : ∀ s, Conserved s → Conserved (actions.foldl Station.step s) from
    general _ (start_conserved pid mqId)
  induction actions with
  | nil => exact fun s kept => kept
  | cons action rest ih => exact fun s kept => ih _ (step_conserved kept action)

end Tasks.Taxi
