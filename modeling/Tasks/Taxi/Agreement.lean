import Tasks.Taxi.System
import Tasks.Kit.Run

/-! What the CLI believes of a driver, once it has read its queue, against what the driver
knows. The busy flag travels as `msg.data > 0`. -/
namespace Tasks.Taxi
open Kit

/-- What `main` does to an entry with one message. -/
def DriverInfo.apply (info : DriverInfo) (msg : DriverMsg) : DriverInfo :=
  if msg.type = .statusUpdate ∧ msg.pid = info.pid then
    info.update (decide (msg.data > 0)) msg.data
  else info

def applied (queue : List DriverMsg) (info : DriverInfo) : DriverInfo := queue.foldl .apply info

structure Matches (info : DriverInfo) (d : Driver) : Prop where
  status : info.status = .busy ↔ d.busy = true
  remaining : info.remainingTime = d.remaining

def Agreement (k : Kernel) (s : System) : Prop :=
  ∀ info ∈ s.table, ∀ d, s.drivers info.pid = some d → Matches (applied (cliQueue k s) info) d

/-- A free driver takes a task whose time is not positive. -/
def Hopeless (s : System) : Event → Prop
  | .driver pid key _ => ∃ d msg rest, s.drivers pid = some d ∧ key = d.mqId ∧ d.busy = false ∧
      s.queues d.mqId = msg :: rest ∧ msg.type = .task ∧ msg.data ≤ 0
  | _ => False

section Entries

variable {info : DriverInfo}

theorem applied_append (queue : List DriverMsg) (msg : DriverMsg) (info : DriverInfo) :
    applied (queue ++ [msg]) info = (applied queue info).apply msg := by
  simp [applied]

@[simp] theorem apply_pid (info : DriverInfo) (msg : DriverMsg) : (info.apply msg).pid = info.pid := by
  unfold DriverInfo.apply
  split <;> rfl

@[simp] theorem applied_pid (queue : List DriverMsg) (info : DriverInfo) :
    (applied queue info).pid = info.pid := by
  induction queue generalizing info with
  | nil => rfl
  | cons msg rest ih => exact (ih (info.apply msg)).trans (apply_pid info msg)

theorem apply_other (other : msg.type = .statusUpdate → msg.pid ≠ info.pid) : info.apply msg = info := by
  unfold DriverInfo.apply
  rw [if_neg fun both => other both.1 both.2]

theorem applied_others (others : ∀ msg ∈ queue, msg.type = .statusUpdate → msg.pid ≠ info.pid) :
    applied queue info = info := by
  induction queue with
  | nil => rfl
  | cons msg rest ih =>
    have first := apply_other (others msg (by simp))
    have later := ih fun other member => others other (by simp [member])
    calc applied (msg :: rest) info
        = applied rest (info.apply msg) := rfl
      _ = applied rest info := by rw [first]
      _ = info := later

theorem apply_own (type : msg.type = .statusUpdate) (own : msg.pid = info.pid) :
    info.apply msg = info.update (decide (msg.data > 0)) msg.data := by
  unfold DriverInfo.apply
  rw [if_pos ⟨type, own⟩]

/-- An entry after an update agrees with a driver whose flag is the sign of its time. -/
theorem update_matches (info : DriverInfo) (d : Driver) :
    Matches (info.update (decide (d.remaining > 0)) d.remaining) d ↔
      (0 < d.remaining ↔ d.busy = true) := by
  constructor
  · intro same
    have status := same.status
    by_cases positive : 0 < d.remaining <;> simpa [DriverInfo.update, positive] using status
  · intro flag
    refine ⟨?_, rfl⟩
    by_cases positive : 0 < d.remaining <;> simpa [DriverInfo.update, positive] using flag

end Entries

section Steps

variable {k : Kernel} {s : System}

theorem createDriver_agrees (orderly : Orderly k s) (agrees : Agreement k s)
    (fresh : s.drivers pid = none) : Agreement k (s.createDriver k pid) := by
  have queue : cliQueue k (s.createDriver k pid) =
      cliQueue k s ++ [⟨.register, pid, baseDriverKey + pid⟩] := by
    simp [cliQueue, System.createDriver]
  intro info member d live
  have alive := orderly.alive info member
  have other : info.pid ≠ pid := fun same => by simp [same, fresh] at alive
  have old : s.drivers info.pid = some d := by
    simpa [System.createDriver, System.send, other] using live
  rw [queue, applied_append, apply_other (by simp)]
  exact agrees info member d old

theorem sendTask_agrees (orderly : Orderly k s) (agrees : Agreement k s) (self pid timer : Int) :
    Agreement k (s.sendTask self pid timer) := by
  rcases sendTask_cases orderly self pid timer with same | ⟨info, member, known, positive, sent⟩
  · rwa [same]
  · rw [sent]
    have queue : cliQueue k (s.send (k.driverMq pid) [⟨.task, self, timer⟩]) = cliQueue k s :=
      send_other _ (driverMq_ne positive).symm
    intro info member d live
    rw [queue]
    exact agrees info member d live

/-- An event of one driver against the entries of the table. -/
theorem driverEvent_matches (orderly : Orderly k s) (agrees : Agreement k s)
    (live : s.drivers pid = some d) (key : Int) (fd : Nat) (member : info ∈ s.table)
    (own : info.pid = pid) (after : Driver)
    (now : (s.driverEvent k d key fd).drivers pid = some after) :
    Matches (applied (cliQueue k (s.driverEvent k d key fd)) info) after ↔
      ¬ Hopeless s (.driver pid key fd) := by
  obtain ⟨_, samePid, _⟩ := orderly.identity pid d live
  have before := agrees info member d (own ▸ live)
  rw [driverEvent_driver orderly live, if_pos rfl] at now
  rw [driverEvent_queue orderly live]
  have handled := handle_handled d (s.queues d.mqId) key fd
  have hopeless : Hopeless s (.driver pid key fd) ↔ key = d.mqId ∧ d.busy = false ∧
      ∃ msg rest, s.queues d.mqId = msg :: rest ∧ msg.type = .task ∧ msg.data ≤ 0 := by
    simp [Hopeless, live]
  rw [hopeless]
  generalize d.handle (s.queues d.mqId) key fd = next at handled now
  generalize s.queues d.mqId = queue at handled
  cases handled with
  | idle queue quiet =>
    cases now
    simp only [Reaction.sent, List.append_nil, before, true_iff]
    rintro ⟨mine, _, msg, rest, full, _⟩
    simp [quiet mine] at full
  | foreign msg rest mine other =>
    cases now
    simp only [Reaction.sent, List.append_nil, before, true_iff]
    rintro ⟨_, _, msg', rest', head, task, _⟩
    cases head
    exact other task
  | reject msg rest mine task busy =>
    cases now
    simp only [Reaction.sent, applied_append]
    rw [apply_other (by simp)]
    simp [before, busy]
  | accept msg rest mine task free =>
    cases now
    simp only [Reaction.sent, applied_append]
    rw [apply_own rfl (by simp [samePid, own])]
    have flag := update_matches (applied (cliQueue k s) info)
      { d with busy := true, remaining := msg.data, timerFd := fd, timer := msg.data }
    simp only at flag
    rw [flag]
    simp [mine, free, task]
  | complete queue other running due =>
    cases now
    simp only [Reaction.sent, applied_append]
    rw [apply_own rfl (by simp [samePid, own])]
    have flag := update_matches (applied (cliQueue k s) info)
      { d with busy := false, remaining := 0, timerFd := -1, timer := 0 }
    simp only at flag
    rw [flag]
    simp [other]

theorem driverEvent_others (orderly : Orderly k s) (agrees : Agreement k s)
    (live : s.drivers pid = some d) (key : Int) (fd : Nat) (member : info ∈ s.table)
    (other : info.pid ≠ pid) (after : Driver)
    (now : (s.driverEvent k d key fd).drivers info.pid = some after) :
    Matches (applied (cliQueue k (s.driverEvent k d key fd)) info) after := by
  have samePid := (orderly.identity pid d live).2.1
  have silent : ∀ msg ∈ (d.handle (s.queues d.mqId) key fd).2.2.sent, msg.type = .statusUpdate →
      msg.pid ≠ (applied (cliQueue k s) info).pid := by
    intro msg sent _ same
    rw [applied_pid, (handle_sent d _ key fd msg sent).1, samePid] at same
    exact other same.symm
  rw [driverEvent_driver orderly live, if_neg other] at now
  rw [driverEvent_queue orderly live, applied, List.foldl_append]
  change Matches (applied _ (applied (cliQueue k s) info)) after
  rw [applied_others silent]
  exact agrees info member after now

theorem driverEvent_agrees (orderly : Orderly k s) (agrees : Agreement k s)
    (live : s.drivers pid = some d) (key : Int) (fd : Nat) :
    Agreement k (s.driverEvent k d key fd) ↔ ¬ Hopeless s (.driver pid key fd) := by
  by_cases known : pid ∈ s.table.map DriverInfo.pid
  · obtain ⟨own, inside, same⟩ := List.mem_map.mp known
    have now : (s.driverEvent k d key fd).drivers pid =
        some (d.handle (s.queues d.mqId) key fd).1 := by
      rw [driverEvent_driver orderly live, if_pos rfl]
    constructor
    · intro after
      exact (driverEvent_matches orderly agrees live key fd inside same _ now).mp
        (after own inside _ (same ▸ now))
    · intro hopeful info member after alive
      by_cases mine : info.pid = pid
      · exact (driverEvent_matches orderly agrees live key fd member mine after (mine ▸ alive)).mpr
          hopeful
      · exact driverEvent_others orderly agrees live key fd member mine after alive
  · rw [driverEvent_waiting orderly live known]
    refine ⟨fun _ hopeless => ?_, fun _ => agrees⟩
    obtain ⟨d', msg, rest, live', _, _, head, _⟩ := hopeless
    rw [live] at live'
    cases live'
    rw [(orderly.waiting pid d live known).1] at head
    cases head

theorem cliMessage_agrees (orderly : Orderly k s) (agrees : Agreement k s)
    (head : cliQueue k s = msg :: rest) : Agreement k (s.cliMessage k msg rest) := by
  have queue : cliQueue k (s.cliMessage k msg rest) = rest := take_same _ _ _
  intro info member d live
  rw [queue]
  have old (info : DriverInfo) (inside : info ∈ s.table) (alive : s.drivers info.pid = some d) :
      Matches (applied rest (info.apply msg)) d := by
    have before := agrees info inside d alive
    rwa [head] at before
  have table : (s.cliMessage k msg rest).table = handleMessage k.msgget s.table msg := rfl
  rw [table] at member
  rcases handleMessage_cases orderly head with ⟨type, _, table⟩ | ⟨type, table⟩ | ⟨type, table⟩
  · rw [table] at member
    obtain ⟨_, _, absent⟩ := orderly.announced msg (by simp [head]) type
    rcases List.mem_append.mp member with older | last
    · have unmoved : info.apply msg = info := apply_other (by simp [type])
      exact unmoved ▸ old info older live
    · rw [List.mem_singleton.mp last] at live ⊢
      have silent : ∀ other ∈ rest, other.type = .statusUpdate →
          other.pid ≠ (DriverInfo.new msg.pid (k.driverMq msg.pid)).pid := by
        intro other inside update same
        have known := orderly.updated other (by simp [head, inside]) (by simp [update])
        rw [same] at known
        exact absent known
      have idle := (orderly.waiting msg.pid d live absent).2
      rw [applied_others silent, idle]
      exact ⟨by simp [DriverInfo.new, Driver.start], rfl⟩
  · rw [table] at member
    have unmoved : info.apply msg = info := apply_other fun update => absurd update type
    exact unmoved ▸ old info member live
  · rw [table] at member
    obtain ⟨before, inside, same⟩ := List.mem_map.mp member
    have moved : info = before.apply msg := by
      rw [← same, DriverInfo.apply]
      simp only [type, true_and, eq_comm]
    rw [moved, apply_pid] at live
    rw [moved]
    exact old before inside live

/-- Exactly the hopeless events break the agreement. -/
theorem step_agrees (orderly : Orderly k s) (agrees : Agreement k s) (step : Step k s e next) :
    Agreement k next ↔ ¬ Hopeless s e := by
  cases step with
  | createDriver pid positive fresh =>
    exact ⟨fun _ => id, fun _ => createDriver_agrees orderly agrees fresh⟩
  | sendTask self pid timer => exact ⟨fun _ => id, fun _ => sendTask_agrees orderly agrees self pid timer⟩
  | driver pid key fd d live due => exact driverEvent_agrees orderly agrees live key fd
  | cliMessage msg rest head => exact ⟨fun _ => id, fun _ => cliMessage_agrees orderly agrees head⟩

end Steps

def HopefulStep (k : Kernel) (s next : System) : Prop := ∃ e, Step k s e next ∧ ¬ Hopeless s e

section OneDriver

def tasked (timer : Int) : System :=
  ((System.start.createDriver plainKernel 100).cliMessage plainKernel
    ⟨.register, 100, baseDriverKey + 100⟩ []).sendTask 1 100 timer

def taken (timer : Int) : System :=
  (tasked timer).driverEvent plainKernel (.start 100 (baseDriverKey + 100)) (baseDriverKey + 100) 7

theorem tasked_path (timer : Int) :
    Relation.ReflTransGen (HopefulStep plainKernel) .start (tasked timer) := by
  have created : HopefulStep plainKernel .start (System.start.createDriver plainKernel 100) :=
    ⟨_, .createDriver 100 (by decide) rfl, id⟩
  have registered : HopefulStep plainKernel (System.start.createDriver plainKernel 100)
      ((System.start.createDriver plainKernel 100).cliMessage plainKernel
        ⟨.register, 100, baseDriverKey + 100⟩ []) :=
    ⟨_, .cliMessage _ _ rfl, id⟩
  exact .tail (.tail (.single created) registered) ⟨_, .sendTask 1 100 timer, id⟩

theorem taken_step (timer : Int) :
    Step plainKernel (tasked timer) (.driver 100 (baseDriverKey + 100) 7) (taken timer) :=
  .driver 100 _ 7 _ rfl (.inl rfl)

theorem tasked_hopeful (positive : 0 < timer) :
    ¬ Hopeless (tasked timer) (.driver 100 (baseDriverKey + 100) 7) := by
  rintro ⟨d, msg, rest, live, mine, _, head, _, late⟩
  have queue : (tasked timer).queues (baseDriverKey + 100) = [⟨.task, 1, timer⟩] := rfl
  rw [← mine, queue] at head
  cases head
  exact absurd late (Int.not_le.mpr positive)

end OneDriver

/-- As long as no free driver takes a task without a positive time, the CLI and the drivers
agree, and the first such task ends the agreement. -/
theorem status_agreement (k : Kernel) (path : Relation.ReflTransGen (HopefulStep k) .start s) :
    Agreement k s ∧ ∀ e next, Step k s e next → (Agreement k next ↔ ¬ Hopeless s e) := by
  obtain ⟨orderly, agrees⟩ := reachable_invariant (fun s => Orderly k s ∧ Agreement k s)
    (fun s next ⟨orderly, agrees⟩ ⟨_, step, hopeful⟩ =>
      ⟨step_orderly orderly step, (step_agrees orderly agrees step).mpr hopeful⟩)
    path ⟨start_orderly k, by simp [Agreement, System.start]⟩
  exact ⟨agrees, fun e next step => step_agrees orderly agrees step⟩

theorem status_agreement_taken : Agreement plainKernel (taken 5) ∧ ∀ e next,
    Step plainKernel (taken 5) e next → (Agreement plainKernel next ↔ ¬ Hopeless (taken 5) e) :=
  status_agreement plainKernel
    ((tasked_path 5).tail ⟨_, taken_step 5, tasked_hopeful (by decide)⟩)

/-- `send_task 100 0`: the driver is busy for ever and the CLI is told that it is free. -/
theorem status_disagreement :
    ¬ ∀ k s, Relation.ReflTransGen (fun s next => ∃ e, Step k s e next) .start s → Agreement k s := by
  intro law
  have path : Relation.ReflTransGen (fun s next => ∃ e, Step plainKernel s e next) .start (tasked 0) :=
    Relation.ReflTransGen.mono (fun _ _ ⟨e, step, _⟩ => ⟨e, step⟩) _ _ (tasked_path 0)
  have agrees := law plainKernel (taken 0) (path.tail ⟨_, taken_step 0⟩) ⟨100, .available, 0, baseDriverKey + 100⟩
    (List.mem_singleton.mpr rfl) _ rfl
  exact absurd (agrees.status.mpr rfl) (by decide)

end Tasks.Taxi
