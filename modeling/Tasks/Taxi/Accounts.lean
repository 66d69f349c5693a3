import Tasks.Taxi.Agreement

/-! Every task of a run, from the command that sends it to what the CLI hears and shows of it. -/
namespace Tasks.Taxi

/-- One shift of a driver in the abstract: the tasks it has taken out of its queue, what it has said, and the
time of the task it is busy with. -/
inductive Shift (pid : Int) : List Int → List DriverMsg → Option Int → Prop where
  | begin : Shift pid [] [] none
  | accept (timer : Int) (free : Shift pid tasks said none) :
      Shift pid (tasks ++ [timer]) (said ++ [⟨.statusUpdate, pid, timer⟩]) (some timer)
  | refuse (timer : Int) (busy : Shift pid tasks said (some now)) :
      Shift pid (tasks ++ [timer]) (said ++ [⟨.busyResp, pid, now⟩]) (some now)
  | complete (positive : 0 < now) (busy : Shift pid tasks said (some now)) :
      Shift pid tasks (said ++ [⟨.statusUpdate, pid, 0⟩]) none

def own (pid : Int) (queue : List DriverMsg) : List DriverMsg :=
  queue.filter fun msg => decide (msg.pid = pid) && msg.type != .register

def System.assigned (s : System) (pid : Int) : Event → List Int
  | .sendTask _ target timer => if target = pid ∧ (findDriver s.table target).isSome then [timer] else []
  | _ => []

/-- What the CLI hears of the driver in a step. -/
def System.heard (k : Kernel) (s : System) (pid : Int) : Event → List DriverMsg
  | .cliMessage => own pid ((cliQueue k s).take 1)
  | _ => []

/-- A run, with the tasks sent to one driver and all that the CLI has heard of it. -/
inductive History (k : Kernel) (pid : Int) : System → List Int → List DriverMsg → Prop where
  | start : History k pid .start [] []
  | step (before : History k pid s tasks heard) (event : Event) (taken : Step k s event next) :
      History k pid next (tasks ++ s.assigned pid event) (heard ++ s.heard k pid event)

def Driver.now (d : Driver) : Option Int := if d.busy then some d.remaining else none

structure Driver.Timed (d : Driver) : Prop where
  busy : d.busy = true → d.timer = d.remaining
  free : d.busy = false → d.timerFd = -1

structure Balanced (k : Kernel) (pid : Int) (s : System) (tasks : List Int) (heard : List DriverMsg) :
    Prop where
  orderly : Orderly k s
  strange : pid ∉ s.table.map DriverInfo.pid → tasks = [] ∧ heard = []
  entry : ∀ info ∈ s.table, info.pid = pid → info = applied heard (.new pid (k.driverMq pid))
  driver : ∀ d, s.drivers pid = some d → d.Timed ∧ (∀ msg ∈ s.queues d.mqId, msg.type = .task) ∧
    ∃ done, tasks = done ++ (s.queues d.mqId).map DriverMsg.data ∧
      Shift pid done (heard ++ own pid (cliQueue k s)) d.now

section Own

variable {k : Kernel} {s : System} {pid : Int}

@[simp] theorem own_append (pid : Int) (queue msgs : List DriverMsg) :
    own pid (queue ++ msgs) = own pid queue ++ own pid msgs := List.filter_append ..

theorem own_others (others : ∀ msg ∈ queue, msg.pid ≠ pid) : own pid queue = [] :=
  List.filter_eq_nil_iff.mpr fun msg member => by simp [others msg member]

theorem own_all (mine : ∀ msg ∈ queue, msg.pid = pid ∧ msg.type ≠ .register) : own pid queue = queue :=
  List.filter_eq_self.mpr fun msg member => by simpa using mine msg member

theorem own_strange (orderly : Orderly k s) (strange : pid ∉ s.table.map DriverInfo.pid) :
    own pid (cliQueue k s) = [] := by
  refine List.filter_eq_nil_iff.mpr fun msg member both => ?_
  simp only [Bool.and_eq_true, decide_eq_true_eq, bne_iff_ne] at both
  exact strange (both.1 ▸ orderly.updated msg member both.2)

end Own

section Events

variable {d : Driver} {queue : List DriverMsg}

/-- One event of a driver is at most one step of its shift, for the task that it takes. -/
theorem handle_shift (timed : d.Timed) (tasks : ∀ msg ∈ queue, msg.type = .task)
    (due : key = d.mqId ∨ key = d.timerFd ∧ 0 < d.timer) (shift : Shift d.pid done said d.now) (fd : Nat) :
    (d.handle queue key fd).1.Timed ∧ (∀ msg ∈ (d.handle queue key fd).2.1, msg.type = .task) ∧
      ∃ more, queue.map DriverMsg.data = more ++ (d.handle queue key fd).2.1.map DriverMsg.data ∧
        Shift d.pid (done ++ more) (said ++ (d.handle queue key fd).2.2.sent)
          (d.handle queue key fd).1.now := by
  have handled := handle_handled d queue key fd
  generalize d.handle queue key fd = next at handled
  cases handled with
  | idle _ quiet =>
    refine ⟨timed, tasks, [], rfl, ?_⟩
    rw [List.append_nil, Reaction.sent, List.append_nil]
    exact shift
  | foreign msg rest mine other => exact absurd (tasks msg (.head _)) other
  | reject msg rest mine task busy =>
    have state : d.now = some d.remaining := by rw [Driver.now, busy, if_pos rfl]
    refine ⟨timed, fun other member => tasks other (.tail _ member), [msg.data], rfl, ?_⟩
    rw [state] at shift ⊢
    exact .refuse msg.data shift
  | accept msg rest mine task free =>
    have state : d.now = none := by rw [Driver.now, free, if_neg Bool.false_ne_true]
    rw [state] at shift
    exact ⟨⟨fun _ => rfl, fun free => by cases free⟩, fun other member => tasks other (.tail _ member),
      [msg.data], rfl, .accept msg.data shift⟩
  | complete _ other running late =>
    have busy : d.busy = true := by
      by_contra free
      exact running (timed.free (by simpa using free))
    have state : d.now = some d.remaining := by rw [Driver.now, busy, if_pos rfl]
    have positive : 0 < d.remaining := by
      rw [← timed.busy busy]
      exact (due.resolve_left other).2
    rw [state] at shift
    refine ⟨⟨fun busy => (by cases busy), fun _ => rfl⟩, tasks, [], rfl, ?_⟩
    rw [List.append_nil]
    exact .complete positive shift

end Events

section Steps

variable {k : Kernel} {pid : Int} {s : System} {tasks : List Int} {heard : List DriverMsg}

theorem start_balanced (k : Kernel) (pid : Int) : Balanced k pid .start [] [] where
  orderly := start_orderly k
  strange _ := ⟨rfl, rfl⟩
  entry := nofun
  driver := nofun

theorem createDriver_balanced (balanced : Balanced k pid s tasks heard) (positive : 0 < new)
    (fresh : s.drivers new = none) : Balanced k pid (s.createDriver k new) tasks heard := by
  have orderly := balanced.orderly
  have queue : own pid (cliQueue k (s.createDriver k new)) = own pid (cliQueue k s) := by
    have sent : cliQueue k (s.createDriver k new) = cliQueue k s ++ [⟨.register, new, baseDriverKey + new⟩] :=
      cliQueue_send (s.spawn k new) _
    rw [sent, own_append]
    simp [own]
  have elsewhere (mq : Int) (other : mq ≠ k.cliMq) : (s.createDriver k new).queues mq = s.queues mq :=
    send_other (s := s.spawn k new) _ other
  refine ⟨createDriver_orderly orderly positive fresh, balanced.strange, balanced.entry, fun d live => ?_⟩
  rw [queue]
  by_cases same : pid = new
  · subst same
    have unknown : pid ∉ s.table.map DriverInfo.pid := fun known => by
      obtain ⟨info, member, same⟩ := List.mem_map.mp known
      have alive := orderly.alive info member
      rw [same, fresh] at alive
      contradiction
    obtain ⟨rfl, rfl⟩ := balanced.strange unknown
    have mine : (s.createDriver k pid).drivers pid = some (.start pid (k.driverMq pid)) := by
      simp [System.createDriver, System.send]
    cases mine.symm.trans live
    have empty : (s.createDriver k pid).queues (k.driverMq pid) = [] :=
      (elsewhere _ (driverMq_ne positive)).trans (orderly.unborn pid positive fresh)
    have quiet := own_strange orderly unknown
    refine ⟨⟨fun busy => (by cases busy), fun _ => rfl⟩, ?_, [], ?_, ?_⟩
    · rw [Driver.start, empty]
      exact List.forall_mem_nil _
    · rw [Driver.start, empty]
      rfl
    · rw [quiet]
      exact .begin
  · have before : (s.createDriver k new).drivers pid = s.drivers pid := by
      simp [System.createDriver, System.send, same]
    rw [before] at live
    rw [elsewhere _ (orderly.mq_ne live)]
    exact balanced.driver d live

theorem sendTask_balanced (balanced : Balanced k pid s tasks heard) (self target timer : Int) :
    Balanced k pid (s.sendTask self target timer)
      (tasks ++ s.assigned pid (.sendTask self target timer)) heard := by
  have orderly := balanced.orderly
  cases found : findDriver s.table target with
  | none =>
    have nothing : s.sendTask self target timer = s := by simp [System.sendTask, Taxi.sendTask, found]
    have unassigned : s.assigned pid (.sendTask self target timer) = [] := by simp [System.assigned, found]
    rwa [nothing, unassigned, List.append_nil]
  | some idx =>
    obtain ⟨info, member, read, same⟩ := findDriver_some found
    obtain ⟨_, _, positive⟩ := orderly.registered member
    have sent : s.sendTask self target timer = s.send (k.driverMq target) [⟨.task, self, timer⟩] := by
      have queued := orderly.queued info member
      rw [same] at queued
      simp [System.sendTask, Taxi.sendTask, found, read, queued]
    have queue : cliQueue k (s.send (k.driverMq target) [⟨.task, self, timer⟩]) = cliQueue k s :=
      same ▸ orderly.cliQueue_assign member _
    refine ⟨sendTask_orderly orderly self target timer, fun strange => ?_, ?_, fun d live => ?_⟩
    · rw [sent] at strange
      have other : ¬ target = pid := fun here => strange (here ▸ same ▸ List.mem_map_of_mem member)
      simpa [System.assigned, other] using balanced.strange strange
    · rw [sent]
      exact balanced.entry
    · rw [sent] at live ⊢
      obtain ⟨timed, only, done, split, shift⟩ := balanced.driver d live
      have mq := (orderly.identity pid d live).2.2
      rw [queue]
      by_cases here : target = pid
      · subst here
        rw [mq] at only split ⊢
        rw [send_same]
        refine ⟨timed, fun msg member => ?_, done, ?_, shift⟩
        · rcases List.mem_append.mp member with before | last
          · exact only msg before
          · rw [List.mem_singleton.mp last]
        · simp [System.assigned, found, split]
      · have other : d.mqId ≠ k.driverMq target := by
          rw [mq]
          exact fun equal => here (driverMq_inj equal).symm
        rw [send_other _ other]
        refine ⟨timed, only, done, ?_, shift⟩
        simpa [System.assigned, here] using split

theorem driverEvent_balanced (balanced : Balanced k pid s tasks heard) (live : s.drivers who = some d)
    (due : key = d.mqId ∨ key = d.timerFd ∧ 0 < d.timer) (fd : Nat) :
    Balanced k pid (s.driverEvent k d key fd) tasks heard := by
  have orderly := balanced.orderly
  obtain ⟨_, samePid, mq⟩ := orderly.identity who d live
  refine ⟨driverEvent_orderly orderly live key fd, balanced.strange, balanced.entry, fun d' live' => ?_⟩
  rw [driverEvent_driver orderly live] at live'
  rw [driverEvent_queue orderly live, own_append]
  by_cases here : pid = who
  · subst here
    rw [if_pos rfl] at live'
    cases live'
    obtain ⟨timed, only, done, split, shift⟩ := balanced.driver d live
    obtain ⟨timed', only', more, taken, shift'⟩ := handle_shift timed only due (samePid ▸ shift) fd
    have mine : own pid (d.handle (s.queues d.mqId) key fd).2.2.sent =
        (d.handle (s.queues d.mqId) key fd).2.2.sent :=
      own_all fun msg member => samePid ▸ handle_sent d (s.queues d.mqId) key fd msg member
    have left : (s.driverEvent k d key fd).queues (d.handle (s.queues d.mqId) key fd).1.mqId =
        (d.handle (s.queues d.mqId) key fd).2.1 := by
      rw [(handle_identity d (s.queues d.mqId) key fd).2, System.driverEvent, send_other _ (orderly.mq_ne live),
        take_same]
    rw [mine, left]
    refine ⟨timed', only', done ++ more, ?_, ?_⟩
    · rw [split, taken, List.append_assoc]
    · rw [← List.append_assoc, ← samePid]
      exact shift'
  · rw [if_neg here] at live'
    have others : own pid (d.handle (s.queues d.mqId) key fd).2.2.sent = [] :=
      own_others fun msg member => by
        rw [(handle_sent d (s.queues d.mqId) key fd msg member).1, samePid]
        exact Ne.symm here
    have apart : d'.mqId ≠ d.mqId := by
      rw [mq, (orderly.identity pid d' live').2.2]
      exact fun equal => here (driverMq_inj equal)
    have left : (s.driverEvent k d key fd).queues d'.mqId = s.queues d'.mqId := by
      rw [System.driverEvent, send_other _ (orderly.mq_ne live'), take_other _ apart]
    rw [others, List.append_nil, left]
    exact balanced.driver d' live'

theorem handleMessage_entry (balanced : Balanced k pid s tasks heard) (head : cliQueue k s = msg :: rest) :
    (∀ info ∈ handleMessage k.msgget s.table msg, info.pid = pid →
      info = applied (heard ++ own pid [msg]) (.new pid (k.driverMq pid))) ∧
    (pid ∉ (handleMessage k.msgget s.table msg).map DriverInfo.pid → pid ∉ s.table.map DriverInfo.pid) := by
  have orderly := balanced.orderly
  have first : msg ∈ cliQueue k s := by rw [head]; exact .head _
  have keeps (other : msg.type ≠ .statusUpdate) (info : DriverInfo) :
      applied (heard ++ own pid [msg]) info = applied heard info := by
    rw [applied, List.foldl_append]
    exact applied_others fun msg' member type => absurd type (by
      rw [List.mem_singleton.mp (List.mem_of_mem_filter member)]
      exact other)
  rcases handleMessage_cases orderly head with ⟨type, _, table⟩ | ⟨other, table⟩ | ⟨type, table⟩
  · have fresh := (orderly.announced msg first type).2.2
    have other : msg.type ≠ .statusUpdate := by rw [type]; decide
    rw [table]
    refine ⟨fun info member here => ?_, fun strange known => ?_⟩
    · rw [keeps other]
      rcases List.mem_append.mp member with older | last
      · exact balanced.entry info older here
      · cases List.mem_singleton.mp last
        have named : msg.pid = pid := here
        rw [named] at fresh ⊢
        obtain ⟨_, rfl⟩ := balanced.strange fresh
        rfl
    · rw [List.map_append] at strange
      exact strange (List.mem_append_left _ known)
  · rw [table]
    refine ⟨fun info member here => ?_, id⟩
    rw [keeps other]
    exact balanced.entry info member here
  · rw [table]
    refine ⟨fun info member here => ?_, fun strange known => ?_⟩
    · obtain ⟨old, inside, rfl⟩ := List.mem_map.mp member
      by_cases about : old.pid = msg.pid
      · rw [if_pos about] at here ⊢
        have named : old.pid = pid := here
        have mine : own pid [msg] = [msg] := own_all fun msg' member => by
          rw [List.mem_singleton.mp member, ← about, type]
          exact ⟨named, by decide⟩
        rw [mine, applied_append, ← balanced.entry old inside named, apply_own type about.symm]
      · rw [if_neg about] at here ⊢
        have others : own pid [msg] = [] := own_others fun msg' member => by
          rw [List.mem_singleton.mp member]
          exact fun named => about (here.trans named.symm)
        rw [others, List.append_nil]
        exact balanced.entry old inside here
    · obtain ⟨info, member, here⟩ := List.mem_map.mp known
      apply strange
      rw [List.map_map]
      refine List.mem_map.mpr ⟨info, member, ?_⟩
      rw [← here]
      simp only [Function.comp]
      split <;> rfl

theorem cliMessage_balanced (balanced : Balanced k pid s tasks heard) (head : cliQueue k s = msg :: rest) :
    Balanced k pid (s.cliMessage k msg rest) tasks (heard ++ s.heard k pid .cliMessage) := by
  have orderly := balanced.orderly
  have hears : s.heard k pid .cliMessage = own pid [msg] := by rw [System.heard, head]; rfl
  obtain ⟨entries, grows⟩ := handleMessage_entry balanced head
  rw [hears]
  refine ⟨cliMessage_orderly orderly head, fun strange => ?_, entries, fun d live => ?_⟩
  · have unknown := grows strange
    obtain ⟨none, silent⟩ := balanced.strange unknown
    have quiet := own_strange orderly unknown
    rw [head, ← List.singleton_append, own_append, List.append_eq_nil_iff] at quiet
    rw [none, silent, quiet.1]
    exact ⟨rfl, rfl⟩
  · have left : (s.cliMessage k msg rest).queues d.mqId = s.queues d.mqId := by
      rw [System.cliMessage]
      exact take_other _ (orderly.mq_ne live)
    have queue : cliQueue k (s.cliMessage k msg rest) = rest := take_same _ _ _
    obtain ⟨timed, only, done, split, shift⟩ := balanced.driver d live
    rw [head, ← List.singleton_append, own_append, ← List.append_assoc] at shift
    rw [left, queue]
    exact ⟨timed, only, done, split, shift⟩

theorem history_balanced (history : History k pid s tasks heard) : Balanced k pid s tasks heard := by
  induction history with
  | start => exact start_balanced k pid
  | step _ event step balanced =>
    cases step with
    | createDriver new positive fresh =>
      simpa [System.assigned, System.heard] using createDriver_balanced balanced positive fresh
    | sendTask self target timer =>
      simpa [System.heard] using sendTask_balanced balanced self target timer
    | driver who key fd d live due =>
      simpa [System.assigned, System.heard] using driverEvent_balanced balanced live due fd
    | cliMessage msg rest head =>
      simpa [System.assigned] using cliMessage_balanced balanced head

end Steps

section Accounts

variable {k : Kernel} {pid : Int} {s : System} {tasks : List Int} {heard : List DriverMsg}

/-- No task is lost, doubled or overtaken: those sent to a driver are those it has taken and, behind them, those
in its queue; what the CLI has heard and will find in its queue answers the first, one by one. -/
theorem tasks_answered (history : History k pid s tasks heard) (live : s.drivers pid = some d) :
    ∃ done, tasks = done ++ (s.queues d.mqId).map DriverMsg.data ∧
      Shift pid done (heard ++ own pid (cliQueue k s)) d.now :=
  ((history_balanced history).driver d live).2.2

/-- The driver is sent a second task while it is busy, and the CLI has heard of the first. -/
def reported : System :=
  ((taken 5).sendTask 1 100 7).cliMessage plainKernel ⟨.statusUpdate, 100, 5⟩ []

theorem reported_history : History plainKernel 100 reported [5, 7] [⟨.statusUpdate, 100, 5⟩] := by
  have created : History plainKernel 100 _ [] [] :=
    .step .start (.createDriver 100) (.createDriver 100 (by decide) rfl)
  have registered : History plainKernel 100 _ [] [] :=
    .step created .cliMessage (.cliMessage ⟨.register, 100, baseDriverKey + 100⟩ [] rfl)
  have first : History plainKernel 100 (tasked 5) [5] [] :=
    .step registered (.sendTask 1 100 5) (.sendTask 1 100 5)
  have accepted : History plainKernel 100 (taken 5) [5] [] := .step first _ (taken_step 5)
  have second : History plainKernel 100 ((taken 5).sendTask 1 100 7) [5, 7] [] :=
    .step accepted (.sendTask 1 100 7) (.sendTask 1 100 7)
  exact .step second .cliMessage (.cliMessage ⟨.statusUpdate, 100, 5⟩ [] rfl)

theorem tasks_answered_reported :
    ∃ (d : Driver) (done : List Int), [5, 7] = done ++ (reported.queues d.mqId).map DriverMsg.data ∧
      Shift 100 done ([⟨.statusUpdate, 100, 5⟩] ++ own 100 (cliQueue plainKernel reported)) d.now :=
  have live : reported.drivers 100 = some _ := rfl
  ⟨_, tasks_answered reported_history live⟩

def told (heard : List DriverMsg) : Int :=
  ((heard.filter fun msg => msg.type == .statusUpdate).getLast?.map DriverMsg.data).getD 0

def shown (remaining : Int) : String :=
  if 0 < remaining then s!"Busy ({remaining} sec left)\n" else "Available\n"

def DriverInfo.statusText (info : DriverInfo) : String :=
  match info.status with
  | .busy => s!"Busy ({info.remainingTime} sec left)\n"
  | .available => "Available\n"

def getStatus (drivers : Drivers) (pid : Int) : String :=
  match findDriver drivers pid with
  | none => s!"Driver {pid} not found\n"
  | some idx => s!"Driver {pid} status: " ++ (drivers[idx]?.elim "" DriverInfo.statusText)

def DriverInfo.line (info : DriverInfo) : String := s!"Driver PID: {info.pid}, Status: " ++ info.statusText

def getDrivers (drivers : Drivers) : String := String.join (drivers.map DriverInfo.line)

end Accounts
end Tasks.Taxi
