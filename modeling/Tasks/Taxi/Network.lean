import Tasks.Taxi.System
import Tasks.Kit.Run
import Mathlib.Data.Finset.Insert

/-! The system once more with every `msgsnd` a step of its own: a queue may be full, and then
its sender waits. The CLI works through the events of one `epoll_wait` after another. -/
namespace Tasks.Taxi
open Kit

inductive Source where
  | stdin
  | queue
  deriving DecidableEq, Repr

/-- Where the CLI is: at the events still to handle, none before `epoll_wait`, or in the
`msgsnd` of `send_task`. -/
inductive Phase where
  | batch (events : List Source)
  | sending (queue : Int) (msg : DriverMsg) (events : List Source)
  deriving DecidableEq, Repr

/-- `unsent` is what the driver with a pid is about to send, `forked` the children. -/
structure Network where
  system : System
  phase : Phase
  unsent : Int → List DriverMsg
  forked : Finset Int

def Network.start : Network := ⟨.start, .batch [], fun _ => [], ∅⟩

/-- `none` is a queue without a limit. -/
def HasRoom (capacity : Option Nat) (queue : List DriverMsg) : Prop :=
  ∀ n ∈ capacity, queue.length < n

def Network.handle (n : Network) (pid : Int) (d : Driver) (key : Int) (fd : Nat) : Network :=
  { n with
    system := n.system.handled d key fd
    unsent := Function.update n.unsent pid (d.handle (n.system.queues d.mqId) key fd).2.2.sent }

def Network.report (k : Kernel) (n : Network) (pid : Int) (msg : DriverMsg)
    (rest : List DriverMsg) : Network :=
  { n with
    system := n.system.send k.cliMq [msg]
    unsent := Function.update n.unsent pid rest }

inductive Act where
  | poll (events : List Source)
  | receive
  | drained
  | createDriver (pid : Int)
  | sendTask (self pid timer : Int)
  | otherCommand
  | deliver
  | event (pid key : Int) (fd : Nat)
  | report (pid : Int)
  deriving DecidableEq, Repr

/-- `epoll_wait` returns what is ready, in any order; when a line is typed is open. -/
inductive Move (k : Kernel) (capacity : Option Nat) (n : Network) : Act → Network → Prop where
  | poll (events : List Source) (turn : n.phase = .batch []) (ready : events ≠ [])
      (once : events.Nodup) (queue : .queue ∈ events ↔ cliQueue k n.system ≠ []) :
      Move k capacity n (.poll events) { n with phase := .batch events }
  | receive (msg : DriverMsg) (rest : List DriverMsg) (events : List Source)
      (turn : n.phase = .batch (.queue :: events)) (head : cliQueue k n.system = msg :: rest) :
      Move k capacity n .receive { n with system := n.system.cliMessage k msg rest }
  | drained (events : List Source) (turn : n.phase = .batch (.queue :: events))
      (empty : cliQueue k n.system = []) :
      Move k capacity n .drained { n with phase := .batch events }
  | createDriver (pid : Int) (events : List Source) (turn : n.phase = .batch (.stdin :: events))
      (positive : 0 < pid) (fresh : n.system.drivers pid = none) :
      Move k capacity n (.createDriver pid) {
        system := n.system.spawn k pid
        phase := .batch events
        unsent := Function.update n.unsent pid [⟨.register, pid, baseDriverKey + pid⟩]
        forked := insert pid n.forked }
  | sendTask (self pid timer queue : Int) (msg : DriverMsg) (events : List Source)
      (turn : n.phase = .batch (.stdin :: events))
      (found : Taxi.sendTask n.system.table self pid timer = some (queue, msg)) :
      Move k capacity n (.sendTask self pid timer) { n with phase := .sending queue msg events }
  | otherCommand (events : List Source) (turn : n.phase = .batch (.stdin :: events)) :
      Move k capacity n .otherCommand { n with phase := .batch events }
  | deliver (queue : Int) (msg : DriverMsg) (events : List Source)
      (turn : n.phase = .sending queue msg events)
      (room : HasRoom capacity (n.system.queues queue)) :
      Move k capacity n .deliver { n with
        system := n.system.send queue [msg]
        phase := .batch events }
  | event (pid key : Int) (fd : Nat) (d : Driver) (live : n.system.drivers pid = some d)
      (sentAll : n.unsent pid = []) (due : key = d.mqId ∨ key = d.timerFd ∧ 0 < d.timer) :
      Move k capacity n (.event pid key fd) (n.handle pid d key fd)
  | report (pid : Int) (msg : DriverMsg) (rest : List DriverMsg)
      (turn : n.unsent pid = msg :: rest) (room : HasRoom capacity (cliQueue k n.system)) :
      Move k capacity n (.report pid) (n.report k pid msg rest)

/-- What a driver is about to send: its registration, or something that a registered driver
may send. -/
inductive Unsent (k : Kernel) (s : System) (pid : Int) : List DriverMsg → Prop where
  | nothing : Unsent k s pid []
  | registration (unknown : pid ∉ s.table.map DriverInfo.pid)
      (unannounced : pid ∉ registering (cliQueue k s)) :
      Unsent k s pid [⟨.register, pid, baseDriverKey + pid⟩]
  | reply (msg : DriverMsg) (own : msg.pid = pid) (type : msg.type ≠ .register)
      (known : pid ∈ s.table.map DriverInfo.pid) : Unsent k s pid [msg]

/-- The order of registration in the presence of unsent messages. -/
structure Sound (k : Kernel) (n : Network) : Prop where
  orderly : Orderly k n.system
  unborn : ∀ pid, n.system.drivers pid = none → n.unsent pid = []
  forked : ∀ pid, (n.system.drivers pid).isSome → pid ∈ n.forked
  unsent : ∀ pid, Unsent k n.system pid (n.unsent pid)
  sending : ∀ queue msg events, n.phase = .sending queue msg events →
    msg.type = .task ∧ ∃ info ∈ n.system.table, queue = k.driverMq info.pid

section Moves

variable {k : Kernel} {capacity : Option Nat} {n next : Network} {s s' : System} {d : Driver}

theorem start_sound (k : Kernel) : Sound k .start :=
  ⟨start_orderly k, fun _ _ => rfl, by simp [Network.start, System.start], fun _ => .nothing, nofun⟩

/-- An unsent message stays right while no registration is undone or new. -/
theorem Unsent.mono (unsent : Unsent k s pid msgs)
    (kept : pid ∈ s.table.map DriverInfo.pid → pid ∈ s'.table.map DriverInfo.pid)
    (fewer : pid ∈ s'.table.map DriverInfo.pid ∨ pid ∈ registering (cliQueue k s') →
      pid ∈ s.table.map DriverInfo.pid ∨ pid ∈ registering (cliQueue k s)) :
    Unsent k s' pid msgs := by
  cases unsent with
  | nothing => exact .nothing
  | registration unknown unannounced =>
    have still := mt fewer (not_or.mpr ⟨unknown, unannounced⟩)
    exact .registration (not_or.mp still).1 (not_or.mp still).2
  | reply msg own type known => exact .reply msg own type (kept known)

/-- One driver gets other unsent messages. -/
theorem unsent_update {unsent : Int → List DriverMsg} (mine : Unsent k s pid msgs)
    (others : ∀ pid', pid' ≠ pid → Unsent k s pid' (unsent pid')) (pid' : Int) :
    Unsent k s pid' (Function.update unsent pid msgs pid') := by
  by_cases same : pid' = pid
  · subst same
    rwa [Function.update_self]
  · rw [Function.update_of_ne same]
    exact others pid' same

theorem phase_sound (sound : Sound k n) (events : List Source) :
    Sound k { n with phase := .batch events } :=
  ⟨sound.orderly, sound.unborn, sound.forked, sound.unsent, nofun⟩

theorem createDriver_sound (sound : Sound k n) (positive : 0 < pid)
    (fresh : n.system.drivers pid = none) (events : List Source) :
    Sound k ⟨n.system.spawn k pid, .batch events,
      Function.update n.unsent pid [⟨.register, pid, baseDriverKey + pid⟩], insert pid n.forked⟩ := by
  obtain ⟨unknown, unannounced⟩ := fresh_unknown sound.orderly fresh
  refine ⟨spawn_orderly sound.orderly positive fresh, fun pid' dead => ?_, fun pid' live => ?_, ?_,
    nofun⟩
  · have different : pid' ≠ pid := by
      rintro rfl
      simp [System.spawn] at dead
    simp only [System.spawn, Function.update_of_ne different] at dead
    simpa [different] using sound.unborn pid' dead
  · by_cases same : pid' = pid
    · simp [same]
    · simp only [System.spawn, Function.update_of_ne same] at live
      exact Finset.mem_insert_of_mem (sound.forked pid' live)
  · exact unsent_update (.registration unknown unannounced) fun pid' _ =>
      (sound.unsent pid').mono id id

/-- Handling a message registers its sender or leaves the pids as they are. -/
theorem receive_sound (sound : Sound k n) (turn : n.phase = .batch events)
    (head : cliQueue k n.system = msg :: rest) :
    Sound k { n with system := n.system.cliMessage k msg rest } := by
  have queue : cliQueue k (n.system.cliMessage k msg rest) = rest := take_same _ _ _
  refine ⟨cliMessage_orderly sound.orderly head, sound.unborn, sound.forked, fun pid => ?_, ?_⟩
  · have fewer : pid ∈ registering rest → pid ∈ registering (cliQueue k n.system) := by
      rw [head, mem_registering, mem_registering]
      exact fun ⟨other, member, rest⟩ => ⟨other, by simp [member], rest⟩
    have table : (n.system.cliMessage k msg rest).table =
        handleMessage k.msgget n.system.table msg := rfl
    rcases handleMessage_cases sound.orderly head with ⟨type, _, same⟩ | ⟨_, same⟩ | ⟨_, same⟩
    · have pids : (n.system.cliMessage k msg rest).table.map DriverInfo.pid =
          n.system.table.map DriverInfo.pid ++ [msg.pid] := by
        simp [table, same, DriverInfo.new]
      refine (sound.unsent pid).mono (fun known => ?_) ?_
      · rw [pids]
        exact List.mem_append_left _ known
      · rw [pids, queue, List.mem_append, List.mem_singleton]
        rintro ((known | rfl) | announced)
        · exact .inl known
        · exact .inr ((mem_registering _ _).mpr ⟨msg, by simp [head], type, rfl⟩)
        · exact .inr (fewer announced)
    · refine (sound.unsent pid).mono ?_ ?_
      · simp only [table, same, imp_self]
      · rw [table, same, queue]
        exact Or.imp_right fewer
    · have pids : (n.system.cliMessage k msg rest).table.map DriverInfo.pid =
          n.system.table.map DriverInfo.pid := by
        rw [table, same, List.map_map]
        apply List.map_congr_left
        intro info _
        simp only [Function.comp]
        split <;> rfl
      refine (sound.unsent pid).mono ?_ ?_
      · rw [pids]
        exact id
      · rw [pids, queue]
        exact Or.imp_right fewer
  · intro queue msg events sending
    rw [turn] at sending
    cases sending

/-- A registered driver is told a task by `msgsnd`. -/
theorem deliver_sound (sound : Sound k n) (turn : n.phase = .sending queue msg events) :
    Sound k { n with system := n.system.send queue [msg], phase := .batch events } := by
  obtain ⟨_, info, member, rfl⟩ := sound.sending queue msg events turn
  have queue := sound.orderly.cliQueue_assign member [msg]
  refine ⟨assign_orderly sound.orderly member _, sound.unborn, sound.forked, fun pid => ?_, nofun⟩
  refine (sound.unsent pid).mono id ?_
  rw [queue]
  exact id

theorem sendTask_sound (sound : Sound k n)
    (found : Taxi.sendTask n.system.table self pid timer = some (queue, msg)) :
    Sound k { n with phase := .sending queue msg events } := by
  obtain ⟨info, member, _, rfl, rfl⟩ := sendTask_some found
  refine ⟨sound.orderly, sound.unborn, sound.forked, sound.unsent, fun queue msg events sending => ?_⟩
  cases sending
  exact ⟨rfl, info, member, sound.orderly.queued info member⟩

/-- What a registered driver sends after an event. -/
theorem sent_unsent (known : d.pid ∈ s.table.map DriverInfo.pid) (queue : List DriverMsg) (key : Int)
    (fd : Nat) : Unsent k s d.pid (d.handle queue key fd).2.2.sent := by
  have own := handle_sent d queue key fd
  cases reaction : (d.handle queue key fd).2.2 with
  | ignored => exact .nothing
  | accepted msg | rejected msg | completed msg =>
    rw [reaction] at own
    obtain ⟨mine, type⟩ := own msg (by simp [Reaction.sent])
    exact .reply msg mine type known

theorem event_sound (sound : Sound k n) (live : n.system.drivers pid = some d) (key : Int) (fd : Nat) :
    Sound k (n.handle pid d key fd) := by
  unfold Network.handle
  have samePid := (sound.orderly.identity pid d live).2.1
  have unborn (pid' : Int) (dead : n.system.drivers pid' = none) :
      Function.update n.unsent pid (d.handle (n.system.queues d.mqId) key fd).2.2.sent pid' = [] := by
    have different : pid' ≠ pid := by
      rintro rfl
      simp [live] at dead
    simpa [different] using sound.unborn pid' dead
  have forked (pid' : Int) (alive : ((n.system.handled d key fd).drivers pid').isSome) :
      pid' ∈ n.forked := by
    apply sound.forked
    by_cases same : pid' = pid
    · simp [same, live]
    · simpa [System.handled, System.take, same, samePid] using alive
  by_cases known : pid ∈ n.system.table.map DriverInfo.pid
  · have queue : cliQueue k (n.system.handled d key fd) = cliQueue k n.system :=
      take_other _ (sound.orderly.mq_ne live).symm
    refine ⟨handled_orderly sound.orderly live known key fd, fun pid' dead => unborn pid' ?_,
      forked, ?_, sound.sending⟩
    · by_contra alive
      by_cases same : pid' = pid
      · simp [System.handled, System.take, same, samePid] at dead
      · simp [System.handled, System.take, same, samePid] at dead
        exact alive dead
    · subst samePid
      have registered : d.pid ∈ (n.system.handled d key fd).table.map DriverInfo.pid := known
      refine unsent_update (sent_unsent registered _ key fd) fun pid' _ => (sound.unsent pid').mono id ?_
      rw [queue]
      exact id
  · obtain ⟨unchanged, ignored⟩ := handled_waiting sound.orderly live known key fd
    rw [ignored] at unborn ⊢
    rw [unchanged]
    exact ⟨sound.orderly, unborn, sound.forked, unsent_update .nothing fun pid' _ => sound.unsent pid',
      sound.sending⟩

theorem report_sound (sound : Sound k n) (turn : n.unsent pid = msg :: rest) :
    Sound k (n.report k pid msg rest) := by
  unfold Network.report
  have alive : (n.system.drivers pid).isSome := by
    by_contra dead
    rw [Option.not_isSome_iff_eq_none] at dead
    simp [sound.unborn pid dead] at turn
  have unborn (pid' : Int) (dead : n.system.drivers pid' = none) :
      Function.update n.unsent pid rest pid' = [] := by
    have different : pid' ≠ pid := by
      rintro rfl
      simp [dead] at alive
    simpa [different] using sound.unborn pid' dead
  have sending (queue : Int) (task : DriverMsg) (events : List Source)
      (phase : n.phase = .sending queue task events) := sound.sending queue task events phase
  have queue : cliQueue k (n.system.send k.cliMq [msg]) = cliQueue k n.system ++ [msg] :=
    send_same _ _ _
  have unsent := sound.unsent pid
  rw [turn] at unsent
  cases unsent with
  | registration unknown unannounced =>
    refine ⟨announce_orderly sound.orderly alive unknown unannounced, unborn, sound.forked, ?_, sending⟩
    refine unsent_update .nothing fun pid' different => (sound.unsent pid').mono id ?_
    rw [queue, registering_append, List.mem_append]
    simp [registering, different, System.send]
  | reply _ own type known =>
    refine ⟨report_orderly sound.orderly known ?_, unborn, sound.forked, ?_, sending⟩
    · simpa using ⟨own, type⟩
    · have silent : registering [msg] = [] := registering_nil (by simpa using type)
      refine unsent_update .nothing fun pid' _ => (sound.unsent pid').mono id ?_
      rw [queue, registering_append, silent, List.append_nil]
      exact id

theorem move_sound (sound : Sound k n) (move : Move k capacity n act next) : Sound k next := by
  cases move with
  | poll events turn ready once queue => exact phase_sound sound events
  | receive msg rest events turn head => exact receive_sound sound turn head
  | drained events turn empty => exact phase_sound sound events
  | createDriver pid events turn positive fresh =>
    exact createDriver_sound sound positive fresh events
  | sendTask self pid timer queue msg events turn found => exact sendTask_sound sound found
  | otherCommand events turn => exact phase_sound sound events
  | deliver queue msg events turn room => exact deliver_sound sound turn
  | event pid key fd d live sentAll due => exact event_sound sound live key fd
  | report pid msg rest turn room => exact report_sound sound turn

end Moves

section OneDriver

def registration : DriverMsg := ⟨.register, 100, baseDriverKey + 100⟩

def oneDriver : System :=
  ((System.start.spawn plainKernel 100).send plainKernel.cliMq [registration]).cliMessage plainKernel
    registration []

def quiet : Int → List DriverMsg :=
  Function.update (Function.update (fun _ => []) 100 [registration]) 100 []

/-- Driver 100 has taken its first task and is about to tell the CLI. -/
def answering : Network where
  system := (oneDriver.send (plainKernel.driverMq 100) [⟨.task, 1, 5⟩]).handled
    (.start 100 (baseDriverKey + 100)) (baseDriverKey + 100) 7
  phase := .batch []
  unsent := Function.update quiet 100 [⟨.statusUpdate, 100, 5⟩]
  forked := {100}

def answered : Network where
  system := answering.system.send plainKernel.cliMq [⟨.statusUpdate, 100, 5⟩]
  phase := .batch []
  unsent := Function.update answering.unsent 100 []
  forked := {100}

abbrev Moves (k : Kernel) (capacity : Option Nat) (n next : Network) : Prop :=
  ∃ act, Move k capacity n act next

/-- A move that does not enter `send_task` for a full queue. -/
def RoomyMove (k : Kernel) (capacity : Option Nat) (n next : Network) : Prop :=
  ∃ act, Move k capacity n act next ∧ ∀ self pid timer, act = .sendTask self pid timer →
    HasRoom capacity (n.system.queues (k.driverMq pid))

theorem RoomyMove.moves (move : RoomyMove k capacity n next) : Moves k capacity n next :=
  ⟨move.choose, move.choose_spec.1⟩

theorem registered_path (room : HasRoom capacity []) :
    Relation.ReflTransGen (RoomyMove plainKernel capacity) .start ⟨oneDriver, .batch [], quiet, {100}⟩ := by
  have typed : RoomyMove plainKernel capacity .start ⟨.start, .batch [.stdin], fun _ => [], ∅⟩ :=
    ⟨_, .poll [.stdin] rfl (by decide) (by decide) (by decide), nofun⟩
  have forked : RoomyMove plainKernel capacity ⟨.start, .batch [.stdin], fun _ => [], ∅⟩
      ⟨System.start.spawn plainKernel 100, .batch [],
        Function.update (fun _ => []) 100 [registration], {100}⟩ :=
    ⟨_, .createDriver 100 [] rfl (by decide) rfl, nofun⟩
  have announced : RoomyMove plainKernel capacity
      ⟨System.start.spawn plainKernel 100, .batch [],
        Function.update (fun _ => []) 100 [registration], {100}⟩
      ⟨(System.start.spawn plainKernel 100).send plainKernel.cliMq [registration], .batch [], quiet, {100}⟩ :=
    ⟨_, .report 100 registration [] rfl room, nofun⟩
  have polled : RoomyMove plainKernel capacity
      ⟨(System.start.spawn plainKernel 100).send plainKernel.cliMq [registration], .batch [], quiet, {100}⟩
      ⟨(System.start.spawn plainKernel 100).send plainKernel.cliMq [registration], .batch [.queue],
        quiet, {100}⟩ :=
    ⟨_, .poll [.queue] rfl (by decide) (by decide) (by decide), nofun⟩
  have received : RoomyMove plainKernel capacity
      ⟨(System.start.spawn plainKernel 100).send plainKernel.cliMq [registration], .batch [.queue],
        quiet, {100}⟩
      ⟨oneDriver, .batch [.queue], quiet, {100}⟩ := ⟨_, .receive registration [] [] rfl rfl, nofun⟩
  have drained : RoomyMove plainKernel capacity ⟨oneDriver, .batch [.queue], quiet, {100}⟩
      ⟨oneDriver, .batch [], quiet, {100}⟩ := ⟨_, .drained [] rfl rfl, nofun⟩
  exact .tail (.tail (.tail (.tail (.tail (.single typed) forked) announced) polled) received) drained

/-- A command line is read and its task delivered. -/
theorem task_path (capacity : Option Nat) (s : System) (unsent : Int → List DriverMsg)
    (forked : Finset Int)
    (room : HasRoom capacity (s.queues (plainKernel.driverMq 100)))
    (noNews : cliQueue plainKernel s = []) (known : Taxi.sendTask s.table 1 100 5 =
      some (plainKernel.driverMq 100, ⟨.task, 1, 5⟩)) :
    Relation.ReflTransGen (RoomyMove plainKernel capacity) ⟨s, .batch [], unsent, forked⟩
      ⟨s, .sending (plainKernel.driverMq 100) ⟨.task, 1, 5⟩ [], unsent, forked⟩ := by
  have typed : RoomyMove plainKernel capacity ⟨s, .batch [], unsent, forked⟩ ⟨s, .batch [.stdin], unsent, forked⟩ :=
    ⟨_, .poll [.stdin] rfl (by decide) (by decide) (by simp [noNews]), nofun⟩
  refine .tail (.single typed) ⟨_, .sendTask 1 100 5 _ _ [] rfl known, fun self pid timer same => ?_⟩
  cases same
  exact room

theorem answering_path (room : HasRoom capacity []) :
    Relation.ReflTransGen (RoomyMove plainKernel capacity) .start answering := by
  have entered := task_path capacity oneDriver quiet {100} room rfl rfl
  have delivered : RoomyMove plainKernel capacity
      ⟨oneDriver, .sending (plainKernel.driverMq 100) ⟨.task, 1, 5⟩ [], quiet, {100}⟩
      ⟨oneDriver.send (plainKernel.driverMq 100) [⟨.task, 1, 5⟩], .batch [], quiet, {100}⟩ :=
    ⟨_, .deliver _ _ [] rfl room, nofun⟩
  have taken : RoomyMove plainKernel capacity
      ⟨oneDriver.send (plainKernel.driverMq 100) [⟨.task, 1, 5⟩], .batch [], quiet, {100}⟩ answering :=
    ⟨_, .event 100 (baseDriverKey + 100) 7 (.start 100 (baseDriverKey + 100)) rfl rfl (.inl rfl), nofun⟩
  exact .tail (.tail ((registered_path room).trans entered) delivered) taken

theorem answered_path (room : HasRoom capacity []) :
    Relation.ReflTransGen (RoomyMove plainKernel capacity) .start answered :=
  (answering_path room).tail ⟨_, .report 100 ⟨.statusUpdate, 100, 5⟩ [] rfl room, nofun⟩

end OneDriver

/-- Every message that `update_driver_status` or the busy report is called for comes from a
driver in the table. -/
theorem updates_registered (k : Kernel) (capacity : Option Nat)
    (path : Relation.ReflTransGen (Moves k capacity) .start n) :
    n.system.table.length ≤ maxDrivers ∧ (n.system.table.map DriverInfo.pid).Nodup ∧
      ∀ msg ∈ cliQueue k n.system, msg.type = .statusUpdate ∨ msg.type = .busyResp →
        msg.pid ∈ n.system.table.map DriverInfo.pid ∧
          (findDriver n.system.table msg.pid).isSome := by
  have sound := reachable_invariant (Sound k) (fun _ _ sound ⟨_, move⟩ => move_sound sound move)
    path (start_sound k)
  refine ⟨sound.orderly.few, sound.orderly.distinct, fun msg member type => ?_⟩
  have known := sound.orderly.updated msg member (by rcases type with type | type <;> simp [type])
  refine ⟨known, ?_⟩
  obtain ⟨info, inside, same⟩ := List.mem_map.mp known
  rw [findDriver, List.findIdx?_isSome, List.any_eq_true]
  exact ⟨info, inside, by simp [same]⟩

theorem updates_registered_answered :
    answered.system.table.length ≤ maxDrivers ∧ (answered.system.table.map DriverInfo.pid).Nodup ∧
      ∀ msg ∈ cliQueue plainKernel answered.system,
        msg.type = .statusUpdate ∨ msg.type = .busyResp →
          msg.pid ∈ answered.system.table.map DriverInfo.pid ∧
            (findDriver answered.system.table msg.pid).isSome :=
  updates_registered plainKernel none
    (Relation.ReflTransGen.mono (fun _ _ => RoomyMove.moves) _ _ (answered_path (by simp [HasRoom])))

end Tasks.Taxi
