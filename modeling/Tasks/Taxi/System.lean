import Tasks.Taxi.Cli
import Mathlib.Data.List.Nodup
import Mathlib.Logic.Function.Basic

/-! The CLI and its drivers with the queues between them. Steps of different processes come
in any order; one step is one event of a driver, one message or one command of the CLI. -/
namespace Tasks.Taxi

/-- `msgget`: one queue for each key. -/
structure Kernel where
  msgget : Int → Int
  injective : Function.Injective msgget

def plainKernel : Kernel := ⟨id, Function.injective_id⟩

/-- The table, the messages in each queue and the drivers by pid. -/
structure System where
  table : Drivers
  queues : Int → List DriverMsg
  drivers : Int → Option Driver

def System.start : System := ⟨[], fun _ => [], fun _ => none⟩

def System.send (s : System) (queue : Int) (msgs : List DriverMsg) : System :=
  { s with queues := Function.update s.queues queue (s.queues queue ++ msgs) }

def System.take (s : System) (queue : Int) (rest : List DriverMsg) : System :=
  { s with queues := Function.update s.queues queue rest }

section Steps

variable (k : Kernel)

def Kernel.cliMq : Int := k.msgget cliQueueKey

def Kernel.driverMq (pid : Int) : Int := k.msgget (baseDriverKey + pid)

def cliQueue (s : System) : List DriverMsg := s.queues k.cliMq

/-- The child of `create_driver` right after the fork. -/
def System.spawn (s : System) (pid : Int) : System :=
  { s with drivers := Function.update s.drivers pid (some (.start pid (k.driverMq pid))) }

/-- `create_driver` up to the loop of the child. -/
def System.createDriver (s : System) (pid : Int) : System :=
  { s with drivers := Function.update s.drivers pid (some (.start pid (k.driverMq pid))) }.send
    k.cliMq [⟨.register, pid, baseDriverKey + pid⟩]

def System.sendTask (s : System) (self pid timer : Int) : System :=
  match Taxi.sendTask s.table self pid timer with
  | some (queue, msg) => s.send queue [msg]
  | none => s

def System.handled (s : System) (d : Driver) (key : Int) (fd : Nat) : System :=
  let next := d.handle (s.queues d.mqId) key fd
  { s with drivers := Function.update s.drivers d.pid (some next.1) }.take d.mqId next.2.1

def System.driverEvent (s : System) (d : Driver) (key : Int) (fd : Nat) : System :=
  let next := d.handle (s.queues d.mqId) key fd
  ({ s with drivers := Function.update s.drivers d.pid (some next.1) }.take d.mqId next.2.1).send
    k.cliMq next.2.2.sent

def System.cliMessage (s : System) (msg : DriverMsg) (rest : List DriverMsg) : System :=
  { s with table := handleMessage k.msgget s.table msg }.take k.cliMq rest

inductive Event where
  | createDriver (pid : Int)
  | sendTask (self pid timer : Int)
  | driver (pid key : Int) (fd : Nat)
  | cliMessage
  deriving DecidableEq, Repr

/-- Pids are positive and not used twice; a timer is due only when set to a positive time. -/
inductive Step (s : System) : Event → System → Prop where
  | createDriver (pid : Int) (positive : 0 < pid) (fresh : s.drivers pid = none) :
      Step s (.createDriver pid) (s.createDriver k pid)
  | sendTask (self pid timer : Int) : Step s (.sendTask self pid timer) (s.sendTask self pid timer)
  | driver (pid key : Int) (fd : Nat) (d : Driver) (live : s.drivers pid = some d)
      (due : key = d.mqId ∨ key = d.timerFd ∧ 0 < d.timer) :
      Step s (.driver pid key fd) (s.driverEvent k d key fd)
  | cliMessage (msg : DriverMsg) (rest : List DriverMsg) (head : cliQueue k s = msg :: rest) :
      Step s .cliMessage (s.cliMessage k msg rest)

end Steps

def registering (queue : List DriverMsg) : List Int :=
  (queue.filter fun msg => msg.type == .register).map DriverMsg.pid

structure Orderly (k : Kernel) (s : System) : Prop where
  few : s.table.length ≤ maxDrivers
  distinct : (s.table.map DriverInfo.pid).Nodup
  alive : ∀ info ∈ s.table, (s.drivers info.pid).isSome
  queued : ∀ info ∈ s.table, info.messageQueueId = k.driverMq info.pid
  identity : ∀ pid d, s.drivers pid = some d → 0 < pid ∧ d.pid = pid ∧ d.mqId = k.driverMq pid
  once : (registering (cliQueue k s)).Nodup
  announced : ∀ msg ∈ cliQueue k s, msg.type = .register → (s.drivers msg.pid).isSome ∧
    msg.data = baseDriverKey + msg.pid ∧ msg.pid ∉ s.table.map DriverInfo.pid
  updated : ∀ msg ∈ cliQueue k s, msg.type ≠ .register → msg.pid ∈ s.table.map DriverInfo.pid
  waiting : ∀ pid d, s.drivers pid = some d → pid ∉ s.table.map DriverInfo.pid →
    s.queues d.mqId = [] ∧ d = .start pid d.mqId
  unborn : ∀ pid, 0 < pid → s.drivers pid = none → s.queues (k.driverMq pid) = []

section Queues

variable {k : Kernel} {s : System}

theorem driverMq_ne (positive : 0 < pid) : k.driverMq pid ≠ k.cliMq := by
  intro same
  have key := k.injective same
  simp only [baseDriverKey, cliQueueKey] at key
  omega

theorem driverMq_inj (same : k.driverMq pid = k.driverMq pid') : pid = pid' := by
  have key := k.injective same
  omega

@[simp] theorem send_nil (s : System) (queue : Int) : s.send queue [] = s := by
  simp [System.send]

@[simp] theorem send_same (s : System) (queue : Int) (msgs : List DriverMsg) :
    (s.send queue msgs).queues queue = s.queues queue ++ msgs := by
  simp [System.send]

@[simp] theorem send_other (msgs : List DriverMsg) (other : queue' ≠ queue) :
    (s.send queue msgs).queues queue' = s.queues queue' := by
  simp [System.send, other]

@[simp] theorem take_same (s : System) (queue : Int) (rest : List DriverMsg) :
    (s.take queue rest).queues queue = rest := by
  simp [System.take]

@[simp] theorem take_other (rest : List DriverMsg) (other : queue' ≠ queue) :
    (s.take queue rest).queues queue' = s.queues queue' := by
  simp [System.take, other]

theorem registering_append (queue msgs : List DriverMsg) :
    registering (queue ++ msgs) = registering queue ++ registering msgs := by
  simp [registering]

theorem mem_registering (pid : Int) (queue : List DriverMsg) :
    pid ∈ registering queue ↔ ∃ msg ∈ queue, msg.type = .register ∧ msg.pid = pid := by
  simp [registering, and_assoc]

theorem registering_nil (none : ∀ msg ∈ queue, msg.type ≠ .register) : registering queue = [] := by
  have absent : queue.filter (fun msg => msg.type == .register) = [] :=
    List.filter_eq_nil_iff.mpr fun msg member => by simpa using none msg member
  rw [registering, absent, List.map_nil]

end Queues

section Registration

variable {k : Kernel} {s : System}

theorem start_orderly (k : Kernel) : Orderly k .start := by
  constructor <;> simp [System.start, cliQueue, registering]

theorem Orderly.mq_ne (orderly : Orderly k s) (live : s.drivers pid = some d) : d.mqId ≠ k.cliMq := by
  obtain ⟨positive, _, mq⟩ := orderly.identity pid d live
  rw [mq]
  exact driverMq_ne positive

theorem Orderly.registered (orderly : Orderly k s) (member : info ∈ s.table) :
    ∃ d, s.drivers info.pid = some d ∧ 0 < info.pid := by
  obtain ⟨d, live⟩ := Option.isSome_iff_exists.mp (orderly.alive info member)
  exact ⟨d, live, (orderly.identity _ d live).1⟩

/-- The queue of a registered driver is not the queue of the CLI. -/
theorem Orderly.cliQueue_assign (orderly : Orderly k s) (member : info ∈ s.table)
    (msgs : List DriverMsg) : cliQueue k (s.send (k.driverMq info.pid) msgs) = cliQueue k s := by
  obtain ⟨_, _, positive⟩ := orderly.registered member
  exact send_other _ (driverMq_ne positive).symm

/-- A forked child before it has registered. -/
theorem spawn_orderly (orderly : Orderly k s) (positive : 0 < pid) (fresh : s.drivers pid = none) :
    Orderly k (s.spawn k pid) := by
  have others (pid' : Int) (different : pid' ≠ pid) :
      (s.spawn k pid).drivers pid' = s.drivers pid' := by
    simp [System.spawn, different]
  have mine : (s.spawn k pid).drivers pid = some (.start pid (k.driverMq pid)) := by
    simp [System.spawn]
  have kept (pid' : Int) (live : (s.drivers pid').isSome) :
      ((s.spawn k pid).drivers pid').isSome := by
    by_cases same : pid' = pid
    · simp [same, mine]
    · rwa [others pid' same]
  constructor
  case few => exact orderly.few
  case distinct => exact orderly.distinct
  case alive => exact fun info member => kept _ (orderly.alive info member)
  case queued => exact orderly.queued
  case identity =>
    intro pid' d live
    by_cases same : pid' = pid
    · subst same
      rw [mine] at live
      cases live
      exact ⟨positive, rfl, rfl⟩
    · rw [others pid' same] at live
      exact orderly.identity pid' d live
  case once => exact orderly.once
  case announced =>
    intro msg member type
    obtain ⟨live, rest⟩ := orderly.announced msg member type
    exact ⟨kept _ live, rest⟩
  case updated => exact orderly.updated
  case waiting =>
    intro pid' d live absent
    by_cases same : pid' = pid
    · subst same
      rw [mine] at live
      cases live
      exact ⟨orderly.unborn pid' positive fresh, rfl⟩
    · rw [others pid' same] at live
      exact orderly.waiting pid' d live absent
  case unborn =>
    intro pid' positive' dead
    by_cases same : pid' = pid
    · simp [same, mine] at dead
    · rw [others pid' same] at dead
      exact orderly.unborn pid' positive' dead

theorem cliQueue_send (s : System) (msgs : List DriverMsg) :
    cliQueue k (s.send k.cliMq msgs) = cliQueue k s ++ msgs := send_same _ _ _

theorem send_waiting (orderly : Orderly k s) (msgs : List DriverMsg) (pid : Int) (d : Driver)
    (live : s.drivers pid = some d) (absent : pid ∉ s.table.map DriverInfo.pid) :
    (s.send k.cliMq msgs).queues d.mqId = [] ∧ d = .start pid d.mqId := by
  rw [send_other _ (orderly.mq_ne live)]
  exact orderly.waiting pid d live absent

theorem send_unborn (orderly : Orderly k s) (msgs : List DriverMsg) (pid : Int) (positive : 0 < pid)
    (dead : s.drivers pid = none) : (s.send k.cliMq msgs).queues (k.driverMq pid) = [] := by
  rw [send_other _ (driverMq_ne positive)]
  exact orderly.unborn pid positive dead

/-- What is sent to the CLI keeps the order if its registrations are new and its other messages are of
registered drivers. -/
theorem sends_orderly (orderly : Orderly k s) (once : (registering (cliQueue k s ++ msgs)).Nodup)
    (announced : ∀ msg ∈ msgs, msg.type = .register → (s.drivers msg.pid).isSome ∧
      msg.data = baseDriverKey + msg.pid ∧ msg.pid ∉ s.table.map DriverInfo.pid)
    (updated : ∀ msg ∈ msgs, msg.type ≠ .register → msg.pid ∈ s.table.map DriverInfo.pid) :
    Orderly k (s.send k.cliMq msgs) := by
  constructor
  case few => exact orderly.few
  case distinct => exact orderly.distinct
  case alive => exact orderly.alive
  case queued => exact orderly.queued
  case identity => exact orderly.identity
  case once => rwa [cliQueue_send]
  case announced =>
    intro msg member type
    rw [cliQueue_send, List.mem_append] at member
    rcases member with older | fresh
    · exact orderly.announced msg older type
    · exact announced msg fresh type
  case updated =>
    intro msg member type
    rw [cliQueue_send, List.mem_append] at member
    rcases member with older | fresh
    · exact orderly.updated msg older type
    · exact updated msg fresh type
  case waiting => exact send_waiting orderly _
  case unborn => exact send_unborn orderly _

theorem announce_orderly (orderly : Orderly k s) (live : (s.drivers pid).isSome)
    (unknown : pid ∉ s.table.map DriverInfo.pid) (unannounced : pid ∉ registering (cliQueue k s)) :
    Orderly k (s.send k.cliMq [⟨.register, pid, baseDriverKey + pid⟩]) := by
  refine sends_orderly orderly ?_ ?_ ?_
  · rw [registering_append]
    refine orderly.once.append (by simp [registering]) ?_
    simpa [registering] using unannounced
  · intro msg member _
    cases List.mem_singleton.mp member
    exact ⟨live, rfl, unknown⟩
  · intro msg member type
    cases List.mem_singleton.mp member
    exact absurd rfl type

theorem fresh_unknown (orderly : Orderly k s) (fresh : s.drivers pid = none) :
    pid ∉ s.table.map DriverInfo.pid ∧ pid ∉ registering (cliQueue k s) := by
  constructor
  · intro member
    obtain ⟨info, inside, same⟩ := List.mem_map.mp member
    have live := orderly.alive info inside
    simp [same, fresh] at live
  · intro member
    obtain ⟨msg, inside, type, same⟩ := (mem_registering pid _).mp member
    have live := (orderly.announced msg inside type).1
    simp [same, fresh] at live

theorem createDriver_orderly (orderly : Orderly k s) (positive : 0 < pid)
    (fresh : s.drivers pid = none) : Orderly k (s.createDriver k pid) := by
  obtain ⟨unknown, unannounced⟩ := fresh_unknown orderly fresh
  exact announce_orderly (spawn_orderly orderly positive fresh) (by simp) unknown
    unannounced

/-- A task goes to the queue of a registered driver, or nowhere. -/
theorem sendTask_cases (orderly : Orderly k s) (self pid timer : Int) :
    s.sendTask self pid timer = s ∨ ∃ info ∈ s.table, info.pid = pid ∧ 0 < pid ∧
      s.sendTask self pid timer = s.send (k.driverMq pid) [⟨.task, self, timer⟩] := by
  unfold System.sendTask
  split
  next queue msg sent =>
    obtain ⟨info, member, same, rfl, rfl⟩ := sendTask_some sent
    have queued := orderly.queued info member
    obtain ⟨_, _, positive⟩ := orderly.registered member
    rw [same] at queued positive
    exact .inr ⟨info, member, same, positive, by rw [queued]⟩
  next => exact .inl rfl

/-- Only registered drivers have messages in their queues. -/
theorem assign_orderly (orderly : Orderly k s) (member : info ∈ s.table) (msgs : List DriverMsg) :
    Orderly k (s.send (k.driverMq info.pid) msgs) := by
  obtain ⟨d, live, _⟩ := orderly.registered member
  have queue := orderly.cliQueue_assign member msgs
  constructor
  case few => exact orderly.few
  case distinct => exact orderly.distinct
  case alive => exact orderly.alive
  case queued => exact orderly.queued
  case identity => exact orderly.identity
  case once => rw [queue]; exact orderly.once
  case announced => rw [queue]; exact orderly.announced
  case updated => rw [queue]; exact orderly.updated
  case waiting =>
    intro pid' d' live' absent
    have mq := (orderly.identity pid' d' live').2.2
    have other : d'.mqId ≠ k.driverMq info.pid := by
      rw [mq]
      intro same
      have known : info.pid ∈ s.table.map DriverInfo.pid := List.mem_map_of_mem member
      exact absent (driverMq_inj same ▸ known)
    rw [send_other _ other]
    exact orderly.waiting pid' d' live' absent
  case unborn =>
    intro pid' positive' dead
    have other : k.driverMq pid' ≠ k.driverMq info.pid := by
      intro same
      rw [← driverMq_inj same] at live
      simp [show s.drivers pid' = none from dead] at live
    rw [send_other _ other]
    exact orderly.unborn pid' positive' dead

theorem sendTask_orderly (orderly : Orderly k s) (self pid timer : Int) :
    Orderly k (s.sendTask self pid timer) := by
  rcases sendTask_cases orderly self pid timer with same | ⟨info, member, rfl, _, sent⟩
  · rwa [same]
  · rw [sent]
    exact assign_orderly orderly member _

/-- Before its registration is handled a driver has nothing to do. -/
theorem handled_waiting (orderly : Orderly k s) (live : s.drivers pid = some d)
    (absent : pid ∉ s.table.map DriverInfo.pid) (key : Int) (fd : Nat) :
    s.handled d key fd = s ∧ (d.handle (s.queues d.mqId) key fd).2.2 = .ignored := by
  obtain ⟨empty, idle⟩ := orderly.waiting pid d live absent
  have same := (orderly.identity pid d live).2.1
  have nothing : d.handle [] key fd = (d, [], .ignored) := by
    rw [idle]
    simp [Driver.handle, Driver.start]
  refine ⟨?_, by rw [empty, nothing]⟩
  simp only [System.handled, empty, nothing, System.take]
  rw [same, ← live, Function.update_eq_self, ← empty, Function.update_eq_self]

theorem driverEvent_waiting (orderly : Orderly k s) (live : s.drivers pid = some d)
    (absent : pid ∉ s.table.map DriverInfo.pid) (key : Int) (fd : Nat) :
    s.driverEvent k d key fd = s := by
  obtain ⟨unchanged, ignored⟩ := handled_waiting orderly live absent key fd
  calc s.driverEvent k d key fd
      = (s.handled d key fd).send k.cliMq (d.handle (s.queues d.mqId) key fd).2.2.sent := rfl
    _ = s := by rw [ignored, unchanged, Reaction.sent, send_nil]

theorem driverEvent_queue (orderly : Orderly k s) (live : s.drivers pid = some d) (key : Int)
    (fd : Nat) : cliQueue k (s.driverEvent k d key fd) =
      cliQueue k s ++ (d.handle (s.queues d.mqId) key fd).2.2.sent := by
  have other : k.cliMq ≠ d.mqId := (orderly.mq_ne live).symm
  simp [cliQueue, System.driverEvent, other]

theorem driverEvent_driver (orderly : Orderly k s) (live : s.drivers pid = some d) (key : Int)
    (fd : Nat) (pid' : Int) : (s.driverEvent k d key fd).drivers pid' =
      if pid' = pid then some (d.handle (s.queues d.mqId) key fd).1 else s.drivers pid' := by
  have same := (orderly.identity pid d live).2.1
  simp [System.driverEvent, System.send, System.take, Function.update_apply, same]

/-- A registered driver after an event, before it has sent anything. -/
theorem handled_orderly (orderly : Orderly k s) (live : s.drivers pid = some d)
    (known : pid ∈ s.table.map DriverInfo.pid) (key : Int) (fd : Nat) :
    Orderly k (s.handled d key fd) := by
  obtain ⟨positive, samePid, mq⟩ := orderly.identity pid d live
  have identity := handle_identity d (s.queues d.mqId) key fd
  have drivers (pid' : Int) : (s.handled d key fd).drivers pid' =
      if pid' = pid then some (d.handle (s.queues d.mqId) key fd).1 else s.drivers pid' := by
    simp [System.handled, System.take, Function.update_apply, samePid]
  have kept (pid' : Int) : ((s.handled d key fd).drivers pid').isSome =
      (s.drivers pid').isSome := by
    rw [drivers]
    split
    next same => simp [same, live]
    next => rfl
  have elsewhere (queue : Int) (other : queue ≠ d.mqId) :
      (s.handled d key fd).queues queue = s.queues queue := take_other _ other
  have queue : cliQueue k (s.handled d key fd) = cliQueue k s :=
    elsewhere _ (orderly.mq_ne live).symm
  constructor
  case few => exact orderly.few
  case distinct => exact orderly.distinct
  case alive => exact fun info member => (kept _).trans (orderly.alive info member)
  case queued => exact orderly.queued
  case identity =>
    intro pid' d' live'
    rw [drivers] at live'
    split at live'
    next same =>
      cases live'
      rw [same]
      exact ⟨positive, identity.1.trans samePid, identity.2.trans mq⟩
    next => exact orderly.identity pid' d' live'
  case once => rw [queue]; exact orderly.once
  case announced =>
    intro msg member type
    rw [queue] at member
    rw [kept]
    exact orderly.announced msg member type
  case updated => rw [queue]; exact orderly.updated
  case waiting =>
    intro pid' d' live' absent
    have different : pid' ≠ pid := fun same => absent (same ▸ known)
    rw [drivers, if_neg different] at live'
    have mq' := (orderly.identity pid' d' live').2.2
    have other : d'.mqId ≠ d.mqId := by
      rw [mq', mq]
      exact fun same => different (driverMq_inj same)
    rw [elsewhere _ other]
    exact orderly.waiting pid' d' live' absent
  case unborn =>
    intro pid' positive' dead
    have different : pid' ≠ pid := fun same => by simp [drivers, same] at dead
    rw [drivers, if_neg different] at dead
    have other : k.driverMq pid' ≠ d.mqId := by
      rw [mq]
      exact fun same => different (driverMq_inj same)
    rw [elsewhere _ other]
    exact orderly.unborn pid' positive' dead

/-- A registered driver may send anything but registrations. -/
theorem report_orderly (orderly : Orderly k s) (known : pid ∈ s.table.map DriverInfo.pid)
    (sent : ∀ msg ∈ msgs, msg.pid = pid ∧ msg.type ≠ .register) :
    Orderly k (s.send k.cliMq msgs) := by
  refine sends_orderly orderly ?_ ?_ ?_
  · rw [registering_append, registering_nil fun msg member => (sent msg member).2, List.append_nil]
    exact orderly.once
  · intro msg member type
    exact absurd type (sent msg member).2
  · intro msg member _
    rw [(sent msg member).1]
    exact known

theorem driverEvent_orderly (orderly : Orderly k s) (live : s.drivers pid = some d) (key : Int)
    (fd : Nat) : Orderly k (s.driverEvent k d key fd) := by
  by_cases known : pid ∈ s.table.map DriverInfo.pid
  · refine report_orderly (handled_orderly orderly live known key fd) known fun msg member => ?_
    obtain ⟨own, type⟩ := handle_sent d (s.queues d.mqId) key fd msg member
    exact ⟨own.trans (orderly.identity pid d live).2.1, type⟩
  · rwa [driverEvent_waiting orderly live known]

/-- What the CLI's table becomes with the first message of an orderly queue. -/
theorem handleMessage_cases (orderly : Orderly k s) (head : cliQueue k s = msg :: rest) :
    (msg.type = .register ∧ s.table.length < maxDrivers ∧
      handleMessage k.msgget s.table msg =
        s.table ++ [DriverInfo.new msg.pid (k.driverMq msg.pid)]) ∨
    (msg.type ≠ .statusUpdate ∧ handleMessage k.msgget s.table msg = s.table) ∨
    (msg.type = .statusUpdate ∧ handleMessage k.msgget s.table msg = s.table.map fun info =>
      if info.pid = msg.pid then info.update (decide (msg.data > 0)) msg.data else info) := by
  cases type : msg.type with
  | register =>
    have key := (orderly.announced msg (by simp [head]) type).2.1
    by_cases room : s.table.length < maxDrivers
    · exact .inl ⟨rfl, room, by simp [handleMessage, type, registerDriver, room, key, Kernel.driverMq]⟩
    · exact .inr (.inl ⟨nofun, by simp [handleMessage, type, registerDriver, room]⟩)
  | statusUpdate =>
    refine .inr (.inr ⟨rfl, ?_⟩)
    simp only [handleMessage, type]
    exact updateDriverStatus_eq orderly.distinct msg.pid _ _
  | task => exact .inr (.inl ⟨nofun, by simp [handleMessage, type]⟩)
  | statusReq => exact .inr (.inl ⟨nofun, by simp [handleMessage, type]⟩)
  | statusResp => exact .inr (.inl ⟨nofun, by simp [handleMessage, type]⟩)
  | busyResp => exact .inr (.inl ⟨nofun, by simp [handleMessage, type]⟩)

/-- What the first message leaves behind when it registers nobody. -/
theorem tail_orderly (orderly : Orderly k s) (head : cliQueue k s = msg :: rest) (table : Drivers)
    (pids : table.map DriverInfo.pid = s.table.map DriverInfo.pid)
    (queued : ∀ info ∈ table, info.messageQueueId = k.driverMq info.pid) :
    Orderly k ({ s with table }.take k.cliMq rest) := by
  have queue : cliQueue k ({ s with table }.take k.cliMq rest) = rest := take_same _ _ _
  have elsewhere (queue : Int) (noCli : queue ≠ k.cliMq) :
      ({ s with table }.take k.cliMq rest).queues queue = s.queues queue := take_other rest noCli
  have once := orderly.once
  rw [head] at once
  constructor
  case few =>
    have sizes := congrArg List.length pids
    rw [List.length_map, List.length_map] at sizes
    exact sizes ▸ orderly.few
  case distinct => exact pids ▸ orderly.distinct
  case alive =>
    intro info member
    have known : info.pid ∈ s.table.map DriverInfo.pid := pids ▸ List.mem_map_of_mem member
    obtain ⟨other, inside, same⟩ := List.mem_map.mp known
    exact same ▸ orderly.alive other inside
  case queued => exact queued
  case identity => exact orderly.identity
  case once =>
    rw [queue]
    exact ((List.sublist_cons_self msg rest).filter _).map _ |>.nodup once
  case announced =>
    intro other member type
    rw [queue] at member
    have announced := orderly.announced other (by simp [head, member]) type
    exact ⟨announced.1, announced.2.1, pids ▸ announced.2.2⟩
  case updated =>
    intro other member type
    rw [queue] at member
    exact pids ▸ orderly.updated other (by simp [head, member]) type
  case waiting =>
    intro pid d live absent
    rw [elsewhere _ (orderly.mq_ne live)]
    exact orderly.waiting pid d live (pids ▸ absent)
  case unborn =>
    intro pid positive dead
    rw [elsewhere _ (driverMq_ne positive)]
    exact orderly.unborn pid positive dead

theorem register_orderly (orderly : Orderly k s) (head : cliQueue k s = msg :: rest)
    (type : msg.type = .register) (room : s.table.length < maxDrivers) :
    Orderly k ({ s with table := s.table ++ [DriverInfo.new msg.pid (k.driverMq msg.pid)] }.take
      k.cliMq rest) := by
  obtain ⟨live, _, absent⟩ := orderly.announced msg (by simp [head]) type
  have tail := tail_orderly orderly head s.table rfl orderly.queued
  have once := orderly.once
  rw [head, registering, List.filter_cons_of_pos (by simpa using type), List.map_cons,
    List.nodup_cons] at once
  have pids : ({ s with table := s.table ++ [DriverInfo.new msg.pid (k.driverMq msg.pid)] }.take
      k.cliMq rest).table.map DriverInfo.pid = s.table.map DriverInfo.pid ++ [msg.pid] := by
    simp [System.take, DriverInfo.new]
  constructor
  case few =>
    have size := congrArg List.length pids
    rw [List.length_map, List.length_append, List.length_map, List.length_singleton] at size
    omega
  case distinct =>
    rw [pids]
    refine orderly.distinct.append (List.nodup_singleton _) ?_
    simpa using absent
  case alive =>
    intro info member
    rcases List.mem_append.mp member with older | last
    · exact orderly.alive info older
    · rw [List.mem_singleton.mp last]
      exact live
  case queued =>
    intro info member
    rcases List.mem_append.mp member with older | last
    · exact orderly.queued info older
    · rw [List.mem_singleton.mp last]
      rfl
  case identity => exact orderly.identity
  case once => exact tail.once
  case announced =>
    intro other member otherType
    obtain ⟨alive, key, unknown⟩ := tail.announced other member otherType
    have inRest : other ∈ rest := by simpa [cliQueue] using member
    have different : other.pid ≠ msg.pid := fun same =>
      once.1 ((mem_registering msg.pid rest).mpr ⟨other, inRest, otherType, same⟩)
    refine ⟨alive, key, ?_⟩
    rw [pids, List.mem_append, List.mem_singleton, not_or]
    exact ⟨unknown, different⟩
  case updated =>
    intro other member otherType
    rw [pids]
    exact List.mem_append_left _ (tail.updated other member otherType)
  case waiting =>
    intro pid d alive unknown
    rw [pids, List.mem_append, not_or] at unknown
    exact tail.waiting pid d alive unknown.1
  case unborn => exact tail.unborn

theorem cliMessage_orderly (orderly : Orderly k s) (head : cliQueue k s = msg :: rest) :
    Orderly k (s.cliMessage k msg rest) := by
  unfold System.cliMessage
  rcases handleMessage_cases orderly head with ⟨type, room, table⟩ | ⟨_, table⟩ | ⟨_, table⟩
  · rw [table]
    exact register_orderly orderly head type room
  · rw [table]
    exact tail_orderly orderly head s.table rfl orderly.queued
  · rw [table]
    apply tail_orderly orderly head
    · rw [List.map_map]
      apply List.map_congr_left
      intro info _
      simp only [Function.comp]
      split <;> rfl
    · intro info member
      obtain ⟨old, inside, rfl⟩ := List.mem_map.mp member
      split
      · exact orderly.queued old inside
      · exact orderly.queued old inside

theorem step_orderly (orderly : Orderly k s) (step : Step k s e next) : Orderly k next := by
  cases step with
  | createDriver pid positive fresh => exact createDriver_orderly orderly positive fresh
  | sendTask self pid timer => exact sendTask_orderly orderly self pid timer
  | driver pid key fd d live due => exact driverEvent_orderly orderly live key fd
  | cliMessage msg rest head => exact cliMessage_orderly orderly head

end Registration
end Tasks.Taxi
