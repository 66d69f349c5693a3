import Tasks.Taxi.Driver

/-! `cli.c` and `main.c`: the table of drivers that the command line keeps. It is told about
a driver only by the messages in its own queue. -/
namespace Tasks.Taxi

def maxDrivers : Nat := 50
def cliQueueKey : Int := 0x1234
def baseDriverKey : Int := 0x5678

inductive DriverStatus where
  | available
  | busy
  deriving DecidableEq, Repr

/-- `DriverInfo` without the descriptor that nobody sets. -/
structure DriverInfo where
  pid : Int
  status : DriverStatus
  remainingTime : Int
  messageQueueId : Int
  deriving DecidableEq, Repr

/-- The first `num_drivers` elements of the array `drivers`. -/
abbrev Drivers := List DriverInfo

def findDriver (drivers : Drivers) (pid : Int) : Option Nat :=
  drivers.findIdx? fun info => info.pid == pid

def DriverInfo.update (info : DriverInfo) (busy : Bool) (remaining : Int) : DriverInfo :=
  { info with status := if busy then .busy else .available, remainingTime := remaining }

def updateDriverStatus (drivers : Drivers) (pid : Int) (busy : Bool) (remaining : Int) : Drivers :=
  match findDriver drivers pid with
  | some idx => drivers.modify idx fun info => info.update busy remaining
  | none => drivers

def DriverInfo.new (pid messageQueueId : Int) : DriverInfo := ⟨pid, .available, 0, messageQueueId⟩

/-- The branch for `REGISTER`; `msgget` gives the queue of a key. -/
def registerDriver (msgget : Int → Int) (drivers : Drivers) (msg : DriverMsg) : Drivers :=
  if drivers.length < maxDrivers then drivers ++ [.new msg.pid (msgget msg.data)]
  else drivers

def handleMessage (msgget : Int → Int) (drivers : Drivers) (msg : DriverMsg) : Drivers :=
  match msg.type with
  | .register => registerDriver msgget drivers msg
  | .statusUpdate => updateDriverStatus drivers msg.pid (decide (msg.data > 0)) msg.data
  | _ => drivers

/-- The queue to send to and the message; `self` is the CLI's own pid. -/
def sendTask (drivers : Drivers) (self pid timer : Int) : Option (Int × DriverMsg) :=
  match findDriver drivers pid with
  | some idx => drivers[idx]?.map fun info => (info.messageQueueId, ⟨.task, self, timer⟩)
  | none => none

section Table

variable {drivers : Drivers} {pid : Int}

theorem findDriver_some (found : findDriver drivers pid = some idx) :
    ∃ info ∈ drivers, drivers[idx]? = some info ∧ info.pid = pid := by
  obtain ⟨inside, same, _⟩ := List.findIdx?_eq_some_iff_getElem.mp found
  exact ⟨drivers[idx], List.getElem_mem inside, List.getElem?_eq_getElem inside, by simpa using same⟩

theorem sendTask_some (sent : sendTask drivers self pid timer = some (queue, msg)) :
    ∃ info ∈ drivers, info.pid = pid ∧ queue = info.messageQueueId ∧ msg = ⟨.task, self, timer⟩ := by
  unfold sendTask at sent
  split at sent
  next idx found =>
    obtain ⟨info, member, read, same⟩ := findDriver_some found
    simp only [read, Option.map_some, Option.some.injEq, Prod.mk.injEq] at sent
    exact ⟨info, member, same, sent.1.symm, sent.2.symm⟩
  next => contradiction

@[simp] theorem update_pid (info : DriverInfo) (busy : Bool) (remaining : Int) :
    (info.update busy remaining).pid = info.pid := rfl

@[simp] theorem update_messageQueueId (info : DriverInfo) (busy : Bool) (remaining : Int) :
    (info.update busy remaining).messageQueueId = info.messageQueueId := rfl

/-- Where pids are distinct, an update is one of all entries with the pid. -/
theorem updateDriverStatus_eq (distinct : (drivers.map DriverInfo.pid).Nodup) (pid : Int) (busy : Bool)
    (remaining : Int) : updateDriverStatus drivers pid busy remaining =
      drivers.map fun info => if info.pid = pid then info.update busy remaining else info := by
  induction drivers with
  | nil => rfl
  | cons info rest ih =>
    rw [List.map_cons, List.nodup_cons] at distinct
    have later := ih distinct.2
    by_cases same : info.pid = pid
    · have others : rest.map (fun info => if info.pid = pid then info.update busy remaining else info) =
          rest := by
        have absent : ∀ other ∈ rest, other.pid ≠ pid := fun other member equal =>
          distinct.1 (by rw [same, ← equal]; exact List.mem_map_of_mem member)
        calc rest.map (fun info => if info.pid = pid then info.update busy remaining else info)
            = rest.map id := List.map_congr_left fun other member => if_neg (absent other member)
          _ = rest := List.map_id rest
      simp [updateDriverStatus, findDriver, List.findIdx?_cons, same, others]
    · have shifted : updateDriverStatus (info :: rest) pid busy remaining =
          info :: updateDriverStatus rest pid busy remaining := by
        simp only [updateDriverStatus, findDriver, List.findIdx?_cons, beq_iff_eq, same, if_false]
        cases List.findIdx? (fun info => info.pid == pid) rest <;> simp
      rw [shifted, later, List.map_cons, if_neg same]

end Table
end Tasks.Taxi
