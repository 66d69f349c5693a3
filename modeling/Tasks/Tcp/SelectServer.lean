import Tasks.Kit.FdSet

/-! Module 3, Task 18: the descriptors of a server that serves its connections with `select`. -/
namespace Tasks.Tcp.SelectServer

open Kit

/-- What a descriptor of the process refers to. -/
inductive File where
  /-- Open since before the server started. -/
  | other
  | listening
  /-- The connections are numbered as they are accepted. -/
  | client (number : Nat)
  deriving DecidableEq, Repr

inductive Point where
  | selecting
  /-- In front of the descriptor `i` of the loop over the ready ones. -/
  | scanning (i : Nat)
  | exited
  deriving DecidableEq, Repr

structure Server where
  sockfd : Nat
  fds : FdSet
  readFds : FdSet
  maxFd : Nat
  point : Point
  /-- The open descriptors of the process. -/
  table : Nat → Option File
  /-- How many connections were accepted. -/
  accepted : Nat
  /-- What was ready when `select` returned. -/
  ready : List File
  /-- What was served since then. -/
  served : List File

/-- The descriptors that `close_sock` closes. -/
def closeSock (fds : FdSet) (maxFd : Nat) : Except Fault (List Nat) := fds.collect (maxFd + 2 - 3) 3

/-- How the system calls for a ready descriptor come out. -/
inductive Reply where
  | accept (newsockfd : Nat)
  | data
  | eof
  | fails
  deriving DecidableEq, Repr

/-- `accept` returns a descriptor that is not open and for which there is room in the sets, and only
an open descriptor can be read. -/
def Allowed (s : Server) (i : Nat) : Reply → Prop
  | .accept newsockfd => s.table newsockfd = none ∧ newsockfd < fdSetsize - 1
  | .data | .eof => (s.table i).isSome
  | .fails => True

/-- The body of the loop over the descriptors. -/
def body (s : Server) (i : Nat) (reply : Reply) : Except Fault Server := do
  let here ← s.readFds.isset i
  if here = false then return { s with point := .scanning (i + 1) }
  let s := { s with point := .scanning (i + 1), served := s.served ++ (s.table i).toList }
  if i = s.sockfd then
    match reply with
    | .accept newsockfd =>
      let fds ← s.fds.set newsockfd
      return { s with
        fds := fds
        maxFd := if newsockfd > s.maxFd then newsockfd else s.maxFd
        table := Function.update s.table newsockfd (some (.client s.accepted))
        accepted := s.accepted + 1 }
    | _ => return { s with point := .exited }
  else
    match reply with
    | .data => return s
    | .eof =>
      let fds ← s.fds.clr i
      return { s with fds := fds, table := Function.update s.table i none }
    | _ => return { s with point := .exited }

inductive Step (s : Server) : Server → Prop where
  | select (here : s.point = .selecting) (ready : FdSet) (some : ready.has fd)
      (among : ∀ fd, ready.has fd → s.fds.has fd ∧ fd < s.maxFd + 1) :
      Step s { s with
        readFds := ready
        point := .scanning 3
        ready := ready.files s.table 0
        served := [] }
  | selectFails (here : s.point = .selecting) : Step s { s with point := .exited }
  | timeOut (here : s.point = .selecting) (closed : closeSock s.fds s.maxFd = .ok fds) :
      Step s { s with point := .exited, table := fun fd => if fd ∈ fds then none else s.table fd }
  | body (here : s.point = .scanning i) (more : i ≤ s.maxFd) (reply : Reply) (allowed : Allowed s i reply)
      (done : body s i reply = .ok t) : Step s t
  | round (here : s.point = .scanning i) (last : s.maxFd < i) : Step s { s with point := .selecting }

structure Start where
  table : Nat → Option File
  inherited : ∀ fd file, table fd = some file → file = .other
  standard : ∀ fd < 3, table fd = some .other
  sockfd : Nat
  free : table sockfd = none
  room : sockfd < fdSetsize - 1

/-- Only the standard descriptors are open. -/
instance : Inhabited Start where
  default := {
    table := fun fd => if fd < 3 then some .other else none
    inherited := fun fd file found => by
      split at found
      · exact (Option.some.inj found).symm
      · contradiction
    standard := fun fd small => if_pos small
    sockfd := 3
    free := rfl
    room := by decide }

def Start.server (start : Start) : Except Fault Server := do
  let fds ← FdSet.zero.set start.sockfd
  return {
    sockfd := start.sockfd
    fds := fds
    readFds := .zero
    maxFd := start.sockfd
    point := .selecting
    table := Function.update start.table start.sockfd (some .listening)
    accepted := 0
    ready := []
    served := [] }

/-- What `fds` is for: the listening socket and the open connections. -/
def Served (file : Option File) : Prop := file = some .listening ∨ ∃ number, file = some (.client number)

structure Opened (table : Nat → Option File) (sockfd accepted : Nat) : Prop where
  standard : ∀ fd < 3, table fd = some .other
  listening : ∀ fd, table fd = some .listening ↔ fd = sockfd
  numbered : ∀ fd number, table fd = some (.client number) → number < accepted
  apart : ∀ fd fd' number, table fd = some (.client number) → table fd' = some (.client number) → fd = fd'

structure Descriptors (s : Server) : Prop where
  opened : Opened s.table s.sockfd s.accepted
  exact : ∀ fd, s.fds.has fd ↔ Served (s.table fd)
  bounded : ∀ fd, s.fds.has fd → fd ≤ s.maxFd
  room : s.maxFd < fdSetsize - 1

structure Round (s : Server) (i : Nat) : Prop where
  range : 3 ≤ i ∧ i ≤ s.maxFd + 1
  /-- What is still to be served is open. -/
  pending : ∀ fd, i ≤ fd → s.readFds.has fd → s.fds.has fd
  split : s.ready = s.served ++ s.readFds.files s.table i
  nodup : s.ready.Nodup

section Steps

variable {s t : Server} {i fd : Nat} {reply : Reply}

theorem has_three_le (descriptors : Descriptors s) (member : s.fds.has fd) : 3 ≤ fd := by
  by_contra small
  have standard := descriptors.opened.standard fd (by omega)
  have served := (descriptors.exact fd).mp member
  simp [Served, standard] at served

/-- `close_sock` closes each descriptor of the set once, and no other. -/
theorem closeSock_eq (descriptors : Descriptors s) :
    ∃ closed, closeSock s.fds s.maxFd = .ok closed ∧ closed.Nodup ∧ ∀ fd, fd ∈ closed ↔ s.fds.has fd := by
  have range : 3 + (s.maxFd + 2 - 3) ≤ fdSetsize := by
    have room := descriptors.room
    unfold fdSetsize at room ⊢
    omega
  refine ⟨_, FdSet.collect_eq range, (List.nodup_range').filter _, fun fd => ?_⟩
  rw [List.mem_filter, List.mem_range'_1]
  constructor
  · exact And.right
  · intro member
    have low := has_three_le descriptors member
    have high := descriptors.bounded fd member
    exact ⟨by omega, member⟩

theorem served_apart (descriptors : Descriptors s) (found : s.table fd = some file)
    (found' : s.table fd' = some file) (served : Served (some file)) : fd = fd' := by
  rcases served with listening | ⟨number, client⟩
  · cases listening
    exact ((descriptors.opened.listening fd).mp found).trans ((descriptors.opened.listening fd').mp found').symm
  · cases client
    exact descriptors.opened.apart fd fd' number found found'

theorem files_nodup (descriptors : Descriptors s) (ready : FdSet)
    (among : ∀ fd, ready.has fd → s.fds.has fd) (i : Nat) : (ready.files s.table i).Nodup := by
  refine FdSet.files_nodup (fun fd fd' file found found' member _ => ?_) i
  have served := (descriptors.exact fd).mp (among fd member)
  exact served_apart descriptors found found' (found ▸ served)

theorem select_round (descriptors : Descriptors s) (ready : FdSet) (member : ready.has fd)
    (among : ∀ fd, ready.has fd → s.fds.has fd ∧ fd < s.maxFd + 1) :
    Round { s with readFds := ready, point := .scanning 3, ready := ready.files s.table 0, served := [] } 3 := by
  have low (fd : Nat) (small : fd < 3) : ready.has fd = false := by
    by_contra present
    have least := has_three_le descriptors (among fd (by simpa using present)).1
    omega
  refine ⟨⟨le_rfl, ?_⟩, fun fd _ present => (among fd present).1, ?_, ?_⟩
  · have least := has_three_le descriptors (among fd member).1
    have most := (among fd member).2
    dsimp only
    omega
  · exact ((FdSet.files_skip (low 0 (by omega))).trans (FdSet.files_skip (low 1 (by omega)))).trans
      (FdSet.files_skip (low 2 (by omega)))
  · exact files_nodup descriptors ready (fun fd present => (among fd present).1) 0

theorem Opened.accept (opened : Opened table sockfd accepted) (free : table fd = none) :
    Opened (Function.update table fd (some (.client accepted))) sockfd (accepted + 1) := by
  have other {x : Nat} (apart : x ≠ fd) :
      Function.update table fd (some (.client accepted)) x = table x := Function.update_of_ne apart ..
  have used {x : Nat} {file : File} (found : table x = some file) : x ≠ fd := by
    rintro rfl
    simp [free] at found
  have client {x number : Nat}
      (found : Function.update table fd (some (.client accepted)) x = some (.client number)) :
      x = fd ∧ number = accepted ∨ x ≠ fd ∧ table x = some (.client number) := by
    by_cases same : x = fd
    · subst same
      exact .inl ⟨rfl, by simpa using found.symm⟩
    · exact .inr ⟨same, other same ▸ found⟩
  constructor
  · intro x small
    have standard := opened.standard x small
    exact (other (used standard)).trans standard
  · intro x
    by_cases same : x = fd
    · subst same
      have apart : x ≠ sockfd := fun equal => used ((opened.listening x).mpr equal) rfl
      simp [apart]
    · rw [other same]
      exact opened.listening x
  · intro x number found
    rcases client found with ⟨_, rfl⟩ | ⟨_, before⟩
    · exact Nat.lt_succ_self _
    · exact Nat.lt_succ_of_lt (opened.numbered x number before)
  · intro x y number found found'
    rcases client found with ⟨rfl, new⟩ | ⟨_, before⟩ <;>
      rcases client found' with ⟨rfl, new'⟩ | ⟨_, before'⟩
    · rfl
    · exact absurd new (Nat.ne_of_lt (opened.numbered y number before'))
    · exact absurd new' (Nat.ne_of_lt (opened.numbered x number before))
    · exact opened.apart x y number before before'

theorem Opened.close (opened : Opened table sockfd accepted) (found : table fd = some (.client number)) :
    Opened (Function.update table fd none) sockfd accepted := by
  have kept {x : Nat} {file : File} (after : Function.update table fd none x = some file) :
      table x = some file := by
    by_cases same : x = fd
    · simp [same] at after
    · rwa [Function.update_of_ne same] at after
  have other {x : Nat} {file : File} (before : table x = some file) (apart : file ≠ .client number) :
      Function.update table fd none x = some file := by
    refine (Function.update_of_ne ?_ ..).trans before
    rintro rfl
    exact apart (Option.some.inj (before.symm.trans found))
  constructor
  · exact fun x small => other (opened.standard x small) (by simp)
  · intro x
    constructor
    · exact fun after => (opened.listening x).mp (kept after)
    · exact fun same => other ((opened.listening x).mpr same) (by simp)
  · exact fun x number after => opened.numbered x number (kept after)
  · exact fun x y number after after' => opened.apart x y number (kept after) (kept after')

theorem accept_descriptors (descriptors : Descriptors s) (free : s.table fd = none)
    (room : fd < fdSetsize - 1) (set : s.fds.set fd = .ok fds) :
    Descriptors { s with
      fds := fds
      maxFd := if fd > s.maxFd then fd else s.maxFd
      table := Function.update s.table fd (some (.client s.accepted))
      accepted := s.accepted + 1 } := by
  refine ⟨descriptors.opened.accept free, fun x => ?_, fun x member => ?_, ?_⟩
  · dsimp only
    rw [FdSet.has_set set]
    by_cases same : x = fd
    · simp [same, Served]
    · rw [Function.update_of_ne same, ← descriptors.exact]
      simp [same]
  · dsimp only at member ⊢
    rcases (FdSet.has_set set x).mp member with rfl | before
    · split <;> omega
    · have bound := descriptors.bounded x before
      split <;> omega
  · have bound := descriptors.room
    dsimp only
    split <;> assumption

theorem close_descriptors (descriptors : Descriptors s) (found : s.table fd = some (.client number))
    (clr : s.fds.clr fd = .ok fds) :
    Descriptors { s with fds := fds, table := Function.update s.table fd none } := by
  refine ⟨descriptors.opened.close found, fun x => ?_, fun x member => ?_, descriptors.room⟩
  · dsimp only
    rw [FdSet.has_clr clr]
    by_cases same : x = fd
    · simp [same, Served]
    · rw [Function.update_of_ne same, ← descriptors.exact]
      simp [same]
  · exact descriptors.bounded x ((FdSet.has_clr clr x).mp member).2

theorem body_skip (fits : i < fdSetsize) (missing : s.readFds.has i = false) (reply : Reply) :
    body s i reply = .ok { s with point := .scanning (i + 1) } := by
  simp [body, FdSet.isset_eq fits, missing, pure, Except.pure]

inductive Handles (s : Server) (i : Nat) (file : File) : Reply → Server → Prop where
  | exit (reply : Reply) :
      Handles s i file reply { s with point := .exited, served := s.served ++ [file] }
  | accept (here : file = .listening) (set : s.fds.set newsockfd = .ok fds) :
      Handles s i file (.accept newsockfd) { s with
        point := .scanning (i + 1)
        served := s.served ++ [file]
        fds := fds
        maxFd := if newsockfd > s.maxFd then newsockfd else s.maxFd
        table := Function.update s.table newsockfd (some (.client s.accepted))
        accepted := s.accepted + 1 }
  | data : Handles s i file .data { s with point := .scanning (i + 1), served := s.served ++ [file] }
  | eof (here : file = .client number) (clr : s.fds.clr i = .ok fds) :
      Handles s i file .eof { s with
        point := .scanning (i + 1)
        served := s.served ++ [file]
        fds := fds
        table := Function.update s.table i none }

theorem body_handles (descriptors : Descriptors s) (ready : s.readFds.has i) (member : s.fds.has i)
    (allowed : Allowed s i reply) :
    ∃ file t, s.table i = some file ∧ body s i reply = .ok t ∧ Handles s i file reply t := by
  have fits := FdSet.has_lt ready
  have served := (descriptors.exact i).mp member
  by_cases same : i = s.sockfd
  · have listening := (descriptors.opened.listening i).mpr same
    cases reply with
    | accept newsockfd =>
      obtain ⟨free, room⟩ := allowed
      obtain ⟨fds, set⟩ := FdSet.put_isOk s.fds true (Nat.lt_of_lt_pred room)
      refine ⟨_, _, listening, ?_, .accept rfl set⟩
      simp [body, FdSet.isset_eq fits, ready, ← same, listening, FdSet.set, set, pure, Except.pure]
    | data | eof | fails =>
      refine ⟨_, _, listening, ?_, .exit _⟩
      simp [body, FdSet.isset_eq fits, ready, ← same, listening, pure, Except.pure]
  · obtain ⟨number, client⟩ := served.resolve_left fun listening =>
      same ((descriptors.opened.listening i).mp listening)
    cases reply with
    | data =>
      refine ⟨_, _, client, ?_, .data⟩
      simp [body, FdSet.isset_eq fits, ready, same, client, pure, Except.pure]
    | eof =>
      obtain ⟨fds, clr⟩ := FdSet.put_isOk s.fds false fits
      refine ⟨_, _, client, ?_, .eof rfl clr⟩
      simp [body, FdSet.isset_eq fits, ready, same, client, FdSet.clr, clr, pure, Except.pure]
    | accept | fails =>
      refine ⟨_, _, client, ?_, .exit _⟩
      simp [body, FdSet.isset_eq fits, ready, same, client, pure, Except.pure]

theorem Descriptors.same (descriptors : Descriptors s) (sockfd : t.sockfd = s.sockfd) (fds : t.fds = s.fds)
    (maxFd : t.maxFd = s.maxFd) (table : t.table = s.table) (accepted : t.accepted = s.accepted) :
    Descriptors t := by
  obtain ⟨opened, exact, bounded, room⟩ := descriptors
  constructor
  all_goals
    simp only [sockfd, fds, maxFd, table, accepted]
    assumption

/-- A round goes on when the descriptor it is at is served and those to come stay as they are. -/
theorem Round.next (round : Round s i) (ready : s.readFds.has i) (found : s.table i = some file)
    (readFds : t.readFds = s.readFds) (same : t.ready = s.ready) (served : t.served = s.served ++ [file])
    (more : i ≤ t.maxFd)
    (kept : ∀ fd, i + 1 ≤ fd → s.fds.has fd → t.fds.has fd ∧ t.table fd = s.table fd) : Round t (i + 1) := by
  have coming (fd : Nat) (above : i + 1 ≤ fd) (pending : s.readFds.has fd) :=
    kept fd above (round.pending fd (Nat.le_of_succ_le above) pending)
  refine ⟨⟨Nat.le_succ_of_le round.range.1, Nat.succ_le_succ more⟩, fun fd above pending => ?_, ?_, ?_⟩
  · exact (coming fd above (readFds ▸ pending)).1
  · rw [same, served, readFds, round.split, FdSet.files_cons (FdSet.has_lt ready) ready found,
      FdSet.files_congr fun fd above pending => (coming fd above pending).2]
    simp
  · exact same ▸ round.nodup

structure Carried (s : Server) : Prop where
  descriptors : s.point ≠ .exited → Descriptors s
  selecting : s.point = .selecting → s.served = s.ready ∧ s.ready.Nodup
  scanning : ∀ i, s.point = .scanning i → Round s i

theorem exited_carried (exited : s.point = .exited) : Carried s :=
  ⟨fun alive => absurd exited alive, fun here => by simp [exited] at here,
    fun i here => by simp [exited] at here⟩

theorem round_carried (here : s.point = .scanning i) (descriptors : Descriptors s) (round : Round s i) :
    Carried s := by
  refine ⟨fun _ => descriptors, fun other => by simp [here] at other, fun j same => ?_⟩
  cases here.symm.trans same
  exact round

theorem handles_carried (descriptors : Descriptors s) (round : Round s i) (more : i ≤ s.maxFd)
    (ready : s.readFds.has i) (found : s.table i = some file) (allowed : Allowed s i reply)
    (handles : Handles s i file reply t) : Carried t := by
  have member := round.pending i le_rfl ready
  cases handles with
  | exit => exact exited_carried rfl
  | @accept newsockfd fds here set =>
    obtain ⟨free, room⟩ := allowed
    refine round_carried rfl ((accept_descriptors descriptors free room set).same rfl rfl rfl rfl rfl)
      (round.next ready found rfl rfl rfl ?_ fun fd _ member => ⟨?_, ?_⟩)
    · dsimp only
      split <;> omega
    · exact (FdSet.has_set set fd).mpr (.inr member)
    · have used := (descriptors.exact fd).mp member
      refine Function.update_of_ne ?_ ..
      rintro rfl
      simp [free, Served] at used
  | data =>
    exact round_carried rfl (descriptors.same rfl rfl rfl rfl rfl)
      (round.next ready found rfl rfl rfl more fun fd _ member => ⟨member, rfl⟩)
  | eof here clr =>
    refine round_carried rfl ((close_descriptors descriptors (here ▸ found) clr).same rfl rfl rfl rfl rfl)
      (round.next ready found rfl rfl rfl more fun fd above member => ?_)
    have apart : fd ≠ i := by omega
    exact ⟨(FdSet.has_clr clr fd).mpr ⟨apart, member⟩, Function.update_of_ne apart ..⟩

theorem body_carried (descriptors : Descriptors s) (round : Round s i) (more : i ≤ s.maxFd)
    (allowed : Allowed s i reply) : ∃ t, body s i reply = .ok t ∧ Carried t := by
  cases ready : s.readFds.has i with
  | true =>
    obtain ⟨file, t, found, done, handles⟩ :=
      body_handles descriptors ready (round.pending i le_rfl ready) allowed
    exact ⟨t, done, handles_carried descriptors round more ready found allowed handles⟩
  | false =>
    have fits : i < fdSetsize := Nat.lt_of_lt_pred (Nat.lt_of_le_of_lt more descriptors.room)
    refine ⟨_, body_skip fits ready reply, round_carried rfl (descriptors.same rfl rfl rfl rfl rfl) ?_⟩
    exact ⟨⟨Nat.le_succ_of_le round.range.1, Nat.succ_le_succ more⟩,
      fun fd above => round.pending fd (Nat.le_of_succ_le above),
      (FdSet.files_skip ready) ▸ round.split, round.nodup⟩

/-- Behind the last descriptor everything that was ready is served. -/
theorem round_over (descriptors : Descriptors s) (round : Round s i) (last : s.maxFd < i) :
    s.served = s.ready := by
  have none : s.readFds.files s.table i = [] := by
    apply FdSet.files_nil
    intro fd above
    by_contra pending
    have bound := descriptors.bounded fd (round.pending fd above (by simpa using pending))
    omega
  rw [round.split, none, List.append_nil]

theorem step_carried (carried : Carried s) (step : Step s t) : Carried t := by
  have alive {point : Point} (here : s.point = point) (going : point ≠ .exited) : Descriptors s :=
    carried.descriptors (here ▸ going)
  cases step with
  | select here ready member among =>
    have descriptors := alive here (by simp)
    exact round_carried rfl (descriptors.same rfl rfl rfl rfl rfl)
      (select_round descriptors ready member among)
  | selectFails | timeOut => exact exited_carried rfl
  | body here more reply allowed done =>
    obtain ⟨t', done', kept⟩ := body_carried (alive here (by simp)) (carried.scanning _ here) more allowed
    cases done.symm.trans done'
    exact kept
  | round here last =>
    have descriptors := alive here (by simp)
    have round := carried.scanning _ here
    have served := round_over descriptors round last
    exact ⟨fun _ => descriptors.same rfl rfl rfl rfl rfl, fun _ => ⟨served, round.nodup⟩,
      fun i other => by simp at other⟩

/-- `socket` returns a free descriptor. -/
theorem Start.opened (start : Start) :
    Opened (Function.update start.table start.sockfd (some .listening)) start.sockfd 0 := by
  have foreign {x : Nat} {file : File} (apart : x ≠ start.sockfd)
      (found : Function.update start.table start.sockfd (some .listening) x = some file) : file = .other := by
    rw [Function.update_of_ne apart] at found
    exact start.inherited x file found
  have none {x number : Nat} :
      Function.update start.table start.sockfd (some .listening) x ≠ some (.client number) := by
    intro found
    by_cases same : x = start.sockfd
    · simp [same] at found
    · cases foreign same found
  constructor
  · intro x small
    have standard := start.standard x small
    refine (Function.update_of_ne ?_ ..).trans standard
    rintro rfl
    simp [start.free] at standard
  · intro x
    by_cases same : x = start.sockfd
    · simp [same]
    · refine ⟨fun found => ?_, fun equal => absurd equal same⟩
      cases foreign same found
  · exact fun x number found => absurd found none
  · exact fun x y number found _ => absurd found none

theorem start_carried (start : Start) : ∃ s, start.server = .ok s ∧ s.point = .selecting ∧ Carried s := by
  obtain ⟨fds, set⟩ := FdSet.put_isOk .zero true (Nat.lt_of_lt_pred start.room)
  unfold Start.server
  rw [FdSet.set, set]
  refine ⟨_, rfl, rfl, fun _ => ?_, fun _ => ⟨rfl, List.nodup_nil⟩, fun i other => by simp at other⟩
  refine ⟨start.opened, fun x => ?_, fun x member => ?_, start.room⟩
  · rw [FdSet.has_set set]
    by_cases same : x = start.sockfd
    · simp [same, Served]
    · have unserved : ¬ Served (start.table x) := by
        rintro (found | ⟨number, found⟩)
        · cases start.inherited x _ found
        · cases start.inherited x _ found
      simpa [same] using unserved
  · rcases (FdSet.has_set set x).mp member with rfl | none
    · exact le_rfl
    · simp at none

structure Correct (s : Server) : Prop where
  /-- `fds` is the listening socket and the open connections. -/
  exact : ∀ fd, s.fds.has fd ↔ Served (s.table fd)
  bounded : ∀ fd, s.fds.has fd → fd ≤ s.maxFd
  /-- Within a round nothing is served twice, and nothing that was not ready. -/
  atMostOnce : ∀ i, s.point = .scanning i → i ≤ s.maxFd + 1 ∧ s.served <+: s.ready ∧ s.ready.Nodup
  /-- Behind a round all that was ready is served, once. -/
  once : s.point = .selecting → s.served = s.ready ∧ s.ready.Nodup
  timeOut : ∃ closed, closeSock s.fds s.maxFd = .ok closed ∧ closed.Nodup ∧
    ∀ fd, fd ∈ closed ↔ s.fds.has fd
  /-- No access is outside a set. -/
  defined : ∀ i reply, s.point = .scanning i → i ≤ s.maxFd → Allowed s i reply →
    ∃ t, body s i reply = .ok t

theorem carried_correct (carried : Carried s) (alive : s.point ≠ .exited) : Correct s := by
  have descriptors := carried.descriptors alive
  refine ⟨descriptors.exact, descriptors.bounded, fun i here => ?_, carried.selecting,
    closeSock_eq descriptors, fun i reply here more allowed => ?_⟩
  · have round := carried.scanning i here
    exact ⟨round.range.2, round.split ▸ List.prefix_append .., round.nodup⟩
  · obtain ⟨t, done, _⟩ := body_carried descriptors (carried.scanning i here) more allowed
    exact ⟨t, done⟩

/-- For every sequence of system calls, whatever else the process has inherited. -/
theorem select_server_correct (start : Start) :
    ∃ s, start.server = .ok s ∧
      ∀ t, Relation.ReflTransGen Step s t → t.point ≠ .exited → Correct t := by
  obtain ⟨s, started, _, carried⟩ := start_carried start
  exact ⟨s, started, fun t path =>
    carried_correct (reachable_invariant Carried (fun _ _ => step_carried) path carried)⟩

end Steps

end Tasks.Tcp.SelectServer
