import Tasks.Kit.MessageQueue
import Tasks.Kit.Run
import Tasks.Kit.Lines
import Mathlib.Logic.Function.Basic

/-! Module 3, Task 7: two programs take turns in a chat over one POSIX queue, from which each can
also take its own messages. -/
namespace Tasks.Chat.Posix

open Kit Kit.Bytes Kit.Lines

/-- `prog1.c` and `prog2.c` -/
inductive User where
  | user1
  | user2
  deriving DecidableEq, Repr

def User.peer : User → User
  | .user1 => .user2
  | .user2 => .user1

structure Message where
  /-- Not in the message: the program that sent it. -/
  sender : User
  prio : Nat
  text : Bytes
  deriving DecidableEq, Repr

inductive Point where
  | typing
  | sending
  | ending
  | receiving
  | done
  deriving DecidableEq, Repr

structure Party where
  point : Point
  /-- The text in the array. -/
  buffer : Bytes
  stdin : Bytes
  received : List Message
  deriving DecidableEq, Repr

structure System where
  queue : List Message
  party : User → Party

def System.start (buffer stdin : User → Bytes) : System where
  queue := []
  party
    | .user1 => ⟨.typing, buffer .user1, stdin .user1, []⟩
    | .user2 => ⟨.receiving, buffer .user2, stdin .user2, []⟩

def System.set (c : System) (user : User) (p : Party) : System :=
  { c with party := Function.update c.party user p }

def mqMaxmsg : Nat := 10

/-- `mq_send`; `none` is waiting for room. -/
def mqSend (queue : List Message) (msg : Message) : Option (List Message) :=
  if queue.length < mqMaxmsg then some (enqueue Message.prio msg queue) else none

def ends : User → Bytes → Bool
  | .user1, _ => false
  | .user2, text => text = ascii "exit\n"

def ended : User → Message → Bool
  | .user1, msg => msg.text = ascii "/exit"
  | .user2, msg => msg.prio = 255

def typed (p : Party) (user : User) : Party :=
  let line := fgetsText 1024 p.stdin p.buffer
  { p with
    buffer := line.1
    stdin := line.2
    point := if ends user line.1 then .ending else .sending }

def received (p : Party) (user : User) (msg : Message) : Party :=
  { p with
    buffer := msg.text
    received := p.received ++ [msg]
    point := if ended user msg then .done else .typing }

/-- What a program does next; `none` is waiting or having ended. -/
def step (c : System) (user : User) : Option System :=
  let p := c.party user
  match p.point with
  | .typing => some (c.set user (typed p user))
  | .sending => (mqSend c.queue ⟨user, 1, p.buffer⟩).map fun queue =>
      { c.set user { p with point := .receiving } with queue := queue }
  | .ending => (mqSend c.queue ⟨user, 255, ascii "Chat ended."⟩).map fun queue =>
      { c.set user { p with point := .done } with queue := queue }
  | .receiving =>
    match c.queue with
    | [] => none
    | msg :: queue => some { c.set user (received p user msg) with queue := queue }
  | .done => none

def Step (c : System) (user : User) (d : System) : Prop := step c user = some d

def OnlyPeers (c : System) : Prop := ∀ user, ∀ msg ∈ (c.party user).received, msg.sender ≠ user

/-- A program receives only when none of its own messages is in the queue. -/
def Careful (c : System) (user : User) : Prop :=
  (c.party user).point = .receiving → ∀ msg ∈ c.queue, msg.sender ≠ user

section Steps

variable {c d : System} {user : User}

theorem peer_ne (user : User) : user.peer ≠ user := by cases user <;> decide

@[simp] theorem peer_peer (user : User) : user.peer.peer = user := by cases user <;> rfl

theorem eq_peer (apart : other ≠ user) : other = user.peer := by
  cases other <;> cases user <;> first | rfl | exact absurd rfl apart

@[simp] theorem set_self (c : System) (user : User) (p : Party) : (c.set user p).party user = p :=
  Function.update_self ..

theorem set_other (c : System) (p : Party) (apart : other ≠ user) :
    (c.set user p).party other = c.party other := Function.update_of_ne apart ..

/-- What one step does, by the system call it makes. -/
inductive Moves (c : System) (user : User) : System → Prop where
  | type (here : (c.party user).point = .typing) : Moves c user (c.set user (typed (c.party user) user))
  | send (here : (c.party user).point = .sending ∧ next = .receiving ∨
        (c.party user).point = .ending ∧ next = .done)
      (own : msg.sender = user) :
      Moves c user { c.set user { c.party user with point := next } with
        queue := enqueue Message.prio msg c.queue }
  | receive (here : (c.party user).point = .receiving) (stands : c.queue = msg :: queue) :
      Moves c user { c.set user (received (c.party user) user msg) with queue := queue }

theorem mqSend_eq (sent : mqSend queue msg = some queue') : queue' = enqueue Message.prio msg queue := by
  unfold mqSend at sent
  split at sent
  · exact (Option.some.inj sent).symm
  · contradiction

theorem step_moves (stepped : Step c user d) : Moves c user d := by
  unfold Step step at stepped
  cases here : (c.party user).point with
  | typing =>
    simp only [here, Option.some.injEq] at stepped
    exact stepped ▸ .type here
  | sending =>
    simp only [here] at stepped
    obtain ⟨queue, sent, rfl⟩ := Option.map_eq_some_iff.mp stepped
    exact mqSend_eq sent ▸ .send (.inl ⟨here, rfl⟩) rfl
  | ending =>
    simp only [here] at stepped
    obtain ⟨queue, sent, rfl⟩ := Option.map_eq_some_iff.mp stepped
    exact mqSend_eq sent ▸ .send (.inr ⟨here, rfl⟩) rfl
  | receiving =>
    simp only [here] at stepped
    cases stands : c.queue with
    | nil => simp [stands] at stepped
    | cons msg queue =>
      simp only [stands, Option.some.injEq] at stepped
      exact stepped ▸ .receive here stands
  | done => simp [here] at stepped

end Steps

section Turns

variable {c d : System} {user mover : User}

def Party.Idle (p : Party) : Prop := p.point = .receiving ∨ p.point = .done

/-- The programs take turns: one is at work with the queue empty, or its message is on the way. -/
inductive Turns (c : System) : Prop where
  | works (user : User) (queue : c.queue = []) (peer : (c.party user.peer).Idle)
      (here : (c.party user).point ≠ .receiving)
  | waits (user : User) (queue : c.queue = [msg]) (own : msg.sender = user)
      (peer : (c.party user.peer).Idle) (here : (c.party user).Idle)

theorem typed_point (p : Party) (user : User) : (typed p user).point ≠ .receiving := by
  unfold typed
  dsimp only
  split <;> simp

theorem received_point (p : Party) (user : User) (msg : Message) :
    (received p user msg).point ≠ .receiving := by
  unfold received
  dsimp only
  split <;> simp

/-- A program that is not at work can only receive. -/
theorem idle_receives (idle : (c.party mover).Idle) (moves : Moves c mover d) :
    ∃ msg queue, (c.party mover).point = .receiving ∧ c.queue = msg :: queue ∧
      d = { c.set mover (received (c.party mover) mover msg) with queue := queue } := by
  cases moves with
  | type here => simp [Party.Idle, here] at idle
  | send here => rcases here with ⟨here, _⟩ | ⟨here, _⟩ <;> simp [Party.Idle, here] at idle
  | receive here stands => exact ⟨_, _, here, stands, rfl⟩

theorem step_turns (turns : Turns c) (careful : Careful c mover) (moves : Moves c mover d) :
    Turns d := by
  cases turns with
  | works user queue peer here =>
    by_cases same : mover = user
    · subst same
      have still (p : Party) : ((c.set mover p).party mover.peer).Idle := by
        rw [set_other c p (peer_ne mover)]
        exact peer
      cases moves with
      | type =>
        refine .works mover queue (still _) ?_
        rw [set_self]
        exact typed_point _ _
      | send sends own =>
        refine .waits mover (by simp [queue, enqueue]) own (still _) ?_
        rcases sends with ⟨_, rfl⟩ | ⟨_, rfl⟩ <;> simp [Party.Idle]
      | receive receiving => exact absurd receiving here
    · obtain rfl := eq_peer same
      obtain ⟨msg, rest, _, stands, _⟩ := idle_receives peer moves
      simp [queue] at stands
  | @waits msg user queue own peer here =>
    by_cases same : mover = user
    · subst same
      obtain ⟨_, _, receiving, _⟩ := idle_receives here moves
      exact absurd own (careful receiving msg (by simp [queue]))
    · obtain rfl := eq_peer same
      obtain ⟨msg', rest, _, stands, rfl⟩ := idle_receives peer moves
      rw [queue] at stands
      cases stands
      refine .works user.peer rfl ?_ ?_
      · rw [peer_peer]
        dsimp only
        rw [set_other c _ (Ne.symm (peer_ne user))]
        exact here
      · dsimp only
        rw [set_self]
        exact received_point _ _ _

theorem step_received (moves : Moves c mover d) (user : User) :
    (d.party user).received = (c.party user).received ∨
      user = mover ∧ (c.party user).point = .receiving ∧ ∃ msg queue, c.queue = msg :: queue ∧
        (d.party user).received = (c.party user).received ++ [msg] := by
  by_cases same : user = mover
  · subst same
    cases moves with
    | type => simp [typed]
    | send => simp
    | receive here stands => exact .inr ⟨rfl, here, _, _, stands, by simp [received]⟩
  · refine .inl ?_
    cases moves with
    | type | send | receive => exact congrArg _ (set_other c _ same)

theorem step_only_peers (only : OnlyPeers c) (careful : Careful c mover) (moves : Moves c mover d) :
    OnlyPeers d := by
  intro user msg member
  rcases step_received moves user with same | ⟨rfl, receiving, taken, queue, stands, more⟩
  · exact only user msg (same ▸ member)
  · rw [more] at member
    rcases List.mem_append.mp member with before | last
    · exact only user msg before
    · rw [List.mem_singleton.mp last]
      exact careful receiving taken (by simp [stands])

theorem step_own (turns : Turns c) (careless : ¬ Careful c mover) (moves : Moves c mover d) :
    ∃ msg ∈ (d.party mover).received, msg.sender = mover := by
  simp only [Careful, Classical.not_imp, not_forall, not_not] at careless
  obtain ⟨receiving, msg, member, own⟩ := careless
  cases moves with
  | type here => simp [receiving] at here
  | send here => rcases here with ⟨here, _⟩ | ⟨here, _⟩ <;> simp [receiving] at here
  | receive here stands =>
    refine ⟨msg, ?_, own⟩
    cases turns with
    | works user queue => simp [queue] at member
    | waits user queue =>
      rw [queue] at stands member
      cases stands
      simp [received, List.mem_singleton.mp member]

theorem step_keeps (moves : Moves c mover d)
    (own : ∃ user, ∃ msg ∈ (c.party user).received, msg.sender = user) :
    ∃ user, ∃ msg ∈ (d.party user).received, msg.sender = user := by
  obtain ⟨user, msg, member, own⟩ := own
  refine ⟨user, msg, ?_, own⟩
  rcases step_received moves user with same | ⟨_, _, taken, queue, _, more⟩
  · exact same ▸ member
  · rw [more]
    exact List.mem_append_left _ member

theorem takes_own (sending : (c.party user).point = .sending) (queue : c.queue = []) :
    ∃ d e, Step c user d ∧ Step d user e ∧ ∃ msg ∈ (e.party user).received, msg.sender = user := by
  let msg : Message := ⟨user, 1, (c.party user).buffer⟩
  let d : System := { c.set user { c.party user with point := .receiving } with queue := [msg] }
  let e : System := { d.set user (received (d.party user) user msg) with queue := [] }
  have sends : Step c user d := by
    simp [Step, step, sending, queue, mqSend, mqMaxmsg, enqueue, d, msg]
  have receives : Step d user e := by
    simp [Step, step, d, e]
  refine ⟨d, e, sends, receives, msg, ?_, rfl⟩
  simp [e, received]

theorem takes_own_greeting (buffer stdin : User → Bytes) :
    ∃ steps c, Trace Step (.start buffer stdin) steps c ∧
      ∃ msg ∈ (c.party .user1).received, msg.sender = .user1 := by
  let c := System.start buffer stdin
  let d := c.set .user1 (typed (c.party .user1) .user1)
  have types : Step c .user1 d := rfl
  have sending : (d.party .user1).point = .sending := by
    simp [d, typed, ends]
  obtain ⟨e, f, sends, receives, own⟩ := takes_own sending rfl
  exact ⟨_, f, .snoc (.snoc (.snoc .nil types) sends) receives, own⟩

/-- A run delivers only the peers' messages if and only if its programs are careful, and every input
has a run that does not. -/
structure OnlyPeersIffCareful (start : System) : Prop where
  run : ∀ steps c, Trace Step start steps c → (OnlyPeers c ↔ ∀ x ∈ steps, Careful x.1 x.2)
  never : ∃ steps c, Trace Step start steps c ∧ ¬ OnlyPeers c

/-- For all input and whatever the arrays held. -/
theorem only_peers_iff (buffer stdin : User → Bytes) :
    OnlyPeersIffCareful (.start buffer stdin) := by
  constructor
  · intro steps c trace
    obtain ⟨good_iff, either⟩ := trace.good_iff Careful
      (fun c => Turns c ∧ OnlyPeers c)
      (fun c => ∃ user, ∃ msg ∈ (c.party user).received, msg.sender = user)
      (fun c user d ⟨turns, only⟩ careful stepped =>
        ⟨step_turns turns careful (step_moves stepped), step_only_peers only careful (step_moves stepped)⟩)
      (fun c user d ⟨turns, _⟩ careless stepped => ⟨user, step_own turns careless (step_moves stepped)⟩)
      (fun c user d own stepped => step_keeps (step_moves stepped) own)
      (fun c ⟨_, only⟩ ⟨user, msg, member, own⟩ => only user msg member own)
      ⟨.works .user1 rfl (.inl rfl) (by simp [System.start]), fun user => by
        cases user <;> simp [System.start]⟩
    rw [← good_iff]
    constructor
    · intro only
      apply either.resolve_right
      rintro ⟨user, msg, member, own⟩
      exact only user msg member own
    · exact And.right
  · obtain ⟨steps, c, trace, msg, member, own⟩ := takes_own_greeting buffer stdin
    exact ⟨steps, c, trace, fun only => only .user1 msg member own⟩

/-- `prog1.c` reads its own greeting before `prog2.c` does. -/
theorem own_greeting :
    ¬ ∀ steps c, Trace Step (.start (fun _ => []) fun _ => ascii "hello\n") steps c → OnlyPeers c := by
  intro law
  obtain ⟨steps, c, trace, msg, member, own⟩ := takes_own_greeting (fun _ => []) fun _ => ascii "hello\n"
  exact law steps c trace .user1 msg member own

end Turns

end Tasks.Chat.Posix
