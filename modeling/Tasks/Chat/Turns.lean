import Tasks.Chat.Posix

/-! Task 7 in every interleaving: there is one turn, which a program at work has or a message in
the queue, until `prog1.c` takes a message that ends the chat for it. -/
namespace Tasks.Chat.Posix

open Kit Kit.Bytes Kit.Lines

/-- The message that ends the chat, of which only `prog2.c` has one. -/
def chatEnded (sender : User) : Message := ⟨sender, 255, ascii "Chat ended."⟩

def sends (x : System × User) : Option Message :=
  match (x.1.party x.2).point with
  | .sending => some ⟨x.2, 1, (x.1.party x.2).buffer⟩
  | .ending => some (chatEnded x.2)
  | _ => none

def takes (x : System × User) : Option Message :=
  match (x.1.party x.2).point with
  | .receiving => x.1.queue.head?
  | _ => none

inductive Acts (c : System) (user : User) : System → Prop where
  | type (here : (c.party user).point = .typing) (nothing : sends (c, user) = none)
      (none : takes (c, user) = none) : Acts c user (c.set user (typed (c.party user) user))
  | send (here : (c.party user).point = .sending ∧ msg = ⟨user, 1, (c.party user).buffer⟩ ∧
          next = .receiving ∨
        (c.party user).point = .ending ∧ msg = chatEnded user ∧ next = .done)
      (sent : sends (c, user) = some msg) (none : takes (c, user) = none) :
      Acts c user { c.set user { c.party user with point := next } with
        queue := enqueue Message.prio msg c.queue }
  | receive (here : (c.party user).point = .receiving) (stands : c.queue = msg :: queue)
      (nothing : sends (c, user) = none) (taken : takes (c, user) = some msg) :
      Acts c user { c.set user (received (c.party user) user msg) with queue := queue }

inductive Turn (c : System) : Prop where
  | works (user : User) (queue : c.queue = []) (peer : (c.party user.peer).Idle)
      (here : ¬ (c.party user).Idle) (on : (c.party .user1).point ≠ .done)
  | waits (queue : c.queue = [msg]) (idle : ∀ user, (c.party user).Idle)
      (on : (c.party .user1).point ≠ .done)
  | stopped (queue : c.queue = []) (left : (c.party .user1).point = .done) (peer : (c.party .user2).Idle)

/-- What `prog1.c` and `prog2.c` know of the end, with the queue between them. -/
structure Ends (queue : List Message) (first second : Party) : Prop where
  /-- `prog1.c` has no line that ends the chat. -/
  never : first.point ≠ .ending
  leaves : first.point = .done ↔ ∃ msg ∈ first.received, msg.text = ascii "/exit"
  last : ∀ msg ∈ queue, msg.prio = 255 → second.point = .done
  untold : ∀ msg ∈ second.received, msg.prio ≠ 255
  alone : second.point = .done → ∃ before own,
    first.received ++ queue = before ++ chatEnded .user2 :: own ∧ ∀ msg ∈ own, msg.sender = .user1

section Acts

variable {c d : System} {user mover : User}

theorem step_acts (stepped : Step c user d) : Acts c user d := by
  unfold Step step at stepped
  cases here : (c.party user).point with
  | typing =>
    simp only [here, Option.some.injEq] at stepped
    exact stepped ▸ .type here (by simp [sends, here]) (by simp [takes, here])
  | sending =>
    simp only [here] at stepped
    obtain ⟨queue, sent, rfl⟩ := Option.map_eq_some_iff.mp stepped
    exact mqSend_eq sent ▸ .send (.inl ⟨here, rfl, rfl⟩) (by simp [sends, here]) (by simp [takes, here])
  | ending =>
    simp only [here] at stepped
    obtain ⟨queue, sent, rfl⟩ := Option.map_eq_some_iff.mp stepped
    exact mqSend_eq sent ▸
      .send (.inr ⟨here, rfl, rfl⟩) (by simp [sends, here, chatEnded]) (by simp [takes, here])
  | receiving =>
    simp only [here] at stepped
    cases stands : c.queue with
    | nil => simp [stands] at stepped
    | cons msg queue =>
      simp only [stands, Option.some.injEq] at stepped
      exact stepped ▸ .receive here stands (by simp [sends, here]) (by simp [takes, here, stands])
  | done => simp [here] at stepped

theorem works_moves (user : User) (queue : c.queue = []) (peer : (c.party user.peer).Idle)
    (acts : Acts c mover d) :
    mover = user := by
  by_contra apart
  obtain rfl := eq_peer apart
  cases acts with
  | type here => simp [Party.Idle, here] at peer
  | send here => rcases here with ⟨here, _⟩ | ⟨here, _⟩ <;> simp [Party.Idle, here] at peer
  | receive here stands => simp [queue] at stands

/-- An idle program that moves receives the message. -/
theorem idle_takes (queue : c.queue = [msg]) (idle : ∀ user, (c.party user).Idle) (acts : Acts c mover d) :
    (c.party mover).point = .receiving ∧
      d = { c.set mover (received (c.party mover) mover msg) with queue := [] } := by
  have here := idle mover
  cases acts with
  | type typing => simp [Party.Idle, typing] at here
  | send sending => rcases sending with ⟨sending, _⟩ | ⟨sending, _⟩ <;> simp [Party.Idle, sending] at here
  | receive receiving stands =>
    rw [queue] at stands
    cases stands
    exact ⟨receiving, rfl⟩

end Acts

section Steps

variable {c d : System} {user mover : User}

theorem step_turn (turn : Turn c)
    (ends : Ends c.queue (c.party .user1) (c.party .user2)) (acts : Acts c mover d) : Turn d := by
  cases turn with
  | works user queue peer here on =>
    obtain rfl := works_moves user queue peer acts
    have still (p : Party) : ((c.set mover p).party mover.peer).Idle := by
      rw [set_other c p (peer_ne mover)]
      exact peer
    cases acts with
    | type typing =>
      have working : ¬ ((c.set mover (typed (c.party mover) mover)).party mover).Idle := by
        rw [set_self]
        unfold typed
        dsimp only
        split <;> simp [Party.Idle]
      refine .works mover queue (still _) working ?_
      cases mover with
      | user1 => exact fun left => working (.inr left)
      | user2 => exact on
    | @send msg next sending =>
      have one : enqueue Message.prio msg c.queue = [msg] := by simp [queue, enqueue]
      refine .waits one (fun other => ?_) ?_
      · by_cases same : other = mover
        · subst same
          rcases sending with ⟨_, _, rfl⟩ | ⟨_, _, rfl⟩ <;> simp [Party.Idle]
        · obtain rfl := eq_peer same
          exact still _
      · cases mover with
        | user1 =>
          rcases sending with ⟨_, _, rfl⟩ | ⟨never, _⟩
          · simp
          · exact absurd never ends.never
        | user2 => exact on
    | receive receiving => exact absurd (.inl receiving) here
  | @waits msg queue idle on =>
    obtain ⟨receiving, rfl⟩ := idle_takes queue idle acts
    cases mover with
    | user1 =>
      by_cases left : ended .user1 msg
      · exact .stopped rfl (by simp [received, left]) (idle .user2)
      · exact .works .user1 rfl (idle .user2) (by simp [Party.Idle, received, left])
          (by simp [received, left])
    | user2 =>
      have more : ¬ ended .user2 msg := fun last => by
        have left := ends.last msg (by simp [queue]) (of_decide_eq_true last)
        simp [left] at receiving
      exact .works .user2 rfl (idle .user1) (by simp [Party.Idle, received, more]) on
  | stopped queue left peer =>
    cases mover with
    | user1 => cases acts <;> simp_all
    | user2 =>
      obtain same := works_moves .user1 queue peer acts
      cases same

theorem Turn.clear (turn : Turn c) (user : User) (here : ¬ (c.party user).Idle) : c.queue = [] := by
  cases turn with
  | works _ queue => exact queue
  | waits _ idle => exact absurd (idle user) here
  | stopped queue => exact queue

theorem Turn.single (turn : Turn c) (stands : c.queue = msg :: queue) : queue = [] := by
  cases turn with
  | works _ empty => simp [empty] at stands
  | waits one => simp_all
  | stopped empty => simp [empty] at stands

end Steps

section Ends

variable {queue : List Message} {first second : Party} {msg : Message}

theorem Ends.on (ends : Ends queue first second) (here : first.point ≠ .done) :
    ∀ msg ∈ first.received, msg.text ≠ ascii "/exit" := by
  intro msg member exit
  exact here (ends.leaves.mpr ⟨msg, member, exit⟩)

theorem Ends.type_first (ends : Ends queue first second) (typing : first.point = .typing) :
    Ends queue (typed first .user1) second := by
  have others := ends.on (by simp [typing])
  refine ⟨nofun, ⟨nofun, ?_⟩, ends.last, ends.untold, ends.alone⟩
  rintro ⟨msg, member, exit⟩
  exact absurd exit (others msg member)

theorem Ends.type_second (ends : Ends queue first second) (typing : second.point = .typing) :
    Ends queue first (typed second .user2) := by
  have none (msg : Message) (member : msg ∈ queue) : msg.prio ≠ 255 := fun prio => by
    have left := ends.last msg member prio
    simp [typing] at left
  have on : (typed second .user2).point ≠ .done := by
    unfold typed
    dsimp only
    split <;> simp
  exact ⟨ends.never, ends.leaves, fun msg member prio => absurd prio (none msg member), ends.untold,
    fun left => absurd left on⟩

/-- The program at work sends into the empty queue. -/
theorem Ends.send_first (ends : Ends [] first second) (sending : first.point = .sending) (text : Bytes) :
    Ends [⟨.user1, 1, text⟩] { first with point := .receiving } second := by
  have others := ends.on (by simp [sending])
  refine ⟨nofun, ⟨nofun, ?_⟩, by simp, ends.untold, fun left => ?_⟩
  · rintro ⟨msg, member, exit⟩
    exact absurd exit (others msg member)
  · obtain ⟨before, own, whole, all⟩ := ends.alone left
    rw [List.append_nil] at whole
    refine ⟨before, own ++ [⟨.user1, 1, text⟩], by simp [whole], fun msg member => ?_⟩
    rcases List.mem_append.mp member with earlier | last
    · exact all msg earlier
    · rw [List.mem_singleton.mp last]

theorem Ends.send_second (ends : Ends [] first second) (text : Bytes) :
    Ends [⟨.user2, 1, text⟩] first { second with point := .receiving } :=
  ⟨ends.never, ends.leaves, by simp, ends.untold, nofun⟩

theorem Ends.end_second (ends : Ends [] first second) :
    Ends [chatEnded .user2] first { second with point := .done } :=
  ⟨ends.never, ends.leaves, fun _ _ _ => rfl, ends.untold, fun _ => ⟨first.received, [], rfl, by simp⟩⟩

theorem Ends.receive_first (ends : Ends [msg] first second) (receiving : first.point = .receiving) :
    Ends [] (received first .user1 msg) second := by
  have others := ends.on (by simp [receiving])
  have point : (received first .user1 msg).point = if msg.text = ascii "/exit" then .done else .typing := by
    simp [received, ended]
  refine ⟨?_, ?_, by simp, ends.untold, fun left => ?_⟩
  · rw [point]
    split <;> simp
  · rw [point]
    constructor
    · intro left
      refine ⟨msg, by simp [received], ?_⟩
      by_contra other
      simp [other] at left
    · rintro ⟨taken, member, exit⟩
      rcases List.mem_append.mp member with earlier | last
      · exact absurd exit (others taken earlier)
      · rw [List.mem_singleton.mp last] at exit
        simp [exit]
  · simpa [received] using ends.alone left

theorem Ends.receive_second (ends : Ends [msg] first second) (receiving : second.point = .receiving) :
    Ends [] first (received second .user2 msg) := by
  have more : msg.prio ≠ 255 := fun prio => by
    have left := ends.last msg (by simp) prio
    simp [receiving] at left
  refine ⟨ends.never, ends.leaves, by simp, fun taken member => ?_, fun left => ?_⟩
  · rcases List.mem_append.mp member with earlier | last
    · exact ends.untold taken earlier
    · exact List.mem_singleton.mp last ▸ more
  · simp [received, ended, more] at left

theorem step_ends (turn : Turn c) (ends : Ends c.queue (c.party .user1) (c.party .user2))
    (acts : Acts c mover d) : Ends d.queue (d.party .user1) (d.party .user2) := by
  have first (p : Party) : (c.set .user1 p).party .user2 = c.party .user2 := set_other c p (by decide)
  have second (p : Party) : (c.set .user2 p).party .user1 = c.party .user1 := set_other c p (by decide)
  cases acts with
  | type typing =>
    cases mover with
    | user1 =>
      rw [first, set_self]
      exact ends.type_first typing
    | user2 =>
      rw [second, set_self]
      exact ends.type_second typing
  | send sending =>
    have empty := turn.clear mover
      (by rcases sending with ⟨here, _⟩ | ⟨here, _⟩ <;> simp [Party.Idle, here])
    rw [empty] at ends
    dsimp only
    rw [empty, enqueue]
    cases mover with
    | user1 =>
      rw [first, set_self]
      rcases sending with ⟨here, rfl, rfl⟩ | ⟨here, _⟩
      · exact ends.send_first here _
      · exact absurd here ends.never
    | user2 =>
      rw [second, set_self]
      rcases sending with ⟨_, rfl, rfl⟩ | ⟨_, rfl, rfl⟩
      · exact ends.send_second _
      · exact ends.end_second
  | receive receiving stands =>
    obtain rfl := turn.single stands
    rw [stands] at ends
    cases mover with
    | user1 =>
      dsimp only
      rw [first, set_self]
      exact ends.receive_first receiving
    | user2 =>
      dsimp only
      rw [second, set_self]
      exact ends.receive_second receiving

end Ends

section Runs

variable {c d : System} {mover : User} {steps : List (System × User)}

/-- What has happened in a run, and what can still happen. -/
structure InTurn (steps : List (System × User)) (c : System) : Prop where
  order : steps.filterMap sends = steps.filterMap takes ++ c.queue
  single : c.queue.length ≤ 1
  received : ∀ user, (c.party user).received = (steps.filter (·.2 = user)).filterMap takes
  stands : (∀ user, step c user = none) ↔ (c.party .user1).point = .done
  ends : Ends c.queue (c.party .user1) (c.party .user2)

theorem step_queue (turn : Turn c) (acts : Acts c mover d) :
    c.queue ++ (sends (c, mover)).toList = (takes (c, mover)).toList ++ d.queue := by
  cases acts with
  | type _ nothing none => simp [nothing, none, System.set]
  | send sending sent none =>
    have empty := turn.clear mover
      (by rcases sending with ⟨here, _⟩ | ⟨here, _⟩ <;> simp [Party.Idle, here])
    simp [sent, none, empty, enqueue]
  | receive _ stands nothing taken => simp [nothing, taken, stands]

theorem step_takes (acts : Acts c mover d) (user : User) :
    (d.party user).received =
      (c.party user).received ++ if mover = user then (takes (c, mover)).toList else [] := by
  by_cases same : mover = user
  · subst same
    cases acts with
    | type _ nothing none => simp [none, typed]
    | send _ _ none => simp [none]
    | receive _ _ _ taken => simp [taken, Posix.received]
  · have other (p : Party) : (c.set mover p).party user = c.party user := set_other c p (Ne.symm same)
    rw [if_neg same, List.append_nil]
    cases acts with
    | type | send | receive => exact congrArg _ (other _)

/-- Only when `prog1.c` has left can nobody go on. -/
theorem stands_iff (turn : Turn c) :
    (∀ user, step c user = none) ↔ (c.party .user1).point = .done := by
  cases turn with
  | works user queue peer here on =>
    refine iff_of_false (fun still => ?_) on
    have stuck := still user
    cases point : (c.party user).point with
    | typing => simp [step, point] at stuck
    | sending => simp [step, point, mqSend, queue, mqMaxmsg] at stuck
    | ending => simp [step, point, mqSend, queue, mqMaxmsg] at stuck
    | receiving => exact here (.inl point)
    | done => exact here (.inr point)
  | waits queue idle on =>
    refine iff_of_false (fun still => ?_) on
    have stuck := still .user1
    simp [step, (idle .user1).resolve_right on, queue] at stuck
  | stopped queue left peer =>
    refine iff_of_true (fun user => ?_) left
    cases user with
    | user1 => simp [step, left]
    | user2 => rcases peer with point | point <;> simp [step, point, queue]

/-- In every interleaving the messages are taken in the order in which they were sent, each by one of
the programs, and no two of them are in the queue at a time. The programs can go on as long as
`prog1.c` has not taken "/exit"; `prog2.c` never takes an announcement of the end, and when it has
sent one, `prog1.c` takes that for a text and from then on only its own messages. -/
theorem in_turn (buffer stdin : User → Bytes) (trace : Trace Step (.start buffer stdin) steps c) :
    InTurn steps c := by
  have general : Turn c ∧ Ends c.queue (c.party .user1) (c.party .user2) ∧
      steps.filterMap sends = steps.filterMap takes ++ c.queue ∧
      ∀ user, (c.party user).received = (steps.filter (·.2 = user)).filterMap takes := by
    induction trace with
    | nil =>
      refine ⟨.works .user1 rfl (.inl rfl) (by simp [System.start, Party.Idle]) (by simp [System.start]),
        ⟨nofun, by simp [System.start], by simp [System.start], by simp [System.start], nofun⟩, rfl, ?_⟩
      intro user
      cases user <;> rfl
    | @snoc steps c mover d _ last ih =>
      obtain ⟨turn, ends, order, received⟩ := ih
      have acts := step_acts last
      refine ⟨step_turn turn ends acts, step_ends turn ends acts, ?_, fun user => ?_⟩
      · rw [List.filterMap_append, List.filterMap_append, order, List.append_assoc, List.append_assoc]
        have passed := step_queue turn acts
        cases sent : sends (c, mover) <;> cases taken : takes (c, mover) <;> simp_all
      · rw [step_takes acts user, received user, List.filter_append, List.filterMap_append]
        by_cases same : mover = user
        · subst same
          cases taken : takes (c, mover) <;> simp [taken]
        · simp [same]
  obtain ⟨turn, ends, order, received⟩ := general
  refine ⟨order, ?_, received, stands_iff turn, ends⟩
  cases turn with
  | works _ queue => simp [queue]
  | waits queue => simp [queue]
  | stopped queue => simp [queue]

theorem in_turn_greeting :
    ∃ steps c, InTurn steps c ∧ ∃ msg ∈ (c.party .user1).received, msg.sender = .user1 := by
  obtain ⟨steps, c, trace, own⟩ := takes_own_greeting (fun _ => []) fun _ => ascii "hello\n"
  exact ⟨steps, c, in_turn (fun _ => []) (fun _ => ascii "hello\n") trace, own⟩

end Runs
end Tasks.Chat.Posix
