import Tasks.Chat.SystemV
import Tasks.Kit.Run
import Mathlib.Algebra.Order.Ring.Nat

/-! What a program of Task 6 prints as caught from its peer is what the peer sent, until one of
them asks a queue that was removed. -/
namespace Tasks.Chat.SystemV

open Kit

variable {c d : System} {side mover : Side}

def texts (messages : List Message) : List Bytes := messages.map Message.mtext

/-- What a program sent of the lines typed at it. -/
def typed (side : Side) (messages : List Message) : List Message :=
  messages.filter fun msg => msg.mtype = side.sends

/-- Nothing but typed messages is sent before the end. -/
structure Sound (p : Party) (side : Side) : Prop where
  own : p.point = .opening ∨ p.point = .sending → p.msg.mtype = side.sends
  begun : p.point ≠ .removing → p.point ≠ .done → typed side p.sent = p.sent
  front : typed side p.sent <+: p.sent

structure Flow (c : System) (side : Side) : Prop where
  queued : ∀ queue, c.queue = some queue →
    (c.party side.peer).printed ++ texts (typed side queue) = texts (typed side (c.party side).sent)
  printed : (c.party side.peer).printed <+: texts (typed side (c.party side).sent)

/-- The queue is there when `msgrcv` is called on it. -/
def Careful (c : System) (side : Side) : Prop :=
  (c.party side).point = .receiving → c.queue ≠ none

theorem typed_own {msg : Message} (own : msg.mtype = side.sends) (messages : List Message) :
    typed side (messages ++ [msg]) = typed side messages ++ [msg] := by simp [typed, own]

theorem typed_other {msg : Message} (other : msg.mtype ≠ side.sends) (messages : List Message) :
    typed side (messages ++ [msg]) = typed side messages := by simp [typed, other]

@[simp] theorem texts_append (front back : List Message) : texts (front ++ back) = texts front ++ texts back :=
  List.map_append

theorem sends_inj (same : mover.sends = side.sends) : mover = side := by
  cases mover <;> cases side <;> first | rfl | exact absurd same (by decide)

theorem sends_ne (side : Side) : (255 : Int) ≠ side.sends := by cases side <;> decide

theorem leaves_cases (side : Side) : side.leaves = .removing ∨ side.leaves = .done := by
  cases side <;> simp [Side.leaves]

theorem sound_received {p : Party} (sound : Sound p side) (here : p.point = .receiving) (msg : Message) :
    Sound (p.received side msg) side := by
  refine ⟨fun toQueue => ?_, fun _ _ => sound.begun (by simp [here]) (by simp [here]), sound.front⟩
  have left := leaves_cases side
  simp only [Party.received] at toQueue
  split at toQueue
  · rcases left with left | left <;> simp [left] at toQueue
  · simp at toQueue

theorem sound_sent {p : Party} (sound : Sound p side) (sending : p.point = .opening ∨ p.point = .sending)
    (away : next ≠ .opening ∧ next ≠ .sending) (there : Bool) :
    Sound { p with sent := p.sent ++ if there then [p.msg] else [], point := next } side := by
  have inLoop : p.point ≠ .removing ∧ p.point ≠ .done := by
    rcases sending with point | point <;> simp [point]
  have whole := sound.begun inLoop.1 inLoop.2
  have same : typed side (p.sent ++ if there then [p.msg] else []) =
      p.sent ++ if there then [p.msg] else [] := by
    split
    · rw [typed_own (sound.own sending), whole]
    · simpa using whole
  refine ⟨fun toQueue => absurd toQueue (not_or.mpr away), fun _ _ => same, ?_⟩
  dsimp only
  rw [same]

theorem sound_terminated {p : Party} (sound : Sound p side) (there : Bool) :
    Sound { p with
      msg := terminated
      sent := p.sent ++ if there then [terminated] else []
      point := side.leaves } side := by
  have left := leaves_cases side
  refine ⟨fun toQueue => ?_, fun first second => ?_, ?_⟩
  · rcases left with left | left <;> simp [left] at toQueue
  · rcases left with left | left <;> simp [left] at first second
  · split
    · rw [typed_other (sends_ne side)]
      exact sound.front.trans (List.prefix_append ..)
    · simpa using sound.front

theorem sound_party (sound : ∀ side, Sound (c.party side) side) (moves : Moves c mover d)
    (side : Side) : Sound (d.party side) side := by
  by_cases same : side = mover
  · subst same
    have before := sound side
    cases moves with
    | @type next here =>
      have typing : (c.party side).point ≠ .removing ∧ (c.party side).point ≠ .done := by
        rcases here with ⟨point, _⟩ | ⟨point, _⟩ <;> simp [point]
      rw [set_self]
      exact ⟨fun _ => rfl, fun _ _ => before.begun typing.1 typing.2, before.front⟩
    | @send next here =>
      have away : next ≠ .opening ∧ next ≠ .sending := by
        rcases here with ⟨_, rfl⟩ | ⟨_, rfl⟩
        · simp
        · split <;> simp
      rw [msgsnd_self]
      exact sound_sent before (here.imp And.left And.left) away _
    | receive here stands taken =>
      have after := sound_received before here
      exact set_self c side _ ▸ after _
    | miss here removed => exact set_self c side _ ▸ sound_received before here _
    | terminate here =>
      rw [msgsnd_self]
      exact sound_terminated before _
    | remove here =>
      have still : Sound { c.party side with point := .done } side :=
        ⟨by simp, by simp, before.front⟩
      exact set_self c side _ ▸ still
  · have still : d.party side = c.party side := by
      cases moves with
      | type | miss | receive | remove => exact set_other c _ same
      | send | terminate => exact msgsnd_other c _ _ same
    rw [still]
    exact sound side

/-- A step that neither sends typed text of this side nor shows any to its peer. -/
theorem flow_same (flow : Flow c side) (sent : typed side (d.party side).sent = typed side (c.party side).sent)
    (printed : (d.party side.peer).printed = (c.party side.peer).printed)
    (queue : ∀ after, d.queue = some after →
      ∃ before, c.queue = some before ∧ typed side after = typed side before) : Flow d side := by
  constructor
  · intro after stands
    obtain ⟨before, stood, same⟩ := queue after stands
    rw [printed, sent, same]
    exact flow.queued before stood
  · rw [printed, sent]
    exact flow.printed

theorem flow_untyped (flow : Flow c side) {msg : Message} (other : msg.mtype ≠ side.sends) (next : Point) :
    Flow (c.msgsnd mover msg next) side := by
  refine flow_same flow ?_ (msgsnd_printed ..) fun after stands => ?_
  · by_cases same : side = mover
    · subst same
      rw [msgsnd_self]
      dsimp only
      split
      · exact typed_other other _
      · rw [List.append_nil]
    · rw [msgsnd_other c _ _ same]
  · obtain ⟨queue, there, rfl⟩ := Option.map_eq_some_iff.mp stands
    exact ⟨queue, there, typed_other other queue⟩

theorem flow_typed (flow : Flow c side) {msg : Message} (own : msg.mtype = side.sends) (next : Point) :
    Flow (c.msgsnd side msg next) side := by
  cases there : c.queue with
  | none =>
    refine flow_same flow ?_ (msgsnd_printed ..) fun after stands => ?_
    · simp [there]
    · simp [there] at stands
  | some queue =>
    have sent : typed side ((c.msgsnd side msg next).party side).sent =
        typed side (c.party side).sent ++ [msg] := by
      rw [msgsnd_self]
      simpa [there] using typed_own own _
    constructor
    · intro after stands
      obtain rfl : queue ++ [msg] = after := by simpa [there] using stands
      rw [msgsnd_printed, sent, typed_own own, texts_append, texts_append, ← flow.queued queue there,
        List.append_assoc]
    · rw [msgsnd_printed, sent, texts_append]
      exact flow.printed.trans (List.prefix_append ..)

/-- A typed message of one side is the first of its kind, and its peer takes it. -/
theorem flow_taken (flow : Flow c side) (stands : c.queue = some queue)
    (taken : takeFirst (fun msg => msg.mtype = side.peer.asks) queue = some (msg, rest)) :
    Flow { c.set side.peer ((c.party side.peer).received side.peer msg) with queue := some rest } side := by
  rw [asks_peer] at taken
  have first : typed side queue = msg :: typed side rest := takeFirst_same taken
  have whole := flow.queued queue stands
  have sent : ((c.set side.peer ((c.party side.peer).received side.peer msg)).party side).sent =
      (c.party side).sent := by rw [set_other c _ (Ne.symm (peer_ne side))]
  have after : (c.party side.peer).printed ++ [msg.mtext] ++ texts (typed side rest) =
      texts (typed side (c.party side).sent) := by
    rw [← whole, first]
    simp [texts]
  constructor
  · intro queue same
    cases same
    dsimp only
    rw [sent, set_self]
    exact after
  · dsimp only
    rw [sent, set_self]
    exact ⟨_, after⟩

theorem step_flow (sound : ∀ side, Sound (c.party side) side) (flow : ∀ side, Flow c side)
    (careful : Careful c mover) (moves : Moves c mover d) (side : Side) : Flow d side := by
  have before := flow side
  cases moves with
  | @type next here =>
    refine flow_same before ?_ ?_ fun after stands => ⟨after, stands, rfl⟩
    · exact congrArg _ (set_sent (p := (c.party mover).type mover next) rfl side)
    · exact set_printed (p := (c.party mover).type mover next) rfl side.peer
  | send here =>
    have own := (sound mover).own (here.imp And.left And.left)
    by_cases same : side = mover
    · exact same ▸ flow_typed (flow mover) own _
    · exact flow_untyped before (fun mine => same (sends_inj (own.symm.trans mine)).symm) _
  | @receive queue msg rest here stands taken =>
    by_cases same : side.peer = mover
    · subst same
      exact flow_taken before stands taken
    · obtain rfl : side = mover := by
        cases side <;> cases mover <;> first | rfl | exact absurd rfl same
      have others : typed side rest = typed side queue := takeFirst_other taken _ fun msg asked => by
        have asked : msg.mtype = side.asks := by simpa using asked
        cases side <;> simp [asked, Side.asks, Side.sends]
      refine flow_same before ?_ ?_ ?_
      · dsimp only
        rw [set_self]
        rfl
      · dsimp only
        rw [set_other c _ (peer_ne side)]
      · rintro after same
        cases same
        exact ⟨queue, stands, others⟩
  | miss here removed => exact absurd removed (careful here)
  | terminate here => exact flow_untyped before (sends_ne side) _
  | remove here =>
    refine flow_same before ?_ ?_ fun after stands => by cases stands
    · exact congrArg _ (set_sent (p := { c.party mover with point := .done }) rfl side)
    · exact set_printed (p := { c.party mover with point := .done }) rfl side.peer

theorem start_carried (msg : Side → Message) (stdin : Side → Bytes) (side : Side) :
    Sound ((System.start msg stdin).party side) side ∧ Flow (.start msg stdin) side := by
  refine ⟨⟨?_, ?_, ?_⟩, ?_, ?_⟩ <;> cases side <;> simp [System.start, typed, texts, Side.peer]

def CarefulNext (c d : System) : Prop := ∃ side, step c side = some d ∧ Careful c side

theorem careful_carried (path : Relation.ReflTransGen CarefulNext (.start msg stdin) c) :
    (∀ side, Sound (c.party side) side) ∧ ∀ side, Flow c side := by
  refine reachable_invariant (fun c => (∀ side, Sound (c.party side) side) ∧ ∀ side, Flow c side) ?_
    path ⟨fun side => (start_carried msg stdin side).1, fun side => (start_carried msg stdin side).2⟩
  rintro c d ⟨sound, flow⟩ ⟨mover, stepped, careful⟩
  have moves := step_moves stepped
  exact ⟨sound_party sound moves, step_flow sound flow careful moves⟩

theorem carried_prefix (sound : Sound (c.party side) side) (flow : Flow c side) :
    (c.party side.peer).printed <+: texts (c.party side).sent :=
  flow.printed.trans (sound.front.map Message.mtext)

theorem prefix_concat_iff {front whole : List Bytes} (before : front <+: whole) (text : Bytes) :
    front ++ [text] <+: whole ↔ whole[front.length]? = some text := by
  obtain ⟨rest, rfl⟩ := before
  cases rest with
  | nil =>
    have longer : ¬ front ++ [text] <+: front := fun shorter => by
      simpa using shorter.length_le
    simpa using longer
  | cons x rest => simp [List.prefix_append_right_inj, eq_comm]

/-- As long as `msgrcv` is called on a queue that is there, each program prints a prefix of what its
peer sent; otherwise it prints the text that is left in its array, which continues the prefix only
by coincidence. -/
structure PrefixIffCareful (start : System) : Prop where
  careful : ∀ c, Relation.ReflTransGen CarefulNext start c →
    ∀ side, (c.party side.peer).printed <+: texts (c.party side).sent
  careless : ∀ c side d, Relation.ReflTransGen CarefulNext start c → step c side = some d →
    ¬ Careful c side →
    (d.party side).printed = (c.party side).printed ++ [(c.party side).msg.mtext] ∧
      ((d.party side).printed <+: texts (d.party side.peer).sent ↔
        (texts (c.party side.peer).sent)[(c.party side).printed.length]? =
          some (c.party side).msg.mtext)

/-- For all input and whatever the arrays held. -/
theorem chat_prefix_iff (msg : Side → Message) (stdin : Side → Bytes) :
    PrefixIffCareful (.start msg stdin) := by
  constructor
  · intro c path side
    obtain ⟨sound, flow⟩ := careful_carried path
    exact carried_prefix (sound side) (flow side)
  · intro c side d path stepped careless
    obtain ⟨sound, flow⟩ := careful_carried path
    simp only [Careful, Classical.not_imp, not_not] at careless
    obtain ⟨receiving, removed⟩ := careless
    have missed : d = c.set side ((c.party side).received side (c.party side).msg) := by
      simpa [step, receiving, removed] using stepped.symm
    have before := carried_prefix (sound side.peer) (flow side.peer)
    rw [peer_peer] at before
    subst missed
    rw [set_self, set_other c _ (peer_ne side)]
    exact ⟨rfl, prefix_concat_iff before _⟩

/-- `first.c` ends the chat and removes the queue before `second.c` has its last message. -/
theorem own_text_printed :
    ¬ ∀ c, Relation.ReflTransGen Next
        (.start (fun _ => ⟨0, []⟩) (Side.input (Bytes.ascii "end\n") (Bytes.ascii "hi\n"))) c →
      ∀ side, (c.party side.peer).printed <+: texts (c.party side).sent := by
  intro law
  have ran : ∃ c, schedule
      (.start (fun _ => ⟨0, []⟩) (Side.input (Bytes.ascii "end\n") (Bytes.ascii "hi\n")))
      [.second, .second, .first, .first, .first, .first, .first, .second] = some c ∧
      (c.party .second).printed = [Bytes.ascii "hi\n"] ∧
      texts (c.party .first).sent = [Bytes.ascii "end\n", Bytes.ascii "Chat terminated\n"] :=
    ⟨_, rfl, by decide, by decide⟩
  obtain ⟨c, path, printed, sent⟩ := ran
  have front := law c (schedule_path path) .first
  rw [Side.peer, printed, sent] at front
  exact absurd front (by decide)

end Tasks.Chat.SystemV
