import Tasks.Chat.SystemV
import Tasks.Kit.Run
import Mathlib.Data.Nat.Find

/-! The end of a chat of Task 6 is announced in a message of type 255, for which neither program
asks: it is never received, and the lines typed at the programs decide whether it is sent. -/
namespace Tasks.Chat.SystemV

open Kit Kit.Bytes Kit.Lines

/-- A program waits for a message of its type while the peer's last one is in the queue. -/
def Unselectable (c : System) (side : Side) : Prop :=
  (c.party side).point = .receiving ∧ ∃ queue, c.queue = some queue ∧
    ∃ msg ∈ queue, msg.mtype = 255 ∧ msg ∈ (c.party side.peer).sent ∧ msg.mtype ≠ side.asks

/-- The texts exchanged by two programs that type in turn, each into the array in which it has just
received the other's text. -/
def exchange (stdin other text : Bytes) : Nat → Bytes
  | 0 => (fgetsText 100 stdin text).1
  | n + 1 => exchange other (fgetsText 100 stdin text).2 (fgetsText 100 stdin text).1 n

variable {c d : System} {side mover : Side} {texts : Nat → Bytes} {n : Nat}

structure Typing (c : System) (texts : Nat → Bytes) (n : Nat) (side : Side) : Prop where
  point : (c.party side).point = if n = 0 then .greeting else .typing
  peer : (c.party side.peer).point = .receiving
  queue : c.queue = some []
  rest : ∀ k, exchange (c.party side).stdin (c.party side.peer).stdin (c.party side).msg.mtext k =
    texts (n + k)

structure Sending (c : System) (texts : Nat → Bytes) (n : Nat) (side : Side) : Prop where
  point : (c.party side).point = if n = 0 then .opening else .sending
  msg : (c.party side).msg = ⟨side.sends, texts n⟩
  peer : (c.party side.peer).point = .receiving
  queue : c.queue = some []
  rest : ∀ k, exchange (c.party side.peer).stdin (c.party side).stdin (texts n) k = texts (n + 1 + k)

structure Sent (c : System) (texts : Nat → Bytes) (n : Nat) (side : Side) : Prop where
  point : (c.party side).point = .receiving
  peer : (c.party side.peer).point = .receiving
  queue : c.queue = some [⟨side.sends, texts n⟩]
  rest : ∀ k, exchange (c.party side.peer).stdin (c.party side).stdin (texts n) k = texts (n + 1 + k)

def Talking (c : System) (texts : Nat → Bytes) : Prop :=
  ∃ n side, Typing c texts n side ∨ Sending c texts n side ∨ Sent c texts n side

theorem receiving_blocked (point : (c.party side).point = .receiving) (stands : c.queue = some queue)
    (others : ∀ msg ∈ queue, msg.mtype ≠ side.asks) : step c side = none := by
  have none : takeFirst (fun msg : Message => msg.mtype = side.asks) queue = none := by
    rw [takeFirst_none]
    simpa using others
  simp [step, point, stands, none]

theorem typing_step (typing : Typing c texts n side) :
    ∃ d, step c side = some d ∧ Sending d texts n side ∧ step c side.peer = none := by
  obtain ⟨point, peer, queue, rest⟩ := typing
  have line : (fgetsText 100 (c.party side).stdin (c.party side).msg.mtext).1 = texts n := rest 0
  refine ⟨c.set side ((c.party side).type side (if n = 0 then .opening else .sending)), ?_, ?_, ?_⟩
  · unfold step
    split at point <;> simp [*]
  · refine ⟨?_, ?_, ?_, queue, fun k => ?_⟩
    · rw [set_self]
      rfl
    · rw [set_self, ← line]
      rfl
    · rw [set_other c _ (peer_ne side), peer]
    · rw [set_self, set_other c _ (peer_ne side), ← line]
      have later := rest (k + 1)
      rw [exchange] at later
      rw [Nat.add_assoc, Nat.add_comm 1 k]
      exact later
  · exact receiving_blocked peer queue (by simp)

theorem sending_step (sending : Sending c texts n side) :
    ∃ d, step c side = some d ∧ step c side.peer = none ∧
      if n ≠ 0 ∧ isEnd (texts n) then
        (d.party side).point = .ending ∧ (d.party side.peer).point = .receiving ∧
          d.queue = some [⟨side.sends, texts n⟩]
      else Sent d texts n side := by
  obtain ⟨point, msg, peer, queue, rest⟩ := sending
  refine ⟨c.msgsnd side (c.party side).msg (if n ≠ 0 ∧ isEnd (texts n) then .ending else .receiving),
    ?_, receiving_blocked peer queue (by simp), ?_⟩
  · unfold step
    split at point <;> simp [*]
  · split
    next ends =>
      refine ⟨by simp, ?_, by simp [queue, msg]⟩
      rw [msgsnd_other c _ _ (peer_ne side), peer]
    next goes =>
      refine ⟨by simp, ?_, by simp [queue, msg], fun k => ?_⟩
      · rw [msgsnd_other c _ _ (peer_ne side), peer]
      · rw [msgsnd_other c _ _ (peer_ne side), msgsnd_self]
        exact rest k

theorem sent_step (sent : Sent c texts n side) :
    ∃ d, step c side.peer = some d ∧ Typing d texts (n + 1) side.peer ∧ step c side = none := by
  obtain ⟨point, peer, queue, rest⟩ := sent
  have asked : takeFirst (fun msg : Message => msg.mtype = side.peer.asks) [⟨side.sends, texts n⟩] =
      some (⟨side.sends, texts n⟩, []) := by simp [takeFirst, asks_peer]
  have typed : side.sends ≠ 255 := by cases side <;> decide
  refine ⟨{ c.set side.peer ((c.party side.peer).received side.peer ⟨side.sends, texts n⟩) with
    queue := some [] }, by simp [step, peer, queue, asked], ?_, ?_⟩
  · refine ⟨?_, ?_, rfl, fun k => ?_⟩
    · simp [Party.received, typed]
    · rw [peer_peer]
      exact (congrArg Party.point (set_other c _ (Ne.symm (peer_ne side)))).trans point
    · rw [peer_peer]
      have still : ((c.set side.peer ((c.party side.peer).received side.peer
          ⟨side.sends, texts n⟩)).party side).stdin = (c.party side).stdin := by
        rw [set_other c _ (Ne.symm (peer_ne side))]
      dsimp only
      rw [still, set_self]
      exact rest k
  · exact receiving_blocked point queue (by cases side <;> simp [Side.sends, Side.asks])

theorem talking_next (goesOn : ∀ n, ¬ isEnd (texts (n + 1))) (talking : Talking c texts)
    (next : Next c d) : Talking d texts := by
  obtain ⟨n, side, phase⟩ := talking
  obtain ⟨mover, stepped⟩ := next
  have turn {e : System} {who : Side} (goes : step c who = some e) (waits : step c who.peer = none) :
      d = e := by
    by_cases same : mover = who
    · subst same
      exact Option.some.inj (stepped.symm.trans goes)
    · rw [eq_peer same, waits] at stepped
      contradiction
  rcases phase with typing | sending | sent
  · obtain ⟨e, goes, sending, waits⟩ := typing_step typing
    exact turn goes waits ▸ ⟨n, side, .inr (.inl sending)⟩
  · obtain ⟨e, goes, waits, phase⟩ := sending_step sending
    rw [if_neg] at phase
    · exact turn goes waits ▸ ⟨n, side, .inr (.inr phase)⟩
    · rintro ⟨later, ends⟩
      obtain ⟨m, rfl⟩ := Nat.exists_eq_succ_of_ne_zero later
      exact goesOn m ends
  · obtain ⟨e, goes, typing, waits⟩ := sent_step sent
    rw [← peer_peer side] at waits
    exact turn goes waits ▸ ⟨n + 1, side.peer, .inl typing⟩

theorem talking_selectable (talking : Talking c texts) (side : Side) : ¬ Unselectable c side := by
  rintro ⟨_, queue, stands, msg, member, last, _⟩
  obtain ⟨n, other, ⟨_, _, empty, _⟩ | ⟨_, _, _, empty, _⟩ | ⟨_, _, one, _⟩⟩ := talking
  · simp_all
  · simp_all
  · obtain rfl : [⟨other.sends, texts n⟩] = queue := Option.some.inj (one.symm.trans stands)
    obtain rfl := List.mem_singleton.mp member
    cases other <;> simp [Side.sends] at last

theorem start_typing (msg : Side → Message) (stdin : Side → Bytes) :
    Typing (.start msg stdin) (exchange (stdin .second) (stdin .first) (msg .second).mtext) 0
      .second :=
  ⟨rfl, rfl, rfl, fun k => by rw [Nat.zero_add]; rfl⟩

theorem comes_to_type (start : Typing c texts 0 side) (n : Nat)
    (goesOn : ∀ m, 0 < m → m < n → ¬ isEnd (texts m)) :
    ∃ d other, Relation.ReflTransGen Next c d ∧ Typing d texts n other := by
  induction n with
  | zero => exact ⟨c, side, .refl, start⟩
  | succ n ih =>
    obtain ⟨d, other, path, typing⟩ := ih fun m positive before => goesOn m positive (by omega)
    obtain ⟨e, types, sending, _⟩ := typing_step typing
    obtain ⟨f, sends, _, phase⟩ := sending_step sending
    rw [if_neg fun ends => goesOn n (Nat.pos_of_ne_zero ends.1) (by omega) ends.2] at phase
    obtain ⟨g, receives, next, _⟩ := sent_step phase
    exact ⟨g, other.peer, ((path.tail ⟨_, types⟩).tail ⟨_, sends⟩).tail ⟨_, receives⟩, next⟩

/-- A text that ends the chat is followed by a message that the peer never asks for. -/
theorem ending_unselectable (typing : Typing c texts n side) (later : n ≠ 0) (ends : isEnd (texts n)) :
    ∃ d, Relation.ReflTransGen Next c d ∧ Unselectable d side.peer := by
  obtain ⟨d, types, sending, _⟩ := typing_step typing
  obtain ⟨e, sends, _, phase⟩ := sending_step sending
  rw [if_pos ⟨later, ends⟩] at phase
  obtain ⟨point, peer, queue⟩ := phase
  have tells : step e side = some (e.msgsnd side terminated side.leaves) := by simp [step, point]
  refine ⟨_, ((Relation.ReflTransGen.single ⟨_, types⟩).tail ⟨_, sends⟩).tail ⟨_, tells⟩, ?_, ?_⟩
  · rw [msgsnd_other e _ _ (peer_ne side), peer]
  · refine ⟨[⟨side.sends, texts n⟩, terminated], by simp [queue], terminated, by simp, rfl, ?_, ?_⟩
    · simp [queue]
    · cases side <;> decide

/-- A program comes to wait for the peer's last message in vain if and only if one of the texts
after the first begins with `end`. -/
theorem ending_selectable_iff (msg : Side → Message) (stdin : Side → Bytes) :
    (∀ c, Relation.ReflTransGen Next (.start msg stdin) c → ∀ side, ¬ Unselectable c side) ↔
      ∀ n, ¬ isEnd (exchange (stdin .second) (stdin .first) (msg .second).mtext (n + 1)) := by
  constructor
  · intro selectable n ends
    have first : ∃ m, 0 < m ∧ isEnd (exchange (stdin .second) (stdin .first) (msg .second).mtext m) :=
      ⟨n + 1, Nat.succ_pos n, ends⟩
    obtain ⟨positive, ends⟩ := Nat.find_spec first
    obtain ⟨c, side, path, typing⟩ := comes_to_type (start_typing msg stdin) (Nat.find first)
      fun m positive before ends => Nat.find_min first before ⟨positive, ends⟩
    obtain ⟨d, further, unselectable⟩ := ending_unselectable typing (Nat.ne_of_gt positive) ends
    exact selectable d (path.trans further) side.peer unselectable
  · intro goesOn c path
    refine talking_selectable (reachable_invariant (fun c => Talking c _)
      (fun _ _ => talking_next goesOn) path ⟨0, .second, .inl (start_typing msg stdin)⟩)

/-- `second.c` ends the chat, and `first.c` waits for ever. -/
theorem waits_for_ever :
    ∃ c, Relation.ReflTransGen Next (.start (fun _ => ⟨0, []⟩)
        (Side.input (ascii "yes\nwell\n") (ascii "hi\nend\n"))) c ∧
      Unselectable c .first ∧ ∀ side, step c side = none := by
  have ran : ∃ c, schedule (.start (fun _ => ⟨0, []⟩)
        (Side.input (ascii "yes\nwell\n") (ascii "hi\nend\n")))
      [.second, .second, .first, .first, .first, .second, .second, .second, .second, .first, .first,
        .first] = some c ∧ (c.party .first).point = .receiving ∧ (c.party .second).point = .done ∧
      c.queue = some [terminated, ⟨1, ascii "well\n"⟩] ∧ terminated ∈ (c.party .second).sent :=
    ⟨_, rfl, by decide, by decide, by decide, by decide⟩
  obtain ⟨c, path, receiving, done, queue, sent⟩ := ran
  refine ⟨c, schedule_path path, ⟨receiving, _, queue, terminated, by simp, rfl, sent, by decide⟩, ?_⟩
  intro side
  cases side with
  | first => exact receiving_blocked receiving queue (by decide)
  | second => simp [step, done]

end Tasks.Chat.SystemV
