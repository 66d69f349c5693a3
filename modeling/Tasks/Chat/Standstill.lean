import Tasks.Chat.Delivery

/-! When the chat of Task 6 stands still: the two programs share one turn as long as the queue is
there, and none of them learns of the other's end. -/
namespace Tasks.Chat.SystemV

open Kit

def Point.works : Point → Bool
  | .greeting | .opening | .typing | .sending => true
  | _ => false

def Message.isText (msg : Message) : Bool := msg.mtype ≠ 255

structure Standing (c : System) : Prop where
  sound : ∀ side, Sound (c.party side) side
  kinds : ∀ queue, c.queue = some queue → ∀ msg ∈ queue, ∀ side : Side, msg.isText →
    msg.mtype = side.sends ∨ msg.mtype = side.asks
  turn : ∀ queue, c.queue = some queue → queue.countP Message.isText +
    ((c.party .first).point.works.toNat + (c.party .second).point.works.toNat) = 1
  removed : c.queue = none ↔ (c.party .first).point = .done
  keeps : (c.party .second).point ≠ .removing
  held : (c.party .second).point = .receiving → (c.party .second).msg.mtype ≠ 255

section Steps

variable {c d : System} {side mover : Side}

theorem countP_takeFirst {select : α → Bool} (count : α → Bool)
    (taken : takeFirst select queue = some (m, rest)) :
    queue.countP count = rest.countP count + (count m).toNat := by
  obtain ⟨_, before, after, rfl, rfl, _⟩ := takeFirst_split taken
  cases counted : count m <;> simp [counted, ← Nat.add_assoc]

theorem asks_text (side : Side) {msg : Message} (asked : msg.mtype = side.asks) : msg.isText = true := by
  cases side <;> simp [Message.isText, asked, Side.asks]

theorem received_typing (p : Party) (side : Side) {msg : Message} (text : msg.mtype ≠ 255) :
    (p.received side msg).point = .typing := if_neg text

theorem standing_sum (c : System) (side : Side) :
    (c.party .first).point.works.toNat + (c.party .second).point.works.toNat =
      (c.party side).point.works.toNat + (c.party side.peer).point.works.toNat := by
  cases side
  · rfl
  · exact Nat.add_comm ..

theorem step_other (moves : Moves c mover d) (apart : side ≠ mover) : d.party side = c.party side := by
  cases moves with
  | type | miss | receive | remove => exact set_other c _ apart
  | send | terminate => exact msgsnd_other c _ _ apart

/-- The queue stays removed, and it is removed in one place. -/
theorem step_queue (moves : Moves c mover d) :
    d.queue = none ↔ c.queue = none ∨ (c.party mover).point = .removing := by
  cases moves with
  | type here => rcases here with ⟨point, _⟩ | ⟨point, _⟩ <;> simp [point]
  | send here => rcases here with ⟨point, _⟩ | ⟨point, _⟩ <;> simp [point]
  | receive here stands => simp [here, stands]
  | miss here | terminate here => simp [here]
  | remove here => simp [here]

/-- What one step does to the turn: a line goes into the queue with it, or comes out of it. -/
theorem step_turn (standing : Standing c) (moves : Moves c mover d) (queue : List Message)
    (stands : d.queue = some queue) : queue.countP Message.isText +
      ((d.party .first).point.works.toNat + (d.party .second).point.works.toNat) = 1 := by
  rw [standing_sum d mover]
  have turn := fun queue stands => standing_sum c mover ▸ standing.turn queue stands
  rw [step_other moves (peer_ne mover)]
  cases moves with
  | @type next here =>
    have before := turn queue stands
    rw [set_self]
    rcases here with ⟨point, rfl⟩ | ⟨point, rfl⟩ <;> simpa [point, Party.type, Point.works] using before
  | @send next here =>
    obtain ⟨earlier, there, rfl⟩ := Option.map_eq_some_iff.mp stands
    have before := turn earlier there
    have own := (standing.sound mover).own (here.imp And.left And.left)
    have text : (c.party mover).msg.isText = true := by
      rw [Message.isText, own]
      cases mover <;> decide
    have had : (c.party mover).point.works = true := by
      rcases here with ⟨point, _⟩ | ⟨point, _⟩ <;> simp [point, Point.works]
    have gave : next.works = false := by
      rcases here with ⟨_, rfl⟩ | ⟨_, rfl⟩
      · rfl
      · split <;> rfl
    rw [had] at before
    rw [msgsnd_self, List.countP_append, List.countP_singleton, if_pos text, gave]
    simp only [Bool.toNat_true, Bool.toNat_false] at before ⊢
    omega
  | @receive _ msg rest here there taken =>
    cases stands
    have before := turn _ there
    have asked : msg.mtype = mover.asks := by simpa using (takeFirst_split taken).1
    have text := asks_text mover asked
    have goesOn : ((c.party mover).received mover msg).point = .typing :=
      received_typing _ _ (of_decide_eq_true text)
    rw [countP_takeFirst Message.isText taken, text, here] at before
    rw [set_self, goesOn]
    simp only [Point.works, Bool.toNat_true, Bool.toNat_false] at before ⊢
    omega
  | miss here removed => exact absurd stands (by simp [removed])
  | terminate here =>
    obtain ⟨earlier, there, rfl⟩ := Option.map_eq_some_iff.mp stands
    have before := turn earlier there
    have silent : mover.leaves.works = false := by
      rcases leaves_cases mover with left | left <;> rw [left] <;> rfl
    rw [here] at before
    rw [msgsnd_self, List.countP_append, silent]
    simpa [Point.works, terminated, Message.isText] using before
  | remove here => cases stands

theorem step_kinds (standing : Standing c) (moves : Moves c mover d) (queue : List Message)
    (stands : d.queue = some queue) (msg : Message) (member : msg ∈ queue) (side : Side)
    (text : msg.isText) : msg.mtype = side.sends ∨ msg.mtype = side.asks := by
  have either (mover : Side) : mover.sends = side.sends ∨ mover.sends = side.asks := by
    cases mover <;> cases side <;> decide
  cases moves with
  | type | miss => exact standing.kinds queue stands msg member side text
  | send here =>
    obtain ⟨earlier, there, rfl⟩ := Option.map_eq_some_iff.mp stands
    rcases List.mem_append.mp member with old | new
    · exact standing.kinds earlier there msg old side text
    · rw [List.mem_singleton.mp new, (standing.sound mover).own (here.imp And.left And.left)]
      exact either mover
  | receive here there taken =>
    cases stands
    obtain ⟨_, before, after, rfl, rfl, _⟩ := takeFirst_split taken
    refine standing.kinds _ there msg ?_ side text
    rcases List.mem_append.mp member with front | back <;> simp [*]
  | terminate here =>
    obtain ⟨earlier, there, rfl⟩ := Option.map_eq_some_iff.mp stands
    rcases List.mem_append.mp member with old | new
    · exact standing.kinds earlier there msg old side text
    · rw [List.mem_singleton.mp new] at text
      simp [terminated, Message.isText] at text
  | remove => cases stands

/-- `first.c` ends with the queue. -/
theorem step_removed (standing : Standing c) (moves : Moves c mover d) :
    d.queue = none ↔ (d.party .first).point = .done := by
  rw [step_queue moves]
  cases mover with
  | second =>
    have still : d.party .first = c.party .first := step_other moves (peer_ne .second)
    simp [standing.keeps, standing.removed, still]
  | first =>
    have there (here : (c.party .first).point ≠ .done) : c.queue ≠ none := mt standing.removed.mp here
    cases moves with
    | type here => rcases here with ⟨point, rfl⟩ | ⟨point, rfl⟩ <;> simp [there, point, Party.type]
    | send here =>
      rcases here with ⟨point, rfl⟩ | ⟨point, rfl⟩
      · simp [there, point]
      · cases isEnd (c.party .first).msg.mtext <;> simp [there, point]
    | receive here stands taken =>
      have text := asks_text .first (by simpa using (takeFirst_split taken).1)
      simp [there, here, received_typing (c.party .first) .first (of_decide_eq_true text)]
    | miss here removed => exact absurd removed (there (by simp [here]))
    | terminate here => simp [there, here, Side.leaves]
    | remove here => simp [here]

theorem step_keeps (standing : Standing c) (moves : Moves c mover d) :
    (d.party .second).point ≠ .removing ∧
      ((d.party .second).point = .receiving → (d.party .second).msg.mtype ≠ 255) := by
  cases mover with
  | first =>
    have still : d.party .second = c.party .second := step_other moves (peer_ne .first)
    rw [still]
    exact ⟨standing.keeps, standing.held⟩
  | second =>
    cases moves with
    | type here =>
      rw [set_self]
      rcases here with ⟨_, rfl⟩ | ⟨_, rfl⟩ <;> simp [Party.type]
    | send here =>
      have own := (standing.sound .second).own (here.imp And.left And.left)
      rw [msgsnd_self]
      refine ⟨?_, fun _ => own ▸ by decide⟩
      rcases here with ⟨_, rfl⟩ | ⟨_, rfl⟩
      · simp
      · split <;> simp
    | receive here stands taken =>
      have text := asks_text .second (by simpa using (takeFirst_split taken).1)
      simp [received_typing (c.party .second) .second (of_decide_eq_true text)]
    | miss here => simp [received_typing _ _ (standing.held here)]
    | terminate => simp [Side.leaves]
    | remove here => exact absurd here standing.keeps

theorem step_standing (standing : Standing c) (moves : Moves c mover d) : Standing d where
  sound := sound_party standing.sound moves
  kinds := step_kinds standing moves
  turn := step_turn standing moves
  removed := step_removed standing moves
  keeps := (step_keeps standing moves).1
  held := (step_keeps standing moves).2

theorem start_standing (msg : Side → Message) (stdin : Side → Bytes) : Standing (.start msg stdin) where
  sound side := (start_carried msg stdin side).1
  kinds := by simp [System.start]
  turn := by simp [System.start, Point.works]
  removed := by simp [System.start]
  keeps := by simp [System.start]
  held := by simp [System.start]

/-- Where nothing moves, `second.c` has ended: a program that waits for its peer has a peer that
works, or its line in the queue. -/
theorem still_done (standing : Standing c) (still : ∀ side, step c side = none) :
    (c.party .second).point = .done := by
  have rests (side : Side) : (c.party side).point = .done ∨ (c.party side).point = .receiving ∧
      ∃ queue, c.queue = some queue ∧ ∀ msg ∈ queue, msg.mtype ≠ side.asks := by
    have stops := still side
    unfold step at stops
    cases point : (c.party side).point with
    | receiving =>
      cases stands : c.queue with
      | none => simp [point, stands] at stops
      | some queue => simpa [point, stands, takeFirst_none] using stops
    | done => exact .inl rfl
    | _ => simp [point] at stops
  rcases rests .second with done | ⟨receiving, queue, stands, second⟩
  · exact done
  · have goesOn : (c.party .first).point ≠ .done := fun done => by
      simp [standing.removed.mpr done] at stands
    obtain ⟨waits, _, same, first⟩ := (rests .first).resolve_left goesOn
    cases stands.symm.trans same
    -- both wait, and so the line that is due is in the queue
    have turn := standing.turn queue stands
    rw [waits, receiving] at turn
    have due : 0 < queue.countP Message.isText := by simp [Point.works] at turn; omega
    obtain ⟨msg, member, text⟩ := List.countP_pos_iff.mp due
    rcases standing.kinds queue stands msg member .first text with own | asked
    · exact absurd own (second msg member)
    · exact absurd asked (first msg member)

def Asked (c : System) : Bool := (c.queue.getD []).any fun msg => msg.mtype = Side.first.asks

def left (c : System) : Nat :=
  match (c.party .first).point with
  | .receiving => if Asked c then 5 else 0
  | .greeting | .typing => 4
  | .opening | .sending => 3
  | .ending => 2
  | .removing => 1
  | .done => 0

/-- Behind its own line there is none of the peer's. -/
theorem sent_unasked (standing : Standing d) (stands : d.queue = some (earlier ++ [msg]))
    (text : msg.isText) (own : msg.mtype = Side.first.sends) : ¬ Asked d := by
  intro asked
  rw [Asked, stands, Option.getD_some, List.any_append, Bool.or_eq_true] at asked
  rcases asked with before | last
  · obtain ⟨other, member, mine⟩ := List.any_eq_true.mp before
    have second := asks_text .first (of_decide_eq_true mine)
    have positive := List.countP_pos_iff.mpr ⟨other, member, second⟩
    have turn := standing.turn _ stands
    rw [List.countP_append, List.countP_singleton, if_pos text] at turn
    omega
  · simp [own, Side.sends, Side.asks] at last

theorem step_left (standing : Standing c) (moves : Moves c .first d) : left d < left c := by
  have next := step_standing standing moves
  cases moves with
  | type here => rcases here with ⟨point, rfl⟩ | ⟨point, rfl⟩ <;> simp [left, point, Party.type]
  | @send point here =>
    have own := (standing.sound .first).own (here.imp And.left And.left)
    have text : (c.party .first).msg.isText = true := by rw [Message.isText, own]; decide
    have unasked : ¬ Asked (c.msgsnd .first (c.party .first).msg point) := by
      cases there : c.queue with
      | none => simp [Asked, there]
      | some earlier => exact sent_unasked next (by rw [msgsnd_queue, there]; rfl) text own
    have before : left c = 3 := by
      rcases here with ⟨point, _⟩ | ⟨point, _⟩ <;> simp [left, point]
    have after : point = .receiving ∨ point = .ending := by
      rcases here with ⟨_, rfl⟩ | ⟨_, rfl⟩
      · exact .inl rfl
      · split <;> simp
    rw [before]
    rcases after with rfl | rfl <;> simp [left, unasked]
  | receive here stands taken =>
    obtain ⟨asked, front, back, rfl, rfl, _⟩ := takeFirst_split taken
    have text := asks_text .first (of_decide_eq_true asked)
    simp [left, here, received_typing (c.party .first) .first (of_decide_eq_true text), Asked, stands,
      of_decide_eq_true asked]
  | miss here removed => exact absurd (standing.removed.mp removed) (by simp [here])
  | terminate here => simp [left, here, Side.leaves]
  | remove here => simp [left, here]

end Steps

section Runs

variable {c d : System} {side : Side}

/-- When `second.c` has ended, `first.c` comes to its end or waits for ever. -/
theorem schedule_left (standing : Standing c) (ended : (c.party .second).point = .done)
    (ran : schedule c sides = some d) : sides.length ≤ left c := by
  induction sides generalizing c with
  | nil => exact Nat.zero_le _
  | cons side sides ih =>
    obtain ⟨next, stepped, rest⟩ := Option.bind_eq_some_iff.mp ran
    cases side with
    | second => simp [step, ended] at stepped
    | first =>
      have moves := step_moves stepped
      have still : next.party .second = c.party .second := step_other moves (peer_ne .first)
      have shorter := ih (step_standing standing moves) (still ▸ ended) rest
      exact Nat.lt_of_le_of_lt shorter (step_left standing moves)

/-- The chat in every state it can come to: at most one line is on its way, the branch for the end of
the peer is not taken, nothing stands still before `second.c` has ended, and behind that `first.c`
takes five steps at most. -/
structure Ends (c : System) : Prop where
  oneLine : ∀ queue, c.queue = some queue → queue.countP Message.isText ≤ 1
  goesOn : ∀ side d, (c.party side).point = .receiving → step c side = some d →
    (d.party side).point = .typing
  still : (∀ side, step c side = none) → (c.party .second).point = .done
  last : (c.party .second).point = .done → ∀ sides d, schedule c sides = some d → sides.length ≤ 5

theorem received_goesOn (standing : Standing c) (here : (c.party side).point = .receiving)
    (stepped : step c side = some d) : (d.party side).point = .typing := by
  cases step_moves stepped with
  | type there | send there => rcases there with ⟨point, _⟩ | ⟨point, _⟩ <;> simp [here] at point
  | receive _ _ taken =>
    have text := asks_text side (of_decide_eq_true (takeFirst_split taken).1)
    rw [set_self]
    exact received_typing _ _ (of_decide_eq_true text)
  | miss _ removed =>
    rw [set_self]
    cases side with
    | first => exact absurd (standing.removed.mp removed) (by simp [here])
    | second => exact received_typing _ _ (standing.held here)
  | terminate there | remove there => simp [here] at there

theorem left_le (c : System) : left c ≤ 5 := by
  unfold left
  split <;> first | (split <;> decide) | decide

theorem path_standing (path : Relation.ReflTransGen Next (.start msg stdin) c) : Standing c := by
  refine reachable_invariant Standing ?_ path (start_standing msg stdin)
  rintro c d standing ⟨side, stepped⟩
  exact step_standing standing (step_moves stepped)

/-- In every interleaving, whatever is typed and whatever the arrays held. -/
theorem chat_ends (msg : Side → Message) (stdin : Side → Bytes)
    (path : Relation.ReflTransGen Next (.start msg stdin) c) : Ends c := by
  have standing := path_standing path
  refine ⟨fun queue stands => ?_, fun side d => received_goesOn standing, still_done standing,
    fun ended sides d ran => (schedule_left standing ended ran).trans (left_le c)⟩
  have turn := standing.turn queue stands
  omega

/-- `second.c` ends the chat, and its last line is answered once at most. -/
theorem chat_ends_second :
    ∃ c, Relation.ReflTransGen Next (.start (fun _ => ⟨0, []⟩)
        (Side.input (Bytes.ascii "yes\n") (Bytes.ascii "hi\nend\n"))) c ∧
      (c.party .second).msg = terminated ∧ ∀ sides d, schedule c sides = some d → sides.length ≤ 5 := by
  have ran : ∃ c, schedule (.start (fun _ => ⟨0, []⟩)
        (Side.input (Bytes.ascii "yes\n") (Bytes.ascii "hi\nend\n")))
      [.second, .second, .first, .first, .first, .second, .second, .second, .second] = some c ∧
      (c.party .second).msg = terminated ∧ (c.party .second).point = .done :=
    ⟨_, rfl, by decide, by decide⟩
  obtain ⟨c, ran, last, done⟩ := ran
  have path := schedule_path ran
  exact ⟨c, path, last, (chat_ends _ _ path).last done⟩

end Runs
end Tasks.Chat.SystemV
