import Tasks.Udp.Replies

/-! Client and server when each socket gets its datagrams in the order in which they were sent. The
client reads one datagram for each message, and its own messages are among them: its replies come
later and later. The turns behind the end of the input, in which `fgets` leaves the bytes received in
`buffer`, are not among the steps. -/
namespace Tasks.Udp.Replies
open Kit Kit.Bytes Kit.Lines Server Client

/-- As `Step`, but what a socket gets is its oldest datagram. -/
inductive InOrder : State → State → Prop where
  | empty (s : State) (beyond : Option UInt8) (line rest : Bytes)
      (typing : s.waiting = false)
      (typed : fgets bufferSize s.input = some (line, rest))
      (skipped : sendLine defaults beyond line = .ok none) :
      InOrder s { s with input := rest }
  | send (s : State) (beyond : Option UInt8) (line rest packet : Bytes)
      (typing : s.waiting = false)
      (typed : fgets bufferSize s.input = some (line, rest))
      (built : sendLine defaults beyond line = .ok (some packet)) :
      InOrder s { s with
        input := rest
        sent := s.sent + 1
        waiting := true
        toServer := ⟨s.sent + 1, packet⟩ :: s.toServer
        toClient := ⟨s.sent + 1, packet⟩ :: s.toClient }
  | absorb (s : State) (beyond : Option UInt8) (clients : Clients maxClients) (p : Packet)
      (rest : List Packet) (arrived : s.toServer = rest ++ [p])
      (handled : iterate defaults.serverPort beyond s.clients p.bytes = .ok (clients, none)) :
      InOrder s { s with clients := clients, toServer := rest }
  | answer (s : State) (beyond : Option UInt8) (clients : Clients maxClients) (p : Packet)
      (rest : List Packet) (reply : Bytes)
      (arrived : s.toServer = rest ++ [p])
      (handled : iterate defaults.serverPort beyond s.clients p.bytes = .ok (clients, some reply)) :
      InOrder s { s with
        clients := clients
        toServer := ⟨p.message, reply⟩ :: rest
        toClient := ⟨p.message, reply⟩ :: s.toClient
        answers := ⟨p.message, reply⟩ :: s.answers }
  | skip (s : State) (p : Packet) (rest : List Packet) (waits : s.waiting = true)
      (arrived : s.toClient = rest ++ [p]) (read : readReply defaults p.bytes = .ok none) :
      InOrder s { s with waiting := false, toClient := rest }
  | print (s : State) (p : Packet) (rest : List Packet) (text : Bytes) (waits : s.waiting = true)
      (arrived : s.toClient = rest ++ [p])
      (read : readReply defaults p.bytes = .ok (some text)) :
      InOrder s { s with
        waiting := false
        toClient := rest
        printed := (s.sent, text) :: s.printed }

theorem InOrder.step (step : InOrder s next) : Step s next := by
  have oldest {queue rest : List Packet} {p : Packet} (arrived : queue = rest ++ [p]) :
      queue.Perm (p :: rest) := arrived ▸ List.perm_append_singleton p rest
  cases step with
  | empty beyond line rest typing typed skipped => exact .empty s beyond line rest typing typed skipped
  | send beyond line rest packet typing typed built => exact .send s beyond line rest packet typing typed built
  | absorb beyond clients p rest arrived handled =>
    exact .absorb s beyond clients p rest (oldest arrived) handled
  | answer beyond clients p rest reply arrived handled =>
    exact .answer s beyond clients p rest reply (oldest arrived) handled
  | skip p rest waits arrived read => exact .skip s p rest waits (oldest arrived) read
  | print p rest text waits arrived read => exact .print s p rest text waits (oldest arrived) read

theorem reachable_step (path : Relation.ReflTransGen InOrder s next) : Relation.ReflTransGen Step s next :=
  Relation.ReflTransGen.mono (fun _ _ => InOrder.step) _ _ path

/-- What was printed is the text of these replies, newest first. The reply to message `k` that
came with `n` replies before it was printed for a message behind `k + n`. -/
inductive Late : List (Nat × Bytes) → List Packet → Prop where
  | nil : Late [] []
  | cons (earlier : Late printed shown) (read : readReply defaults p.bytes = .ok (some text))
      (late : p.message + shown.length < k) : Late ((k, text) :: printed) (p :: shown)

/-- The replies on their way to the client, and for each of them as many datagrams in front of it as
there were messages and other replies before it. -/
inductive Arrived (reads shown : Nat) : List Packet → List Packet → Prop where
  | nil : Arrived reads shown [] []
  | own (before : Arrived reads shown queue coming) (silent : ¬ Prints p) :
      Arrived reads shown (p :: queue) coming
  | reply (before : Arrived reads shown queue coming) (prints : Prints p)
      (late : p.message + coming.length + shown ≤ queue.length + reads) :
      Arrived reads shown (p :: queue) (p :: coming)

section Queues

variable {reads shown : Nat} {queue coming rest : List Packet} {p : Packet}

theorem Arrived.sublist (arrived : Arrived reads shown queue coming) : coming.Sublist queue := by
  induction arrived with
  | nil => exact .slnil
  | own before silent ih => exact .cons _ ih
  | reply before prints late ih => exact .cons_cons _ ih

theorem Arrived.take (arrived : Arrived reads shown (rest ++ [p]) coming) :
    (¬ Prints p ∧ Arrived (reads + 1) shown rest coming) ∨
    (Prints p ∧ p.message + shown ≤ reads ∧ ∃ later, coming = later ++ [p] ∧
      Arrived (reads + 1) (shown + 1) rest later) := by
  induction rest generalizing coming with
  | nil =>
    cases arrived with
    | own before silent =>
      cases before
      exact .inl ⟨silent, .nil⟩
    | reply before prints late =>
      cases before
      exact .inr ⟨prints, by simpa using late, [], rfl, .nil⟩
  | cons q rest ih =>
    rw [List.cons_append] at arrived
    cases arrived with
    | own before silent =>
      rcases ih before with ⟨quiet, later⟩ | ⟨prints, late, later, same, arrived⟩
      · exact .inl ⟨quiet, .own later silent⟩
      · exact .inr ⟨prints, late, later, same, .own arrived silent⟩
    | reply before printsNew lateNew =>
      rw [List.length_append, List.length_singleton] at lateNew
      rcases ih before with ⟨quiet, later⟩ | ⟨prints, late, later, same, arrived⟩
      · exact .inl ⟨quiet, .reply later printsNew (by omega)⟩
      · subst same
        rw [List.length_append, List.length_singleton] at lateNew
        exact .inr ⟨prints, late, q :: later, rfl, .reply arrived printsNew (by omega)⟩

end Queues

def Request (p : Packet) : Prop :=
  ∃ beyond m, 0 ∉ m ∧ 20 + 8 + m.length + 1 ≤ bufferSize ∧ p.bytes = requestBytes defaults beyond m

section Answers

variable {clients next : Clients maxClients} {beyond : Option UInt8} {p : Packet} {reply : Bytes}

theorem request_sent (typed : fgets bufferSize input = some (line, rest))
    (built : sendLine defaults beyond line = .ok (some packet)) : Request ⟨k, packet⟩ := by
  obtain ⟨fits, same⟩ := sendLine_some defaults beyond typed built
  refine ⟨beyond, message line, fun member => ?_, fits, same⟩
  have kept := List.mem_takeWhile_imp member
  simp at kept

/-- The answer to a request goes to the client's port and not to the server's. -/
theorem answer_reply (request : Request p)
    (handled : iterate defaults.serverPort beyond clients p.bytes = .ok (next, some reply)) :
    ¬ Asks ⟨k, reply⟩ ∧ Prints ⟨k, reply⟩ := by
  obtain ⟨sender, m, clean, fits, same⟩ := request
  rw [same] at handled
  rcases iterate_turn defaults sender beyond clients clean fits with ⟨count, _, turned⟩ | ⟨_, turned⟩
  · rw [turned, answer, cstr_request defaults sender clean fits, ok_bind,
      sendPacket_eq _ _ _ _ _ _ _ (replyText_short m count)] at handled
    split at handled
    next fits =>
      cases handled
      have port : ntohs (requestRead defaults sender m).udph.source = defaults.clientPort :=
        swap_swap defaults.clientPort
      have clean : 0 ∉ replyText m count := fun member => by
        have whole := List.mem_of_mem_take member
        simp [clean, decimal_clean] at whole
      constructor
      · rintro ⟨r, read, _⟩
        rw [parse_foreign _ _ _ _ _ _ fits (by rw [port]; decide)] at read
        cases read
      · exact ⟨_, readReply_packet _ _ _ _ _ _ fits clean port⟩
    next => cases handled
  · rw [turned] at handled
    cases handled

end Answers

/-- The server's side: requests are answered one after another, the oldest first. -/
structure Served (s : State) : Prop where
  asked : ∀ p ∈ s.toServer, Asks p →
    Request p ∧ p.message ≤ s.sent ∧ ∀ a ∈ s.answers, a.message < p.message
  waiting : s.toServer.Pairwise fun p q => Asks p → Asks q → q.message < p.message
  answered : s.answers.Pairwise fun p q => q.message < p.message
  numbered : ∀ a ∈ s.answers, a.message ≤ s.sent

/-- The client's side: its `reads` datagrams were the oldest ones, one for each message. -/
structure Behind (reads : Nat) (shown coming : List Packet) (s : State) : Prop where
  late : Late s.printed shown
  answers : s.answers = coming ++ shown
  read : reads + s.waiting.toNat = s.sent
  arrived : Arrived reads shown.length s.toClient coming
  counted : s.toClient.length + reads = s.sent + s.answers.length

section Steps

variable {s next : State} {reads : Nat} {shown coming : List Packet}

theorem step_served (served : Served s) (step : InOrder s next) : Served next := by
  cases step with
  | empty beyond line rest typing typed skipped =>
    exact ⟨served.asked, served.waiting, served.answered, served.numbered⟩
  | send beyond line rest packet typing typed built =>
    refine ⟨fun p member asks => ?_, ?_, served.answered,
      fun a member => Nat.le_succ_of_le (served.numbered a member)⟩
    · rcases List.mem_cons.mp member with rfl | older
      · exact ⟨request_sent typed built, le_rfl, fun a member => Nat.lt_succ_of_le (served.numbered a member)⟩
      · obtain ⟨request, small, newer⟩ := served.asked p older asks
        exact ⟨request, Nat.le_succ_of_le small, newer⟩
    · refine List.pairwise_cons.mpr ⟨fun q older _ asks => ?_, served.waiting⟩
      exact Nat.lt_succ_of_le (served.asked q older asks).2.1
  | absorb beyond clients p rest arrived handled =>
    have order := served.waiting
    rw [arrived] at order
    exact ⟨fun q member => served.asked q (by simp [arrived, member]), (List.pairwise_append.mp order).1,
      served.answered, served.numbered⟩
  | answer beyond clients p rest reply arrived handled =>
    have order := served.waiting
    rw [arrived] at order
    obtain ⟨others, _, oldest⟩ := List.pairwise_append.mp order
    have asks := asks_of_answer handled
    obtain ⟨request, small, newest⟩ := served.asked p (by simp [arrived]) asks
    obtain ⟨quiet, _⟩ := answer_reply (k := p.message) request handled
    refine ⟨fun q member asksToo => ?_, ?_, ?_, fun a member => ?_⟩
    · rcases List.mem_cons.mp member with rfl | older
      · exact absurd asksToo quiet
      · obtain ⟨requestToo, smallToo, newer⟩ := served.asked q (by simp [arrived, older]) asksToo
        refine ⟨requestToo, smallToo, fun a member => ?_⟩
        rcases List.mem_cons.mp member with rfl | earlier
        · exact oldest q older p (by simp) asksToo asks
        · exact newer a earlier
    · exact List.pairwise_cons.mpr ⟨fun _ _ asksToo => absurd asksToo quiet, others⟩
    · exact List.pairwise_cons.mpr ⟨newest, served.answered⟩
    · rcases List.mem_cons.mp member with rfl | earlier
      · exact small
      · exact served.numbered a earlier
  | skip p rest waits arrived read => exact ⟨served.asked, served.waiting, served.answered, served.numbered⟩
  | print p rest text waits arrived read =>
    exact ⟨served.asked, served.waiting, served.answered, served.numbered⟩

theorem step_behind (served : Served s) (behind : Behind reads shown coming s) (step : InOrder s next) :
    ∃ reads shown coming, Behind reads shown coming next := by
  obtain ⟨late, answers, read, queued, counted⟩ := behind
  cases step with
  | empty beyond line rest typing typed skipped => exact ⟨_, _, _, late, answers, read, queued, counted⟩
  | send beyond line rest packet typing typed built =>
    rw [typing] at read
    refine ⟨reads, shown, coming, late, answers, ?_, .own queued (own_not_printed typed built), ?_⟩
    · simpa using read
    · simp only [List.length_cons]
      omega
  | absorb beyond clients p rest arrived handled => exact ⟨_, _, _, late, answers, read, queued, counted⟩
  | answer beyond clients p rest reply arrived handled =>
    obtain ⟨request, small, _⟩ := served.asked p (by simp [arrived]) (asks_of_answer handled)
    obtain ⟨_, prints⟩ := answer_reply (k := p.message) request handled
    have both : s.answers.length = coming.length + shown.length := by rw [answers, List.length_append]
    refine ⟨reads, shown, ⟨p.message, reply⟩ :: coming, late, by rw [answers, List.cons_append], read,
      .reply queued prints ?_, ?_⟩
    · simp only
      omega
    · simp only [List.length_cons]
      omega
  | skip p rest waits arrived silent =>
    rw [waits] at read
    rw [arrived, List.length_append, List.length_singleton] at counted
    rw [arrived] at queued
    rcases queued.take with ⟨_, later⟩ | ⟨⟨text, prints⟩, _⟩
    · exact ⟨reads + 1, shown, coming, late, answers, read, later, by simp only; omega⟩
    · rw [silent] at prints
      cases prints
  | print p rest text waits arrived text' =>
    rw [waits] at read
    rw [arrived, List.length_append, List.length_singleton] at counted
    rw [arrived] at queued
    rcases queued.take with ⟨silent, _⟩ | ⟨_, inTime, later, same, left⟩
    · exact absurd ⟨text, text'⟩ silent
    · have behindSent : p.message + shown.length < s.sent := by
        simp only [Bool.toNat_true] at read
        omega
      refine ⟨reads + 1, p :: shown, later, .cons late text' behindSent, ?_, read, left, by simp only; omega⟩
      rw [answers, same, List.append_assoc, List.singleton_append]

end Steps

/-- The server answers in the order of the messages, and the client prints the answers in that
order, each of them once, with a message that was sent later than the one it answers: later by at
least one more for every answer printed before. -/
theorem answers_late (input : Bytes) (path : Relation.ReflTransGen InOrder (start input) s) :
    s.answers.Pairwise (fun p q => q.message < p.message) ∧
    ∃ shown coming, Late s.printed shown ∧ s.answers = coming ++ shown ∧ coming.Sublist s.toClient := by
  have begins : Served (start input) ∧ ∃ reads shown coming, Behind reads shown coming (start input) := by
    refine ⟨⟨?_, .nil, .nil, ?_⟩, 0, [], [], .nil, rfl, rfl, .nil, rfl⟩
    · simp [start]
    · simp [start]
  have kept (t u : State) (inv : Served t ∧ ∃ reads shown coming, Behind reads shown coming t)
      (step : InOrder t u) : Served u ∧ ∃ reads shown coming, Behind reads shown coming u := by
    obtain ⟨served, reads, shown, coming, behind⟩ := inv
    exact ⟨step_served served step, step_behind served behind step⟩
  have inv := reachable_invariant _ kept path begins
  obtain ⟨served, reads, shown, coming, behind⟩ := inv
  exact ⟨served.answered, shown, coming, behind.late, behind.answers, behind.arrived.sublist⟩

/-- The client skips its own "a" and gets the reply to it when it waits for the one to "b". -/
theorem lagging_path
    (answeredA : iterate 9090 (some 0) (fun _ => zeroed) requestA.bytes = .ok (first, some replyA.bytes)) :
    Relation.ReflTransGen InOrder (start twoLines)
      ⟨[], first, 2, false, [requestB, replyA], [requestB], [replyA], [(2, ascii "a 1")]⟩ := by
  have sent : InOrder (start twoLines)
      ⟨ascii "b" ++ [10], fun _ => zeroed, 1, true, [requestA], [requestA], [], []⟩ :=
    .send (start twoLines) (some 0) _ _ _ rfl (fgets_line (ascii "a") _ (by decide) (by decide)) sendA
  have skipped : InOrder ⟨ascii "b" ++ [10], fun _ => zeroed, 1, true, [requestA], [requestA], [], []⟩
      ⟨ascii "b" ++ [10], fun _ => zeroed, 1, false, [requestA], [], [], []⟩ :=
    .skip _ requestA [] rfl rfl (readReply_foreign _ _ _ _ _ _ (by decide) (by decide))
  have answered : InOrder ⟨ascii "b" ++ [10], fun _ => zeroed, 1, false, [requestA], [], [], []⟩
      ⟨ascii "b" ++ [10], first, 1, false, [replyA], [replyA], [replyA], []⟩ :=
    .answer _ (some 0) first requestA [] _ rfl answeredA
  have sentB : InOrder ⟨ascii "b" ++ [10], first, 1, false, [replyA], [replyA], [replyA], []⟩
      ⟨[], first, 2, true, [requestB, replyA], [requestB, replyA], [replyA], []⟩ :=
    .send _ (some 0) (ascii "b" ++ [10]) [] requestB.bytes rfl
      (fgets_line (ascii "b") [] (by decide) (by decide)) sendB
  have printed : InOrder ⟨[], first, 2, true, [requestB, replyA], [requestB, replyA], [replyA], []⟩
      ⟨[], first, 2, false, [requestB, replyA], [requestB], [replyA], [(2, ascii "a 1")]⟩ :=
    .print _ replyA [requestB] _ rfl rfl printA
  exact .tail (.tail (.tail (.tail (.single sent) skipped) answered) sentB) printed

theorem answers_late_second : [replyA].Pairwise (fun p q => q.message < p.message) ∧
    ∃ shown coming, Late [(2, ascii "a 1")] shown ∧ [replyA] = coming ++ shown ∧
      coming.Sublist [requestB] :=
  answers_late twoLines (lagging_path answerA)

end Tasks.Udp.Replies
