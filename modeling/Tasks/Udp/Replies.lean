import Tasks.Udp.RoundTrip

/-! Client and server with the datagrams between them. A raw socket gets a copy of every UDP
datagram of the host, so what either program sends is on its way to both sockets, and each
socket may get its copies in any order. -/
namespace Tasks.Udp.Replies
open Kit Kit.Bytes Kit.Lines Server Client

/-- The addresses and ports that the sources set. -/
def defaults : Config := ⟨loopback, 9090, 54321⟩

structure Packet where
  message : Nat
  bytes : Bytes
  deriving DecidableEq

structure State where
  input : Bytes
  clients : Clients maxClients
  /-- Messages sent so far; the last one is the current iteration's. -/
  sent : Nat
  waiting : Bool
  toServer : List Packet
  toClient : List Packet
  answers : List Packet
  printed : List (Nat × Bytes)

def start (input : Bytes) : State := ⟨input, fun _ => zeroed, 0, false, [], [], [], []⟩

/-- The client is at the keyboard and the server in `recvfrom`, or the client waits too. -/
inductive Step : State → State → Prop where
  | empty (s : State) (beyond : Option UInt8) (line rest : Bytes)
      (typing : s.waiting = false)
      (typed : fgets bufferSize s.input = some (line, rest))
      (skipped : sendLine defaults beyond line = .ok none) :
      Step s { s with input := rest }
  | send (s : State) (beyond : Option UInt8) (line rest packet : Bytes)
      (typing : s.waiting = false)
      (typed : fgets bufferSize s.input = some (line, rest))
      (built : sendLine defaults beyond line = .ok (some packet)) :
      Step s { s with
        input := rest
        sent := s.sent + 1
        waiting := true
        toServer := ⟨s.sent + 1, packet⟩ :: s.toServer
        toClient := ⟨s.sent + 1, packet⟩ :: s.toClient }
  | absorb (s : State) (beyond : Option UInt8) (clients : Clients maxClients) (p : Packet)
      (rest : List Packet) (arrived : s.toServer.Perm (p :: rest))
      (handled : iterate defaults.serverPort beyond s.clients p.bytes = .ok (clients, none)) :
      Step s { s with clients := clients, toServer := rest }
  | answer (s : State) (beyond : Option UInt8) (clients : Clients maxClients) (p : Packet)
      (rest : List Packet) (reply : Bytes)
      (arrived : s.toServer.Perm (p :: rest))
      (handled : iterate defaults.serverPort beyond s.clients p.bytes = .ok (clients, some reply)) :
      Step s { s with
        clients := clients
        toServer := ⟨p.message, reply⟩ :: rest
        toClient := ⟨p.message, reply⟩ :: s.toClient
        answers := ⟨p.message, reply⟩ :: s.answers }
  | skip (s : State) (p : Packet) (rest : List Packet) (waits : s.waiting = true)
      (arrived : s.toClient.Perm (p :: rest)) (read : readReply defaults p.bytes = .ok none) :
      Step s { s with waiting := false, toClient := rest }
  | print (s : State) (p : Packet) (rest : List Packet) (text : Bytes) (waits : s.waiting = true)
      (arrived : s.toClient.Perm (p :: rest))
      (read : readReply defaults p.bytes = .ok (some text)) :
      Step s { s with
        waiting := false
        toClient := rest
        printed := (s.sent, text) :: s.printed }

/-- What is printed for a message is the server's answer to it. -/
def Matched (s : State) : Prop :=
  ∀ k r, (k, r) ∈ s.printed → ∃ p ∈ s.answers, p.message = k ∧ readReply defaults p.bytes = .ok (some r)

def Prints (p : Packet) : Prop := ∃ r, readReply defaults p.bytes = .ok (some r)

def Asks (p : Packet) : Prop :=
  ∃ r, parse defaults.serverPort (received p.bytes) = .ok (some r) ∧ r.close = false

/-- No answer is still to come, neither from the server nor to the client. -/
def Settled (s : State) : Prop := (∀ p ∈ s.toServer, ¬ Asks p) ∧ ∀ p ∈ s.toClient, ¬ Prints p

def PatientStep (s next : State) : Prop := Step s next ∧ (next.sent ≠ s.sent → Settled s)

structure Invariant (s : State) : Prop where
  matched : Matched s
  asked : ∀ p ∈ s.toServer, Asks p → p.message = s.sent
  coming : ∀ p ∈ s.toClient, Prints p → p ∈ s.answers ∧ p.message = s.sent
  numbered : ∀ p ∈ s.answers, p.message ≤ s.sent

section Steps

variable {s next : State}

/-- The client's own datagram, which its socket gets too, is not for its port. -/
theorem own_not_printed (typed : fgets bufferSize input = some (line, rest))
    (built : sendLine defaults beyond line = .ok (some packet)) : ¬ Prints ⟨k, packet⟩ := by
  obtain ⟨fits, same⟩ := sendLine_some defaults beyond typed built
  have foreign : readReply defaults packet = .ok none := by
    rw [same]
    exact readReply_foreign _ _ _ _ _ _ fits (by decide)
  intro ⟨r, read⟩
  simp [foreign] at read

theorem asks_of_answer (handled : iterate defaults.serverPort beyond clients p.bytes =
    .ok (clients', some reply)) : Asks p := by
  rcases iterate_cases defaults.serverPort beyond clients p.bytes with
    ⟨_, same⟩ | ⟨r, read, ⟨count, answered, _⟩ | ⟨_, same⟩⟩
  · simp [same] at handled
  · refine ⟨r, read, ?_⟩
    cases close : r.close with
    | false => rfl
    | true => simp [close, dispatch] at answered
  · simp [same] at handled

theorem step_invariant (inv : Invariant s) (step : PatientStep s next) : Invariant next := by
  obtain ⟨step, patient⟩ := step
  cases step with
  | empty beyond line rest typing typed skipped =>
    exact ⟨inv.matched, inv.asked, inv.coming, inv.numbered⟩
  | send beyond line rest packet typing typed built =>
    obtain ⟨quiet, silent⟩ := patient (by simp)
    refine ⟨inv.matched, fun p member asks => ?_, fun p member prints => ?_,
      fun p member => Nat.le_succ_of_le (inv.numbered p member)⟩
    · rcases List.mem_cons.mp member with rfl | older
      · rfl
      · exact absurd asks (quiet p older)
    · rcases List.mem_cons.mp member with rfl | older
      · exact absurd prints (own_not_printed typed built)
      · exact absurd prints (silent p older)
  | absorb beyond clients p rest arrived handled =>
    exact ⟨inv.matched, fun q member => inv.asked q (arrived.mem_iff.mpr (by simp [member])),
      inv.coming, inv.numbered⟩
  | answer beyond clients p rest reply arrived handled =>
    have current : p.message = s.sent :=
      inv.asked p (arrived.mem_iff.mpr (by simp)) (asks_of_answer handled)
    refine ⟨fun k r member => ?_, fun q member asks => ?_, fun q member prints => ?_,
      fun q member => ?_⟩
    · obtain ⟨q, earlier, rest⟩ := inv.matched k r member
      exact ⟨q, by simp [earlier], rest⟩
    · rcases List.mem_cons.mp member with rfl | older
      · exact current
      · exact inv.asked q (arrived.mem_iff.mpr (by simp [older])) asks
    · rcases List.mem_cons.mp member with rfl | older
      · exact ⟨by simp, current⟩
      · obtain ⟨earlier, last⟩ := inv.coming q older prints
        exact ⟨by simp [earlier], last⟩
    · rcases List.mem_cons.mp member with rfl | older
      · exact current.le
      · exact inv.numbered q older
  | skip p rest waits arrived read =>
    exact ⟨inv.matched, inv.asked,
      fun q member => inv.coming q (arrived.mem_iff.mpr (by simp [member])), inv.numbered⟩
  | print p rest text waits arrived read =>
    obtain ⟨answered, last⟩ := inv.coming p (arrived.mem_iff.mpr (by simp)) ⟨text, read⟩
    refine ⟨fun k r member => ?_, inv.asked,
      fun q member => inv.coming q (arrived.mem_iff.mpr (by simp [member])), inv.numbered⟩
    rcases List.mem_cons.mp member with same | older
    · cases same
      exact ⟨p, answered, last, read⟩
    · exact inv.matched k r older

/-- A message sent while an answer is on its way can get that answer printed for it. -/
theorem impatient_mismatch (numbered : ∀ p ∈ s.answers, p.message ≤ s.sent) (step : Step s next)
    (sends : next.sent ≠ s.sent) (coming : p ∈ s.toClient) (prints : Prints p) :
    ∃ later, Step next later ∧ ¬ Matched later := by
  obtain ⟨r, read⟩ := prints
  cases step with
  | send beyond line rest packet typing typed built =>
    have arrived := List.perm_cons_erase (List.mem_cons_of_mem ⟨s.sent + 1, packet⟩ coming)
    refine ⟨_, .print _ p _ r rfl arrived read, fun matched => ?_⟩
    obtain ⟨q, answered, last, _⟩ := matched (s.sent + 1) r (by simp)
    have old := numbered q answered
    omega
  | empty => exact absurd rfl sends
  | absorb => exact absurd rfl sends
  | answer => exact absurd rfl sends
  | skip => exact absurd rfl sends
  | print => exact absurd rfl sends

end Steps

section TwoLines

def twoLines : Bytes := ascii "a" ++ 10 :: (ascii "b" ++ [10])

def requestA : Packet := ⟨1, requestBytes defaults (some 0) (ascii "a")⟩
def requestB : Packet := ⟨2, requestBytes defaults (some 0) (ascii "b")⟩
def replyA : Packet := ⟨1, replyBytes defaults (some 0) (ascii "a") 1⟩
def replyB : Packet := ⟨2, replyBytes defaults (some 0) (ascii "b") 2⟩

theorem sendA : sendLine defaults (some 0) (ascii "a" ++ [10]) = .ok (some requestA.bytes) :=
  sendLine_request _ _ (by decide) (by decide) (by decide) (by decide)

theorem sendB : sendLine defaults (some 0) (ascii "b" ++ [10]) = .ok (some requestB.bytes) :=
  sendLine_request _ _ (by decide) (by decide) (by decide) (by decide)

theorem answerA : iterate 9090 (some 0) (fun _ => zeroed) requestA.bytes =
    .ok ((dispatch (fun _ => zeroed) ⟨loopback, 54321⟩ false).1, some replyA.bytes) :=
  iterate_request defaults _ _ (by decide) (by decide) (by decide) (by decide +kernel) (by decide)

theorem answerB :
    let clients := (dispatch (fun _ : Fin maxClients => zeroed) ⟨loopback, 54321⟩ false).1
    iterate 9090 (some 0) clients requestB.bytes =
      .ok ((dispatch clients ⟨loopback, 54321⟩ false).1, some replyB.bytes) :=
  iterate_request defaults _ _ (by decide) (by decide) (by decide) (by decide +kernel) (by decide)

theorem printA : readReply defaults replyA.bytes = .ok (some (ascii "a 1")) :=
  readReply_reply _ _ (by decide) (by decide)

theorem printB : readReply defaults replyB.bytes = .ok (some (ascii "b 2")) :=
  readReply_reply _ _ (by decide) (by decide)

theorem firstSent : Step (start twoLines)
    ⟨ascii "b" ++ [10], fun _ => zeroed, 1, true, [requestA], [requestA], [], []⟩ :=
  .send (start twoLines) (some 0) _ _ _ rfl (fgets_line (ascii "a") _ (by decide) (by decide)) sendA

/-- The client has read the reply to "a" after it sent "b". -/
def abandoned (clients : Clients maxClients) : State :=
  ⟨[], clients, 2, false, [replyB, replyA], [replyB, requestB], [replyB, replyA], [(2, ascii "a 1")]⟩

theorem abandoned_path
    (answeredA : iterate 9090 (some 0) (fun _ => zeroed) requestA.bytes = .ok (first, some replyA.bytes))
    (answeredB : iterate 9090 (some 0) first requestB.bytes = .ok (second, some replyB.bytes)) :
    Relation.ReflTransGen Step (start twoLines) (abandoned second) := by
  have lineB : fgets bufferSize (ascii "b" ++ [10]) = some (ascii "b" ++ [10], []) :=
    fgets_line (ascii "b") [] (by decide) (by decide)
  have own : readReply defaults requestA.bytes = .ok none :=
    readReply_foreign _ _ _ _ _ _ (by decide) (by decide)
  have skipped : Step ⟨ascii "b" ++ [10], fun _ => zeroed, 1, true, [requestA], [requestA], [], []⟩
      ⟨ascii "b" ++ [10], fun _ => zeroed, 1, false, [requestA], [], [], []⟩ :=
    .skip _ requestA [] rfl (.refl _) own
  have answered : Step ⟨ascii "b" ++ [10], fun _ => zeroed, 1, false, [requestA], [], [], []⟩
      ⟨ascii "b" ++ [10], first, 1, false, [replyA], [replyA], [replyA], []⟩ :=
    .answer _ (some 0) first requestA [] _ (.refl _) answeredA
  have sent : Step ⟨ascii "b" ++ [10], first, 1, false, [replyA], [replyA], [replyA], []⟩
      ⟨[], first, 2, true, [requestB, replyA], [requestB, replyA], [replyA], []⟩ :=
    .send _ (some 0) (ascii "b" ++ [10]) [] requestB.bytes rfl lineB sendB
  have printed : Step ⟨[], first, 2, true, [requestB, replyA], [requestB, replyA], [replyA], []⟩
      ⟨[], first, 2, false, [requestB, replyA], [requestB], [replyA], [(2, ascii "a 1")]⟩ :=
    .print _ replyA [requestB] _ rfl (.swap _ _ _) printA
  have late : Step ⟨[], first, 2, false, [requestB, replyA], [requestB], [replyA], [(2, ascii "a 1")]⟩
      (abandoned second) :=
    .answer _ (some 0) second requestB [replyA] _ (.refl _) answeredB
  exact .tail (.tail (.tail (.tail (.tail (.single firstSent) skipped) answered) sent) printed) late

/-- The client waits until the reply to "a" is there before it reads a datagram. -/
theorem prompt_path
    (answeredA : iterate 9090 (some 0) (fun _ => zeroed) requestA.bytes = .ok (first, some replyA.bytes)) :
    Relation.ReflTransGen PatientStep (start twoLines)
      ⟨ascii "b" ++ [10], first, 1, false, [replyA], [requestA], [replyA], [(1, ascii "a 1")]⟩ := by
  have sent : PatientStep (start twoLines)
      ⟨ascii "b" ++ [10], fun _ => zeroed, 1, true, [requestA], [requestA], [], []⟩ :=
    ⟨firstSent, fun _ => ⟨by simp [start], by simp [start]⟩⟩
  have answered : PatientStep
      ⟨ascii "b" ++ [10], fun _ => zeroed, 1, true, [requestA], [requestA], [], []⟩
      ⟨ascii "b" ++ [10], first, 1, true, [replyA], [replyA, requestA], [replyA], []⟩ :=
    ⟨.answer _ (some 0) first requestA [] _ (.refl _) answeredA, by simp⟩
  have printed : PatientStep
      ⟨ascii "b" ++ [10], first, 1, true, [replyA], [replyA, requestA], [replyA], []⟩
      ⟨ascii "b" ++ [10], first, 1, false, [replyA], [requestA], [replyA], [(1, ascii "a 1")]⟩ :=
    ⟨.print _ replyA [requestA] _ rfl (.refl _) printA, by simp⟩
  exact .tail (.tail (.single sent) answered) printed

end TwoLines

/-- As long as the client sends only when no answer is outstanding, each printed reply
answers the message of its iteration; one send with an answer on its way can end this. -/
theorem patient_replies_match (input : Bytes)
    (path : Relation.ReflTransGen PatientStep (start input) s) :
    Matched s ∧ ∀ next p, Step s next → next.sent ≠ s.sent → p ∈ s.toClient → Prints p →
      ∃ later, Step next later ∧ ¬ Matched later := by
  have inv := reachable_invariant Invariant (fun _ _ => step_invariant) path
    ⟨by simp [Matched, start], by simp [start], by simp [start], by simp [start]⟩
  exact ⟨inv.matched, fun next p => impatient_mismatch inv.numbered⟩

theorem patient_replies_match_first :
    Matched ⟨ascii "b" ++ [10], (dispatch (fun _ => zeroed) ⟨loopback, 54321⟩ false).1, 1, false,
      [replyA], [requestA], [replyA], [(1, ascii "a 1")]⟩ :=
  (patient_replies_match twoLines (prompt_path answerA)).1

theorem replies_mismatch :
    ¬ ∀ input s, Relation.ReflTransGen Step (start input) s → Matched s := by
  intro law
  obtain ⟨p, answered, two, read⟩ := law _ _ (abandoned_path answerA answerB) 2 (ascii "a 1") (by simp [abandoned])
  simp only [abandoned, List.mem_cons, List.not_mem_nil, or_false] at answered
  rcases answered with rfl | rfl
  · rw [printB] at read
    exact absurd read (by decide)
  · exact absurd two (by decide)

end Tasks.Udp.Replies
