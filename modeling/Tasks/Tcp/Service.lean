import Tasks.Tcp.Answers
import Tasks.Tcp.SelectServer

/-! Module 3, Task 18: what the connections of the server are answered. They share the array `buff`, of which
a `read` fills a part only and `sscanf` reads as far as the first NUL. -/
namespace Tasks.Tcp.Service

open Kit Kit.Bytes Calculator SelectServer

structure State where
  server : SelectServer.Server
  buff : Bytes
  /-- What the `read`s of a file have returned, and what was written to it. -/
  got : File → List Bytes
  wrote : File → List Bytes

def State.start (server : SelectServer.Server) (buff : Bytes) : State :=
  ⟨server, buff, fun _ => [], fun _ => []⟩

def greeting : Bytes := prompt ++ [0]

/-- The new connection is prompted out of `buff`. -/
def State.greet (s : State) (server : SelectServer.Server) : State :=
  { s with
    server := server
    buff := Task.copy .task18 s.buff prompt
    wrote := Function.update s.wrote (.client s.server.accepted)
      (s.wrote (.client s.server.accepted) ++ [greeting]) }

/-- What `calculate` writes for the bytes of a `read`, and `buff` behind the next prompt; none where the
behaviour is undefined. -/
def handle (lib : Doubles D) (buff got : Bytes) : Option (Bytes × Bytes) :=
  let buff := overlay buff got
  match cstr buff 0 with
  | .error _ => none
  | .ok text =>
    match calculate lib .task18 none buff text with
    | none => none
    | some (_, buff) =>
      match cstr buff 0 with
      | .error _ => none
      | .ok answer => some (answer ++ [0], Task.copy .task18 buff prompt)

def State.answer (s : State) (server : SelectServer.Server) (file : File) (got answer buff : Bytes) :
    State where
  server := server
  buff := buff
  got := Function.update s.got file (s.got file ++ [got])
  wrote := Function.update s.wrote file (s.wrote file ++ [answer, greeting])

/-- A `write` has failed behind a `read`, and with the process the array is gone. -/
def State.breakOff (s : State) (server : SelectServer.Server) (file : File) (got : Bytes)
    (said : List Bytes) : State :=
  { s with
    server := server
    got := Function.update s.got file (s.got file ++ [got])
    wrote := Function.update s.wrote file (s.wrote file ++ said) }

structure At (s : SelectServer.Server) (i : Nat) : Prop where
  here : s.point = .scanning i
  more : i ≤ s.maxFd
  ready : s.readFds.has i

/-- The steps of the server with the bytes that they move. -/
inductive Step (lib : Doubles D) (s : State) : State → Prop where
  | loop (idle : ∀ i, ¬ At s.server i) (step : SelectServer.Step s.server t) :
      Step lib s { s with server := t }
  | accept (at_ : At s.server i) (socket : i = s.server.sockfd)
      (allowed : Allowed s.server i (.accept newsockfd)) (done : body s.server i (.accept newsockfd) = .ok t) :
      Step lib s (s.greet t)
  | data (at_ : At s.server i) (other : i ≠ s.server.sockfd) (found : s.server.table i = some file)
      (filled : got ≠ []) (few : got.length ≤ 1024) (done : body s.server i .data = .ok t)
      (handled : handle lib s.buff got = some (said, buff)) :
      Step lib s (s.answer t file got said buff)
  /-- The answer cannot be written, or the prompt behind it. -/
  | breakOff (at_ : At s.server i) (other : i ≠ s.server.sockfd) (found : s.server.table i = some file)
      (filled : got ≠ []) (few : got.length ≤ 1024) (done : body s.server i .fails = .ok t)
      (handled : handle lib s.buff got = some (said, buff)) (last : wrote = [] ∨ wrote = [said]) :
      Step lib s (s.breakOff t file got wrote)
  /-- Nothing is read and nothing is written, to a new connection neither. -/
  | quiet (at_ : At s.server i) (reply : Reply) (nothing : reply = .eof ∨ reply = .fails)
      (allowed : Allowed s.server i reply) (done : body s.server i reply = .ok t) :
      Step lib s { s with server := t }

/-- The service takes the steps of the server. -/
theorem step_server {lib : Doubles D} {s t : State} (step : Step lib s t) :
    SelectServer.Step s.server t.server := by
  cases step with
  | loop _ step => exact step
  | accept at_ _ allowed done => exact .body at_.here at_.more _ allowed done
  | data at_ _ found _ _ done _ =>
    exact .body at_.here at_.more .data (by rw [Allowed, found]; rfl) done
  | breakOff at_ _ _ _ _ done _ _ => exact .body at_.here at_.more .fails trivial done
  | quiet at_ reply _ allowed done => exact .body at_.here at_.more reply allowed done

section Responder

variable (lib : Doubles D)

/-- What `sscanf` is given of the bytes of a `read`: up to their first NUL, else with the rest of the prompt
behind them; none if it would have to leave the array. -/
def heard (got : Bytes) : Option Bytes :=
  if 0 ∈ got then some (got.takeWhile (· ≠ 0))
  else if got.length < 1024 then some (got ++ prompt.drop got.length)
  else none

/-- The answer to a text by itself, without array and connection. -/
def respond (text : Bytes) : Option Bytes :=
  if 2 ≤ (lib.scan text).temp.length then none
  else
    match (lib.scan text).operands with
    | none => some incorrect
    | some (a, b) =>
      ((operation lib).find? fun op => Task.named .task18 (lib.scan text).temp op.1).map fun op =>
        if lib.isZero (op.2 a b) && op.1 = ascii "/" then Task.divideByZero .task18
        else ((lib.print (op.2 a b)).take 7).takeWhile (· ≠ 0)

def responds (got : Bytes) : Option Bytes := (heard got).bind (respond lib)

/-- A connection that is answered request by request, each answer for itself. -/
def Answered (got wrote : List Bytes) : Prop :=
  ∃ answers, got.mapM (responds lib) = some answers ∧
    wrote = greeting :: answers.flatMap fun answer => [answer ++ [0], greeting]

/-- Behind the answers to the other requests stands at most that to the last. -/
def BrokenOff (got wrote : List Bytes) : Prop :=
  ∃ before request answered said, got = before ++ [request] ∧ Answered lib before answered ∧
    responds lib request = some said ∧ (wrote = answered ∨ wrote = answered ++ [said ++ [0]])

end Responder

def full : Bytes := prompt ++ zeros (1024 - prompt.length)

section Array

variable {buff : Bytes}

theorem full_length : full.length = 1024 := by
  have short : prompt.length = 15 := by decide
  rw [full, List.length_append, zeros_length, short]

theorem copy_full (whole : buff.length = 1024) : Task.copy .task18 buff prompt = full := by
  have all : (prompt ++ zeros (1024 - prompt.length)).length = 1024 := full_length
  rw [Task.copy, overlay, all, List.drop_of_length_le whole.le, List.append_nil]
  rfl

/-- What is left of the prompt behind the bytes of a `read`. -/
theorem full_drop (n : Nat) :
    full.drop n = prompt.drop n ++ zeros (1024 - prompt.length - (n - prompt.length)) := by
  rw [full, List.drop_append, zeros, List.drop_replicate]
  rfl

theorem overlay_length (whole : buff.length = 1024) (few : got.length ≤ 1024) :
    (overlay buff got).length = 1024 := by
  rw [overlay, List.length_append, List.length_drop, whole]
  omega

theorem cstr_zero (b : Bytes) :
    cstr b 0 = if 0 ∈ b then .ok (b.takeWhile (· ≠ 0)) else .error .outOfBounds := rfl

theorem cstr_heard (few : got.length ≤ 1024) :
    cstr (overlay full got) 0 = (heard got).elim (.error .outOfBounds) .ok := by
  rw [cstr_zero, heard]
  by_cases nul : 0 ∈ got
  · obtain ⟨front, rest, rfl, clean⟩ := List.eq_append_cons_of_mem nul
    have shape : overlay full (front ++ 0 :: rest) =
        front ++ 0 :: (rest ++ full.drop (front ++ 0 :: rest).length) := by
      simp [overlay]
    rw [if_pos nul, shape, text_nul clean, if_pos (by simp), text_nul clean]
    rfl
  · rw [if_neg nul]
    by_cases short : got.length < 1024
    · have shape : overlay full got =
          got ++ (prompt.drop got.length ++ zeros (1024 - prompt.length - (got.length - prompt.length))) := by
        rw [overlay, full_drop]
      have clean : 0 ∉ prompt.drop got.length := fun member =>
        absurd (List.mem_of_mem_drop member) (by decide)
      have room : prompt.length ≤ 1023 := by decide
      have ends : 0 ∈ zeros (1024 - prompt.length - (got.length - prompt.length)) :=
        List.mem_replicate.mpr ⟨by omega, rfl⟩
      rw [if_pos short, shape, text_append nul, takeWhile_zeros, text_clean clean,
        if_pos (List.mem_append_right _ (List.mem_append_right _ ends))]
      rfl
    · have shape : overlay full got = got := by
        rw [overlay, List.drop_of_length_le (full_length.le.trans (Nat.le_of_not_lt short)), List.append_nil]
      rw [if_neg short, shape, if_neg nul]
      rfl

theorem copy_length (whole : buff.length = 1024) (text : Bytes) (short : text.length < 1024) :
    (Task.copy .task18 buff text).length = 1024 := by
  refine overlay_length whole ?_
  rw [List.length_append, zeros_length]
  omega

/-- A number in `buff`, cut to the size of a pointer. -/
theorem printed_cut (whole : buff.length = 1024) (text : Bytes) :
    cstr (Task.printed .task18 buff text) 0 = .ok ((text.take 7).takeWhile (· ≠ 0)) ∧
      (Task.printed .task18 buff text).length = 1024 := by
  have few : (text.take 7 ++ [0]).length ≤ 1024 := by
    rw [List.length_append, List.length_take, List.length_singleton]
    omega
  refine ⟨?_, overlay_length whole few⟩
  have shape : Task.printed .task18 buff text =
      [] ++ text.take 7 ++ 0 :: buff.drop (text.take 7 ++ [0]).length := by
    simp [Task.printed, Task.room, overlay]
  rw [shape]
  exact cstr_front [] (text.take 7) _

/-- The answer and the array behind it come from the bytes of the `read` alone. -/
theorem handle_full (lib : Doubles D) (few : got.length ≤ 1024) :
    handle lib full got = (responds lib got).map fun answer => (answer ++ [0], full) := by
  have size := overlay_length full_length few
  rw [handle, responds, cstr_heard few]
  cases heard got with
  | none => rfl
  | some text =>
    simp only [Option.elim_some, Option.bind_some, respond, calculate]
    by_cases long : 2 ≤ (lib.scan text).temp.length
    · rw [if_pos long, if_pos long]
      rfl
    · rw [if_neg long, if_neg long]
      cases (lib.scan text).operands with
      | none =>
        have said : cstr (Task.copy .task18 (overlay full got) incorrect) 0 = .ok incorrect :=
          copy_text .task18 _ (by decide) (by decide)
        have kept := copy_length size incorrect (by decide)
        simp only [said, copy_full kept, Option.map_some]
      | some operands =>
        cases (operation lib).find? fun op => Task.named .task18 (lib.scan text).temp op.1 with
        | none => rfl
        | some op =>
          by_cases zero : (lib.isZero (op.2 operands.1 operands.2) && decide (op.1 = ascii "/")) = true
          · have said := divideByZero_text .task18 (overlay full got)
            have kept := copy_length size (Task.divideByZero .task18) (by decide)
            simp only [zero, if_true, said, copy_full kept, Option.map_some]
          · obtain ⟨said, kept⟩ := printed_cut size (lib.print (op.2 operands.1 operands.2))
            simp only [zero, Bool.false_eq_true, if_false, said, copy_full kept, Option.map_some]

end Array

section Runs

variable {lib : Doubles D} {s t : State}

structure Apart (lib : Doubles D) (s : State) : Prop where
  carried : Carried s.server
  whole : s.buff.length = 1024
  full : 0 < s.server.accepted → s.buff = full
  answered : ∀ n < s.server.accepted, Answered lib (s.got (.client n)) (s.wrote (.client n))
  fresh : ∀ n, s.server.accepted ≤ n → s.got (.client n) = [] ∧ s.wrote (.client n) = []

/-- The server has ended in the midst of one connection's turn. -/
def Ended (lib : Doubles D) (s : State) : Prop :=
  s.server.point = .exited ∧ ∃ last, BrokenOff lib (s.got (.client last)) (s.wrote (.client last)) ∧
    ∀ n < s.server.accepted, n ≠ last → Answered lib (s.got (.client n)) (s.wrote (.client n))

section Accepted

variable {i : Nat} {reply : Reply} {server t : SelectServer.Server}

theorem body_accepts (fits : i < fdSetsize) (ready : server.readFds.has i) (socket : i = server.sockfd)
    (done : body server i (.accept newsockfd) = .ok t) : t.accepted = server.accepted + 1 := by
  subst socket
  simp only [body, FdSet.isset_eq fits, ready, ok_bind, Bool.true_eq_false, if_true, if_false,
    bind_eq_ok] at done
  obtain ⟨_, _, done⟩ := done
  cases done
  rfl

theorem body_others (fits : i < fdSetsize) (ready : server.readFds.has i)
    (other : i = server.sockfd → ∀ fd, reply ≠ .accept fd) (done : body server i reply = .ok t) :
    t.accepted = server.accepted := by
  simp only [body, FdSet.isset_eq fits, ready, ok_bind, Bool.true_eq_false, if_false] at done
  by_cases socket : i = server.sockfd
  · cases reply with
    | accept fd => exact absurd rfl (other socket fd)
    | data | eof | fails =>
      simp only [socket, if_true] at done
      cases done
      rfl
  · cases reply with
    | eof =>
      simp only [socket, if_false, bind_eq_ok] at done
      obtain ⟨_, _, done⟩ := done
      cases done
      rfl
    | accept | data | fails =>
      simp only [socket, if_false] at done
      cases done
      rfl

theorem body_fails (fits : i < fdSetsize) (ready : server.readFds.has i)
    (done : body server i .fails = .ok t) : t.point = .exited := by
  simp only [body, FdSet.isset_eq fits, ready, ok_bind, Bool.true_eq_false, if_false] at done
  split at done <;> · cases done; rfl

end Accepted

theorem At.descriptors {server : SelectServer.Server} (at_ : At server i) (carried : Carried server) :
    Descriptors server ∧ server.fds.has i ∧ i < fdSetsize := by
  have alive : server.point ≠ .exited := by rw [at_.here]; nofun
  exact ⟨carried.descriptors alive, (carried.scanning i at_.here).pending i le_rfl at_.ready,
    FdSet.has_lt at_.ready⟩

theorem loop_accepted {server t : SelectServer.Server} (carried : Carried server) (idle : ∀ i, ¬ At server i)
    (step : SelectServer.Step server t) : t.accepted = server.accepted := by
  cases step with
  | select | selectFails | timeOut | round => rfl
  | @body i _ here more reply _ done =>
    have descriptors := carried.descriptors (by rw [here]; nofun)
    have room := descriptors.room
    have missing : server.readFds.has i = false := by
      by_contra ready
      exact idle i ⟨here, more, by simpa using ready⟩
    rw [body_skip (by omega) missing] at done
    cases done
    rfl

theorem Answered.next {said : Bytes} (answered : Answered lib got wrote)
    (responded : responds lib request = some said) :
    Answered lib (got ++ [request]) (wrote ++ [said ++ [0], greeting]) := by
  obtain ⟨answers, all, rfl⟩ := answered
  refine ⟨answers ++ [said], ?_, ?_⟩
  · simp [List.mapM_append, all, responded]
  · simp

/-- A `read` is answered out of an array that holds nothing but the prompt. -/
theorem handled_alone (apart : Apart lib s) (at_ : At s.server i) (other : i ≠ s.server.sockfd)
    (found : s.server.table i = some file) (few : got.length ≤ 1024)
    (handled : handle lib s.buff got = some (said, buff)) :
    ∃ number answer, file = .client number ∧ number < s.server.accepted ∧
      responds lib got = some answer ∧ said = answer ++ [0] ∧ buff = full := by
  obtain ⟨descriptors, member, _⟩ := at_.descriptors apart.carried
  obtain ⟨number, client⟩ := ((descriptors.exact i).mp member).resolve_left fun listening =>
    other ((descriptors.opened.listening i).mp listening)
  have known := descriptors.opened.numbered i number client
  rw [apart.full (by omega), handle_full lib few] at handled
  obtain ⟨answer, responded, same⟩ := Option.map_eq_some_iff.mp handled
  cases same
  exact ⟨number, answer, Option.some.inj (found.symm.trans client), known, responded, rfl, rfl⟩

theorem step_apart (apart : Apart lib s) (step : Step lib s t) : Apart lib t ∨ Ended lib t := by
  have carried := step_carried apart.carried (step_server step)
  have same {server : SelectServer.Server} (carried : Carried server)
      (accepted : server.accepted = s.server.accepted) :
      Apart lib { s with server := server } :=
    ⟨carried, apart.whole, accepted ▸ apart.full, accepted ▸ apart.answered, accepted ▸ apart.fresh⟩
  cases step with
  | loop idle step => exact .inl (same carried (loop_accepted apart.carried idle step))
  | @accept i fd server at_ socket allowed done =>
    have fits := (at_.descriptors apart.carried).2.2
    have accepted := body_accepts fits at_.ready socket done
    have prompted := copy_full apart.whole
    refine .inl ⟨carried, ?_, fun _ => prompted, fun n less => ?_, fun n more => ?_⟩
    · rw [State.greet, prompted, full_length]
    · by_cases new : n = s.server.accepted
      · subst new
        obtain ⟨nothing, silent⟩ := apart.fresh _ le_rfl
        refine ⟨[], by simp [State.greet, nothing], ?_⟩
        simp [State.greet, silent]
      · have before := apart.answered n (by
          dsimp only [State.greet] at less
          omega)
        have other : File.client n ≠ .client s.server.accepted := by simpa using new
        dsimp only [State.greet]
        rwa [Function.update_of_ne other]
    · dsimp only [State.greet] at more ⊢
      have other : File.client n ≠ .client s.server.accepted := fun equal => by
        cases equal
        omega
      rw [Function.update_of_ne other]
      exact apart.fresh n (by omega)
  | @data i file got server said buff at_ other found filled few done handled =>
    have fits := (at_.descriptors apart.carried).2.2
    have accepted := body_others fits at_.ready (fun socket => absurd socket other) done
    obtain ⟨number, answer, rfl, known, responded, rfl, rfl⟩ :=
      handled_alone apart at_ other found few handled
    refine .inl ⟨carried, full_length, fun _ => rfl, fun n less => ?_, fun n more => ?_⟩
    · have before := apart.answered n (accepted ▸ less)
      by_cases here : n = number
      · subst here
        simpa [State.answer] using before.next responded
      · have apart : File.client n ≠ .client number := by simpa using here
        dsimp only [State.answer]
        rwa [Function.update_of_ne apart, Function.update_of_ne apart]
    · dsimp only [State.answer] at more ⊢
      have apart' : File.client n ≠ .client number := fun equal => by
        cases equal
        omega
      rw [Function.update_of_ne apart', Function.update_of_ne apart']
      exact apart.fresh n (accepted ▸ more)
  | @breakOff i file got server said buff wrote at_ other found filled few done handled last =>
    have fits := (at_.descriptors apart.carried).2.2
    have accepted := body_others fits at_.ready (fun socket => absurd socket other) done
    obtain ⟨number, answer, rfl, known, responded, rfl, rfl⟩ :=
      handled_alone apart at_ other found few handled
    refine .inr ⟨body_fails fits at_.ready done, number, ?_, fun n less here => ?_⟩
    · refine ⟨_, got, _, answer, Function.update_self .., apart.answered number known, responded, ?_⟩
      rcases last with rfl | rfl <;> simp [State.breakOff]
    · have apart' : File.client n ≠ .client number := by simpa using here
      dsimp only [State.breakOff]
      rw [Function.update_of_ne apart', Function.update_of_ne apart']
      exact apart.answered n (accepted ▸ less)
  | @quiet i server at_ reply nothing allowed done =>
    have fits := (at_.descriptors apart.carried).2.2
    refine .inl (same carried (body_others fits at_.ready (fun _ fd accepting => ?_) done))
    rw [accepting] at nothing
    rcases nothing with impossible | impossible <;> contradiction

/-- Behind its end the server takes no step. -/
theorem ended_last (ended : Ended lib s) (step : Step lib s t) : False := by
  have exited := ended.1
  have taken := step_server step
  generalize t.server = next at taken
  cases taken with
  | select here | selectFails here | timeOut here | body here | round here => cases here.symm.trans exited

/-- However the connections and their requests come in between one another, each is answered as if it were
alone: what is written to it depends on the bytes of its own `read`s only, and so does the next answer to
anybody. A `write` that fails ends the server in one connection's turn. -/
theorem clients_apart (lib : Doubles D) (start : Start) (buff : Bytes) (whole : buff.length = 1024) :
    ∃ server, start.server = .ok server ∧ ∀ t, Relation.ReflTransGen (Step lib) (.start server buff) t →
      (t.server.point ≠ .exited →
        (∀ n < t.server.accepted, Answered lib (t.got (.client n)) (t.wrote (.client n))) ∧
        (0 < t.server.accepted → ∀ got, got.length ≤ 1024 →
          handle lib t.buff got = (responds lib got).map fun answer => (answer ++ [0], full))) ∧
      ∃ last, ∀ n < t.server.accepted, Answered lib (t.got (.client n)) (t.wrote (.client n)) ∨
        n = last ∧ BrokenOff lib (t.got (.client n)) (t.wrote (.client n)) := by
  obtain ⟨server, started, _, carried⟩ := start_carried start
  refine ⟨server, started, fun t path => ?_⟩
  have none : server.accepted = 0 := by
    unfold Start.server at started
    obtain ⟨_, _, rest⟩ := bind_eq_ok.mp started
    cases rest
    rfl
  have initial : Apart lib (.start server buff) :=
    ⟨carried, whole, fun some => absurd some (by simp [State.start, none]),
      fun n less => absurd less (by simp [State.start, none]), fun _ _ => ⟨rfl, rfl⟩⟩
  have either := reachable_invariant (fun s => Apart lib s ∨ Ended lib s)
    (fun _ _ before step => before.elim (step_apart · step) fun ended => (ended_last ended step).elim)
    path (.inl initial)
  rcases either with apart | ⟨exited, last, broken, others⟩
  · refine ⟨fun _ => ⟨apart.answered, fun some got few => ?_⟩, 0, fun n less => .inl (apart.answered n less)⟩
    rw [apart.full some]
    exact handle_full lib few
  · refine ⟨fun running => absurd exited running, last, fun n less => ?_⟩
    by_cases here : n = last
    · exact .inr ⟨here, here ▸ broken⟩
    · exact .inl (others n less here)

def sums : Doubles ℚ := rationals (known [(ascii "1 + 2", ⟨ascii "+", some (1, 2)⟩)])

theorem clients_apart_sum :
    ∃ server, (default : Start).server = .ok server ∧
      ∀ t, Relation.ReflTransGen (Step sums) (.start server (zeros 1024)) t →
        (t.server.point ≠ .exited →
          (∀ n < t.server.accepted, Answered sums (t.got (.client n)) (t.wrote (.client n))) ∧
          (0 < t.server.accepted → ∀ got, got.length ≤ 1024 →
            handle sums t.buff got = (responds sums got).map fun answer => (answer ++ [0], full))) ∧
        ∃ last, ∀ n < t.server.accepted, Answered sums (t.got (.client n)) (t.wrote (.client n)) ∨
          n = last ∧ BrokenOff sums (t.got (.client n)) (t.wrote (.client n)) :=
  clients_apart _ default (zeros 1024) (zeros_length 1024)

end Runs
end Tasks.Tcp.Service
