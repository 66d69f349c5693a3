import Tasks.Tcp.Calculator
import Mathlib.Algebra.Order.Ring.Nat

/-! When a session with the calculator is faithful to the lines typed at the client. -/
namespace Tasks.Tcp.Calculator

open Kit Kit.Bytes Kit.Lines

variable {lib : Doubles D} {task : Task} {typed : Typed} {c d : Session D} {event : Event}
  {text message buff : Bytes} {steps : List (Session D × Event)}

section Client

theorem fgetsText_line (clean : 0 ∉ line) (oneLine : 10 ∉ line) (short : line.length < 1023)
    (rest text : Bytes) : fgetsText 1024 (line ++ 10 :: rest) text = (line ++ [10], rest) := by
  have whole : (line ++ [10]).takeWhile (· ≠ 0) = line ++ [10] :=
    text_clean (List.not_mem_append clean (by simp))
  rw [fgetsText, fgets_line line rest oneLine short]
  exact congrArg (·, rest) whole

theorem fgetsText_clean (clean : 0 ∉ text) (size : Nat) (input : Bytes) :
    0 ∉ (fgetsText size input text).1 := by
  unfold fgetsText
  split
  · exact clean
  · intro member
    simpa using List.mem_takeWhile_imp member

theorem typeLine_text (read : fgetsText 1024 c.stdin c.message = (text, rest)) (other : text ≠ ascii "q") :
    typeLine c = { c with
      message := text
      stdin := rest
      sent := c.sent ++ [text]
      stream := c.stream ++ (text ++ [0]) } := by
  unfold typeLine
  rw [read]
  exact if_neg other

theorem typeLine_quit (read : fgetsText 1024 c.stdin c.message = (ascii "q", rest)) :
    typeLine c = { c with client := .stopped, message := ascii "q", stdin := rest } := by
  unfold typeLine
  rw [read]
  exact if_pos rfl

theorem request_ne_quit (line : Bytes) : line ++ [10] ≠ ascii "q" := by
  intro same
  have last := congrArg List.getLast? same
  simp [ascii] at last

inductive Phase (typed : Typed) (c : Session D) : Prop where
  | typing (here : c.client = .typing) (lines : typed.lines = done ++ rest)
      (sent : c.sent = done.map (· ++ [10]))
      (stdin : c.stdin = rest.flatMap (· ++ [10]) ++ quitting typed.after)
  | stopped (here : c.client = .stopped) (last : typed.after = none) (sent : c.sent = typed.requests)
  | missed (more : typed.after ≠ none) (sent : typed.requests ++ [ascii "q\n"] <+: c.sent)
      (clean : 0 ∉ c.message)

inductive Types (c d : Session D) : Prop where
  | sends (line : Bytes) (client : d.client = .typing) (clean : 0 ∉ line)
      (sent : d.sent = c.sent ++ [line]) (stream : d.stream = c.stream ++ (line ++ [0]))
  | stops (client : d.client = .stopped) (sent : d.sent = c.sent) (stream : d.stream = c.stream)

theorem types_text (here : c.client = .typing) (clean : 0 ∉ text)
    (read : fgetsText 1024 c.stdin c.message = (text, rest)) (other : text ≠ ascii "q") :
    Types c (typeLine c) := by
  rw [typeLine_text read other]
  exact .sends _ here clean rfl rfl

theorem types_quit (read : fgetsText 1024 c.stdin c.message = (ascii "q", rest)) :
    Types c (typeLine c) := by
  rw [typeLine_quit read]
  exact .stops rfl rfl rfl

theorem line_phase (here : c.client = .typing) (lines : typed.lines = done ++ line :: rest)
    (sent : c.sent = done.map (· ++ [10]))
    (stdin : c.stdin = (line :: rest).flatMap (· ++ [10]) ++ quitting typed.after) :
    Phase typed (typeLine c) ∧ Types c (typeLine c) := by
  obtain ⟨clean, oneLine, short, _⟩ := typed.text line (by simp [lines])
  have read : fgetsText 1024 c.stdin c.message =
      (line ++ [10], rest.flatMap (· ++ [10]) ++ quitting typed.after) := by
    rw [stdin, List.flatMap_cons, List.append_assoc, List.append_assoc]
    exact fgetsText_line clean oneLine short _ _
  refine ⟨?_, types_text here (by simp [clean]) read (request_ne_quit line)⟩
  rw [typeLine_text read (request_ne_quit line)]
  have split : typed.lines = (done ++ [line]) ++ rest := by simp [lines]
  exact .typing here split (by simp [sent]) rfl

theorem quit_phase (here : c.client = .typing) (sent : c.sent = typed.requests)
    (stdin : c.stdin = quitting typed.after) : Phase typed (typeLine c) ∧ Types c (typeLine c) := by
  cases after : typed.after with
  | none =>
    have read : fgetsText 1024 c.stdin c.message = (ascii "q", []) := by
      rw [stdin, after]
      rfl
    refine ⟨?_, types_quit read⟩
    rw [typeLine_quit read]
    exact .stopped rfl after sent
  | some rest =>
    have read : fgetsText 1024 c.stdin c.message = (ascii "q\n", rest) := by
      rw [stdin, after]
      have clean : 0 ∉ ascii "q" := by decide
      exact fgetsText_line clean (by decide) (by decide) rest _
    have clean : 0 ∉ ascii "q\n" := by decide
    refine ⟨?_, types_text here clean read (by decide)⟩
    rw [typeLine_text read (by decide)]
    exact .missed (by simp [after]) (by rw [sent]) clean

/-- The client types on behind the `q` that it has sent. -/
theorem missed_phase (here : c.client = .typing) (more : typed.after ≠ none)
    (sent : typed.requests ++ [ascii "q\n"] <+: c.sent) (clean : 0 ∉ c.message) :
    Phase typed (typeLine c) ∧ Types c (typeLine c) := by
  obtain ⟨line, rest, read⟩ : ∃ line rest, fgetsText 1024 c.stdin c.message = (line, rest) :=
    ⟨_, _, rfl⟩
  have clean : 0 ∉ line := by
    have kept := fgetsText_clean clean 1024 c.stdin
    rwa [read] at kept
  by_cases quit : line = ascii "q"
  · subst quit
    refine ⟨?_, types_quit read⟩
    rw [typeLine_quit read]
    exact .missed more sent clean
  · refine ⟨?_, types_text here clean read quit⟩
    rw [typeLine_text read quit]
    exact .missed more (sent.trans (List.prefix_append ..)) clean

theorem typeLine_phase (phase : Phase typed c) (here : c.client = .typing) :
    Phase typed (typeLine c) ∧ Types c (typeLine c) := by
  cases phase with
  | @typing before rest _ lines sent stdin =>
    cases rest with
    | nil =>
      rw [List.append_nil] at lines
      subst lines
      exact quit_phase here sent stdin
    | cons line rest => exact line_phase here lines sent stdin
  | stopped stopped => simp [stopped] at here
  | missed more sent clean => exact missed_phase here more sent clean

end Client

section Server

/-- What is pending when one text after the other is read whole. -/
def Pending (c : Session D) : Prop :=
  ∃ pending, c.sent = c.evaluated ++ pending ∧ c.stream = packets pending

theorem serve_text (clean : 0 ∉ text) (defined : Defined lib task c.result text) :
    ∃ result buff, serve lib task c (text ++ [0]) = { c with
      stream := c.stream.drop (text.length + 1)
      evaluated := c.evaluated ++ [text]
      result := result
      buff := buff } := by
  obtain ⟨reply, replied⟩ := Option.isSome_iff_exists.mp
    ((calculate_isSome lib task c.result (overlay c.buff (text ++ [0])) text).mpr defined)
  refine ⟨reply.1, task.copy reply.2 prompt, ?_⟩
  unfold serve
  simp only [cstr_overlay clean, replied, List.length_append, List.length_singleton]

/-- A text that is read with its NUL is the first of those pending. -/
theorem pending_first (texts : ∀ text ∈ pending, 0 ∉ text) (clean : 0 ∉ text)
    (taken : text ++ [0] <+: packets pending) : ∃ later, pending = text :: later := by
  obtain ⟨more, same⟩ := taken
  cases pending with
  | nil => simp at same
  | cons first later =>
    rw [List.append_assoc, packets_cons] at same
    obtain ⟨rfl, _⟩ := packet_inj clean (texts first (by simp)) same
    exact ⟨later, rfl⟩

theorem serve_pending (pending : Pending c) (texts : ∀ text ∈ c.sent, 0 ∉ text) (clean : 0 ∉ text)
    (taken : Front (text ++ [0]) (c.stream.take 1024)) (defined : Defined lib task c.result text) :
    Pending (serve lib task c (text ++ [0])) := by
  obtain ⟨waiting, sent, stream⟩ := pending
  have front := taken.front.trans (List.take_prefix 1024 c.stream)
  rw [stream] at front
  obtain ⟨later, rfl⟩ := pending_first (fun text member => texts text (by simp [sent, member])) clean front
  obtain ⟨result, buff, served⟩ := serve_text (c := c) clean defined
  rw [served]
  refine ⟨later, by simp [sent], ?_⟩
  have after : c.stream = (text ++ [0]) ++ packets later := by simp [stream]
  rw [after]
  exact List.drop_left' (by simp)

end Server

section Runs

structure Carried (typed : Typed) (c : Session D) : Prop where
  phase : Phase typed c
  texts : ∀ text ∈ c.sent, 0 ∉ text
  pending : Pending c
  through : c.server ≠ .reading → c.stream = [] ∧ c.client ≠ .typing

theorem typeLine_server (c : Session D) :
    (typeLine c).server = c.server ∧ (typeLine c).evaluated = c.evaluated := by
  unfold typeLine
  dsimp only
  split <;> simp

theorem phase_same (phase : Phase typed c) (client : d.client = c.client) (sent : d.sent = c.sent)
    (stdin : d.stdin = c.stdin) (message : d.message = c.message) : Phase typed d := by
  cases phase with
  | typing here lines sent' stdin' =>
    exact .typing (client.trans here) lines (sent.trans sent') (stdin.trans stdin')
  | stopped here last sent' => exact .stopped (client.trans here) last (sent.trans sent')
  | missed more sent' clean => exact .missed more (sent ▸ sent') (message ▸ clean)

theorem type_carried (carried : Carried typed c) (here : c.client = .typing) :
    Carried typed (typeLine c) := by
  obtain ⟨server, evaluated⟩ := typeLine_server c
  obtain ⟨phase, typing⟩ := typeLine_phase carried.phase here
  have reading : c.server = .reading := by
    by_contra gone
    exact (carried.through gone).2 here
  obtain ⟨pending, before, stream⟩ := carried.pending
  cases typing with
  | sends text _ clean sent more =>
    refine ⟨phase, fun text' member => ?_, ⟨pending ++ [text], ?_, ?_⟩,
      fun gone => absurd (server.trans reading) gone⟩
    · rw [sent] at member
      rcases List.mem_append.mp member with old | new
      · exact carried.texts text' old
      · exact List.mem_singleton.mp new ▸ clean
    · rw [sent, evaluated, before, List.append_assoc]
    · simp [more, stream]
  | stops _ sent same =>
    have still : (typeLine c).sent = (typeLine c).evaluated ++ pending := by rw [sent, evaluated, before]
    exact ⟨phase, sent ▸ carried.texts, ⟨pending, still, same.trans stream⟩,
      fun gone => absurd (server.trans reading) gone⟩

theorem step_carried (carried : Carried typed c) (careful : Careful lib task c event)
    (step : Step lib task c event d) : Carried typed d := by
  cases step with
  | type here => exact type_carried carried here
  | read here taken =>
    obtain ⟨text, clean, rfl, defined⟩ := careful
    have pending := serve_pending carried.pending carried.texts clean taken defined
    obtain ⟨result, buff, served⟩ := serve_text (c := c) clean defined
    rw [served] at pending ⊢
    exact ⟨phase_same carried.phase rfl rfl rfl rfl, carried.texts, pending, fun gone => absurd here gone⟩
  | readEnd here empty closed =>
    exact ⟨phase_same carried.phase rfl rfl rfl rfl, carried.texts, carried.pending, fun _ => ⟨empty, closed⟩⟩
  | quit here why =>
    exact ⟨phase_same carried.phase rfl rfl rfl rfl, carried.texts, carried.pending, fun _ => careful⟩
  | fail here gone => exact absurd here (carried.through gone).2

theorem start_carried (typed : Typed) (task : Task) (message buff : Bytes) :
    Carried typed (.start task typed.input message buff : Session D) where
  phase := .typing rfl (List.nil_append _).symm rfl rfl
  texts := by simp [Session.start]
  pending := ⟨[], rfl, rfl⟩
  through gone := absurd rfl gone

structure CarefulRun (lib : Doubles D) (task : Task) (start : Session D) (steps : List (Session D × Event))
    (c : Session D) : Prop where
  trace : Trace (Step lib task) start steps c
  careful : ∀ x ∈ steps, Careful lib task x.1 x.2

theorem CarefulRun.carried (run : CarefulRun lib task (.start task typed.input message buff) steps c) :
    Carried typed c :=
  run.trace.allowed_invariant (Carried typed) (fun _ _ _ => step_carried) run.careful
    (start_carried typed task message buff)

/-- The texts sent, as long as the client is in the lines or has stopped at `q`. -/
theorem carried_requests (carried : Carried typed c) (last : typed.after = none) :
    c.sent <+: typed.requests ∧ (c.client ≠ .typing → c.client = .stopped ∧ c.sent = typed.requests) := by
  cases carried.phase with
  | typing here lines sent stdin =>
    refine ⟨?_, fun other => absurd here other⟩
    rw [sent, Typed.requests, lines, List.map_append]
    exact List.prefix_append ..
  | stopped here _ sent => exact ⟨sent ▸ List.prefix_rfl, fun _ => ⟨here, sent⟩⟩
  | missed more => exact absurd last more

theorem carried_evaluated (carried : Carried typed c) : c.evaluated <+: c.sent := by
  obtain ⟨pending, sent, _⟩ := carried.pending
  exact sent ▸ List.prefix_append ..

/-- A server that is through has evaluated all that was sent. -/
theorem carried_over (carried : Carried typed c) (through : c.server ≠ .reading) : c.evaluated = c.sent := by
  obtain ⟨pending, sent, stream⟩ := carried.pending
  cases pending with
  | nil => simpa using sent.symm
  | cons text later => simp [(carried.through through).1] at stream

theorem typing_sent (carried : Carried typed c) (typing : ¬ typed.requests ++ [ascii "q\n"] <+: c.sent) :
    c.sent <+: typed.requests := by
  cases carried.phase with
  | typing here lines sent stdin =>
    rw [sent, Typed.requests, lines, List.map_append]
    exact List.prefix_append ..
  | stopped here _ sent => exact sent ▸ List.prefix_rfl
  | missed _ sent => exact absurd sent typing

def Session.count (c : Session D) : Nat :=
  c.sent.length + c.evaluated.length + (if c.client = .typing then 0 else 1) +
    if c.server = .reading then 0 else 1

theorem step_count (carried : Carried typed c) (careful : Careful lib task c event)
    (step : Step lib task c event d) : d.count = c.count + 1 := by
  cases step with
  | type here =>
    obtain ⟨server, evaluated⟩ := typeLine_server c
    cases (typeLine_phase carried.phase here).2 with
    | sends _ typing _ sent =>
      simp only [Session.count, server, evaluated, typing, here, sent, List.length_append,
        List.length_singleton]
      omega
    | stops stopped sent =>
      simp only [Session.count, server, evaluated, stopped, here, sent]
      simp
      omega
  | read here taken =>
    obtain ⟨text, clean, rfl, defined⟩ := careful
    obtain ⟨result, buff, served⟩ := serve_text (c := c) clean defined
    rw [served]
    simp only [Session.count, List.length_append, List.length_singleton]
    omega
  | readEnd here | quit here => simp [Session.count, here]
  | fail here gone => exact absurd here (carried.through gone).2

theorem CarefulRun.count (run : CarefulRun lib task (.start task typed.input message buff) steps c) :
    steps.length = c.count := by
  obtain ⟨trace, careful⟩ := run
  induction trace with
  | nil => rfl
  | snoc front last ih =>
    have earlier := fun x member => careful x (List.mem_append_left _ member)
    have carried := (CarefulRun.mk front earlier).carried
    have here := careful _ (List.mem_append_right _ (List.mem_singleton_self _))
    rw [step_count carried here last, ← ih earlier, List.length_append, List.length_singleton]

theorem request_length (member : text ∈ typed.requests) : text.length ≤ 1023 := by
  obtain ⟨line, inside, rfl⟩ := List.mem_map.mp member
  obtain ⟨_, _, short, _⟩ := typed.text line inside
  rw [List.length_append, List.length_singleton]
  exact short

theorem carried_progress (carried : Carried typed c) (last : typed.after = none)
    (reading : c.server = .reading) :
    (∃ event d, Step lib task c event d ∧ Careful lib task c event) ∨
      ∃ text, c.sent[c.evaluated.length]? = some text ∧ ¬ Defined lib task c.result text := by
  by_cases typing : c.client = .typing
  · exact .inl ⟨_, _, .type typing, trivial⟩
  · obtain ⟨pending, sent, stream⟩ := carried.pending
    cases pending with
    | nil => exact .inl ⟨_, _, .readEnd reading stream typing, trivial⟩
    | cons text later =>
      by_cases defined : Defined lib task c.result text
      · have inside : text ∈ c.sent := by simp [sent]
        have short := request_length ((carried_requests carried last).1.subset inside)
        have taken : Front (text ++ [0]) (c.stream.take 1024) := by
          refine ⟨by simp, List.prefix_take_iff.mpr ⟨?_, by simp; omega⟩⟩
          exact ⟨packets later, by simp [stream]⟩
        exact .inl ⟨_, _, .read reading taken, text, carried.texts text inside, rfl, defined⟩
      · exact .inr ⟨text, by simp [sent], defined⟩

structure Faithful (typed : Typed) (c : Session D) : Prop where
  stopped : c.client = .stopped
  sent : c.sent = typed.requests
  evaluated : c.evaluated = typed.requests

/-- Careful runs are faithful if and only if no newline follows `q`: with a newline, `q` is
evaluated like any other line. -/
structure FaithfulIffUnterminated (lib : Doubles D) (task : Task) (typed : Typed) (start : Session D) :
    Prop where
  inOrder : typed.after = none → ∀ steps c, CarefulRun lib task start steps c →
    c.evaluated <+: typed.requests
  faithful : ∀ steps c, CarefulRun lib task start steps c → c.server ≠ .reading →
    (Faithful typed c ↔ typed.after = none)
  quits : typed.after ≠ none → ∀ steps c, CarefulRun lib task start steps c →
    typed.requests.length < c.evaluated.length → typed.requests ++ [ascii "q\n"] <+: c.evaluated
  /-- Such a run comes to its end, unless the reply to the next line is undefined. -/
  ends : typed.after = none → ∀ steps c, CarefulRun lib task start steps c →
    steps.length ≤ 2 * typed.lines.length + 2 ∧
      (c.server ≠ .reading ∨ (∃ event d, Step lib task c event d ∧ Careful lib task c event) ∨
        ∃ text, c.sent[c.evaluated.length]? = some text ∧ ¬ Defined lib task c.result text)

/-- For every sequence of lines, and whatever the arrays held. -/
theorem calculator_faithful_iff (lib : Doubles D) (task : Task) (typed : Typed) (message buff : Bytes) :
    FaithfulIffUnterminated lib task typed (.start task typed.input message buff) := by
  constructor
  · intro last steps c run
    have carried := run.carried
    exact (carried_evaluated carried).trans (carried_requests carried last).1
  · intro steps c run through
    have carried := run.carried
    have evaluated := carried_over carried through
    constructor
    · intro faithful
      cases carried.phase with
      | typing here => exact absurd (here.symm.trans faithful.stopped) (by decide)
      | stopped _ last => exact last
      | missed _ sent =>
        have longer := sent.length_le
        simp [faithful.sent] at longer
    · intro last
      obtain ⟨stopped, sent⟩ := (carried_requests carried last).2 (carried.through through).2
      exact ⟨stopped, sent, evaluated.trans sent⟩
  · intro more steps c run longer
    have carried := run.carried
    have evaluated := carried_evaluated carried
    have missed : typed.requests ++ [ascii "q\n"] <+: c.sent := by
      by_contra typing
      have shorter := evaluated.length_le.trans (typing_sent carried typing).length_le
      omega
    exact List.prefix_of_prefix_length_le missed evaluated (by simpa using Nat.succ_le_of_lt longer)
  · intro last steps c run
    have carried := run.carried
    constructor
    · have sent := (carried_requests carried last).1.length_le
      have evaluated := (carried_evaluated carried).length_le
      rw [run.count, Session.count]
      simp only [Typed.requests, List.length_map] at sent
      split <;> split <;> omega
    · by_cases reading : c.server = .reading
      · exact .inr (carried_progress carried last reading)
      · exact .inl reading

/-- The server evaluates `q`. -/
theorem quit_evaluated :
    ¬ ∀ (typed : Typed) (lib : Doubles Unit) steps c,
      Trace (Step lib .task18) (.start .task18 typed.input [] (zeros 1024)) steps c →
        c.evaluated <+: typed.requests := by
  intro law
  let typed : Typed := ⟨[], by simp, some []⟩
  let lib : Doubles Unit :=
    ⟨fun _ => ⟨[], none⟩, fun _ => [], (), fun _ => true, fun _ _ => (), fun _ _ => (), fun _ _ => (), fun _ _ => ()⟩
  let start : Session Unit := .start .task18 typed.input [] (zeros 1024)
  let sent : Session Unit := { start with
    message := ascii "q\n", stdin := [], sent := [ascii "q\n"], stream := ascii "q\n" ++ [0] }
  have types : Trace (Step lib .task18) start [(start, .type)] sent := .single (.type rfl)
  have taken : Front (ascii "q\n" ++ [0]) (sent.stream.take 1024) := ⟨by decide, List.prefix_rfl⟩
  have reads := types.snoc (.read rfl taken)
  have clean : 0 ∉ ascii "q\n" := by decide
  have defined : Defined lib .task18 sent.result (ascii "q\n") := ⟨by decide, by simp [lib]⟩
  obtain ⟨result, buff, served⟩ := serve_text clean defined
  rw [served] at reads
  have wrong := law typed lib _ _ reads
  simp [typed, sent, start, Session.start, Typed.requests] at wrong

end Runs

end Tasks.Tcp.Calculator
