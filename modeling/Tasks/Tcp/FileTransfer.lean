import Tasks.Kit.Run
import Tasks.Kit.Stream

/-! Module 3, Task 16: a file goes over a TCP connection, behind its path. -/
namespace Tasks.Tcp.FileTransfer

open Kit Kit.Bytes

/-- What `scanf` can store in `char path[100]`. -/
structure Path where
  text : Bytes
  clean : 0 ∉ text
  nonempty : text ≠ []
  short : text.length < 100

/-- `int size` of both programs -/
def size : Nat := 50000

/-- Where `sendFile` is, with what it has not passed to `send` yet. -/
inductive Client where
  | naming (path file : Bytes)
  | sending (rest : Bytes)
  | closed
  deriving DecidableEq, Repr

def Client.left : Client → Bytes
  | .naming path file => path ++ 0 :: file
  | .sending rest => rest
  | .closed => []

/-- What is passed to `send` next, after an `fread` where the file is sent. -/
def Client.argument : Client → Bytes
  | .naming path _ => path ++ [0]
  | .sending rest => rest.take size
  | .closed => []

/-- `send` is not called again for what it did not accept. -/
def Client.next : Client → Client
  | .naming _ file => .sending file
  | .sending rest => .sending (rest.drop size)
  | .closed => .closed

/-- Where `recv_file` is. -/
inductive Server where
  | naming
  | writing
  | closed
  deriving DecidableEq, Repr

structure Transfer where
  client : Client
  stream : Bytes
  server : Server
  /-- What the `recv` into `path` returned. -/
  head : Bytes
  written : Bytes
  deriving DecidableEq, Repr

def Transfer.start (path : Path) (file : Bytes) : Transfer := ⟨.naming path.text file, [], .naming, [], []⟩

/-- The string passed to `fopen`, for what the array held before. -/
def Transfer.opened (c : Transfer) (array : Bytes) : Except Fault Bytes := cstr (overlay array c.head) 0

inductive Event where
  | send (sent : Bytes)
  | exit
  | recvPath (got : Bytes)
  | recvData (got : Bytes)
  | recvEnd
  deriving DecidableEq, Repr

/-- One system call on the connection. -/
inductive Step (c : Transfer) : Event → Transfer → Prop where
  | send (accepted : Front sent c.client.argument) :
      Step c (.send sent) { c with client := c.client.next, stream := c.stream ++ sent }
  /-- `fread` is at the end of the file, and the process exits. -/
  | exit (here : c.client = .sending []) : Step c .exit { c with client := .closed }
  | recvPath (here : c.server = .naming) (taken : Front got (c.stream.take 100)) :
      Step c (.recvPath got)
        { c with server := .writing, stream := c.stream.drop got.length, head := got }
  | recvData (here : c.server = .writing) (taken : Front got (c.stream.take size)) :
      Step c (.recvData got)
        { c with stream := c.stream.drop got.length, written := c.written ++ got }
  | recvEnd (here : c.server = .writing) (empty : c.stream = []) (closed : c.client = .closed) :
      Step c .recvEnd { c with server := .closed }

/-- The path and the file arrived, whatever the array held. -/
def Lossless (path : Path) (file : Bytes) (c : Transfer) : Prop :=
  (∀ array, array.length = 100 → c.opened array = .ok path.text) ∧ c.written = file

/-- `send` accepts its whole argument, and the first `recv` returns the path and its NUL. -/
def Careful (path : Path) (c : Transfer) : Event → Prop
  | .send sent => sent = c.client.argument
  | .recvPath got => got = path.text ++ [0]
  | _ => True

section Steps

variable {path : Path} {file : Bytes} {c d : Transfer} {event : Event} {sent : Bytes}

theorem argument_next (client : Client) : client.argument ++ client.next.left = client.left := by
  cases client <;> simp [Client.argument, Client.next, Client.left]

def Transfer.content (c : Transfer) : Bytes := c.head ++ c.written ++ c.stream ++ c.client.left

structure Ordered (c : Transfer) : Prop where
  fresh : c.server = .naming → c.head = [] ∧ c.written = []
  named : c.server = .naming → (∃ path file, c.client = .naming path file) ∨ c.stream ≠ []
  ended : c.server = .closed → c.stream = [] ∧ c.client = .closed

theorem closed_left (closed : client = Client.closed) : client.left = [] := by
  rw [closed]
  rfl

theorem start_ordered (path : Path) (file : Bytes) : Ordered (.start path file) := by
  constructor <;> simp [Transfer.start]

theorem step_ordered (ordered : Ordered c) (step : Step c event d) : Ordered d := by
  cases step with
  | send accepted =>
    refine ⟨ordered.fresh, fun _ => .inr ?_, fun closed => ?_⟩
    · simp [accepted.nonempty]
    · have none : c.client.argument = [] := by simp [(ordered.ended closed).2, Client.argument]
      exact absurd none accepted.whole_ne
  | exit here =>
    refine ⟨ordered.fresh, fun named => .inr ?_, fun closed => ⟨(ordered.ended closed).1, rfl⟩⟩
    simpa [here] using ordered.named named
  | recvPath here taken => constructor <;> simp
  | recvData here taken => constructor <;> simp [here]
  | recvEnd here empty closed => constructor <;> simp [empty, closed]

/-- `recv` moves the content on, and a short `send` drops the rest of its argument. -/
theorem step_content (ordered : Ordered c) (step : Step c event d) :
    (∃ sent, event = .send sent ∧ Front sent c.client.argument ∧
        d.content = c.head ++ c.written ++ c.stream ++ sent ++ c.client.next.left) ∨
      (∀ sent, event ≠ .send sent) ∧ d.content = c.content := by
  cases step with
  | send accepted => exact .inl ⟨_, rfl, accepted, by simp [Transfer.content]⟩
  | exit here => exact .inr ⟨nofun, by simp [Transfer.content, here, Client.left]⟩
  | recvPath here taken =>
    obtain ⟨head, written⟩ := ordered.fresh here
    exact .inr ⟨nofun, by simp [Transfer.content, head, written, taken.split]⟩
  | recvData here taken =>
    have split := taken.split
    refine .inr ⟨nofun, ?_⟩
    simp only [Transfer.content, List.append_assoc]
    rw [← List.append_assoc _ (c.stream.drop _), split]
  | recvEnd here empty closed => exact .inr ⟨nofun, rfl⟩

theorem careful_content (ordered : Ordered c) (careful : Careful path c event) (step : Step c event d) :
    d.content = c.content := by
  rcases step_content ordered step with ⟨sent, rfl, _, content⟩ | ⟨_, same⟩
  · have whole : sent = c.client.argument := careful
    rw [content, whole, List.append_assoc, argument_next]
    rfl
  · exact same

/-- How much a `send` loses. -/
theorem sent_length (accepted : Front sent c.client.argument)
    (content : d.content = c.head ++ c.written ++ c.stream ++ sent ++ c.client.next.left) :
    d.content.length + (c.client.argument.length - sent.length) = c.content.length := by
  have lengths := congrArg List.length (argument_next c.client)
  have shorter := accepted.length_le
  rw [content]
  simp only [Transfer.content, List.length_append] at lengths ⊢
  omega

theorem content_length (ordered : Ordered c) (step : Step c event d) :
    d.content.length ≤ c.content.length := by
  rcases step_content ordered step with ⟨sent, _, accepted, content⟩ | ⟨_, same⟩
  · have lost := sent_length accepted content
    omega
  · rw [same]

/-- The first `recv` alone stores the path. -/
theorem step_head (step : Step c event d) :
    (d.head = c.head ∧ (d.server = .naming ↔ c.server = .naming)) ∨
      c.server = .naming ∧ d.server = .writing ∧ ∃ got, event = .recvPath got ∧ d.head = got := by
  cases step with
  | send | exit => exact .inl ⟨rfl, Iff.rfl⟩
  | recvPath here taken => exact .inr ⟨here, rfl, _, rfl, rfl⟩
  | recvData here taken => exact .inl ⟨rfl, Iff.rfl⟩
  | recvEnd here => exact .inl ⟨rfl, by simp [here]⟩

structure Good (path : Path) (file : Bytes) (c : Transfer) : Prop where
  content : c.content = path.text ++ 0 :: file
  head : c.server ≠ .naming → c.head = path.text ++ [0]

/-- Something is lost for ever, or the path is already wrong. -/
def Spoilt (path : Path) (file : Bytes) (c : Transfer) : Prop :=
  c.content.length < (path.text ++ 0 :: file).length ∨ c.server ≠ .naming ∧ c.head ≠ path.text ++ [0]

theorem step_good (ordered : Ordered c) (good : Good path file c) (careful : Careful path c event)
    (step : Step c event d) : Good path file d := by
  refine ⟨(careful_content ordered careful step).trans good.content, fun named => ?_⟩
  rcases step_head step with ⟨same, server⟩ | ⟨_, _, got, rfl, head⟩
  · exact same ▸ good.head (mt server.mpr named)
  · exact head.trans careful

theorem step_spoils (ordered : Ordered c) (good : Good path file c) (careless : ¬ Careful path c event)
    (step : Step c event d) : Spoilt path file d := by
  cases event with
  | send sent =>
    rcases step_content ordered step with ⟨sent, same, accepted, content⟩ | ⟨none, _⟩
    · cases same
      have lost := sent_length accepted content
      have shorter : sent.length < c.client.argument.length :=
        Nat.lt_of_le_of_ne accepted.length_le fun same => careless (accepted.eq_of_length same)
      refine .inl ?_
      rw [← good.content]
      omega
    · exact absurd rfl (none sent)
  | recvPath got =>
    cases step with
    | recvPath here taken => exact .inr ⟨by simp, careless⟩
  | exit | recvData | recvEnd => exact absurd trivial careless

theorem step_spoilt (ordered : Ordered c) (spoilt : Spoilt path file c) (step : Step c event d) :
    Spoilt path file d := by
  rcases spoilt with lost | ⟨named, head⟩
  · exact .inl (Nat.lt_of_le_of_lt (content_length ordered step) lost)
  · rcases step_head step with ⟨same, server⟩ | ⟨naming, _⟩
    · exact .inr ⟨mt server.mp named, same ▸ head⟩
    · exact absurd naming named

theorem good_not_spoilt (good : Good path file c) : ¬ Spoilt path file c := by
  rintro (lost | ⟨named, head⟩)
  · exact absurd (congrArg List.length good.content) (Nat.ne_of_lt lost)
  · exact head (good.head named)

theorem start_good (path : Path) (file : Bytes) : Good path file (.start path file) :=
  ⟨by simp [Transfer.content, Transfer.start, Client.left], fun named => absurd rfl named⟩

end Steps

section Runs

variable {path : Path} {file : Bytes} {c d : Transfer} {event : Event} {steps : List (Transfer × Event)}

theorem run_ordered (trace : Trace Step (.start path file) steps c) : Ordered c :=
  trace.invariant Ordered (fun _ _ _ => step_ordered) (start_ordered path file)

theorem run_content_length (trace : Trace Step (.start path file) steps c) :
    c.content.length ≤ (path.text ++ 0 :: file).length := by
  refine (trace.invariant (fun c => Ordered c ∧ c.content.length ≤ (path.text ++ 0 :: file).length) ?_
    ⟨start_ordered path file, ?_⟩).2
  · rintro c event d ⟨ordered, bounded⟩ step
    exact ⟨step_ordered ordered step, (content_length ordered step).trans bounded⟩
  · rw [(start_good path file).content]

theorem run_good_iff (trace : Trace Step (.start path file) steps c) :
    Good path file c ↔ ∀ x ∈ steps, Careful path x.1 x.2 := by
  have result := trace.good_iff (Careful path) (fun c => Ordered c ∧ Good path file c)
    (fun c => Ordered c ∧ Spoilt path file c)
    (fun _ _ _ good careful step =>
      ⟨step_ordered good.1 step, step_good good.1 good.2 careful step⟩)
    (fun _ _ _ good careless step =>
      ⟨step_ordered good.1 step, step_spoils good.1 good.2 careless step⟩)
    (fun _ _ _ spoilt step => ⟨step_ordered spoilt.1 step, step_spoilt spoilt.1 spoilt.2 step⟩)
    (fun _ good spoilt => good_not_spoilt good.2 spoilt.2)
    ⟨start_ordered path file, start_good path file⟩
  rw [← result.1]
  exact ⟨fun good => ⟨run_ordered trace, good⟩, And.right⟩

/-- At the end of the stream the content is what arrived. -/
theorem lossless_iff_good (ended : c.server = .closed) (ordered : Ordered c)
    (bounded : c.content.length ≤ (path.text ++ 0 :: file).length) :
    Lossless path file c ↔ Good path file c := by
  obtain ⟨empty, closed⟩ := ordered.ended ended
  have content : c.content = c.head ++ c.written := by
    simp [Transfer.content, empty, closed_left closed]
  constructor
  · rintro ⟨opened, rfl⟩
    obtain ⟨more, head⟩ := overlay_determined opened
    have none : more = [] := by
      rw [content, head] at bounded
      simp only [List.length_append, List.length_cons] at bounded
      exact List.eq_nil_of_length_eq_zero (by omega)
    subst none
    exact ⟨by simp [content, head], fun _ => head⟩
  · intro good
    have head := good.head (by simp [ended])
    refine ⟨fun array _ => ?_, ?_⟩
    · rw [Transfer.opened, head]
      exact cstr_overlay path.clean array []
    · have whole := content.symm.trans good.content
      simpa [head] using whole

def Transfer.remaining (c : Transfer) : Nat :=
  2 * c.client.left.length + c.stream.length + (if c.client = .closed then 0 else 1) +
    if c.server = .closed then 0 else 1

theorem step_remaining (step : Step c event d) : d.remaining < c.remaining := by
  cases step with
  | send accepted =>
    have lengths := congrArg List.length (argument_next c.client)
    have shorter := accepted.length_le
    have more := accepted.pos
    have going : c.client ≠ .closed ∧ c.client.next ≠ .closed := by
      cases here : c.client with
      | naming | sending => simp [Client.next]
      | closed => exact absurd (by rw [here]; rfl) accepted.whole_ne
    simp only [Transfer.remaining, if_neg going.1, if_neg going.2, List.length_append] at lengths ⊢
    omega
  | exit here => simp [Transfer.remaining, here, Client.left]
  | recvPath here taken | recvData here taken =>
    have more := taken.pos
    have split := congrArg List.length taken.split
    simp only [Transfer.remaining, here, List.length_append] at split ⊢
    simp
    omega
  | recvEnd here empty closed => simp [Transfer.remaining, here]

theorem run_length (trace : Trace Step start steps c) : steps.length + c.remaining ≤ start.remaining := by
  induction trace with
  | nil => simp
  | snoc _ last ih =>
    have less := step_remaining last
    simp only [List.length_append, List.length_singleton]
    omega

/-- Only the end of the stream ends a run. -/
theorem ordered_progress (ordered : Ordered c) : c.server = .closed ∨ ∃ event d, Step c event d := by
  by_cases pending : c.stream = []
  · cases client : c.client with
    | naming path file =>
      have more : c.client.argument ≠ [] := by simp [client, Client.argument]
      exact .inr ⟨_, _, .send (.all more)⟩
    | sending rest =>
      by_cases end' : rest = []
      · exact .inr ⟨_, _, .exit (end' ▸ client)⟩
      · have more : c.client.argument ≠ [] := by simp [client, Client.argument, size, end']
        exact .inr ⟨_, _, .send (.all more)⟩
    | closed =>
      cases server : c.server with
      | naming => simpa [client, pending] using ordered.named server
      | writing => exact .inr ⟨_, _, .recvEnd server pending client⟩
      | closed => exact .inl rfl
  · cases server : c.server with
    | naming => exact .inr ⟨_, _, .recvPath server (.all (by simp [pending]))⟩
    | writing => exact .inr ⟨_, _, .recvData server (.all (by simp [pending, size]))⟩
    | closed => exact .inl rfl

/-- A transfer is lossless if and only if all its steps are careful, and every transfer ends. -/
structure LosslessIffCareful (path : Path) (file : Bytes) : Prop where
  lossless : ∀ steps c, Trace Step (.start path file) steps c → c.server = .closed →
    (Lossless path file c ↔ ∀ x ∈ steps, Careful path x.1 x.2)
  ends : ∀ steps c, Trace Step (.start path file) steps c →
    steps.length ≤ 2 * (path.text.length + 1 + file.length) + 2 ∧
      (c.server = .closed ∨ ∃ event d, Step c event d)

/-- For every path, every file and every segmentation. -/
theorem transfer_lossless_iff (path : Path) (file : Bytes) : LosslessIffCareful path file := by
  constructor
  · intro steps c trace ended
    rw [lossless_iff_good ended (run_ordered trace) (run_content_length trace), run_good_iff trace]
  · intro steps c trace
    have bounded := run_length trace
    simp only [Transfer.remaining, Transfer.start, Client.left, List.length_append, List.length_cons,
      List.length_nil] at bounded
    refine ⟨?_, ordered_progress (run_ordered trace)⟩
    simp at bounded
    omega

/-- The `recv` into `path` returns the file, too. -/
theorem merged_file_lost :
    ¬ ∀ path file steps c, Trace Step (.start path file) steps c → c.server = .closed →
      Lossless path file c := by
  intro law
  let path : Path := ⟨ascii "copy", by decide, by decide, by decide⟩
  have started : Trace Step (.start path (ascii "hi")) [] _ := .nil
  have named := started.snoc (.send (.all (by decide)))
  have sent := (named.snoc (.send (.all (by decide)))).snoc (.exit rfl)
  have merged := sent.snoc (.recvPath rfl (.all (by decide)))
  have ended := merged.snoc (.recvEnd rfl (by decide) rfl)
  have written := (law path (ascii "hi") _ _ ended rfl).2
  exact absurd written (by decide)

end Runs

end Tasks.Tcp.FileTransfer
