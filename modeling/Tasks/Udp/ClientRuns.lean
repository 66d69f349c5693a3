import Tasks.Udp.Clients
import Mathlib.Data.List.Induction

/-! Every sequence of accepted datagrams from the zeroed table, with a log of what was
decided. The abstract account is one number per endpoint, read off the log. -/
namespace Tasks.Udp.Server

/-- A datagram that passed the protocol and port check. -/
structure Datagram where
  source : Endpoint
  close : Bool
  deriving DecidableEq, Repr

structure Event where
  source : Endpoint
  outcome : Outcome
  deriving DecidableEq, Repr

structure Session where
  clients : Clients maxClients
  log : List Event

def Session.receive (s : Session) (d : Datagram) : Session :=
  ⟨(dispatch s.clients d.source d.close).1,
    s.log ++ [⟨d.source, (dispatch s.clients d.source d.close).2⟩]⟩

def Session.start : Session := ⟨fun _ => zeroed, []⟩

def serve (datagrams : List Datagram) : Session := datagrams.foldl Session.receive .start

def Event.answers (event : Event) (e : Endpoint) : Bool :=
  event.source == e && match event.outcome with
    | .answered _ => true
    | _ => false

def Event.closes (event : Event) (e : Endpoint) : Bool :=
  event.source == e && event.outcome == .closed

/-- The datagrams of an endpoint answered since it was last admitted, that is, since the
start or its last close. -/
def answered (log : List Event) (e : Endpoint) : Nat :=
  (log.reverse.takeWhile fun event => !event.closes e).countP fun event => event.answers e

@[simp] theorem answered_nil (e : Endpoint) : answered [] e = 0 := rfl

theorem answered_other (log : List Event) (event : Event) (other : event.source ≠ e) :
    answered (log ++ [event]) e = answered log e := by
  simp [answered, Event.closes, Event.answers, other]

theorem answered_closed (log : List Event) (e : Endpoint) :
    answered (log ++ [⟨e, .closed⟩]) e = 0 := by
  simp [answered, Event.closes]

theorem answered_refused (log : List Event) (e : Endpoint) :
    answered (log ++ [⟨e, .refused⟩]) e = answered log e := by
  simp [answered, Event.closes, Event.answers]

theorem answered_answered (log : List Event) (e : Endpoint) (count : Int) :
    answered (log ++ [⟨e, .answered count⟩]) e = answered log e + 1 := by
  simp [answered, Event.closes, Event.answers]

theorem answered_le (log : List Event) (e : Endpoint) :
    answered log e ≤ log.countP fun event => event.source == e := by
  have sub : (log.reverse.takeWhile fun event => !event.closes e).Sublist log.reverse :=
    (List.takeWhile_prefix _).sublist
  calc answered log e
      ≤ log.reverse.countP (fun event => event.answers e) := sub.countP_le
    _ ≤ log.reverse.countP (fun event => event.source == e) :=
        List.countP_mono_left fun event _ answers => by
          simp only [Event.answers, Bool.and_eq_true] at answers
          exact answers.1
    _ = log.countP (fun event => event.source == e) := List.countP_reverse

theorem serve_append (datagrams : List Datagram) (d : Datagram) :
    serve (datagrams ++ [d]) = (serve datagrams).receive d := by
  simp [serve]

/-- What the table knows about the log. The count in a free slot is not constrained. -/
structure Accounts (s : Session) : Prop where
  distinct : Distinct s.clients
  counted : ∀ i, (s.clients i).Occupied →
    (s.clients i).count = answered s.log (s.clients i).endpoint
  unknown : ∀ e, e ≠ nobody → (∀ i, (s.clients i).endpoint ≠ e) → answered s.log e = 0

theorem start_accounts : Accounts .start :=
  ⟨noClients_distinct, fun _ occupied => absurd rfl occupied, fun _ _ _ => rfl⟩

theorem close_accounts (acc : Accounts s) (e : Endpoint) (next : Clients maxClients)
    (closed : (∃ i, (s.clients i).endpoint = e ∧ next = Function.update s.clients i zeroed) ∨
      (∀ i, (s.clients i).endpoint ≠ e) ∧ next = s.clients) :
    Accounts ⟨next, s.log ++ [⟨e, .closed⟩]⟩ := by
  rcases closed with ⟨i, held, rfl⟩ | ⟨absent, rfl⟩
  · refine ⟨acc.distinct.update i zeroed fun occupied => absurd rfl occupied, ?_, ?_⟩
    · intro j occupied
      have apart : j ≠ i := by
        rintro rfl
        exact occupied (by simp [zeroed, ClientInfo.endpoint, nobody])
      simp only [Function.update_of_ne apart] at occupied ⊢
      have other : e ≠ (s.clients j).endpoint := fun same =>
        apart (acc.distinct j i occupied (same.symm.trans held.symm))
      rw [answered_other _ _ other]
      exact acc.counted j occupied
    · intro e' real absent
      by_cases same : e = e'
      · subst same
        exact answered_closed _ _
      · rw [answered_other _ _ same]
        refine acc.unknown e' real fun j => ?_
        by_cases apart : j = i
        · exact fun h => same (held.symm.trans (apart ▸ h))
        · simpa [Function.update_of_ne apart] using absent j
  · refine ⟨acc.distinct, fun j occupied => ?_, fun e' real absent' => ?_⟩
    · rw [answered_other _ _ (Ne.symm (absent j))]
      exact acc.counted j occupied
    · by_cases same : e = e'
      · subst same
        exact answered_closed _ _
      · rw [answered_other _ _ same]
        exact acc.unknown e' real absent'

theorem refuse_accounts (acc : Accounts s) (e : Endpoint) :
    Accounts ⟨s.clients, s.log ++ [⟨e, .refused⟩]⟩ := by
  have unchanged (e' : Endpoint) : answered (s.log ++ [⟨e, .refused⟩]) e' = answered s.log e' := by
    by_cases same : e = e'
    · subst same
      exact answered_refused _ _
    · exact answered_other _ _ same
  exact ⟨acc.distinct, fun i occupied => (acc.counted i occupied).trans (by rw [unchanged]),
    fun e' real absent => (unchanged e').trans (acc.unknown e' real absent)⟩

theorem admit_accounts (acc : Accounts s) (absent : ∀ i, (s.clients i).endpoint ≠ e)
    (free : ¬ (s.clients i).Occupied) :
    Accounts ⟨Function.update s.clients i ⟨e.ip, e.port, 0⟩, s.log⟩ := by
  have vacant : (s.clients i).endpoint = nobody := not_not.mp free
  have real : e ≠ nobody := fun same => absent i (vacant.trans same.symm)
  refine ⟨acc.distinct.update i ⟨e.ip, e.port, 0⟩ fun _ j _ => absent j, ?_, ?_⟩
  · intro j occupied
    by_cases same : j = i
    · subst same
      simp [ClientInfo.endpoint, acc.unknown e real absent]
    · simp only [Function.update_of_ne same] at occupied ⊢
      exact acc.counted j occupied
  · intro e' real' absent'
    refine acc.unknown e' real' fun j => ?_
    by_cases same : j = i
    · subst same
      exact fun h => real' (h.symm.trans vacant)
    · simpa [Function.update_of_ne same] using absent' j

theorem increment_small (count : Nat) (room : count + 1 < 2 ^ 31) :
    increment (count : Int) = (count + 1 : Nat) := by
  rw [increment, Int.bmod_eq_of_le] <;> omega

theorem count_accounts (acc : Accounts s) (held : (s.clients i).endpoint = e)
    (room : answered s.log e + 1 < 2 ^ 31) :
    Accounts ⟨(countDatagram s.clients i).1, s.log ++ [⟨e, (countDatagram s.clients i).2⟩]⟩ ∧
      (e ≠ nobody → (countDatagram s.clients i).2 = .answered (answered s.log e + 1 : Nat)) := by
  have count (real : e ≠ nobody) :
      increment (s.clients i).count = (answered s.log e + 1 : Nat) := by
    rw [acc.counted i (held.trans_ne real), held]
    exact increment_small _ room
  refine ⟨⟨acc.distinct.count i, ?_, ?_⟩, fun real => congrArg Outcome.answered (count real)⟩
  · intro j occupied
    rw [countDatagram_endpoint]
    by_cases same : j = i
    · subst same
      have real : e ≠ nobody := by
        rw [ClientInfo.Occupied, countDatagram_endpoint] at occupied
        exact held ▸ occupied
      rw [held, countDatagram, answered_answered, ← count real]
      simp
    · have taken : (s.clients j).Occupied := by simpa [countDatagram, same] using occupied
      have other : e ≠ (s.clients j).endpoint := fun h =>
        same (acc.distinct j i taken (h.symm.trans held.symm))
      rw [answered_other _ _ other, ← acc.counted j taken]
      simp [countDatagram, same]
  · intro e' real absent
    simp only [countDatagram_endpoint] at absent
    rw [answered_other _ _ fun same => absent i (held.trans same)]
    exact acc.unknown e' real absent

/-- One datagram keeps the accounts, and a client that is not `0.0.0.0:0` is told its number. -/
theorem receive_accounts (acc : Accounts s) (d : Datagram)
    (room : answered s.log d.source + 1 < 2 ^ 31) :
    Accounts (s.receive d) ∧ ∀ count, (dispatch s.clients d.source d.close).2 = .answered count →
      d.source ≠ nobody → count = (answered s.log d.source + 1 : Nat) := by
  unfold Session.receive
  rcases dispatch_cases s.clients d.source d.close with
    ⟨_, outcome, closed⟩ | ⟨_, i, held, next⟩ | ⟨_, absent, i, free, next⟩ | ⟨_, _, _, next⟩
  · rw [outcome]
    exact ⟨close_accounts acc _ _ closed, by simp⟩
  · obtain ⟨kept, number⟩ := count_accounts acc held room
    rw [next]
    exact ⟨kept, fun count told real => Outcome.answered.inj (told.symm.trans (number real))⟩
  · have admitted := admit_accounts acc absent free
    obtain ⟨kept, number⟩ := count_accounts admitted (i := i) (by simp [ClientInfo.endpoint]) room
    rw [next]
    exact ⟨kept, fun count told real => Outcome.answered.inj (told.symm.trans (number real))⟩
  · rw [next]
    exact ⟨refuse_accounts acc _, by simp⟩

def Few (datagrams : List Datagram) : Prop :=
  ∀ e, (datagrams.countP fun d => d.source == e) < 2 ^ 31

/-- Each number told to an endpoint is one more than the datagrams answered before. -/
def Numbered (log : List Event) (e : Endpoint) : Prop :=
  ∀ before (count : Int) after, log = before ++ ⟨e, .answered count⟩ :: after →
    count = (answered before e + 1 : Nat)

theorem serve_sources (datagrams : List Datagram) :
    (serve datagrams).log.map Event.source = datagrams.map Datagram.source := by
  induction datagrams using List.reverseRecOn with
  | nil => rfl
  | append_singleton datagrams d ih => simp [serve_append, Session.receive, ih]

theorem numbered_append (log : List Event) (event : Event) (numbered : Numbered log e)
    (last : ∀ count : Int, event.outcome = .answered count → event.source = e →
      count = (answered log e + 1 : Nat)) : Numbered (log ++ [event]) e := by
  intro before count after shape
  rcases List.eq_nil_or_concat after with rfl | ⟨init, final, rfl⟩
  · obtain ⟨rfl, same⟩ := List.append_inj' shape rfl
    obtain rfl : event = ⟨e, .answered count⟩ := by simpa using same
    exact last count rfl rfl
  · have shape : log ++ [event] = (before ++ ⟨e, .answered count⟩ :: init) ++ [final] := by
      simpa using shape
    obtain ⟨cut, _⟩ := List.append_inj' shape rfl
    exact numbered before count init cut

theorem serve_accounts (datagrams : List Datagram) (few : Few datagrams) :
    Accounts (serve datagrams) ∧ ∀ e, e ≠ nobody → Numbered (serve datagrams).log e := by
  induction datagrams using List.reverseRecOn with
  | nil =>
    refine ⟨start_accounts, fun e _ before count after shape => ?_⟩
    simp [serve, Session.start] at shape
  | append_singleton datagrams d ih =>
    have shorter : Few datagrams := fun e => by
      have := few e
      rw [List.countP_append] at this
      omega
    obtain ⟨acc, numbered⟩ := ih shorter
    have room : answered (serve datagrams).log d.source + 1 < 2 ^ 31 := by
      have bound := answered_le (serve datagrams).log d.source
      have total := few d.source
      have sources := congrArg (List.countP (· == d.source)) (serve_sources datagrams)
      simp only [List.countP_map, Function.comp_def] at sources
      rw [List.countP_append] at total
      simp only [List.countP_singleton, beq_self_eq_true, if_true] at total
      omega
    obtain ⟨kept, last⟩ := receive_accounts acc d room
    rw [serve_append]
    refine ⟨kept, fun e real => numbered_append _ _ (numbered e real) fun count told same => ?_⟩
    subst same
    exact last count told real

/-- A datagram from `0.0.0.0:0` is counted in a free slot, so the next client admitted takes
the count away with the slot. -/
def forgotten : List Datagram :=
  [⟨nobody, false⟩, ⟨⟨0x0100000a, 5000⟩, false⟩, ⟨nobody, false⟩]

theorem forgotten_log : (serve forgotten).log =
    [⟨nobody, .answered 1⟩, ⟨⟨0x0100000a, 5000⟩, .answered 1⟩, ⟨nobody, .answered 1⟩] := by
  decide +kernel

theorem forgotten_misnumbered : Few forgotten ∧ ¬ Numbered (serve forgotten).log nobody := by
  refine ⟨fun e => Nat.lt_of_le_of_lt List.countP_le_length (by decide), fun numbered => ?_⟩
  have wrong := numbered [⟨nobody, .answered 1⟩, ⟨⟨0x0100000a, 5000⟩, .answered 1⟩] 1 []
    forgotten_log
  revert wrong
  decide

/-- Exactly the endpoints other than `0.0.0.0:0` are always told one more than the number of
their datagrams answered since they were last admitted, whoever else sends in between. -/
theorem counting_law_iff (e : Endpoint) :
    (∀ datagrams, Few datagrams → Numbered (serve datagrams).log e) ↔ e ≠ nobody := by
  constructor
  · rintro law rfl
    exact forgotten_misnumbered.2 (law forgotten forgotten_misnumbered.1)
  · exact fun real datagrams few => (serve_accounts datagrams few).2 e real

/-- The law as stated, for every endpoint, fails. -/
theorem counting_law_fails :
    ¬ ∀ datagrams, Few datagrams → ∀ e, Numbered (serve datagrams).log e :=
  fun law => forgotten_misnumbered.2 (law forgotten forgotten_misnumbered.1 nobody)

theorem serve_distinct (datagrams : List Datagram) : Distinct (serve datagrams).clients := by
  induction datagrams using List.reverseRecOn with
  | nil => exact noClients_distinct
  | append_singleton datagrams d ih =>
    rw [serve_append]
    exact dispatch_distinct ih d.source d.close

/-- The table after any datagrams: no endpoint has two slots; a datagram is refused exactly
when the table is full without its sender; a close clears at most the sender's slot. -/
theorem client_table_runs (datagrams : List Datagram) :
    let clients := (serve datagrams).clients
    (∀ i j, (clients i).Occupied → (clients j).Occupied →
      (clients i).endpoint = (clients j).endpoint → i = j) ∧
    (∀ e, (dispatch clients e false).2 = .refused ↔
      (∀ i, (clients i).Occupied) ∧ ∀ i, (clients i).endpoint ≠ e) ∧
    (∀ e i, (clients i).Occupied → (dispatch clients e true).1 i = clients i ∨
      (clients i).endpoint = e ∧ (dispatch clients e true).1 i = zeroed) := by
  intro clients
  have distinct : Distinct clients := serve_distinct datagrams
  refine ⟨fun i j occupied _ => distinct i j occupied, fun e => ?_, fun e i occupied => ?_⟩
  · rcases dispatch_cases clients e false with
      ⟨h, _⟩ | ⟨_, i, held, next⟩ | ⟨_, absent, i, free, next⟩ | ⟨_, absent, full, next⟩
    · cases h
    · simp only [next, countDatagram, reduceCtorEq, false_iff]
      exact fun h => h.2 i held
    · simp only [next, countDatagram, reduceCtorEq, false_iff]
      exact fun h => free (h.1 i)
    · simp [next, full, absent]
  · rcases dispatch_cases clients e true with
      ⟨_, _, ⟨j, held, next⟩ | ⟨_, next⟩⟩ | ⟨h, _⟩ | ⟨h, _⟩ | ⟨h, _⟩
    · by_cases same : i = j
      · subst same
        exact .inr ⟨held, by simp [next]⟩
      · exact .inl (by simp [next, same])
    · exact .inl (by rw [next])
    all_goals cases h

end Tasks.Udp.Server
