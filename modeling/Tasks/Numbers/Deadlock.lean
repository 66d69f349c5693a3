import Tasks.Numbers.Exclusion

/-! A process waits for the pipe inside its section, where no other process can fill or empty it:
when the programs of Tasks 9 and 10 come to a standstill. -/
namespace Tasks.Numbers

open Kit

variable {σ : Type} {n : Nat} {lock : Lock σ n} {capacity : Nat} {s t : System σ n}
  {held : σ → Option (Proc n) → Prop} {action : Action n}

def System.Live (s : System σ n) : Proc n → Prop
  | some i => s.reader i ≠ .gone
  | none => True

/-- Waiting for the semaphore, for room in the pipe or for a number in it. -/
def Blocked (lock : Lock σ n) (capacity : Nat) (s : System σ n) : Proc n → Prop
  | some i => s.reader i = .idle ∧ lock.startRead s.lock i = none ∨
      s.reader i = .writing ∧ capacity ≤ s.pipe.length
  | none => s.writer = .idle ∧ lock.startWrite s.lock = none ∨
      s.writer = .reading ∧ s.pipe = [] ∧ ∃ i, s.reader i ≠ .gone

def Deadlock (lock : Lock σ n) (capacity : Nat) (s : System σ n) : Prop :=
  ∀ p, s.Live p → Blocked lock capacity s p

/-- No section is started that the pipe would not let through. -/
def Careful (capacity : Nat) (s : System σ n) : Action n → Prop
  | .startRead _ => s.pipe.length < capacity
  | .startWrite => s.pipe ≠ [] ∨ ∀ i, s.reader i = .quitting ∨ s.reader i = .gone
  | _ => True

def CarefulNext (lock : Lock σ n) (capacity : Nat) (s t : System σ n) : Prop :=
  ∃ action, Step lock capacity s action t ∧ Careful capacity s action

section Safety

/-- Whoever is inside on the way to the pipe will get through. -/
structure Prepared (capacity : Nat) (s : System σ n) : Prop where
  room : ∀ i, s.reader i = .opening ∨ s.reader i = .writing → s.pipe.length < capacity
  number : s.writer = .polling ∨ s.writer = .reading →
    s.pipe ≠ [] ∨ ∀ i, s.reader i = .quitting ∨ s.reader i = .gone

theorem prepared_reader (prepared : Prepared capacity s) (i : Fin n) (point : Reading)
    (reader : t.reader = (s.readerTo i point).reader) (writer : t.writer = s.writer)
    (pipe : t.pipe = s.pipe)
    (room : point = .opening ∨ point = .writing → s.pipe.length < capacity)
    (number : s.reader i = .quitting ∨ s.reader i = .gone → point = .quitting ∨ point = .gone) :
    Prepared capacity t := by
  constructor
  · intro j toPipe
    rw [reader] at toPipe
    rw [pipe]
    by_cases same : j = i
    · rw [same, readerTo_same] at toPipe
      exact room toPipe
    · rw [readerTo_other s point same] at toPipe
      exact prepared.room j toPipe
  · intro waiting
    rw [writer] at waiting
    rw [pipe, reader]
    rcases prepared.number waiting with more | closed
    · exact .inl more
    · refine .inr fun j => ?_
      by_cases same : j = i
      · rw [same, readerTo_same]
        exact number (closed i)
      · rw [readerTo_other s point same]
        exact closed j

theorem step_prepared (exclusive : Exclusive held s) (prepared : Prepared capacity s)
    (careful : Careful capacity s action) (step : Step lock capacity s action t) :
    Prepared capacity t := by
  obtain ⟨holder, _, inside⟩ := exclusive
  have alone {p q : Proc n} (here : s.Inside p) (there : s.Inside q) : p = q :=
    Option.some.inj (((inside p).mp here).symm.trans ((inside q).mp there))
  cases step with
  | startRead i here taken =>
    exact prepared_reader prepared i .opening rfl rfl rfl (fun _ => careful) (by simp [here])
  | readFile i here =>
    exact prepared_reader prepared i .writing rfl rfl rfl (fun _ => prepared.room i (.inl here))
      (by simp [here])
  | openFails i here => exact prepared_reader prepared i .quitting rfl rfl rfl (by simp) (by simp)
  | endRead i here given => exact prepared_reader prepared i .idle rfl rfl rfl (by simp) (by simp [here])
  | exit i here => exact prepared_reader prepared i .gone rfl rfl rfl (by simp) (by simp)
  | write i random here room =>
    constructor
    · intro j toPipe
      by_cases same : j = i
      · rw [same] at toPipe
        have after := readerTo_same s i .leaving
        simp [after] at toPipe
      · have there : s.reader j = .opening ∨ s.reader j = .writing :=
          readerTo_other s .leaving same ▸ toPipe
        have both := alone (p := some j) (q := some i) (by simp [System.Inside]; tauto)
          (by simp [System.Inside, here])
        exact absurd (Option.some.inj both) same
    · intro _
      exact .inl (by simp)
  | startWrite here taken => exact ⟨prepared.room, fun _ => careful⟩
  | poll here unread => exact ⟨prepared.room, fun _ => prepared.number (.inl here)⟩
  | read here more =>
    refine ⟨fun i toPipe => ?_, by simp⟩
    have before := prepared.room i toPipe
    rw [more, List.length_cons] at before
    exact Nat.lt_of_succ_lt before
  | readEnd here empty closed => exact ⟨prepared.room, by simp⟩
  | append here => exact ⟨prepared.room, by simp⟩
  | endWrite here given => exact ⟨prepared.room, by simp⟩

theorem prepared_no_deadlock (lawful : lock.Lawful held) (exclusive : Exclusive held s)
    (prepared : Prepared capacity s) : ¬ Deadlock lock capacity s := by
  intro deadlock
  obtain ⟨holder, holds, inside⟩ := exclusive
  rcases deadlock none trivial with ⟨idle, waits⟩ | ⟨reading, empty, i, stays⟩
  · cases holder with
    | none =>
      obtain ⟨l, took, _⟩ := lawful.startWrite_free _ holds
      simp [took] at waits
    | some p =>
      have within : s.Inside p := (inside p).mpr rfl
      cases p with
      | none => exact within idle
      | some i =>
        have live : s.Live (some i) := by
          intro gone
          simp [System.Inside, gone] at within
        rcases deadlock (some i) live with ⟨out, _⟩ | ⟨writing, full⟩
        · simp [System.Inside, out] at within
        · exact absurd (prepared.room i (.inr writing)) (Nat.not_lt.mpr full)
  · rcases prepared.number (.inr reading) with more | closed
    · exact more empty
    · have quitting : s.reader i = .quitting := (closed i).resolve_right stays
      rcases deadlock (some i) stays with ⟨idle, _⟩ | ⟨writing, _⟩
      · simp [quitting] at idle
      · simp [quitting] at writing

end Safety

section Standstill

/-- The readers that gave up can all leave while nothing else happens. -/
theorem settle (lock : Lock σ n) (capacity : Nat) (s : System σ n) (giving : List (Fin n)) :
    ∃ u, Relation.ReflTransGen (Next lock capacity) s u ∧ u.lock = s.lock ∧ u.writer = s.writer ∧
      u.pipe = s.pipe ∧ ∀ i, u.reader i =
        if i ∈ giving ∧ s.reader i = .quitting then .gone else s.reader i := by
  induction giving with
  | nil => exact ⟨s, .refl, rfl, rfl, rfl, by simp⟩
  | cons i giving ih =>
    obtain ⟨u, path, lockSame, writer, pipe, readers⟩ := ih
    by_cases quitting : u.reader i = .quitting
    · refine ⟨u.readerTo i .gone, path.tail ⟨.exit i, .exit i quitting⟩, lockSame, writer, pipe, ?_⟩
      intro j
      have was := readers i
      rw [quitting] at was
      by_cases same : j = i
      · subst same
        rw [readerTo_same]
        split at was
        · contradiction
        · simp [← was]
      · rw [readerTo_other u .gone same, readers j]
        simp [same]
    · refine ⟨u, path, lockSame, writer, pipe, fun j => ?_⟩
      by_cases same : j = i
      · subst same
        have was := readers j
        by_cases gaveUp : s.reader j = .quitting
        · by_cases member : j ∈ giving
          · simp [was, gaveUp, member]
          · exact absurd (by simp [was, gaveUp, member]) quitting
        · simp [was, gaveUp]
      · rw [readers j]
        simp [same]

/-- A holder of the semaphores that waits for the pipe blocks everybody. -/
theorem holder_deadlock (lawful : lock.Lawful held) (holds : held s.lock (some p))
    (inside : ∀ q, s.Inside q ↔ p = q) (blocked : Blocked lock capacity s p)
    (settled : ∀ i, s.reader i ≠ .quitting) : Deadlock lock capacity s := by
  intro q live
  by_cases same : q = p
  · rw [same]
    exact blocked
  · have outside : ¬ s.Inside q := fun within => same ((inside q).mp within).symm
    cases q with
    | none => exact .inl ⟨by simpa [System.Inside] using outside, lawful.startWrite_held _ p holds⟩
    | some i =>
      refine .inl ⟨?_, lawful.startRead_held _ i p holds⟩
      simp only [System.Inside, not_or] at outside
      cases point : s.reader i with
      | idle => rfl
      | opening => exact absurd point outside.1
      | writing => exact absurd point outside.2.1
      | leaving => exact absurd point outside.2.2
      | quitting => exact absurd point (settled i)
      | gone => exact absurd point live

/-- Inside, in front of a pipe that only a process outside could change. -/
def Stuck (capacity : Nat) (s : System σ n) : Proc n → Prop
  | some i => s.reader i = .writing ∧ capacity ≤ s.pipe.length
  | none => s.writer = .reading ∧ s.pipe = [] ∧ ∃ i, ¬ (s.reader i = .quitting ∨ s.reader i = .gone)

theorem stuck_standstill (lawful : lock.Lawful held) (exclusive : Exclusive held s)
    (stuck : Stuck capacity s p) :
    ∃ u, Relation.ReflTransGen (Next lock capacity) s u ∧ Deadlock lock capacity u := by
  obtain ⟨u, path, _, writer, pipe, readers⟩ := settle lock capacity s (List.finRange n)
  simp only [List.mem_finRange, true_and] at readers
  have settled (i : Fin n) : u.reader i ≠ .quitting := by
    rw [readers i]
    split
    · simp
    next stayed => exact stayed
  obtain ⟨holder, holds, inside⟩ := reachable_exclusive lawful exclusive path
  have both : u.Inside p ∧ Blocked lock capacity u p := by
    cases p with
    | some i =>
      have writing : u.reader i = .writing := by
        rw [readers i, stuck.1]
        simp
      exact ⟨.inr (.inl writing), .inr ⟨writing, pipe ▸ stuck.2⟩⟩
    | none =>
      obtain ⟨reading, empty, i, stays⟩ := stuck
      simp only [not_or] at stays
      have there : u.reader i ≠ .gone := by
        rw [readers i, if_neg stays.1]
        exact stays.2
      have waiting : u.writer = .reading := writer.trans reading
      exact ⟨by simp [System.Inside, waiting], .inr ⟨waiting, pipe.trans empty, i, there⟩⟩
  obtain rfl := (inside p).mp both.1
  exact ⟨u, path, holder_deadlock lawful holds (by simpa using inside) both.2 settled⟩

theorem full_deadlock (lawful : lock.Lawful held) (exclusive : Exclusive held s)
    (opening : s.reader i = .opening) (full : capacity ≤ s.pipe.length) :
    ∃ u, Relation.ReflTransGen (Next lock capacity) s u ∧ Deadlock lock capacity u := by
  have reading : Step lock capacity s (.readFile i) (s.readerTo i .writing) := .readFile i opening
  have stuck : Stuck capacity (s.readerTo i .writing) (some i) := ⟨readerTo_same s i .writing, full⟩
  obtain ⟨u, path, deadlock⟩ :=
    stuck_standstill lawful (step_exclusive lawful exclusive reading) stuck
  exact ⟨u, .head ⟨_, reading⟩ path, deadlock⟩

theorem empty_deadlock (lawful : lock.Lawful held) (exclusive : Exclusive held s)
    (waiting : s.writer = .polling ∨ s.writer = .reading) (empty : s.pipe = [])
    (stays : ¬ (s.reader i = .quitting ∨ s.reader i = .gone)) :
    ∃ u, Relation.ReflTransGen (Next lock capacity) s u ∧ Deadlock lock capacity u := by
  rcases waiting with polling | reading
  · obtain ⟨holder, holds, inside⟩ := exclusive
    obtain rfl := (inside none).mp (by simp [System.Inside, polling])
    have polled : Step lock capacity s .poll { s with writer := .reading } :=
      .poll polling (lawful.unread _ holds)
    have stuck : Stuck capacity { s with writer := .reading } none := ⟨rfl, empty, i, stays⟩
    obtain ⟨u, path, deadlock⟩ :=
      stuck_standstill lawful (step_exclusive lawful ⟨_, holds, inside⟩ polled) stuck
    exact ⟨u, .head ⟨_, polled⟩ path, deadlock⟩
  · exact stuck_standstill lawful exclusive (p := none) ⟨reading, empty, i, stays⟩

/-- Any other start of a section can bring everything to a standstill. -/
theorem careless_deadlock (lawful : lock.Lawful held) (exclusive : Exclusive held s)
    (step : Step lock capacity s action t) (careless : ¬ Careful capacity s action) :
    ∃ u, Relation.ReflTransGen (Next lock capacity) t u ∧ Deadlock lock capacity u := by
  have after := step_exclusive lawful exclusive step
  cases step with
  | startRead i here taken =>
    exact full_deadlock lawful after (readerTo_same s i .opening) (Nat.not_lt.mp careless)
  | startWrite here taken =>
    simp only [Careful, not_or, not_not, not_forall] at careless
    obtain ⟨empty, i, stays⟩ := careless
    refine empty_deadlock lawful after ?_ empty (not_or.mpr stays)
    cases lock.polls <;> simp
  | readFile | openFails | write | endRead | exit | poll | read | readEnd | append | endWrite =>
    exact absurd trivial careless

end Standstill

/-- Runs that start every section carefully reach no deadlock, and every other start of a section
is on the way to one. -/
structure DeadlocksIffCareless (lock : Lock σ n) (capacity : Nat) (start : System σ n) : Prop where
  careful : ∀ s, Relation.ReflTransGen (CarefulNext lock capacity) start s → ¬ Deadlock lock capacity s
  careless : ∀ s action t, Relation.ReflTransGen (Next lock capacity) start s →
    Step lock capacity s action t → ¬ Careful capacity s action →
    ∃ u, Relation.ReflTransGen (Next lock capacity) t u ∧ Deadlock lock capacity u

theorem deadlocks_iff_careless (lawful : lock.Lawful held) {l : σ} (free : held l none) (capacity : Nat)
    (receivedNumber : Int) (file : List Int) :
    DeadlocksIffCareless lock capacity (.start l receivedNumber file) := by
  have start := start_exclusive free receivedNumber file
  constructor
  · intro s path
    have good := reachable_invariant (fun s => Exclusive held s ∧ Prepared capacity s) ?_ path
      ⟨start, by constructor <;> simp [System.start]⟩
    · exact prepared_no_deadlock lawful good.1 good.2
    · rintro s t ⟨exclusive, prepared⟩ ⟨action, step, careful⟩
      exact ⟨step_exclusive lawful exclusive step, step_prepared exclusive prepared careful step⟩
  · intro s action t path step careless
    exact careless_deadlock lawful (reachable_exclusive lawful start path) step careless

/-- Any number of readers in Task 9, one in Task 10, and a pipe of any capacity. -/
theorem numbers_deadlock_iff (capacity : Nat) (receivedNumber : Int) (file : List Int) :
    (∀ n (semid : Task9.SemSet n), DeadlocksIffCareless (Task9.lock n) capacity
        (.start (Task9.initSemaphores semid) receivedNumber file)) ∧
      DeadlocksIffCareless Task10.lock capacity (.start 1 receivedNumber file) :=
  ⟨fun _ semid => deadlocks_iff_careless Task9.lock_lawful (Task9.initSemaphores_held semid) ..,
    deadlocks_iff_careless Task10.lock_lawful rfl ..⟩

theorem writer_first (lawful : lock.Lawful held) {l : σ} (free : held l none) (capacity : Nat)
    (i : Fin n) :
    ∃ s, Relation.ReflTransGen (Next lock capacity) (.start l 0 []) s ∧ Deadlock lock capacity s := by
  obtain ⟨l', took, _⟩ := lawful.startWrite_free l free
  have step : Step lock capacity (.start l 0 []) .startWrite _ := .startWrite rfl took
  have careless : ¬ Careful capacity (System.start l 0 [] : System σ n) .startWrite := by
    simp only [Careful, System.start, ne_eq, not_true, false_or, not_forall]
    exact ⟨i, by simp⟩
  obtain ⟨s, path, deadlock⟩ := careless_deadlock lawful (start_exclusive free 0 []) step careless
  exact ⟨s, .head ⟨_, step⟩ path, deadlock⟩

/-- The writer starts before any reader: five readers in Task 9, one in Task 10, and a pipe of
65536 bytes. -/
theorem writer_first_deadlock :
    (∃ s, Relation.ReflTransGen (Next (Task9.lock 5) 16384)
        (.start (Task9.initSemaphores ⟨fun _ => 0, fun _ _ => 0⟩) 0 []) s ∧
      Deadlock (Task9.lock 5) 16384 s) ∧
      ∃ s, Relation.ReflTransGen (Next Task10.lock 16384) (.start 1 0 []) s ∧
        Deadlock Task10.lock 16384 s :=
  ⟨writer_first Task9.lock_lawful (Task9.initSemaphores_held _) 16384 0,
    writer_first Task10.lock_lawful rfl 16384 0⟩

end Tasks.Numbers
