import Tasks.Kit.Run

/-! A pipe whose receiver files what it takes: when what is filed is what was written. -/
namespace Tasks.Kit

/-- What is on its way from the writers of a pipe to a file. -/
structure Belt (α : Type) where
  pipe : List α
  hand : List α
  filed : List α

namespace Belt

/-- A step, with what it writes into the pipe. -/
inductive Moves (b : Belt α) : List α → Belt α → Prop where
  | rest : Moves b [] b
  | write (x : α) : Moves b [x] { b with pipe := b.pipe ++ [x] }
  | take (free : b.hand = []) (more : b.pipe = x :: rest) :
      Moves b [] { b with pipe := rest, hand := [x] }
  | file : Moves b [] { b with hand := [], filed := b.filed ++ b.hand }

/-- Taking something although nothing is left in the pipe. -/
structure Invents (b b' : Belt α) : Prop where
  free : b.hand = []
  empty : b.pipe = []
  taken : ∃ x, b' = { b with hand := [x] }

/-- What was taken is filed or in hand, in the order in which it was written, and behind it copies of
the last of it, or of what the receiver held at first; none before the pipe is empty. -/
structure Account (b : Belt α) (held first : α) (written taken : List α) (copies : Nat) : Prop where
  whole : written = taken ++ b.pipe
  filed : b.filed ++ b.hand = taken ++ List.replicate copies held
  newest : held = taken.getLast?.getD first
  empty : copies ≠ 0 → b.pipe = []

/-- Everything written is filed, in hand or in the pipe, in this order. -/
def Conserved (b : Belt α) (written : List α) : Prop := b.filed ++ b.hand ++ b.pipe = written

variable {b b' : Belt α} {written w : List α}

theorem Moves.conserved (moves : Moves b w b') (conserved : Conserved b written) :
    Conserved b' (written ++ w) := by
  subst conserved
  cases moves with
  | rest => simp [Conserved]
  | write x => simp [Conserved]
  | take free more => simp [Conserved, free, more]
  | file => simp [Conserved]

/-- Nothing that was written disappears. -/
theorem Moves.enough (moves : Moves b w b')
    (enough : written.length ≤ (b.filed ++ b.hand ++ b.pipe).length) :
    (written ++ w).length ≤ (b'.filed ++ b'.hand ++ b'.pipe).length := by
  cases moves with
  | rest => simpa using enough
  | write x => simpa [← Nat.add_assoc] using enough
  | take free more => simpa [free, more, Nat.add_assoc, Nat.add_comm] using enough
  | file => simpa using enough

theorem Account.moves {held held' first : α} {taken : List α} {copies : Nat}
    (account : b.Account held first written taken copies) (moves : b.Moves w b')
    (hand : b'.hand = [] ∨ b'.hand = [held']) (same : b'.hand = b.hand → held' = held)
    (free : b'.hand = [] → held' = held) (silent : copies ≠ 0 → w = []) :
    ∃ taken', b'.Account held' first (written ++ w) taken' copies := by
  obtain ⟨whole, filed, newest, empty⟩ := account
  cases moves with
  | rest =>
    obtain rfl := same rfl
    exact ⟨taken, by simpa using whole, filed, newest, empty⟩
  | write x =>
    obtain rfl := same rfl
    exact ⟨taken, by simp [whole], filed, newest, fun some => absurd (silent some) (by simp)⟩
  | @take x rest before more =>
    have none : copies = 0 := by
      by_contra some
      simp [empty some] at more
    have now : x = held' := by simpa using hand
    subst none now
    refine ⟨taken ++ [x], by simp [whole, more], ?_, by simp, by simp⟩
    simpa [before] using filed
  | file =>
    obtain rfl := free rfl
    exact ⟨taken, by simpa using whole, by simpa using filed, newest, empty⟩

theorem Account.invents {held held' first : α} {taken : List α} {copies : Nat}
    (account : b.Account held first written taken copies) (invents : b.Invents b')
    (hand : b'.hand = [] ∨ b'.hand = [held']) (same : held' = held) :
    b'.Account held' first written taken (copies + 1) := by
  obtain ⟨free, empty, x, rfl⟩ := invents
  obtain rfl := same
  have now : x = held' := by simpa using hand
  obtain ⟨whole, filed, newest, _⟩ := account
  refine ⟨whole, ?_, newest, fun _ => empty⟩
  rw [free, List.append_nil] at filed
  rw [filed, List.append_assoc, List.replicate_succ', now]

theorem Moves.filed (moves : Moves b w b') : b.filed <+: b'.filed := by
  cases moves with
  | rest | write | take => exact List.prefix_rfl
  | file => exact List.prefix_append ..

end Belt

def written (writes : α → List β) (steps : List (σ × α)) : List β := steps.flatMap fun x => writes x.2

structure Conveys (step : σ → α → σ → Prop) (belt : σ → Belt β) (writes : α → List β)
    (careful : σ → α → Prop) : Prop where
  moves : ∀ s a t, step s a t → careful s a → Belt.Moves (belt s) (writes a) (belt t)
  invents : ∀ s a t, step s a t → ¬ careful s a → writes a = [] ∧ (belt s).Invents (belt t)
  /-- Nobody is left to write. -/
  closed : ∀ s a t steps u, step s a t → ¬ careful s a → Trace step t steps u → written writes steps = []

/-- The receiver takes into a variable, and a read at the end of the pipe leaves that as it is. -/
structure Keeps (step : σ → α → σ → Prop) (belt : σ → Belt β) (held : σ → β) (careful : σ → α → Prop) :
    Prop where
  hand : ∀ s, (belt s).hand = [] ∨ (belt s).hand = [held s]
  kept : ∀ s a t, step s a t → (belt t).hand = [] ∨ ¬ careful s a → held t = held s

/-- As long as all steps are careful the file is a prefix of what was written, and what is
appended after any other step makes it none. -/
structure FiledIffCareful (step : σ → α → σ → Prop) (filed : σ → List β) (writes : α → List β)
    (careful : σ → α → Prop) (start : σ) : Prop where
  holds : ∀ steps s, Trace step start steps s → (∀ x ∈ steps, careful x.1 x.2) →
    filed s <+: written writes steps
  breaks : ∀ steps s a t later u, Trace step start steps s → step s a t → ¬ careful s a →
    Trace step t later u → filed u ≠ filed t → ¬ filed u <+: written writes (steps ++ (s, a) :: later)

section Conveying

variable {step : σ → α → σ → Prop} {belt : σ → Belt β} {writes : α → List β} {careful : σ → α → Prop}
  {start s t : σ} {steps : List (σ × α)}

@[simp] theorem written_append (steps later : List (σ × α)) :
    written writes (steps ++ later) = written writes steps ++ written writes later := by simp [written]

@[simp] theorem written_cons (x : σ × α) (steps : List (σ × α)) :
    written writes (x :: steps) = writes x.2 ++ written writes steps := by simp [written]

@[simp] theorem written_nil : written writes ([] : List (σ × α)) = [] := rfl

theorem Keeps.same {held : σ → β} (keeps : Keeps step belt held careful) (last : step s a t)
    (hand : (belt t).hand = (belt s).hand) : held t = held s := by
  rcases keeps.hand t with free | full
  · exact keeps.kept s a t last (.inl free)
  · rcases keeps.hand s with free | full'
    · exact keeps.kept s a t last (.inl (hand.trans free))
    · exact List.singleton_inj.mp (full.symm.trans (hand.trans full'))

namespace Conveys

theorem conserved (conveys : Conveys step belt writes careful) (clear : (belt start).Conserved [])
    (trace : Trace step start steps s) (every : ∀ x ∈ steps, careful x.1 x.2) :
    (belt s).Conserved (written writes steps) := by
  induction trace with
  | nil => exact clear
  | snoc _ last ih =>
    have here := every _ (List.mem_append_right _ (List.mem_singleton_self _))
    have before := ih fun x member => every x (List.mem_append_left _ member)
    simpa using (conveys.moves _ _ _ last here).conserved before

theorem enough (conveys : Conveys step belt writes careful) (trace : Trace step start steps s) :
    (written writes steps).length ≤
      ((belt s).filed ++ (belt s).hand ++ (belt s).pipe).length := by
  induction trace with
  | nil => exact Nat.zero_le _
  | @snoc steps s a t _ last ih =>
    by_cases here : careful s a
    · simpa using (conveys.moves _ _ _ last here).enough ih
    · obtain ⟨nothing, free, empty, x, taken⟩ := conveys.invents _ _ _ last here
      simp [free, empty, taken, nothing] at ih ⊢
      omega

theorem filed_grows (conveys : Conveys step belt writes careful) (trace : Trace step s steps t) :
    (belt s).filed <+: (belt t).filed := by
  induction trace with
  | nil => exact List.prefix_rfl
  | @snoc steps t a u _ last ih =>
    by_cases here : careful t a
    · exact ih.trans (conveys.moves _ _ _ last here).filed
    · obtain ⟨_, _, _, x, taken⟩ := conveys.invents _ _ _ last here
      rw [taken]
      exact ih

theorem filed_iff_careful (conveys : Conveys step belt writes careful)
    (clear : (belt start).Conserved []) :
    FiledIffCareful step (fun s => (belt s).filed) writes careful start := by
  constructor
  · intro steps s trace every
    have whole := conveys.conserved clear trace every
    rw [Belt.Conserved, List.append_assoc] at whole
    exact ⟨_, whole⟩
  · intro steps s a t later u trace last careless rest appended front
    obtain ⟨nothing, free, empty, x, taken⟩ := conveys.invents _ _ _ last careless
    have most := conveys.enough trace
    have least := front.length_le
    have none := conveys.closed _ _ _ _ _ last careless rest
    have grows := conveys.filed_grows rest
    have longer : (belt t).filed.length < (belt u).filed.length := by
      refine lt_of_le_of_ne grows.length_le fun same => appended (grows.eq_of_length same).symm
    simp [free, empty, taken, nothing, none] at most least longer
    omega

/-- A receiver that goes on at the end of the pipe files its last number again, each time it reads. -/
theorem account (conveys : Conveys step belt writes careful) {held : σ → β}
    (keeps : Keeps step belt held careful) (clear : belt start = ⟨[], [], []⟩)
    (trace : Trace step start steps s) :
    ∃ taken copies, (belt s).Account (held s) (held start) (written writes steps) taken copies := by
  -- Behind the first copy the run goes on from a read at the end of the pipe, and nobody writes.
  have general : ∃ taken copies,
      (belt s).Account (held s) (held start) (written writes steps) taken copies ∧
        (copies ≠ 0 → ∃ r a t later, step r a t ∧ ¬ careful r a ∧ Trace step t later s) := by
    induction trace with
    | nil => exact ⟨[], 0, by constructor <;> simp [clear], by simp⟩
    | @snoc steps s a t _ last ih =>
      obtain ⟨taken, copies, account, ended⟩ := ih
      by_cases here : careful s a
      · have silent (some : copies ≠ 0) : writes a = [] := by
          obtain ⟨r, b, u, later, read, careless, behind⟩ := ended some
          have nothing := conveys.closed r b u _ t read careless (behind.snoc last)
          rw [written_append, List.append_eq_nil_iff] at nothing
          simpa using nothing.2
        obtain ⟨taken', account'⟩ := account.moves (conveys.moves s a t last here) (keeps.hand t)
          (keeps.same last) (fun free => keeps.kept s a t last (.inl free)) silent
        refine ⟨taken', copies, by simpa using account', fun some => ?_⟩
        obtain ⟨r, b, u, later, read, careless, behind⟩ := ended some
        exact ⟨r, b, u, _, read, careless, behind.snoc last⟩
      · obtain ⟨nothing, invents⟩ := conveys.invents s a t last here
        have account' := account.invents invents (keeps.hand t) (keeps.kept s a t last (.inr here))
        exact ⟨taken, copies + 1, by simpa [nothing] using account', fun _ =>
          ⟨s, a, t, [], last, here, .nil⟩⟩
  obtain ⟨taken, copies, account, _⟩ := general
  exact ⟨taken, copies, account⟩

end Conveys
end Conveying

end Tasks.Kit
