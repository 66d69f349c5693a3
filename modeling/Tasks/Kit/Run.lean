import Mathlib.Logic.Relation
import Mathlib.Data.List.Induction
import Mathlib.Data.List.Infix

/-! Runs of step functions that can go wrong, and of step relations. Nothing here
knows which program is stepping: a model supplies the step and the invariant. -/
namespace Tasks.Kit

/-- Why a modelled C function has no result. -/
inductive Fault where
  | nullDereference
  | danglingPointer
  | outOfBounds
  | missingReturn
  | overflow
  | outOfFuel
  deriving DecidableEq, Repr

/-- Actions taken one after another; the first failing step ends the run. -/
def run (step : σ → α → Except ε σ) : σ → List α → Except ε σ
  | s, [] => .ok s
  | s, a :: rest => step s a >>= fun next => run step next rest

@[simp] theorem run_nil (step : σ → α → Except ε σ) (s : σ) : run step s [] = .ok s := rfl

theorem run_cons {step : σ → α → Except ε σ} (first : step s a = .ok next) (rest : List α) :
    run step s (a :: rest) = run step next rest := by
  simp only [run, first]
  rfl

theorem bind_eq_ok {x : Except ε α} {f : α → Except ε β} :
    (x >>= f) = .ok b ↔ ∃ a, x = .ok a ∧ f a = .ok b := by
  rcases x with e | a
  · exact ⟨nofun, fun ⟨_, impossible, _⟩ => nomatch impossible⟩
  · exact ⟨fun h => ⟨a, rfl, h⟩, fun ⟨_, same, h⟩ => by cases same; exact h⟩

theorem mapError_eq_ok {x : Except ε α} {f : ε → ε'} : x.mapError f = .ok a ↔ x = .ok a := by
  cases x with
  | error e => exact ⟨nofun, nofun⟩
  | ok b => exact ⟨fun same => by cases same; rfl, fun same => by cases same; rfl⟩

@[simp] theorem ok_bind (a : α) (f : α → Except ε β) : (Except.ok a >>= f) = f a := rfl

@[simp] theorem error_bind (e : ε) (f : α → Except ε β) :
    ((Except.error e : Except ε α) >>= f) = .error e := rfl

theorem run_append (step : σ → α → Except ε σ) (s : σ) (xs ys : List α) :
    run step s (xs ++ ys) = run step s xs >>= fun t => run step t ys := by
  induction xs generalizing s with
  | nil => rfl
  | cons a xs ih =>
    rw [List.cons_append, run, run]
    cases step s a with
    | error e => rfl
    | ok next => simp only [ok_bind, ih]

theorem run_concat {step : σ → α → Except ε σ} {s next : σ} {xs : List α} {a : α} :
    run step s (xs ++ [a]) = .ok next ↔ ∃ t, run step s xs = .ok t ∧ step t a = .ok next := by
  rw [run_append, bind_eq_ok]
  apply exists_congr
  intro t
  have single : run step t [a] = step t a := by
    rw [run]
    cases step t a <;> rfl
  rw [single]

theorem run_invariant {step : σ → α → Except ε σ} (invariant : σ → Prop)
    (kept : ∀ s a next, invariant s → step s a = .ok next → invariant next)
    (start : invariant s) (actions : List α) (done : run step s actions = .ok t) : invariant t := by
  induction actions using List.reverseRecOn generalizing t with
  | nil =>
    cases done
    exact start
  | append_singleton actions a ih =>
    obtain ⟨before, earlier, last⟩ := run_concat.mp done
    exact kept before a t (ih earlier) last

/-- What the allowed actions keep holds behind a run of allowed actions. -/
theorem run_allowed {step : σ → α → Except ε σ} (invariant : σ → Prop) {allowed : α → Prop}
    (kept : ∀ s a next, invariant s → allowed a → step s a = .ok next → invariant next)
    (start : invariant s) (actions : List α) (every : ∀ a ∈ actions, allowed a)
    (done : run step s actions = .ok t) : invariant t := by
  induction actions generalizing s with
  | nil =>
    cases done
    exact start
  | cons a rest ih =>
    obtain ⟨next, first, later⟩ := bind_eq_ok.mp done
    have here := every a List.mem_cons_self
    exact ih (kept s a next start here first) (fun b member => every b (List.mem_cons_of_mem a member)) later

/-- A property that exactly the allowed steps keep holds all along a run if and only if each of
its steps is allowed. -/
theorem run_property_iff {step : σ → α → Except ε σ} {invariant : σ → Prop}
    {allowed : σ → α → Prop} (property : σ → Prop)
    (kept : ∀ s a next, invariant s → step s a = .ok next → invariant next)
    (sharp : ∀ s a next, invariant s → property s → step s a = .ok next →
      (property next ↔ allowed s a))
    (start : invariant s) (first : property s) (actions : List α) :
    (∀ before, before <+: actions → ∀ t, run step s before = .ok t → property t) ↔
      ∀ before a, before ++ [a] <+: actions → ∀ t next, run step s before = .ok t →
        step t a = .ok next → allowed t a := by
  constructor
  · intro holds before a front t next earlier last
    have there := holds before ((List.prefix_append before [a]).trans front) t earlier
    exact (sharp t a next (run_invariant invariant kept start before earlier) there last).mp
      (holds (before ++ [a]) front next (run_concat.mpr ⟨t, earlier, last⟩))
  · intro keeps before front
    induction before using List.reverseRecOn with
    | nil =>
      intro t done
      cases done
      exact first
    | append_singleton before a ih =>
      intro next done
      obtain ⟨t, earlier, last⟩ := run_concat.mp done
      exact (sharp t a next (run_invariant invariant kept start before earlier)
        (ih ((List.prefix_append before [a]).trans front) t earlier) last).mpr
        (keeps before a front t next earlier last)

/-- A run stops with an error if and only if it comes to a step that has it. -/
theorem run_error_iff {step : σ → α → Except ε σ} {invariant : σ → Prop} {error : ε}
    {failing : σ → α → Prop}
    (kept : ∀ s a next, invariant s → step s a = .ok next → invariant next)
    (sharp : ∀ s a, invariant s → (step s a = .error error ↔ failing s a))
    (start : invariant s) (actions : List α) :
    run step s actions = .error error ↔
      ∃ before a t, before ++ [a] <+: actions ∧ run step s before = .ok t ∧ failing t a := by
  induction actions generalizing s with
  | nil => simp [run]
  | cons a rest ih =>
    rw [run]
    cases taken : step s a with
    | error e =>
      rw [error_bind, ← taken, sharp s a start]
      constructor
      · intro fails
        exact ⟨[], a, s, by simp, rfl, fails⟩
      · rintro ⟨before, b, t, front, earlier, fails⟩
        cases before with
        | nil =>
          obtain ⟨rfl, _⟩ := List.cons_prefix_cons.mp front
          cases earlier
          exact fails
        | cons c before =>
          obtain ⟨rfl, _⟩ := List.cons_prefix_cons.mp front
          rw [run, taken] at earlier
          cases earlier
    | ok next =>
      rw [ok_bind, ih (kept s a next start taken)]
      constructor
      · rintro ⟨before, b, t, front, earlier, fails⟩
        exact ⟨a :: before, b, t, by simpa using front, (run_cons taken before).trans earlier, fails⟩
      · rintro ⟨before, b, t, front, earlier, fails⟩
        cases before with
        | nil =>
          obtain ⟨rfl, _⟩ := List.cons_prefix_cons.mp front
          cases earlier
          rw [← sharp s b start, taken] at fails
          cases fails
        | cons c before =>
          obtain ⟨rfl, later⟩ := List.cons_prefix_cons.mp front
          rw [run_cons taken] at earlier
          exact ⟨before, b, t, later, earlier, fails⟩

theorem run_safe_iff {step : σ → α → Except ε σ} {invariant : σ → Prop} {error : ε}
    {failing : σ → α → Prop}
    (kept : ∀ s a next, invariant s → step s a = .ok next → invariant next)
    (sharp : ∀ s a, invariant s → (step s a = .error error ↔ failing s a))
    (start : invariant s) (actions : List α) :
    run step s actions ≠ .error error ↔
      ∀ before a, before ++ [a] <+: actions → ∀ t, run step s before = .ok t → ¬ failing t a := by
  rw [Ne, run_error_iff kept sharp start]
  simp only [not_exists, not_and]
  exact ⟨fun none before a front t done => none before a t front done,
    fun none before a t front done => none before a front t done⟩

/-- A loop with fuel returns a result when every large enough amount of fuel gives it. -/
def Returns (loop : Nat → Except ε α) (result : α) : Prop :=
  ∃ bound, ∀ fuel, bound ≤ fuel → loop fuel = .ok result

theorem Returns.unique {loop : Nat → Except ε α} (first : Returns loop a) (second : Returns loop b) :
    a = b := by
  obtain ⟨m, hm⟩ := first
  obtain ⟨n, hn⟩ := second
  have left := hm (max m n) (Nat.le_max_left m n)
  have right := hn (max m n) (Nat.le_max_right m n)
  exact Except.ok.inj (left.symm.trans right)

theorem Returns.of_add {loop : Nat → Except ε α} (bound : Nat) (done : ∀ k, loop (k + bound) = .ok result) :
    Returns loop result := by
  refine ⟨bound, fun fuel enough => ?_⟩
  obtain ⟨k, rfl⟩ := Nat.exists_eq_add_of_le' enough
  exact done k

/-- Forward simulation of a total specification: no run of related actions fails. -/
theorem run_simulates {step : σ → α → Except ε σ} {spec : τ → α → τ} (related : σ → τ → Prop)
    (simulate : ∀ s t a, related s t → ∃ next, step s a = .ok next ∧ related next (spec t a))
    (actions : List α) (s : σ) (t : τ) (start : related s t) :
    ∃ final, run step s actions = .ok final ∧ related final (actions.foldl spec t) := by
  induction actions generalizing s t with
  | nil => exact ⟨s, rfl, start⟩
  | cons a rest ih =>
    obtain ⟨next, first, kept⟩ := simulate s t a start
    obtain ⟨final, later, done⟩ := ih next (spec t a) kept
    exact ⟨final, (run_cons first rest).trans later, done⟩

/-- Two computations come back with related results, or go wrong with one error. -/
inductive Agrees (related : σ → τ → Prop) : Except ε σ → Except ε τ → Prop where
  | ok (results : related s t) : Agrees related (.ok s) (.ok t)
  | error (e : ε) : Agrees related (.error e) (.error e)

theorem Agrees.refl (x : Except ε σ) : Agrees (· = ·) x x := by
  cases x with
  | error e => exact .error e
  | ok s => exact .ok rfl

theorem Agrees.bind {related : σ → τ → Prop} {related' : σ' → τ' → Prop} {x : Except ε σ} {y : Except ε τ}
    {f : σ → Except ε σ'} {g : τ → Except ε τ'} (first : Agrees related x y)
    (later : ∀ s t, related s t → Agrees related' (f s) (g t)) : Agrees related' (x >>= f) (y >>= g) := by
  cases first with
  | ok results => exact later _ _ results
  | error e => exact .error e

theorem Agrees.imp {related related' : σ → τ → Prop} {x : Except ε σ} {y : Except ε τ}
    (agrees : Agrees related x y) (weaker : ∀ s t, y = .ok t → related s t → related' s t) :
    Agrees related' x y := by
  cases agrees with
  | ok results => exact .ok (weaker _ _ rfl results)
  | error e => exact .error e

/-- Simulation error for error, while what is left of a budget allows it. -/
theorem run_agrees {step : σ → α → Except ε σ} {spec : τ → α → Except ε τ} (related : Nat → σ → τ → Prop)
    (simulate : ∀ n s t a, related (n + 1) s t → Agrees (related n) (step s a) (spec t a))
    (actions : List α) (s : σ) (t : τ) (start : related actions.length s t) :
    Agrees (related 0) (run step s actions) (run spec t actions) := by
  induction actions generalizing s t with
  | nil => exact .ok start
  | cons a rest ih => exact (simulate rest.length s t a start).bind fun next next' kept => ih next next' kept

/-- Simulation error for error, by each of the actions that are taken. -/
theorem run_agrees_each {step : σ → α → Except ε σ} {spec : τ → α → Except ε τ} (related : σ → τ → Prop)
    (actions : List α)
    (simulate : ∀ a ∈ actions, ∀ s t, related s t → Agrees related (step s a) (spec t a))
    (start : related s t) : Agrees related (run step s actions) (run spec t actions) := by
  induction actions generalizing s t with
  | nil => exact .ok start
  | cons a rest ih =>
    exact (simulate a List.mem_cons_self s t start).bind fun next next' kept =>
      ih (fun b member => simulate b (List.mem_cons_of_mem a member)) kept

/-- Safety of a step relation: what starts true and is kept by each step is always true. -/
theorem reachable_invariant {step : σ → σ → Prop} (property : σ → Prop)
    (kept : ∀ s next, property s → step s next → property next)
    (path : Relation.ReflTransGen step start s) (initial : property start) : property s := by
  induction path with
  | refl => exact initial
  | tail _ last ih => exact kept _ _ ih last

/-- A run of a step relation: where each step was taken, and its label. -/
inductive Trace (step : σ → α → σ → Prop) (start : σ) : List (σ × α) → σ → Prop where
  | nil : Trace step start [] start
  | snoc (front : Trace step start steps s) (last : step s a t) : Trace step start (steps ++ [(s, a)]) t

namespace Trace

variable {step : σ → α → σ → Prop} {start s t : σ} {steps : List (σ × α)}

theorem single (only : step start a t) : Trace step start [(start, a)] t := .snoc .nil only

theorem append (front : Trace step start steps s) (back : Trace step s later t) :
    Trace step start (steps ++ later) t := by
  induction back with
  | nil => rwa [List.append_nil]
  | snoc _ last ih =>
    rw [← List.append_assoc]
    exact .snoc ih last

theorem invariant (property : σ → Prop) (kept : ∀ s a t, property s → step s a t → property t)
    (trace : Trace step start steps s) (initial : property start) : property s := by
  induction trace with
  | nil => exact initial
  | snoc _ last ih => exact kept _ _ _ ih last

/-- What the allowed steps keep holds behind a run of allowed steps. -/
theorem allowed_invariant {allowed : σ → α → Prop} (property : σ → Prop)
    (kept : ∀ s a t, property s → allowed s a → step s a t → property t)
    (trace : Trace step start steps s) (every : ∀ x ∈ steps, allowed x.1 x.2)
    (initial : property start) : property s := by
  induction trace with
  | nil => exact initial
  | snoc _ last ih =>
    have here := every _ (List.mem_append_right _ (List.mem_singleton_self _))
    exact kept _ _ _ (ih fun x member => every x (List.mem_append_left _ member)) here last

/-- A run is good if and only if all its steps are allowed, when the allowed steps keep it good and
any other step spoils it for ever. -/
theorem good_iff (allowed : σ → α → Prop) (good spoilt : σ → Prop)
    (kept : ∀ s a t, good s → allowed s a → step s a t → good t)
    (spoils : ∀ s a t, good s → ¬ allowed s a → step s a t → spoilt t)
    (remains : ∀ s a t, spoilt s → step s a t → spoilt t)
    (apart : ∀ s, good s → ¬ spoilt s)
    (trace : Trace step start steps s) (initial : good start) :
    (good s ↔ ∀ x ∈ steps, allowed x.1 x.2) ∧ (good s ∨ spoilt s) := by
  induction trace with
  | nil => simp [initial]
  | @snoc steps s a t _ last ih =>
    have split : (∀ x ∈ steps ++ [(s, a)], allowed x.1 x.2) ↔
        (∀ x ∈ steps, allowed x.1 x.2) ∧ allowed s a := by simp [or_imp, forall_and]
    rw [split, ← ih.1]
    rcases ih.2 with still | already
    · by_cases fine : allowed s a
      · have next := kept s a t still fine last
        simp [next, still, fine]
      · have next := spoils s a t still fine last
        have ended : ¬ good t := fun here => apart t here next
        simp [next, ended, fine]
    · have next := remains s a t already last
      have ended : ¬ good t := fun here => apart t here next
      have before : ¬ good s := fun here => apart s here already
      simp [next, ended, before]

end Trace

end Tasks.Kit
