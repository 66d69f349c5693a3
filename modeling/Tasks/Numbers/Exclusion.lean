import Tasks.Numbers.Sections
import Mathlib.Data.Fintype.Option
import Mathlib.Data.Fintype.Card
import Mathlib.Tactic.FinCases

/-! At most one process is in a section of `number.txt`, whatever the readers and the writer do
and wherever a reader gives up. -/
namespace Tasks.Numbers

open Kit

variable {σ : Type} {n : Nat} {lock : Lock σ n} {capacity : Nat} {s t : System σ n}

def Action.actor : Action n → Proc n
  | .startRead i | .readFile i | .openFails i | .write i _ | .endRead i | .exit i => some i
  | .startWrite | .poll | .read | .append | .endWrite => none

/-- What the two programs rely on: `held l holder` says that the semaphores `l` belong to the
process `holder`, if to any. -/
structure Lock.Lawful (lock : Lock σ n) (held : σ → Option (Proc n) → Prop) : Prop where
  startRead_free : ∀ l i, held l none → ∃ l', lock.startRead l i = some l' ∧ held l' (some (some i))
  startRead_held : ∀ l i p, held l (some p) → lock.startRead l i = none
  endRead : ∀ l i, held l (some (some i)) → ∃ l', lock.endRead l i = some l' ∧ held l' none
  startWrite_free : ∀ l, held l none → ∃ l', lock.startWrite l = some l' ∧ held l' (some none)
  startWrite_held : ∀ l p, held l (some p) → lock.startWrite l = none
  unread : ∀ l, held l (some none) → lock.unread l
  endWrite : ∀ l, held l (some none) → ∃ l', lock.endWrite l = some l' ∧ held l' none
  giveUp : ∀ l i, held l (some (some i)) → held (lock.giveUp l i) none

def Exclusive (held : σ → Option (Proc n) → Prop) (s : System σ n) : Prop :=
  ∃ holder, held s.lock holder ∧ ∀ p, s.Inside p ↔ holder = some p

section Steps

variable {held : σ → Option (Proc n) → Prop} {action : Action n}

theorem readerTo_same (s : System σ n) (i : Fin n) (point : Reading) :
    (s.readerTo i point).reader i = point := Function.update_self ..

theorem readerTo_other (s : System σ n) (point : Reading) (other : j ≠ i) :
    (s.readerTo i point).reader j = s.reader j := Function.update_of_ne other ..

theorem step_others (step : Step lock capacity s action t) :
    (∀ i, some i ≠ action.actor → t.reader i = s.reader i) ∧
      (action.actor ≠ none → t.writer = s.writer) := by
  cases step with
  | startRead i | readFile i | openFails i | write i | endRead i | exit i =>
    refine ⟨fun j other => ?_, fun _ => rfl⟩
    exact readerTo_other s _ fun same => other (congrArg some same)
  | startWrite | poll | read | readEnd | append | endWrite =>
    exact ⟨fun _ _ => rfl, fun impossible => absurd rfl impossible⟩

theorem inside_others (step : Step lock capacity s action t) (p : Proc n) (other : p ≠ action.actor) :
    t.Inside p ↔ s.Inside p := by
  obtain ⟨readers, writer⟩ := step_others step
  cases p with
  | none => rw [System.Inside, System.Inside, writer (Ne.symm other)]
  | some i => rw [System.Inside, System.Inside, readers i other]

theorem exclusive_passed {holder holder' : Option (Proc n)} (step : Step lock capacity s action t)
    (inside : ∀ p, s.Inside p ↔ holder = some p) (holds : held t.lock holder')
    (self : t.Inside action.actor ↔ holder' = some action.actor)
    (passed : holder = none ∧ holder' = some action.actor ∨
      holder = some action.actor ∧ holder' = none) : Exclusive held t := by
  refine ⟨holder', holds, fun p => ?_⟩
  by_cases same : p = action.actor
  · rw [same]
    exact self
  · have apart : action.actor ≠ p := Ne.symm same
    rw [inside_others step p same, inside p]
    rcases passed with ⟨rfl, rfl⟩ | ⟨rfl, rfl⟩
    · simp [apart]
    · simp [apart]

theorem exclusive_kept (exclusive : Exclusive held s) (step : Step lock capacity s action t)
    (unused : t.lock = s.lock) (self : t.Inside action.actor ↔ s.Inside action.actor) :
    Exclusive held t := by
  obtain ⟨holder, holds, inside⟩ := exclusive
  refine ⟨holder, unused ▸ holds, fun p => ?_⟩
  by_cases same : p = action.actor
  · rw [same, self, inside]
  · rw [inside_others step p same, inside]

theorem step_exclusive (lawful : lock.Lawful held) (exclusive : Exclusive held s)
    (step : Step lock capacity s action t) : Exclusive held t := by
  have whole := step
  obtain ⟨holder, holds, inside⟩ := id exclusive
  cases step with
  | startRead i here taken =>
    cases holder with
    | some p => simp [lawful.startRead_held _ i p holds] at taken
    | none =>
      obtain ⟨l, took, holds'⟩ := lawful.startRead_free _ i holds
      cases taken.symm.trans took
      exact exclusive_passed whole inside holds' (by simp [System.Inside, readerTo_same, Action.actor])
        (.inl ⟨rfl, rfl⟩)
  | openFails i here =>
    obtain rfl := (inside (some i)).mp (by simp [System.Inside, here])
    exact exclusive_passed whole inside (lawful.giveUp _ i holds)
      (by simp [System.Inside, readerTo_same, Action.actor]) (.inr ⟨rfl, rfl⟩)
  | endRead i here given =>
    obtain rfl := (inside (some i)).mp (by simp [System.Inside, here])
    obtain ⟨l, gave, holds'⟩ := lawful.endRead _ i holds
    cases given.symm.trans gave
    exact exclusive_passed whole inside holds' (by simp [System.Inside, readerTo_same, Action.actor])
      (.inr ⟨rfl, rfl⟩)
  | startWrite here taken =>
    cases holder with
    | some p => simp [lawful.startWrite_held _ p holds] at taken
    | none =>
      obtain ⟨l, took, holds'⟩ := lawful.startWrite_free _ holds
      cases taken.symm.trans took
      refine exclusive_passed whole inside holds' ?_ (.inl ⟨rfl, rfl⟩)
      simp only [System.Inside, Action.actor, iff_true]
      split <;> simp
  | endWrite here given =>
    obtain rfl := (inside none).mp (by simp [System.Inside, here])
    obtain ⟨l, gave, holds'⟩ := lawful.endWrite _ holds
    cases given.symm.trans gave
    exact exclusive_passed whole inside holds' (by simp [System.Inside, Action.actor])
      (.inr ⟨rfl, rfl⟩)
  | readFile i here | write i _ here _ | exit i here =>
    exact exclusive_kept exclusive whole rfl
      (by simp [System.Inside, readerTo_same, Action.actor, here])
  | poll here _ | read here _ | readEnd here _ _ | append here =>
    exact exclusive_kept exclusive whole rfl (by simp [System.Inside, Action.actor, here])

theorem start_exclusive {l : σ} (free : held l none) (receivedNumber : Int) (file : List Int) :
    Exclusive held (.start l receivedNumber file) := by
  refine ⟨none, free, fun p => ?_⟩
  cases p <;> simp [System.Inside, System.start]

/-- No run brings a second process into a section. -/
theorem reachable_exclusive (lawful : lock.Lawful held) (start : Exclusive held s)
    (path : Relation.ReflTransGen (Next lock capacity) s t) : Exclusive held t := by
  refine reachable_invariant (Exclusive held) ?_ path start
  rintro s t exclusive ⟨action, step⟩
  exact step_exclusive lawful exclusive step

end Steps

namespace Task9

def taken : Proc n → Fin 2 → Int
  | some _ => ![1, -1]
  | none => ![1, 0]

/-- The holder's share is missing from the values and stands in its adjustments. -/
structure Held (semid : SemSet n) (holder : Option (Proc n)) : Prop where
  val : ∀ j, semid.val j = ![1, 0] j - holder.elim (fun _ => 0) taken j
  adj : ∀ p j, semid.adj p j = if holder = some p then taken p j else 0

theorem initSemaphores_held (semid : SemSet n) : Held (initSemaphores semid) none := by
  constructor
  · rw [Fin.forall_fin_two]
    simp [initSemaphores, Semaphores.setval]
  · intro p
    rw [Fin.forall_fin_two]
    simp [initSemaphores, Semaphores.setval]

section Lawful

variable {semid semid' : SemSet n} {sops : List (Sembuf (Fin 2))} {p : Proc n}

theorem Held.take (held : Held semid none) (done : semid.semop p sops = some semid')
    (share : ∀ j, Semaphores.delta sops j = - taken p j) : Held semid' (some p) := by
  constructor
  · intro j
    have free := held.val j
    rw [(Semaphores.semop_delta done j).1, share j, free]
    simp [Int.sub_eq_add_neg]
  · intro q j
    have free := held.adj q j
    rw [(Semaphores.semop_delta done j).2 q, share j, free]
    by_cases same : q = p
    · simp [same]
    · simp [same, Ne.symm same]

theorem Held.give (held : Held semid (some p)) (done : semid.semop p sops = some semid')
    (share : ∀ j, Semaphores.delta sops j = taken p j) : Held semid' none := by
  constructor
  · intro j
    have mine := held.val j
    rw [(Semaphores.semop_delta done j).1, share j, mine]
    simp
  · intro q j
    have mine := held.adj q j
    rw [(Semaphores.semop_delta done j).2 q, share j, mine]
    by_cases same : q = p
    · simp [same]
    · simp [same, Ne.symm same]

/-- The kernel gives back exactly the share of a process that exits inside. -/
theorem Held.exit (held : Held semid (some p)) : Held (semid.exit p) none := by
  constructor
  · intro j
    have mine := held.val j
    have undo := held.adj p j
    have whole : semid.val j + semid.adj p j = ![1, 0] j := by
      rw [mine, undo]
      simp
    rw [Semaphores.exit_val, whole]
    fin_cases j <;> rfl
  · intro q j
    have undo := held.adj q j
    by_cases same : q = p
    · simp [Semaphores.exit, same]
    · simp [Semaphores.exit, same, undo, Ne.symm same]

theorem Held.mutex (held : Held semid (some p)) : semid.val 0 = 0 := by
  cases p <;> simpa [taken] using held.val 0

theorem lock_lawful : (Task9.lock n).Lawful Held where
  startRead_free semid i held := by
    have mutex : semid.val 0 = 1 := by simpa using held.val 0
    have readers : semid.val 1 = 0 := by simpa using held.val 1
    obtain ⟨semid', done⟩ := Semaphores.semop_pair semid (some i) 0 (-1) 1 1 (by simp) (by simp)
      (by omega) (by simp) (by omega)
    refine ⟨semid', done, held.take done ?_⟩
    rw [Fin.forall_fin_two]
    simp [Semaphores.delta, taken]
  startRead_held semid i p held := by
    have mutex := held.mutex
    exact Semaphores.semop_blocks (by simp) (by omega) _
  endRead semid i held := by
    have mutex := held.mutex
    have readers : semid.val 1 = 1 := by simpa [taken] using held.val 1
    obtain ⟨semid', done⟩ := Semaphores.semop_pair semid (some i) 1 (-1) 0 1 (by simp) (by simp)
      (by omega) (by simp) (by omega)
    refine ⟨semid', done, held.give done ?_⟩
    rw [Fin.forall_fin_two]
    simp [Semaphores.delta, taken]
  startWrite_free semid held := by
    have mutex : semid.val 0 = 1 := by simpa using held.val 0
    obtain ⟨semid', done⟩ := Semaphores.semop_single semid none 0 (-1) (by simp) (by omega)
    refine ⟨semid', done, held.take done ?_⟩
    rw [Fin.forall_fin_two]
    simp [Semaphores.delta, taken]
  startWrite_held semid p held := by
    have mutex := held.mutex
    exact Semaphores.semop_blocks (by simp) (by omega) _
  unread semid held := by
    have readers : semid.val 1 = 0 := by simpa [taken] using held.val 1
    simp [Task9.lock, readers]
  endWrite semid held := by
    have mutex := held.mutex
    obtain ⟨semid', done⟩ := Semaphores.semop_single semid none 0 1 (by simp) (by omega)
    refine ⟨semid', done, held.give done ?_⟩
    rw [Fin.forall_fin_two]
    simp [Semaphores.delta, taken]
  giveUp semid i held := held.exit

end Lawful

/-- Semaphore 0 and the processes inside make one, semaphore 1 counts the readers inside, and the
writer finds it at zero whenever it looks. -/
theorem sections_exclusive {s : System (SemSet n) n} (semid : SemSet n)
    (path : Relation.ReflTransGen (Next (Task9.lock n) capacity)
      (.start (initSemaphores semid) receivedNumber file) s) :
    s.lock.val 0 + (Finset.univ.filter fun p => s.Inside p).card = 1 ∧
      s.lock.val 1 = (Finset.univ.filter fun i => s.Inside (some i)).card ∧
      (∀ p q, s.Inside p → s.Inside q → p = q) ∧ (s.writer = .polling → s.lock.val 1 = 0) := by
  obtain ⟨holder, held, inside⟩ := reachable_exclusive lock_lawful
    (start_exclusive (initSemaphores_held semid) receivedNumber file) path
  refine ⟨?_, ?_, ?_, ?_⟩
  · cases holder with
    | none =>
      have nobody : (Finset.univ.filter fun p => s.Inside p) = ∅ := by simp [inside]
      simpa [nobody] using held.val 0
    | some p =>
      have alone : (Finset.univ.filter fun p => s.Inside p) = {p} := by
        ext q
        simp [inside, eq_comm]
      simp [alone, held.mutex]
  · rcases holder with _ | _ | i
    · have nobody : (Finset.univ.filter fun i => s.Inside (some i)) = ∅ := by simp [inside]
      simpa [nobody] using held.val 1
    · have nobody : (Finset.univ.filter fun i => s.Inside (some i)) = ∅ := by simp [inside]
      simpa [nobody, taken] using held.val 1
    · have alone : (Finset.univ.filter fun i => s.Inside (some i)) = {i} := by
        ext j
        simp [inside, eq_comm]
      simpa [alone, taken] using held.val 1
  · intro p q here there
    exact Option.some.inj (((inside p).mp here).symm.trans ((inside q).mp there))
  · intro polling
    obtain rfl := (inside none).mp (by simp [System.Inside, polling])
    simpa [taken] using held.val 1

theorem sections_exclusive_reader :
    ∃ semid : SemSet 2, startRead (initSemaphores ⟨fun _ => 0, fun _ _ => 0⟩) 0 = some semid ∧
      semid.val 0 + 1 = 1 ∧ semid.val 1 = 1 := by
  obtain ⟨semid, took, _⟩ := lock_lawful.startRead_free _ (0 : Fin 2)
    (initSemaphores_held ⟨fun _ => 0, fun _ _ => 0⟩)
  have path : Relation.ReflTransGen (Next (Task9.lock 2) 1)
      (.start (initSemaphores ⟨fun _ => 0, fun _ _ => 0⟩) 0 [])
      { (System.start (initSemaphores ⟨fun _ => 0, fun _ _ => 0⟩) 0 []).readerTo 0 .opening with
        lock := semid } := .single ⟨.startRead 0, .startRead 0 rfl took⟩
  obtain ⟨mutex, readers, _⟩ := sections_exclusive _ path
  exact ⟨semid, took, mutex, readers⟩

end Task9

namespace Task10

def Held (sem : Nat) (holder : Option (Proc 1)) : Prop := sem = if holder = none then 1 else 0

theorem lock_lawful : Task10.lock.Lawful Held where
  startRead_free sem i held := by
    obtain rfl : sem = 1 := held
    exact ⟨0, rfl, rfl⟩
  startRead_held sem i p held := by
    obtain rfl : sem = 0 := held
    rfl
  endRead sem i held := by
    obtain rfl : sem = 0 := held
    exact ⟨1, rfl, rfl⟩
  startWrite_free sem held := by
    obtain rfl : sem = 1 := held
    exact ⟨0, rfl, rfl⟩
  startWrite_held sem p held := by
    obtain rfl : sem = 0 := held
    rfl
  unread sem held := rfl
  endWrite sem held := by
    obtain rfl : sem = 0 := held
    exact ⟨1, rfl, rfl⟩
  giveUp sem i held := by
    obtain rfl : sem = 0 := held
    rfl

end Task10

end Tasks.Numbers
