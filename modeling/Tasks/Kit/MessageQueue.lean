import Mathlib.Data.List.Basic

/-! Message queues: those of System V, from which the first message of a type is taken, and those
of POSIX, which are ordered by priority. -/
namespace Tasks.Kit

/-- The first message that `select` accepts, and the queue without it. -/
def takeFirst (select : α → Bool) : List α → Option (α × List α)
  | [] => none
  | x :: queue =>
    if select x then some (x, queue)
    else (takeFirst select queue).map fun taken => (taken.1, x :: taken.2)

/-- Behind the messages of its priority and of higher ones, in front of all others. -/
def enqueue (prio : α → Nat) (m : α) : List α → List α
  | [] => [m]
  | x :: queue => if prio x < prio m then m :: x :: queue else x :: enqueue prio m queue

variable {select : α → Bool} {queue rest : List α} {m : α}

theorem takeFirst_split (taken : takeFirst select queue = some (m, rest)) :
    select m ∧ ∃ before after, queue = before ++ m :: after ∧ rest = before ++ after ∧
      ∀ x ∈ before, select x = false := by
  induction queue generalizing rest with
  | nil => cases taken
  | cons x queue ih =>
    unfold takeFirst at taken
    split at taken
    next accepted =>
      cases taken
      exact ⟨accepted, [], queue, rfl, rfl, by simp⟩
    next refused =>
      obtain ⟨⟨m', rest'⟩, found, same⟩ := Option.map_eq_some_iff.mp taken
      cases same
      obtain ⟨accepted, before, after, rfl, rfl, others⟩ := ih found
      refine ⟨accepted, x :: before, after, rfl, rfl, ?_⟩
      simpa [refused] using others

theorem takeFirst_none : takeFirst select queue = none ↔ ∀ x ∈ queue, select x = false := by
  induction queue with
  | nil => simp [takeFirst]
  | cons x queue ih =>
    unfold takeFirst
    split
    next accepted => simp [accepted]
    next refused => simp [refused, ih]

theorem takeFirst_same (taken : takeFirst select queue = some (m, rest)) :
    queue.filter select = m :: rest.filter select := by
  obtain ⟨accepted, before, after, rfl, rfl, others⟩ := takeFirst_split taken
  have none : before.filter select = [] := by simpa using others
  simp [none, accepted]

theorem takeFirst_other (taken : takeFirst select queue = some (m, rest)) (other : α → Bool)
    (apart : ∀ x, select x → other x = false) : rest.filter other = queue.filter other := by
  obtain ⟨accepted, before, after, rfl, rfl, _⟩ := takeFirst_split taken
  simp [apart m accepted]

end Tasks.Kit
