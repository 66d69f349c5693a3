import Tasks.Numbers.Ends
import Tasks.Numbers.Task11
import Tasks.Numbers.Handover

/-! What `number.txt` is in Tasks 5, 9, 10 and 11 once the writer reads at the end of the pipe: the
numbers that it took, and then copies of the last one. -/
namespace Tasks.Numbers

open Kit

theorem Task11.keeps (capacity : Nat) :
    Keeps (Step capacity) System.belt System.receivedNumber System.Careful where
  hand := by
    intro s
    cases holds : s.writer.holdsNumber with
    | true => exact .inr (by simp [System.belt, holds])
    | false => exact .inl (by simp [System.belt, holds])
  kept := by
    intro s event t step either
    cases step with
    | read alive here more =>
      rcases either with free | careless
      · simp [System.belt, Writing.holdsNumber] at free
      · simp [System.Careful, more] at careless
    | enter | count | claim | proceed | readFile | openFails | write | writeFails | brokenPipe | leave
    | uncount | release | depart | exit | killReader | readEnd | readFails | wait | append | appendFails
    | post | postAndExit | killWriter => rfl

namespace Handover

def Event.writes : Event → List Int
  | .write random => [random]
  | _ => []

/-- The parent's number is in hand until it is appended. -/
def System.belt (s : System) : Belt Int :=
  ⟨s.pipe, if s.parent = .appending then [s.receivedNumber] else [], s.file⟩

def System.Fed (s : System) (event : Event) : Prop := event = .read → s.pipe ≠ []

variable {capacity : Nat} {s t : System} {event : Event}

theorem belt_moves (step : Step capacity s event t) (fed : s.Fed event) :
    s.belt.Moves event.writes t.belt := by
  cases step with
  | deliver | test | pause | readFile | openFails | brokenPipe | wake => exact .rest
  | write random => exact .write random
  | read here more => exact .take (by simp [System.belt, here]) more
  | readEnd here empty => exact absurd empty (fed rfl)
  | append here =>
    have files := Belt.Moves.file (b := s.belt)
    rwa [show s.belt.hand = [s.receivedNumber] by simp [System.belt, here]] at files
  | parentFails here =>
    have rests := Belt.Moves.rest (b := s.belt)
    rcases here with here | here <;> simpa [System.belt, here, Event.writes] using rests
  | call here | parentOpens here | dismiss here | parentWakes here | close here =>
    have rests := Belt.Moves.rest (b := s.belt)
    simpa [System.belt, here, Event.writes] using rests

theorem silence (trace : Trace (Step capacity) s steps t) (gone : s.child = .gone) :
    written Event.writes steps = [] ∧ t.child = .gone := by
  induction trace with
  | nil => exact ⟨rfl, gone⟩
  | snoc _ last ih =>
    obtain ⟨none, gone⟩ := ih
    cases last with
    | deliver signal sent alive => exact absurd gone alive
    | test here | pause here | readFile here | openFails here | write _ here | brokenPipe here
    | wake here => simp [gone] at here
    | call | parentOpens | parentFails | read | readEnd | append | dismiss | parentWakes | close =>
      exact ⟨by simp [none, Event.writes], gone⟩

/-- At the end of the pipe the child is gone, and the parent takes its last number once more. -/
theorem unfed_step (step : Step capacity s event t) (unfed : ¬ s.Fed event) :
    event.writes = [] ∧ s.belt.Invents t.belt ∧ t.child = .gone := by
  simp only [System.Fed, Classical.not_imp, not_not] at unfed
  obtain ⟨rfl, empty⟩ := unfed
  cases step with
  | read here more => simp [more] at empty
  | readEnd here _ closed =>
    have free : s.belt.hand = [] := by simp [System.belt, here]
    exact ⟨rfl, ⟨free, empty, s.receivedNumber, rfl⟩, closed⟩

theorem conveys (capacity : Nat) : Conveys (Step capacity) System.belt Event.writes System.Fed where
  moves := fun _ _ _ step fed => belt_moves step fed
  invents := by
    intro s event t step unfed
    obtain ⟨silent, invents, _⟩ := unfed_step step unfed
    exact ⟨silent, invents⟩
  closed := by
    intro s event t steps u step unfed later
    obtain ⟨_, _, gone⟩ := unfed_step step unfed
    exact (silence later gone).1

theorem keeps (capacity : Nat) :
    Keeps (Step capacity) System.belt System.receivedNumber System.Fed where
  hand := by
    intro s
    by_cases appending : s.parent = .appending
    · exact .inr (by simp [System.belt, appending])
    · exact .inl (by simp [System.belt, appending])
  kept := by
    intro s event t step either
    cases step with
    | read here more =>
      rcases either with free | unfed
      · simp [System.belt] at free
      · simp [System.Fed, more] at unfed
    | deliver | test | pause | readFile | openFails | write | brokenPipe | wake | call | parentOpens
    | parentFails | readEnd | append | dismiss | parentWakes | close => rfl

end Handover

end Tasks.Numbers
