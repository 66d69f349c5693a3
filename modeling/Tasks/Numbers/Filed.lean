import Tasks.Numbers.Ends
import Tasks.Numbers.Task11

/-! What the writers of Tasks 9, 10 and 11 append is what their readers wrote, until one of them
reads at the end of the pipe. -/
namespace Tasks.Numbers

open Kit

/-- Any number of readers in Task 9, one in Tasks 10 and 11, a pipe of any capacity and semaphores
of any value. -/
theorem numbers_filed_iff (capacity : Nat) (receivedNumber : Int) :
    (∀ n (semid : Task9.SemSet n),
        FiledIffCareful (Session.Step (Task9.lock n) (Task9.ends n) capacity)
          (fun s => s.system.file) Event.writes Session.Careful
          (.start (Task9.initSemaphores semid) receivedNumber)) ∧
      (∀ sem, FiledIffCareful (Session.Step Task10.lock Task10.ends capacity)
        (fun s => s.system.file) Event.writes Session.Careful (.start sem receivedNumber)) ∧
      ∀ readersMutex resourceMutex, FiledIffCareful (Task11.Step capacity) Task11.System.file
        Task11.Event.writes Task11.System.Careful
        (.start readersMutex resourceMutex receivedNumber) :=
  ⟨fun n _ => (session_conveys (Task9.lock n) (Task9.ends n) capacity).filed_iff_careful rfl,
    fun _ => (session_conveys Task10.lock Task10.ends capacity).filed_iff_careful rfl,
    fun _ _ => (Task11.conveys capacity).filed_iff_careful rfl⟩

/-- Without `number.txt` the reader of Task 10 leaves at once, and the writer appends what its
variable happens to hold. -/
theorem invented_number :
    ¬ ∀ steps s, Trace (Session.Step Task10.lock Task10.ends 16384) (.start 1 5) steps s →
      s.system.file <+: written Event.writes steps := by
  intro law
  have started : Trace (Session.Step Task10.lock Task10.ends 16384) (.start 1 5) _ _ :=
    .snoc .nil (.act (by simp [Action.needsWriter]) (.startRead 0 rfl rfl))
  have failed := started.snoc (.act (by simp [Action.needsWriter]) (.openFails 0 rfl))
  have gone := failed.snoc (.act (by simp [Action.needsWriter]) (.exit 0 rfl))
  have entered := gone.snoc (.act (fun _ => rfl) (.startWrite rfl rfl))
  have read := entered.snoc (.act (fun _ => rfl) (.readEnd rfl rfl fun i => by
    rw [Subsingleton.elim i 0]
    rfl))
  have appended := read.snoc (.act (fun _ => rfl) (.append rfl))
  exact absurd (law _ _ appended) (by decide)

end Tasks.Numbers
