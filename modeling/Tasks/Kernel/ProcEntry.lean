import Tasks.Kit.Bytes
import Mathlib.Algebra.Ring.Nat

/-! Module 5, Lab 2: a /proc entry that keeps one message. What is still to be read is counted in
a variable that all readers share, and every read copies from the start of the message. -/
namespace Tasks.Kernel.ProcEntry

open Kit Kit.Bytes

/-- `MSG_SIZE` -/
def msgSize : Nat := 20

structure Entry where
  len : Nat
  temp : Nat
  msg : Bytes
  deriving DecidableEq, Repr

def procInit (memory : Vector UInt8 msgSize) : Entry := ⟨0, 0, memory.toList⟩

def copyToUser (msg : Bytes) (count : Nat) : Except Fault Bytes := do
  return (← load msg 0 count).toList

/-- The bound is the caller's. -/
def copyFromUser (msg buf : Bytes) : Except Fault Bytes := memcpy msg 0 buf

def readProc (entry : Entry) (count : Nat) : Except Fault (Entry × Bytes) := do
  let count := if count > entry.temp then entry.temp else count
  let entry := { entry with temp := entry.temp - count }
  let buf ← copyToUser entry.msg count
  let entry := if count = 0 then { entry with temp := entry.len } else entry
  return (entry, buf)

def writeProc (entry : Entry) (buf : Bytes) : Except Fault Entry := do
  let msg ← copyFromUser entry.msg buf
  let entry := { entry with msg, len := buf.length }
  return { entry with temp := entry.len }

inductive Call where
  | read (count : Nat)
  | write (buf : Bytes)
  deriving DecidableEq, Repr

def step (entry : Entry) : Call → Except Fault Entry
  | .read count => do return (← readProc entry count).1
  | .write buf => writeProc entry buf

def reads (entry : Entry) : List Nat → Except Fault (Entry × List Bytes)
  | [] => .ok (entry, [])
  | count :: rest => do
    let (entry, bytes) ← readProc entry count
    let (entry, later) ← reads entry rest
    return (entry, bytes :: later)

def ended (stop : α → Bool) (current : List α) : List α → List (List α)
  | [] => []
  | x :: rest =>
    if stop x then current :: ended stop [] rest else ended stop (current ++ [x]) rest

/-- The series of reads that end with one that returns 0. -/
def series (returned : List Bytes) : List (List Bytes) := ended List.isEmpty [] returned

def counts (n left : Nat) : List Nat → List Nat
  | [] => []
  | size :: rest =>
    min size left :: counts n (if min size left = 0 then n else left - min size left) rest

/-- Reads that get so many bytes each find at their place the bytes that stand in front. -/
def Repeats (w : Bytes) (got : List Nat) : Prop :=
  ∀ front c back, got = front ++ c :: back → (w.drop front.sum).take c = w.take c

structure Written (calls before : List Call) (w : Bytes) (sizes : List Nat) : Prop where
  follows : before ++ .write w :: sizes.map .read <+: calls
  short : w.length ≤ msgSize
  positive : ∀ size ∈ sizes, 0 < size

/-- No call leaves `msg`, and each series of reads returns what was written. -/
structure GivesBack (memory : Vector UInt8 msgSize) (calls : List Call) : Prop where
  inside : run step (procInit memory) calls ≠ .error .outOfBounds
  whole : ∀ before w sizes, Written calls before w sizes →
    ∃ written last returned, run step (procInit memory) (before ++ [.write w]) = .ok written ∧
      reads written sizes = .ok (last, returned) ∧ ∀ one ∈ series returned, one.flatten = w

section Calls

variable {entry next : Entry} {call : Call} {calls : List Call} {w junk : Bytes}

structure Sound (entry : Entry) : Prop where
  size : entry.msg.length = msgSize
  left : entry.temp ≤ entry.len
  fits : entry.len ≤ msgSize

def Overlong (call : Call) : Prop := ∃ w, call = .write w ∧ msgSize < w.length

/-- What stands at the start of the message. -/
theorem copyToUser_front (text after : Bytes) (length : text.length = n) :
    copyToUser (text ++ after) n = .ok text := by
  subst length
  have front := load_append [] ⟨text.toArray, List.size_toArray⟩ after
  simp only [Vector.toList_mk, List.nil_append, List.length_nil] at front
  rw [copyToUser, front]
  rfl

/-- A read takes from the start of the message, wherever the reader is. -/
theorem readProc_written (w junk : Bytes) (left size : Nat) (inside : left ≤ w.length) :
    readProc ⟨w.length, left, w ++ junk⟩ size =
      .ok (⟨w.length, if min size left = 0 then w.length else left - min size left, w ++ junk⟩,
        w.take (min size left)) := by
  have bound : (if size > left then left else size) = min size left := by
    split <;> omega
  have front := copyToUser_front (w.take (min size left)) (w.drop (min size left) ++ junk)
    (List.length_take_of_le (by omega : min size left ≤ w.length))
  rw [← List.append_assoc, List.take_append_drop] at front
  simp only [readProc, bound, front, ok_bind]
  split <;> rfl

theorem readProc_sound (sound : Sound entry) (size : Nat) :
    ∃ next bytes, readProc entry size = .ok (next, bytes) ∧ Sound next := by
  obtain ⟨len, left, msg⟩ := entry
  obtain ⟨full, inside, fits⟩ := sound
  dsimp only at full inside fits
  have length : (msg.take len).length = len := List.length_take_of_le (by omega)
  have done := readProc_written (msg.take len) (msg.drop len) left size (by omega)
  rw [List.take_append_drop, length] at done
  refine ⟨_, _, done, full, ?_, fits⟩
  dsimp only
  split <;> omega

theorem writeProc_short (size : entry.msg.length = msgSize) (short : w.length ≤ msgSize) :
    writeProc entry w = .ok ⟨w.length, w.length, w ++ entry.msg.drop w.length⟩ := by
  have copied := memcpy_append [] (entry.msg.take w.length) (entry.msg.drop w.length) w (by simp; omega)
  simp only [List.nil_append, List.length_nil, List.take_append_drop] at copied
  rw [writeProc, copyFromUser, copied]
  rfl

theorem writeProc_overlong (size : entry.msg.length = msgSize) (long : msgSize < w.length) :
    writeProc entry w = .error .outOfBounds := by
  have overrun : ¬ 0 + w.length ≤ entry.msg.length := by omega
  rw [writeProc, copyFromUser, memcpy, if_neg overrun]
  rfl

/-- A call returns, unless it is an overlong write. -/
theorem step_cases (sound : Sound entry) (call : Call) :
    (∃ next, step entry call = .ok next ∧ Sound next ∧ ¬ Overlong call) ∨
      (step entry call = .error .outOfBounds ∧ Overlong call) := by
  cases call with
  | read size =>
    obtain ⟨next, bytes, read, sound'⟩ := readProc_sound sound size
    exact .inl ⟨next, by rw [step, read]; rfl, sound', nofun⟩
  | write w =>
    by_cases short : w.length ≤ msgSize
    · refine .inl ⟨_, writeProc_short sound.size short, ⟨?_, le_rfl, short⟩, by simp [Overlong, short]⟩
      have size := sound.size
      simp only [List.length_append, List.length_drop]
      omega
    · have long : msgSize < w.length := by omega
      exact .inr ⟨writeProc_overlong sound.size long, w, rfl, long⟩

theorem procInit_sound (memory : Vector UInt8 msgSize) : Sound (procInit memory) :=
  ⟨memory.length_toList, le_rfl, Nat.zero_le _⟩

/-- Calls return one after another, unless there is an overlong write among them. -/
theorem run_cases (sound : Sound entry) (calls : List Call) :
    (∃ last, run step entry calls = .ok last ∧ Sound last ∧ ∀ call ∈ calls, ¬ Overlong call) ∨
      (run step entry calls = .error .outOfBounds ∧ ∃ call ∈ calls, Overlong call) := by
  induction calls generalizing entry with
  | nil => exact .inl ⟨entry, rfl, sound, by simp⟩
  | cons call rest ih =>
    rcases step_cases sound call with ⟨next, taken, sound', fine⟩ | ⟨stopped, long⟩
    · rw [run_cons taken]
      rcases ih sound' with ⟨last, done, sound'', others⟩ | ⟨stopped, other, member, long⟩
      · exact .inl ⟨last, done, sound'', by simpa using ⟨fine, others⟩⟩
      · exact .inr ⟨stopped, other, List.mem_cons_of_mem _ member, long⟩
    · refine .inr ⟨?_, call, List.mem_cons_self, long⟩
      rw [run, stopped]
      rfl

theorem run_inside_iff (sound : Sound entry) (calls : List Call) :
    run step entry calls ≠ .error .outOfBounds ↔ ∀ call ∈ calls, ¬ Overlong call := by
  rcases run_cases sound calls with ⟨last, done, _, fine⟩ | ⟨stopped, call, member, long⟩
  · simp only [done, ne_eq, reduceCtorEq, not_false_eq_true, true_iff]
    exact fine
  · simp only [stopped, ne_eq, not_true, false_iff]
    exact fun fine => fine call member long

end Calls

section Series

variable {w junk : Bytes} {sizes got : List Nat}

/-- Reads after a write return the front of the text, as much as they can get. -/
theorem reads_written (w junk : Bytes) (sizes : List Nat) (left : Nat) (inside : left ≤ w.length) :
    ∃ last, reads ⟨w.length, left, w ++ junk⟩ sizes =
      .ok (last, (counts w.length left sizes).map fun c => w.take c) := by
  induction sizes generalizing left with
  | nil => exact ⟨_, rfl⟩
  | cons size rest ih =>
    have inside' : (if min size left = 0 then w.length else left - min size left) ≤ w.length := by
      split <;> omega
    obtain ⟨last, later⟩ := ih _ inside'
    refine ⟨last, ?_⟩
    rw [reads, readProc_written w junk left size inside, ok_bind]
    dsimp only
    rw [later, counts]
    rfl

theorem counts_bound (n left : Nat) (inside : left ≤ n) (sizes : List Nat) :
    ∀ c ∈ counts n left sizes, c ≤ n := by
  induction sizes generalizing left with
  | nil => simp [counts]
  | cons size rest ih =>
    intro c member
    rcases List.mem_cons.mp member with rfl | later
    · omega
    · exact ih _ (by split <;> omega) c later

theorem ended_map {f : α → β} {stop : α → Bool} {stop' : β → Bool} (current : List α) {xs : List α}
    (agree : ∀ x ∈ xs, stop' (f x) = stop x) :
    ended stop' (current.map f) (xs.map f) = (ended stop current xs).map fun got => got.map f := by
  induction xs generalizing current with
  | nil => rfl
  | cons x rest ih =>
    have others : ∀ x ∈ rest, stop' (f x) = stop x := fun x member => agree x (List.mem_cons_of_mem _ member)
    rw [List.map_cons, ended, ended, agree x List.mem_cons_self]
    by_cases stops : stop x
    · rw [if_pos stops, if_pos stops, List.map_cons]
      exact congrArg _ (ih [] others)
    · rw [if_neg stops, if_neg stops, ← ih _ others, List.map_append, List.map_singleton]

theorem series_written (w : Bytes) (sizes : List Nat) :
    series ((counts w.length w.length sizes).map fun c => w.take c) =
      (ended (fun c => c = 0) [] (counts w.length w.length sizes)).map fun got =>
        got.map fun c => w.take c := by
  apply ended_map []
  intro c member
  have bound := counts_bound w.length w.length le_rfl sizes c member
  rw [Bool.eq_iff_iff, List.isEmpty_iff, List.take_eq_nil_iff, decide_eq_true_eq]
  constructor
  · rintro (none | none)
    · exact none
    · rw [none, List.length_nil] at bound
      omega
  · exact .inl

theorem ended_sum (n left : Nat) (current : List Nat) (account : current.sum + left = n)
    (sizes : List Nat) (positive : ∀ size ∈ sizes, 0 < size) :
    ∀ got ∈ ended (fun c => c = 0) current (counts n left sizes), got.sum = n := by
  induction sizes generalizing left current with
  | nil => simp [counts, ended]
  | cons size rest ih =>
    have first := positive size List.mem_cons_self
    have others : ∀ size ∈ rest, 0 < size := fun size member => positive size (List.mem_cons_of_mem _ member)
    rw [counts, ended]
    by_cases zero : min size left = 0
    · rw [if_pos (by simpa using zero), if_pos zero]
      intro got member
      rcases List.mem_cons.mp member with rfl | later
      · omega
      · exact ih n [] (by simp) others got later
    · rw [if_neg (by simpa using zero), if_neg zero]
      exact ih _ _ (by simp; omega) others

/-- Fronts of a text put together are the rest of it when each repeats what is at its place. -/
theorem fronts_iff (w : Bytes) (got : List Nat) (p : Nat) (account : p + got.sum = w.length) :
    (got.map fun c => w.take c).flatten = w.drop p ↔
      ∀ front c back, got = front ++ c :: back → (w.drop (p + front.sum)).take c = w.take c := by
  induction got generalizing p with
  | nil => simp at account ⊢; omega
  | cons c rest ih =>
    simp only [List.sum_cons] at account
    have split : w.drop p = (w.drop p).take c ++ w.drop (p + c) := by
      rw [← List.drop_drop, List.take_append_drop]
    have lengths : (w.take c).length = ((w.drop p).take c).length := by
      simp only [List.length_take, List.length_drop]
      omega
    have parts : w.take c ++ (rest.map fun c => w.take c).flatten = w.drop p ↔
        w.take c = (w.drop p).take c ∧ (rest.map fun c => w.take c).flatten = w.drop (p + c) := by
      constructor
      · intro whole
        rw [split] at whole
        exact List.append_inj whole lengths
      · rintro ⟨here, later⟩
        rw [here, later, ← split]
    rw [List.map_cons, List.flatten_cons, parts, ih (p + c) (by omega)]
    constructor
    · rintro ⟨here, later⟩ front c' back shape
      cases front with
      | nil =>
        cases shape
        exact here.symm
      | cons first front =>
        cases shape
        rw [List.sum_cons, ← Nat.add_assoc]
        exact later front c' back rfl
    · intro every
      refine ⟨(every [] c rest rfl).symm, fun front c' back shape => ?_⟩
      rw [Nat.add_assoc, ← List.sum_cons]
      exact every (c :: front) c' back (by rw [shape, List.cons_append])

end Series

section Histories

variable {memory : Vector UInt8 msgSize} {calls before : List Call} {w : Bytes} {sizes : List Nat}

/-- No write is longer than the buffer, and the reads of an ended series repeat. -/
structure Careful (calls : List Call) : Prop where
  short : ∀ call ∈ calls, ¬ Overlong call
  repeats : ∀ before w sizes, Written calls before w sizes →
    ∀ got ∈ ended (fun c => c = 0) [] (counts w.length w.length sizes), Repeats w got

/-- The state behind a write depends on nothing before it, but for what stands behind the text. -/
theorem written_state (follows : Written calls before w sizes)
    (short : ∀ call ∈ calls, ¬ Overlong call) :
    ∃ junk, run step (procInit memory) (before ++ [.write w]) =
      .ok ⟨w.length, w.length, w ++ junk⟩ := by
  obtain ⟨after, whole⟩ := follows.follows
  have earlier : ∀ call ∈ before, ¬ Overlong call := fun call member =>
    short call (by simp [← whole, member])
  rcases run_cases (procInit_sound memory) before with ⟨entry, done, sound, _⟩ | ⟨_, call, member, long⟩
  · exact ⟨_, run_concat.mpr ⟨entry, done, writeProc_short sound.size follows.short⟩⟩
  · exact absurd long (earlier call member)

theorem written_reads (follows : Written calls before w sizes)
    (short : ∀ call ∈ calls, ¬ Overlong call) :
    (∃ written last returned, run step (procInit memory) (before ++ [.write w]) = .ok written ∧
        reads written sizes = .ok (last, returned) ∧ ∀ one ∈ series returned, one.flatten = w) ↔
      ∀ got ∈ ended (fun c => c = 0) [] (counts w.length w.length sizes), Repeats w got := by
  obtain ⟨junk, done⟩ : ∃ junk, run step (procInit memory) (before ++ [.write w]) =
      .ok ⟨w.length, w.length, w ++ junk⟩ := written_state follows short
  obtain ⟨last, returned⟩ := reads_written w junk sizes w.length le_rfl
  have fronts : ∀ got ∈ ended (fun c => c = 0) [] (counts w.length w.length sizes),
      ((got.map fun c => w.take c).flatten = w ↔ Repeats w got) := by
    intro got member
    have total := ended_sum w.length w.length [] (by simp) sizes follows.positive got member
    simpa [Repeats] using fronts_iff w got 0 (by omega)
  constructor
  · rintro ⟨written, last', returned', done', read, whole⟩ got member
    cases done.symm.trans done'
    cases returned.symm.trans read
    rw [series_written] at whole
    exact (fronts got member).mp (whole _ (List.mem_map_of_mem member))
  · intro repeats
    refine ⟨_, last, _, done, returned, ?_⟩
    rw [series_written]
    intro one member
    obtain ⟨got, inside, rfl⟩ := List.mem_map.mp member
    exact (fronts got inside).mpr (repeats got inside)

/-- The entry gives back what was written exactly in careful histories. -/
theorem gives_back_iff (memory : Vector UInt8 msgSize) (calls : List Call) :
    GivesBack memory calls ↔ Careful calls := by
  constructor
  · intro gives
    have short := (run_inside_iff (procInit_sound memory) calls).mp gives.inside
    exact ⟨short, fun before w sizes follows =>
      (written_reads follows short).mp (gives.whole before w sizes follows)⟩
  · intro careful
    exact ⟨(run_inside_iff (procInit_sound memory) calls).mpr careful.short, fun before w sizes follows =>
      (written_reads follows careful.short).mpr (careful.repeats before w sizes follows)⟩

/-- "ab" read byte by byte is "aa", and 21 bytes leave the buffer. -/
theorem partial_reads_repeat :
    ¬ GivesBack (.replicate msgSize 0) [.write (ascii "ab"), .read 1, .read 1, .read 1] ∧
      ¬ GivesBack (.replicate msgSize 0) [.write (zeros 21)] := by
  constructor
  · intro gives
    have follows : Written [.write (ascii "ab"), .read 1, .read 1, .read 1] [] (ascii "ab") [1, 1, 1] :=
      ⟨List.prefix_rfl, by decide, by decide⟩
    obtain ⟨written, last, returned, done, read, whole⟩ := gives.whole _ _ _ follows
    cases done
    cases read
    exact absurd (whole [ascii "a", ascii "a"] (by decide)) (by decide)
  · intro gives
    exact gives.inside (by decide)

end Histories

end Tasks.Kernel.ProcEntry
