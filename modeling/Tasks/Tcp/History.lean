import Tasks.Tcp.Answers

/-! What the answers of Task 15, and so of Task 16, owe to the requests before. -/
namespace Tasks.Tcp.Calculator

open Kit Kit.Bytes

/-- The variables of `calculate` at the front of its loop; `a`, `b` and `temp` are looked at only
behind an `sscanf` that has stored all three. -/
structure Frame (D : Type) where
  result : D
  buff : Bytes

/-- A turn of the loop around one `read`, with the string that it writes. -/
def reply (lib : Doubles D) (frame : Frame D) (got : Bytes) : Option (Frame D × Bytes) := do
  let buff := overlay (Task.task15.copy frame.buff prompt) got
  let text ← (cstr buff 0).toOption
  let (result, buff) ← calculate lib .task15 (some frame.result) buff text
  let result ← result
  let sent ← (cstr buff 0).toOption
  return (⟨result, buff⟩, sent)

def after (lib : Doubles D) (start : Frame D) (requests : List Bytes) : Option (Frame D) :=
  requests.foldlM (fun frame got => (reply lib frame got).map Prod.fst) start

/-- A text has one answer, whatever was on the stack and has been asked. -/
def Independent (lib : Doubles D) (text : Bytes) : Prop :=
  ∃ sent, ∀ (start : Frame D) (requests : List Bytes) (frame : Frame D) (more : Bytes),
    start.buff.length = 1024 → after lib start requests = some frame →
      (text ++ 0 :: more).length ≤ 1024 → (reply lib frame (text ++ 0 :: more)).map Prod.snd = some sent

section Requests

variable {lib : Doubles D} {text : Bytes} {last : D} {op : Oper}

theorem calculate_result (done : calculate lib .task15 (some last) buff text = some (result, buff')) :
    result.isSome := by
  unfold calculate at done
  simp only [Task.before] at done
  repeat' split at done
  all_goals simp only [Option.some.injEq, Prod.mk.injEq, reduceCtorEq] at done
  all_goals exact done.1 ▸ rfl

/-- The string that is written is the answer of `calculate`. -/
theorem reply_sent (clean : 0 ∉ text) (frame : Frame D) (more : Bytes) :
    (reply lib frame (text ++ 0 :: more)).map Prod.snd =
      answer lib .task15 (some frame.result)
        (overlay (Task.task15.copy frame.buff prompt) (text ++ 0 :: more)) text := by
  simp only [reply, answer, cstr_overlay clean, Except.toOption, Option.bind_eq_bind, Option.bind_some]
  cases done : calculate lib .task15 (some frame.result)
      (overlay (Task.task15.copy frame.buff prompt) (text ++ 0 :: more)) text with
  | none => rfl
  | some pair =>
    obtain ⟨result, buff⟩ := pair
    obtain ⟨result, rfl⟩ := Option.isSome_iff_exists.mp (calculate_result done)
    simp only [Option.bind_some]
    cases cstr buff 0 with
    | error fault => rfl
    | ok sent => rfl

theorem reply_known (lib : Doubles D) (scanned : lib.scan text = ⟨op.name, some (a, b)⟩)
    (solid : ∀ x, 0 ∉ lib.print x) (clean : 0 ∉ text) (frame : Frame D) (more : Bytes) :
    ∃ frame', (reply lib frame (text ++ 0 :: more)).map Prod.fst = some frame' ∧
      frame'.result = op.func lib a b := by
  obtain ⟨buff, done, written⟩ := calculate_known lib scanned solid .task15 (some frame.result)
    (overlay (Task.task15.copy frame.buff prompt) (text ++ 0 :: more))
  refine ⟨⟨op.func lib a b, buff⟩, ?_, rfl⟩
  simp only [reply, cstr_overlay clean, Except.toOption, Option.bind_eq_bind, Option.bind_some, done,
    written]
  rfl

theorem operation_named (member : entry ∈ operation lib) : ∃ op : Oper, entry.1 = op.name := by
  simp only [operation, List.mem_cons, List.not_mem_nil, or_false] at member
  rcases member with rfl | rfl | rfl | rfl
  · exact ⟨.sum, rfl⟩
  · exact ⟨.division, rfl⟩
  · exact ⟨.multiplication, rfl⟩
  · exact ⟨.subtraction, rfl⟩

/-- Without an operation of that name the last result is sent. -/
theorem answer_unknown (scanned : lib.scan text = ⟨[c], some (a, b)⟩)
    (unknown : ¬ ∃ op : Oper, op.name = [c])
    (solid : ∀ x, 0 ∉ lib.print x) (nonzero : lib.isZero last = false) (buff : Bytes) :
    answer lib .task15 (some last) buff text = some ((lib.print last).take 1023) := by
  have missing : (operation lib).find? (fun entry => Task.task15.named [c] entry.1) = none := by
    rw [List.find?_eq_none]
    intro entry member same
    obtain ⟨op, name⟩ := operation_named member
    exact unknown ⟨op, name.symm.trans (of_decide_eq_true same).symm⟩
  have printed := printed_text .task15 buff (solid last)
  have short : ¬ 2 ≤ [c].length := Nat.not_le.mpr Nat.one_lt_two
  simp only [answer, calculate, scanned, if_neg short, missing, Task.before, nonzero, Bool.false_eq_true,
    if_false, Option.bind_eq_bind, Option.bind_some, printed, Except.toOption]
  rfl

/-- The answers to a known operator owe nothing to the requests before, and those to any other are
the last result. -/
theorem independent_iff (lib : Doubles D) (text : Bytes) (c : UInt8) (a b one two : D) (clean : 0 ∉ text)
    (short : text.length < 1024) (scanned : lib.scan text = ⟨[c], some (a, b)⟩)
    (solid : ∀ x, 0 ∉ lib.print x) (first : lib.isZero one = false) (second : lib.isZero two = false)
    (differ : (lib.print one).take 1023 ≠ (lib.print two).take 1023) :
    Independent lib text ↔ ∃ op : Oper, op.name = [c] := by
  constructor
  · rintro ⟨sent, always⟩
    by_contra unknown
    have size : (text ++ 0 :: []).length ≤ 1024 := by
      rw [List.length_append]
      exact short
    have answers (x : D) (nonzero : lib.isZero x = false) : some ((lib.print x).take 1023) = some sent := by
      rw [← always ⟨x, zeros 1024⟩ [] ⟨x, zeros 1024⟩ [] (zeros_length 1024) rfl size, reply_sent clean,
        answer_unknown scanned unknown solid nonzero]
    exact differ (Option.some.inj ((answers one first).trans (answers two second).symm))
  · rintro ⟨op, name⟩
    rw [← name] at scanned
    refine ⟨if lib.isZero (op.func lib a b) = true ∧ op = .division then Task.task15.divideByZero
      else (lib.print (op.func lib a b)).take (Task.task15.room - 1), fun _ _ frame more _ _ _ => ?_⟩
    rw [reply_sent clean, answer_known lib scanned solid]

def session : Bytes → Scanned ℚ :=
  known [(ascii "1 + 0", ⟨ascii "+", some (1, 0)⟩), (ascii "2 + 0", ⟨ascii "+", some (2, 0)⟩),
    (ascii "5 % 3", ⟨ascii "%", some (5, 3)⟩)]

theorem independent_iff_sum :
    Independent (rationals session) (ascii "1 + 0") ↔ ∃ op : Oper, op.name = ascii "+" :=
  independent_iff (rationals session) (ascii "1 + 0") 43 1 0 1 2 (by decide) (by decide) rfl Fixed.text_solid
    (by simp [rationals]) (by simp [rationals]) (by decide +kernel)

/-- `5 % 3` is answered with the result of the request before it. -/
theorem answer_leaks : ¬ ∀ (scan : Bytes → Scanned ℚ) (text : Bytes) (c : UInt8) (a b : ℚ), 0 ∉ text →
    text.length < 1024 → scan text = ⟨[c], some (a, b)⟩ → Independent (rationals scan) text := by
  intro law
  obtain ⟨sent, always⟩ := law session (ascii "5 % 3") 37 5 3 (by decide) (by decide) rfl
  have unknown : ¬ ∃ op : Oper, op.name = [37] := by
    rintro ⟨op, name⟩
    cases op <;> cases name
  have asked (x : ℚ) (request : Bytes) (clean : 0 ∉ request) (nonzero : x ≠ 0)
      (scanned : session request = ⟨Oper.sum.name, some (x, 0)⟩) :
      some ((Fixed.text x).take 1023) = some sent := by
    obtain ⟨frame, replied, last⟩ := reply_known (rationals session) scanned Fixed.text_solid
      clean ⟨0, zeros 1024⟩ []
    have turn : after (rationals session) ⟨0, zeros 1024⟩ [request ++ [0]] = some frame := by
      simp [after, replied]
    have same : frame.result = x := by simp [last, Oper.func, rationals]
    rw [← always ⟨0, zeros 1024⟩ [request ++ [0]] frame [] (zeros_length 1024) turn (by decide),
      reply_sent (by decide), answer_unknown rfl unknown Fixed.text_solid, same]
    · rfl
    · simpa [rationals, same] using nonzero
  have one := asked 1 (ascii "1 + 0") (by decide) (by decide) rfl
  have two := asked 2 (ascii "2 + 0") (by decide) (by decide) rfl
  exact absurd (one.trans two.symm) (by decide +kernel)

end Requests
end Tasks.Tcp.Calculator
