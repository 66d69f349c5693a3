import Tasks.Kit.Bytes
import Mathlib.Logic.Function.Basic

/-! Module 5, Lab 4: a character device that one process at a time can open, and that tells each
of them how often it was opened before. -/
namespace Tasks.Kernel.CharDevice

open Kit Kit.Bytes

/-- `CDEV_NOT_USED` and `CDEV_EXCLUSIVE_OPEN` -/
inductive Cdev where
  | notUsed
  | exclusiveOpen
  deriving DecidableEq, Repr

def bufLen : Nat := 80

/-- What `sprintf` prints. -/
def message (counter : Int) : Bytes :=
  ascii "I already told you " ++ decimal counter ++ ascii " times Hello world!\n"

structure File where
  offset : Nat
  /-- What the reads have returned, up to the first that returned 0. -/
  returned : Bytes
  /-- How many these were. -/
  reads : Nat
  ended : Bool
  /-- The successful opens before this one. -/
  earlier : Nat
  deriving DecidableEq, Repr

inductive Point where
  /-- It does not have the device open. -/
  | outside
  /-- Behind the `atomic_cmpxchg` that took the device. -/
  | counting
  /-- In `sprintf`, with so many bytes written. -/
  | printing (counter : Int32) (count : Nat)
  | holding
  /-- In the loop of `device_read`, with what it has put. -/
  | reading (length : Nat) (put : Bytes)
  deriving DecidableEq, Repr

structure Process where
  point : Point
  file : File
  deriving DecidableEq, Repr

structure Device (π : Type) where
  alreadyOpen : Cdev
  counter : Int32
  msg : Bytes
  /-- How many opens were successful. -/
  opens : Nat
  process : π → Process

variable {π : Type} [DecidableEq π]

def Device.start (file : π → File) : Device π :=
  ⟨.notUsed, 0, zeros bufLen, 0, fun p => ⟨.outside, file p⟩⟩

def Device.set (s : Device π) (p : π) (process : Process) : Device π :=
  { s with process := Function.update s.process p process }

def File.fresh (earlier : Nat) : File := ⟨0, [], 0, false, earlier⟩

/-- At the end of the text `device_read` starts over. -/
def File.restart (file : File) : File := { file with offset := 0, ended := true }

def File.took (file : File) (put : Bytes) : File :=
  { file with
    offset := file.offset + put.length
    returned := if file.ended then file.returned else file.returned ++ put
    reads := if file.ended then file.reads else file.reads + 1 }

inductive Event where
  | openFails
  | open
  | count
  | print
  | opened
  | read (length : Nat)
  | put
  | readReturns
  | release
  deriving DecidableEq, Repr

/-- One access of a process to what the processes share. -/
inductive Step (s : Device π) (p : π) : Event → Device π → Prop where
  | openFails (here : (s.process p).point = .outside) (used : s.alreadyOpen ≠ .notUsed) :
      Step s p .openFails s
  | open (here : (s.process p).point = .outside) (unused : s.alreadyOpen = .notUsed) :
      Step s p .open { s.set p ⟨.counting, .fresh s.opens⟩ with
        alreadyOpen := .exclusiveOpen
        opens := s.opens + 1 }
  | count (here : (s.process p).point = .counting) :
      Step s p .count { s.set p ⟨.printing s.counter 0, (s.process p).file⟩ with
        counter := s.counter + 1 }
  | print (here : (s.process p).point = .printing counter count)
      (more : (message counter.toInt ++ [0])[count]? = some byte) :
      Step s p .print { s.set p ⟨.printing counter (count + 1), (s.process p).file⟩ with
        msg := s.msg.set count byte }
  | opened (here : (s.process p).point = .printing counter count)
      (last : count = (message counter.toInt ++ [0]).length) :
      Step s p .opened (s.set p ⟨.holding, (s.process p).file⟩)
  | readEnd (here : (s.process p).point = .holding) (positive : 0 < length)
      (nul : s.msg[(s.process p).file.offset]? = some 0) :
      Step s p (.read length) (s.set p ⟨.holding, (s.process p).file.restart⟩)
  | readStart (here : (s.process p).point = .holding) (positive : 0 < length)
      (more : s.msg[(s.process p).file.offset]? = some byte) (text : byte ≠ 0) :
      Step s p (.read length) (s.set p ⟨.reading length [], (s.process p).file⟩)
  | put (here : (s.process p).point = .reading (length + 1) put)
      (more : s.msg[(s.process p).file.offset + put.length]? = some byte) (text : byte ≠ 0) :
      Step s p .put (s.set p ⟨.reading length (put ++ [byte]), (s.process p).file⟩)
  | readReturns (here : (s.process p).point = .reading length put)
      (last : length = 0 ∨ s.msg[(s.process p).file.offset + put.length]? = some 0) :
      Step s p .readReturns (s.set p ⟨.holding, (s.process p).file.took put⟩)
  | release (here : (s.process p).point = .holding) :
      Step s p .release { s.set p ⟨.outside, (s.process p).file⟩ with alreadyOpen := .notUsed }

def Next (s t : Device π) : Prop := ∃ p event, Step s p event t

/-- The step of an event, if the process can take it. -/
def Device.perform (s : Device π) (p : π) (event : Event) : Option (Device π) :=
  match event, (s.process p).point with
  | .openFails, .outside => if s.alreadyOpen ≠ .notUsed then some s else none
  | .open, .outside =>
    if s.alreadyOpen = .notUsed then
      some { s.set p ⟨.counting, .fresh s.opens⟩ with alreadyOpen := .exclusiveOpen, opens := s.opens + 1 }
    else none
  | .count, .counting =>
    some { s.set p ⟨.printing s.counter 0, (s.process p).file⟩ with counter := s.counter + 1 }
  | .print, .printing counter count =>
    (message counter.toInt ++ [0])[count]?.map fun byte =>
      { s.set p ⟨.printing counter (count + 1), (s.process p).file⟩ with msg := s.msg.set count byte }
  | .opened, .printing counter count =>
    if count = (message counter.toInt ++ [0]).length then
      some (s.set p ⟨.holding, (s.process p).file⟩)
    else none
  | .read (length + 1), .holding =>
    s.msg[(s.process p).file.offset]?.map fun byte =>
      if byte = 0 then s.set p ⟨.holding, (s.process p).file.restart⟩
      else s.set p ⟨.reading (length + 1) [], (s.process p).file⟩
  | .put, .reading (length + 1) put =>
    match s.msg[(s.process p).file.offset + put.length]? with
    | none => none
    | some byte =>
      if byte = 0 then none
      else some (s.set p ⟨.reading length (put ++ [byte]), (s.process p).file⟩)
  | .readReturns, .reading length put =>
    if length = 0 ∨ s.msg[(s.process p).file.offset + put.length]? = some 0 then
      some (s.set p ⟨.holding, (s.process p).file.took put⟩)
    else none
  | .release, .holding => some { s.set p ⟨.outside, (s.process p).file⟩ with alreadyOpen := .notUsed }
  | _, _ => none

def Device.performs (s : Device π) (events : List (π × Event)) : Option (Device π) :=
  events.foldlM (fun s (p, event) => s.perform p event) s

section Text

theorem message_clean (counter : Int) : 0 ∉ message counter := by
  have digits := decimal_clean counter
  have front : 0 ∉ ascii "I already told you " := by decide
  have back : 0 ∉ ascii " times Hello world!\n" := by decide
  simp [message, front, digits, back]

theorem decimal_length (n : Nat) (small : n < 2 ^ 31) : (decimal n).length ≤ 10 := by
  have digits : (decimal n).length = (Nat.toDigits 10 n).length := List.length_map ..
  rw [digits, Nat.length_toDigits_le_iff (by decide) (by decide)]
  omega

theorem message_length (n : Nat) (small : n < 2 ^ 31) : (message n).length + 1 < bufLen := by
  have digits := decimal_length n small
  have front : (ascii "I already told you ").length = 19 := by decide
  have back : (ascii " times Hello world!\n").length = 20 := by decide
  simp only [message, List.length_append, front, back, bufLen]
  omega

theorem counter_succ (counter : Int32) (n : Nat) (value : counter.toInt = n) (small : n + 1 < 2 ^ 31) :
    (counter + 1).toInt = (n + 1 : Nat) := by
  have one : (1 : Int32).toInt = 1 := by decide
  rw [Int32.toInt_add, value, one, Int.bmod_eq_of_le (by omega) (by omega)]
  push_cast
  rfl

/-- Up to its NUL an array that holds a text is the text. -/
theorem text_get {msg text : Bytes} (stands : msg.take (text.length + 1) = text ++ [0])
    (inside : i ≤ text.length) : msg[i]? = (text ++ [0])[i]? := by
  rw [← stands, List.getElem?_take_of_lt (Nat.lt_succ_of_le inside)]

theorem text_more {msg text : Bytes} (stands : msg.take (text.length + 1) = text ++ [0])
    (inside : i ≤ text.length) (more : msg[i]? = some byte) (other : byte ≠ 0) : text[i]? = some byte := by
  rw [text_get stands inside] at more
  rcases Nat.lt_or_eq_of_le inside with front | rfl
  · rwa [List.getElem?_append_left front] at more
  · rw [List.getElem?_concat_length] at more
    exact absurd (Option.some.inj more).symm other

theorem text_end {msg text : Bytes} (stands : msg.take (text.length + 1) = text ++ [0])
    (inside : i ≤ text.length) (nul : msg[i]? = some 0) (clean : 0 ∉ text) : i = text.length := by
  rw [text_get stands inside] at nul
  rcases Nat.lt_or_eq_of_le inside with front | last
  · rw [List.getElem?_append_left front] at nul
    exact absurd (List.mem_of_getElem? nul) clean
  · exact last

end Text

section Invariant

/-- The reader of a text has the part of it in front of the offset, or has had all of it. -/
structure Told (file : File) (text : Bytes) : Prop where
  offset : file.offset ≤ text.length
  returned : file.returned = if file.ended then text else text.take file.offset
  reads : file.reads ≤ file.returned.length

structure Puts (file : File) (text : Bytes) (length : Nat) (put : Bytes) : Prop where
  part : put = (text.drop file.offset).take put.length
  inside : file.offset + put.length ≤ text.length
  begun : put = [] → 0 < length ∧ file.offset < text.length

def Stands (msg text : Bytes) : Prop := msg.take (text.length + 1) = text ++ [0]

structure Reads (s : Device π) (file : File) (text : Bytes) (earlier : Nat) : Prop where
  own : file.earlier = earlier
  counted : s.counter.toInt = (earlier + 1 : Nat)
  stands : Stands s.msg text
  told : Told file text

structure Prints (s : Device π) (file : File) (text : Bytes) (earlier : Nat) (counter : Int32)
    (count : Nat) : Prop where
  fresh : file = .fresh earlier
  counted : s.counter.toInt = (earlier + 1 : Nat)
  value : counter.toInt = earlier
  range : count ≤ text.length + 1
  front : s.msg.take count = (text ++ [0]).take count

inductive Working (s : Device π) (p : π) (text : Bytes) (earlier : Nat) : Prop where
  | counting (here : (s.process p).point = .counting) (fresh : (s.process p).file = .fresh earlier)
      (counted : s.counter.toInt = earlier)
  | printing (here : (s.process p).point = .printing counter count)
      (prints : Prints s (s.process p).file text earlier counter count)
  | holding (here : (s.process p).point = .holding) (reads : Reads s (s.process p).file text earlier)
  | reading (here : (s.process p).point = .reading length put)
      (reads : Reads s (s.process p).file text earlier) (puts : Puts (s.process p).file text length put)

structure Held (s : Device π) (p : π) (earlier : Nat) : Prop where
  used : s.alreadyOpen = .exclusiveOpen
  others : ∀ q, q ≠ p → (s.process q).point = .outside
  opens : s.opens = earlier + 1
  working : Working s p (message earlier) earlier

inductive Owned (s : Device π) : Prop where
  | free (unused : s.alreadyOpen = .notUsed) (outside : ∀ p, (s.process p).point = .outside)
      (counted : s.counter.toInt = s.opens)
  | held (holds : Held s p earlier)

structure Invariant (s : Device π) : Prop where
  size : s.msg.length = bufLen
  owned : s.opens < 2 ^ 31 → Owned s

end Invariant

section Steps

variable {s t : Device π} {p : π} {event : Event} {file : File} {text put : Bytes} {length : Nat}

@[simp] theorem set_self (s : Device π) (p : π) (process : Process) :
    (s.set p process).process p = process := Function.update_self ..

theorem set_others (process : Process) (others : ∀ q, q ≠ p → (s.process q).point = .outside) (q : π)
    (apart : q ≠ p) : ((s.set p process).process q).point = .outside := by
  rw [Device.set]
  dsimp only
  rw [Function.update_of_ne apart]
  exact others q apart

theorem told_fresh (text : Bytes) (earlier : Nat) : Told (.fresh earlier) text :=
  ⟨Nat.zero_le _, rfl, le_rfl⟩

theorem told_restart (told : Told file text) (last : file.offset = text.length) :
    Told file.restart text := by
  have whole : file.returned = text := by
    rw [told.returned, last, List.take_length, ite_self]
  exact ⟨Nat.zero_le _, whole, told.reads⟩

theorem puts_start (told : Told file text) (positive : 0 < length)
    (more : text[file.offset]? = some byte) : Puts file text length [] := by
  obtain ⟨front, _⟩ := List.getElem?_eq_some_iff.mp more
  exact ⟨rfl, told.offset, fun _ => ⟨positive, front⟩⟩

theorem puts_put (puts : Puts file text (length + 1) put)
    (more : text[file.offset + put.length]? = some byte) : Puts file text length (put ++ [byte]) := by
  obtain ⟨front, _⟩ := List.getElem?_eq_some_iff.mp more
  refine ⟨?_, ?_, fun empty => by simp at empty⟩
  · rw [List.length_append, List.length_singleton, List.take_add_one, List.getElem?_drop, more, ← puts.part]
    rfl
  · rw [List.length_append, List.length_singleton]
    omega

theorem told_took (told : Told file text) (puts : Puts file text length put) (some : put ≠ []) :
    Told (file.took put) text := by
  have positive := List.length_pos_iff.mpr some
  refine ⟨puts.inside, ?_, ?_⟩
  · cases ended : file.ended with
    | true => simpa [File.took, ended] using told.returned
    | false =>
      have before := told.returned
      simp only [ended, Bool.false_eq_true, if_false] at before
      simp only [File.took, ended, Bool.false_eq_true, if_false, before]
      rw [List.take_add, ← puts.part]
  · have reads := told.reads
    cases ended : file.ended <;> simp [File.took, ended] <;> omega

section Points

omit [DecidableEq π]

theorem working_counting (working : Working s p text earlier) (here : (s.process p).point = .counting) :
    (s.process p).file = .fresh earlier ∧ s.counter.toInt = earlier := by
  cases working with
  | counting _ fresh counted => exact ⟨fresh, counted⟩
  | printing other | holding other | reading other => simp [here] at other

theorem working_printing (working : Working s p text earlier)
    (here : (s.process p).point = .printing counter count) :
    Prints s (s.process p).file text earlier counter count := by
  cases working with
  | printing there prints =>
    cases here.symm.trans there
    exact prints
  | counting other | holding other | reading other => simp [here] at other

theorem working_holding (working : Working s p text earlier) (here : (s.process p).point = .holding) :
    Reads s (s.process p).file text earlier := by
  cases working with
  | holding _ reads => exact reads
  | counting other | printing other | reading other => simp [here] at other

theorem working_reading (working : Working s p text earlier)
    (here : (s.process p).point = .reading length put) :
    Reads s (s.process p).file text earlier ∧ Puts (s.process p).file text length put := by
  cases working with
  | reading there reads puts =>
    cases here.symm.trans there
    exact ⟨reads, puts⟩
  | counting other | printing other | holding other => simp [here] at other

end Points

theorem owned_mover (owned : Owned s) (here : (s.process p).point = point) (inside : point ≠ .outside) :
    ∃ earlier, Held s p earlier := by
  cases owned with
  | free _ outside => exact absurd (here.symm.trans (outside p)) inside
  | @held q earlier holds =>
    by_cases same : p = q
    · exact ⟨earlier, same ▸ holds⟩
    · exact absurd (here.symm.trans (holds.others p same)) inside

/-- What the holder does with its own process alone. -/
theorem held_moves (holds : Held s p earlier)
    (working : Working (s.set p process) p (message earlier) earlier) : Owned (s.set p process) :=
  .held ⟨holds.used, set_others _ holds.others, holds.opens, working⟩

theorem held_holding (holds : Held s p earlier) (reads : Reads s file (message earlier) earlier) :
    Owned (s.set p ⟨.holding, file⟩) := by
  have reads' : Reads (s.set p ⟨.holding, file⟩) file (message earlier) earlier :=
    ⟨reads.own, reads.counted, reads.stands, reads.told⟩
  exact held_moves holds (.holding (by rw [set_self]) (by rwa [set_self]))

theorem held_reading (holds : Held s p earlier) (reads : Reads s file (message earlier) earlier)
    (puts : Puts file (message earlier) length put) : Owned (s.set p ⟨.reading length put, file⟩) := by
  have reads' : Reads (s.set p ⟨.reading length put, file⟩) file (message earlier) earlier :=
    ⟨reads.own, reads.counted, reads.stands, reads.told⟩
  have here : (s.set p ⟨.reading length put, file⟩).process p = ⟨.reading length put, file⟩ := set_self ..
  exact held_moves holds (.reading (by rw [here]) (by rwa [here]) (by rwa [here]))

theorem held_printing (holds : Held s p earlier) (used : t.alreadyOpen = s.alreadyOpen)
    (opens : t.opens = s.opens) (process : t.process = (s.set p ⟨.printing counter count, file⟩).process)
    (prints : Prints t file (message earlier) earlier counter count) : Owned t := by
  have here : t.process p = ⟨.printing counter count, file⟩ := by rw [process, set_self]
  refine .held ⟨used.trans holds.used, ?_, opens.trans holds.opens, .printing (by rw [here]) (by rwa [here])⟩
  rw [process]
  exact set_others _ holds.others

theorem open_owned (owned : Owned s) (unused : s.alreadyOpen = .notUsed) :
    Owned { s.set p ⟨.counting, .fresh s.opens⟩ with
      alreadyOpen := .exclusiveOpen, opens := s.opens + 1 } := by
  cases owned with
  | free _ outside counted =>
    have here : (s.set p ⟨.counting, .fresh s.opens⟩).process p = ⟨.counting, .fresh s.opens⟩ := set_self ..
    exact .held ⟨rfl, set_others _ fun q _ => outside q, rfl,
      .counting (congrArg Process.point here) (congrArg Process.file here) counted⟩
  | held holds => exact absurd (unused.symm.trans holds.used) (by decide)

theorem count_owned (holds : Held s p earlier) (here : (s.process p).point = .counting)
    (few : s.opens < 2 ^ 31) :
    Owned { s.set p ⟨.printing s.counter 0, (s.process p).file⟩ with counter := s.counter + 1 } := by
  obtain ⟨fresh, counted⟩ := working_counting holds.working here
  have small : earlier + 1 < 2 ^ 31 := holds.opens ▸ few
  exact held_printing holds rfl rfl rfl
    ⟨fresh, counter_succ _ _ counted small, counted, Nat.zero_le _, rfl⟩

omit [DecidableEq π] in
theorem held_fits (size : s.msg.length = bufLen) (few : s.opens < 2 ^ 31) (holds : Held s p earlier) :
    (message earlier).length + 1 < s.msg.length := by
  rw [size]
  have opens := holds.opens
  exact message_length earlier (by omega)

theorem print_owned (size : s.msg.length = bufLen) (holds : Held s p earlier) (few : s.opens < 2 ^ 31)
    (here : (s.process p).point = .printing counter count)
    (more : (message counter.toInt ++ [0])[count]? = some byte) :
    Owned { s.set p ⟨.printing counter (count + 1), (s.process p).file⟩ with
      msg := s.msg.set count byte } := by
  have prints := working_printing holds.working here
  rw [prints.value] at more
  obtain ⟨inside, _⟩ := List.getElem?_eq_some_iff.mp more
  rw [List.length_append, List.length_singleton] at inside
  have fits := held_fits size few holds
  have room : count < s.msg.length := by omega
  have written : (s.msg.set count byte).take (count + 1) = (message earlier ++ [0]).take (count + 1) := by
    rw [List.take_add_one, List.take_add_one, more, List.take_set_of_le le_rfl, prints.front,
      List.getElem?_set_self room]
  exact held_printing holds rfl rfl rfl ⟨prints.fresh, prints.counted, prints.value, inside, written⟩

theorem opened_owned (holds : Held s p earlier) (here : (s.process p).point = .printing counter count)
    (last : count = (message counter.toInt ++ [0]).length) :
    Owned (s.set p ⟨.holding, (s.process p).file⟩) := by
  have prints := working_printing holds.working here
  have stands : Stands s.msg (message earlier) := by
    have front := prints.front
    rw [last, prints.value, List.take_length, List.length_append, List.length_singleton] at front
    exact front
  apply held_holding holds
  rw [prints.fresh]
  exact ⟨rfl, prints.counted, stands, told_fresh _ _⟩

theorem readEnd_owned (holds : Held s p earlier) (here : (s.process p).point = .holding)
    (nul : s.msg[(s.process p).file.offset]? = some 0) :
    Owned (s.set p ⟨.holding, (s.process p).file.restart⟩) := by
  obtain ⟨own, counted, stands, told⟩ := working_holding holds.working here
  have last := text_end stands told.offset nul (message_clean _)
  exact held_holding holds ⟨own, counted, stands, told_restart told last⟩

theorem readStart_owned (holds : Held s p earlier) (here : (s.process p).point = .holding)
    (positive : 0 < length) (more : s.msg[(s.process p).file.offset]? = some byte) (other : byte ≠ 0) :
    Owned (s.set p ⟨.reading length [], (s.process p).file⟩) := by
  have reads := working_holding holds.working here
  have front := text_more reads.stands reads.told.offset more other
  exact held_reading holds reads (puts_start reads.told positive front)

theorem put_owned (holds : Held s p earlier) (here : (s.process p).point = .reading (length + 1) put)
    (more : s.msg[(s.process p).file.offset + put.length]? = some byte) (other : byte ≠ 0) :
    Owned (s.set p ⟨.reading length (put ++ [byte]), (s.process p).file⟩) := by
  obtain ⟨reads, puts⟩ := working_reading holds.working here
  have front := text_more reads.stands puts.inside more other
  exact held_reading holds reads (puts_put puts front)

theorem returns_owned (holds : Held s p earlier) (here : (s.process p).point = .reading length put)
    (last : length = 0 ∨ s.msg[(s.process p).file.offset + put.length]? = some 0) :
    Owned (s.set p ⟨.holding, (s.process p).file.took put⟩) := by
  obtain ⟨reads, puts⟩ := working_reading holds.working here
  have some : put ≠ [] := by
    intro none
    obtain ⟨positive, front⟩ := puts.begun none
    rcases last with zero | nul
    · omega
    · have behind := text_end reads.stands puts.inside nul (message_clean _)
      simp [none] at behind
      omega
  exact held_holding holds ⟨reads.own, reads.counted, reads.stands, told_took reads.told puts some⟩

theorem release_owned (holds : Held s p earlier) (here : (s.process p).point = .holding) :
    Owned { s.set p ⟨.outside, (s.process p).file⟩ with alreadyOpen := .notUsed } := by
  have reads := working_holding holds.working here
  have opens : (s.opens : Int) = (earlier + 1 : Nat) := congrArg Nat.cast holds.opens
  refine .free rfl (fun q => ?_) (reads.counted.trans opens.symm)
  by_cases same : q = p
  · subst same
    exact congrArg Process.point (set_self ..)
  · exact set_others _ holds.others q same

theorem step_size (size : s.msg.length = bufLen) (step : Step s p event t) : t.msg.length = bufLen := by
  cases step with
  | print => simpa using size
  | openFails | «open» | count | opened | readEnd | readStart | put | readReturns | release => exact size

theorem step_opens (step : Step s p event t) : s.opens ≤ t.opens := by
  cases step with
  | «open» => exact Nat.le_succ _
  | openFails | count | print | opened | readEnd | readStart | put | readReturns | release => exact le_rfl

theorem step_owned (size : s.msg.length = bufLen) (owned : Owned s) (few : s.opens < 2 ^ 31)
    (step : Step s p event t) : Owned t := by
  cases step with
  | openFails => exact owned
  | «open» here unused => exact open_owned owned unused
  | count here =>
    obtain ⟨earlier, holds⟩ := owned_mover owned here (by simp)
    exact count_owned holds here few
  | print here more =>
    obtain ⟨earlier, holds⟩ := owned_mover owned here (by simp)
    exact print_owned size holds few here more
  | opened here last =>
    obtain ⟨earlier, holds⟩ := owned_mover owned here (by simp)
    exact opened_owned holds here last
  | readEnd here positive nul =>
    obtain ⟨earlier, holds⟩ := owned_mover owned here (by simp)
    exact readEnd_owned holds here nul
  | readStart here positive more other =>
    obtain ⟨earlier, holds⟩ := owned_mover owned here (by simp)
    exact readStart_owned holds here positive more other
  | put here more other =>
    obtain ⟨earlier, holds⟩ := owned_mover owned here (by simp)
    exact put_owned holds here more other
  | readReturns here last =>
    obtain ⟨earlier, holds⟩ := owned_mover owned here (by simp)
    exact returns_owned holds here last
  | release here =>
    obtain ⟨earlier, holds⟩ := owned_mover owned here (by simp)
    exact release_owned holds here

theorem step_invariant (invariant : Invariant s) (step : Step s p event t) : Invariant t := by
  refine ⟨step_size invariant.size step, fun few => ?_⟩
  have before := Nat.lt_of_le_of_lt (step_opens step) few
  exact step_owned invariant.size (invariant.owned before) before step

omit [DecidableEq π] in
theorem start_invariant (file : π → File) : Invariant (.start file) :=
  ⟨zeros_length bufLen, fun _ => .free rfl (fun _ => rfl) rfl⟩

end Steps

section Runs

variable {s : Device π}

def Process.Opened (process : Process) : Prop :=
  process.point = .holding ∨ ∃ length put, process.point = .reading length put

structure Correct (s : Device π) : Prop where
  exclusive : ∀ p q, (s.process p).point ≠ .outside → (s.process q).point ≠ .outside → p = q
  /-- What the reads return is the text, and a read returns 0 only behind it. -/
  told : ∀ p, (s.process p).Opened →
    (s.process p).file.returned <+: message (s.process p).file.earlier ∧
      ((s.process p).file.ended →
        (s.process p).file.returned = message (s.process p).file.earlier) ∧
      (s.process p).file.reads ≤ (message (s.process p).file.earlier).length
  /-- A failed open changes nothing. -/
  refused : ∀ p t, Step s p .openFails t → t.msg = s.msg ∧ t.counter = s.counter
  /-- `sprintf` and `device_read` stay inside the array. -/
  inside : ∀ p, (∀ counter count, (s.process p).point = .printing counter count →
      count < (message counter.toInt ++ [0]).length → count < s.msg.length) ∧
    ((s.process p).point = .holding → (s.process p).file.offset < s.msg.length) ∧
    ∀ length put, (s.process p).point = .reading length put →
      (s.process p).file.offset + put.length < s.msg.length

theorem owned_exclusive (owned : Owned s) (p q : π) (inside : (s.process p).point ≠ .outside)
    (inside' : (s.process q).point ≠ .outside) : p = q := by
  obtain ⟨earlier, holds⟩ := owned_mover owned rfl inside
  by_contra apart
  exact inside' (holds.others q (Ne.symm apart))

theorem told_prefix (told : Told file text) :
    file.returned <+: text ∧ (file.ended → file.returned = text) ∧ file.reads ≤ text.length := by
  have front : file.returned <+: text := by
    rw [told.returned]
    split
    · exact List.prefix_rfl
    · exact List.take_prefix ..
  exact ⟨front, fun ended => told.returned.trans (if_pos ended), told.reads.trans front.length_le⟩

theorem owned_told (owned : Owned s) (p : π) (opened : (s.process p).Opened) :
    Told (s.process p).file (message (s.process p).file.earlier) := by
  have reads : ∃ earlier : Nat, Reads s (s.process p).file (message earlier) earlier := by
    rcases opened with here | ⟨length, put, here⟩
    · obtain ⟨earlier, holds⟩ := owned_mover owned here (by simp)
      exact ⟨earlier, working_holding holds.working here⟩
    · obtain ⟨earlier, holds⟩ := owned_mover owned here (by simp)
      exact ⟨earlier, (working_reading holds.working here).1⟩
  obtain ⟨earlier, own, _, _, told⟩ := reads
  exact own ▸ told

theorem owned_inside (size : s.msg.length = bufLen) (few : s.opens < 2 ^ 31) (owned : Owned s) (p : π) :
    (∀ counter count, (s.process p).point = .printing counter count →
        count < (message counter.toInt ++ [0]).length → count < s.msg.length) ∧
      ((s.process p).point = .holding → (s.process p).file.offset < s.msg.length) ∧
      ∀ length put, (s.process p).point = .reading length put →
        (s.process p).file.offset + put.length < s.msg.length := by
  refine ⟨fun counter count here range => ?_, fun here => ?_, fun length put here => ?_⟩
  · obtain ⟨earlier, holds⟩ := owned_mover owned here (by simp)
    have fits := held_fits size few holds
    rw [(working_printing holds.working here).value, List.length_append, List.length_singleton] at range
    omega
  · obtain ⟨earlier, holds⟩ := owned_mover owned here (by simp)
    have fits := held_fits size few holds
    have offset := (working_holding holds.working here).told.offset
    omega
  · obtain ⟨earlier, holds⟩ := owned_mover owned here (by simp)
    have fits := held_fits size few holds
    have range := (working_reading holds.working here).2.inside
    omega

theorem perform_step (done : s.perform p event = some t) : Step s p event t := by
  unfold Device.perform at done
  split at done
  next here =>
    split at done
    next used =>
      cases done
      exact .openFails here used
    next => cases done
  next here =>
    split at done
    next unused =>
      cases done
      exact .open here unused
    next => cases done
  next here =>
    cases done
    exact .count here
  next here =>
    obtain ⟨byte, more, rfl⟩ := Option.map_eq_some_iff.mp done
    exact .print here more
  next here =>
    split at done
    next last =>
      cases done
      exact .opened here last
    next => cases done
  next here =>
    obtain ⟨byte, more, rfl⟩ := Option.map_eq_some_iff.mp done
    split
    next nul => exact .readEnd here (Nat.succ_pos _) (nul ▸ more)
    next text => exact .readStart here (Nat.succ_pos _) more text
  next here =>
    split at done
    next => cases done
    next byte more =>
      split at done
      next => cases done
      next text =>
        cases done
        exact .put here more text
  next here =>
    split at done
    next last =>
      cases done
      exact .readReturns here last
    next => cases done
  next here =>
    cases done
    exact .release here
  next => cases done

theorem performs_path {events : List (π × Event)} (done : s.performs events = some t) :
    Relation.ReflTransGen Next s t := by
  induction events generalizing s with
  | nil =>
    cases done
    exact .refl
  | cons event events ih =>
    obtain ⟨next, first, later⟩ := Option.bind_eq_some_iff.mp done
    exact .head ⟨event.1, event.2, perform_step first⟩ (ih later)

/-- Two reads of one process and the opens of another. -/
def session : List (Bool × Event) :=
  [(true, .open), (false, .openFails), (true, .count)] ++ List.replicate 41 (true, .print) ++
    [(true, .opened), (true, .read 3), (true, .put), (false, .openFails), (true, .put), (true, .put),
      (true, .readReturns), (true, .read 1), (true, .put), (true, .readReturns), (true, .release),
      (false, .open)]

/-- For every interleaving of any processes, as long as the counter does not overflow. -/
theorem device_correct (file : π → File) (path : Relation.ReflTransGen Next (.start file) s)
    (few : s.opens < 2 ^ 31) : Correct s := by
  have invariant := reachable_invariant Invariant
    (fun _ _ invariant ⟨_, _, step⟩ => step_invariant invariant step) path (start_invariant file)
  have owned := invariant.owned few
  refine ⟨owned_exclusive owned, fun p opened => told_prefix (owned_told owned p opened), ?_,
    owned_inside invariant.size few owned⟩
  rintro p t (_ | _)
  exact ⟨rfl, rfl⟩

/-- The second process is refused twice, and has the device when the first is through. -/
theorem device_correct_session :
    ∃ s : Device Bool, Relation.ReflTransGen Next (.start fun _ => .fresh 0) s ∧
      (s.process true).file.returned = ascii "I al" ∧ (s.process false).point = .counting ∧ Correct s := by
  have seen : ((Device.start fun _ : Bool => File.fresh 0).performs session).map
      (fun s => ((s.process true).file.returned, (s.process false).point, s.opens)) =
        some (ascii "I al", .counting, 2) := by decide +kernel
  obtain ⟨s, done, same⟩ := Option.map_eq_some_iff.mp seen
  simp only [Prod.mk.injEq] at same
  obtain ⟨returned, point, opens⟩ := same
  have path := performs_path done
  exact ⟨s, path, returned, point, device_correct _ path (by omega)⟩

end Runs

end Tasks.Kernel.CharDevice
