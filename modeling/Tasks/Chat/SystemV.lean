import Tasks.Kit.MessageQueue
import Tasks.Kit.Lines
import Mathlib.Logic.Function.Basic
import Mathlib.Logic.Relation

/-! Module 3, Task 6: two programs take turns in a chat over one System V queue, in which the
messages of each have a type of their own and the end of the chat a third. -/
namespace Tasks.Chat.SystemV

open Kit Kit.Bytes Kit.Lines

/-- `mtext` is the text in the array: what stands behind its terminator is copied and never read. -/
structure Message where
  mtype : Int
  mtext : Bytes
  deriving DecidableEq, Repr

/-- `first.c` and `second.c` -/
inductive Side where
  | first
  | second
  deriving DecidableEq, Repr

/-- Where a program is: in front of a system call or of `fgets`. -/
inductive Point where
  | greeting
  | opening
  | receiving
  | typing
  | sending
  | ending
  | removing
  | done
  deriving DecidableEq, Repr

namespace Side

def peer : Side → Side
  | .first => .second
  | .second => .first

def sends : Side → Int
  | .first => 1
  | .second => 2

def asks : Side → Int
  | .first => 2
  | .second => 1

/-- Behind the loop, where only `first.c` has something to do. -/
def leaves : Side → Point
  | .first => .removing
  | .second => .done

def input (first second : Bytes) : Side → Bytes
  | .first => first
  | .second => second

end Side

structure Party where
  point : Point
  msg : Message
  stdin : Bytes
  /-- The texts printed as caught from the peer. -/
  printed : List Bytes
  /-- The messages that reached the queue. -/
  sent : List Message
  deriving DecidableEq, Repr

namespace Party

/-- `fgets` into `mtext`, and then the type. -/
def type (p : Party) (side : Side) (next : Point) : Party :=
  { p with
    msg := ⟨side.sends, (fgetsText 100 p.stdin p.msg.mtext).1⟩
    stdin := (fgetsText 100 p.stdin p.msg.mtext).2
    point := next }

def received (p : Party) (side : Side) (msg : Message) : Party :=
  { p with
    msg := msg
    printed := p.printed ++ [msg.mtext]
    point := if msg.mtype = 255 then side.leaves else .typing }

end Party

structure System where
  /-- `none` once it is removed. -/
  queue : Option (List Message)
  party : Side → Party

namespace System

def start (msg : Side → Message) (stdin : Side → Bytes) : System where
  queue := some []
  party
    | .first => ⟨.receiving, msg .first, stdin .first, [], []⟩
    | .second => ⟨.greeting, msg .second, stdin .second, [], []⟩

def set (c : System) (side : Side) (p : Party) : System :=
  { c with party := Function.update c.party side p }

/-- Nothing is sent to a queue that was removed. -/
def msgsnd (c : System) (side : Side) (msg : Message) (next : Point) : System where
  queue := c.queue.map (· ++ [msg])
  party := Function.update c.party side { c.party side with
    msg := msg
    sent := (c.party side).sent ++ if c.queue.isSome then [msg] else []
    point := next }

end System

/-- `strncmp(msg.mtext, "end", 3) == 0` -/
def isEnd (text : Bytes) : Bool := (ascii "end").isPrefixOf text

def terminated : Message := ⟨255, ascii "Chat terminated\n"⟩

/-- What a program does next; `none` is waiting or having ended. -/
def step (c : System) (side : Side) : Option System :=
  let p := c.party side
  match p.point with
  | .greeting => some (c.set side (p.type side .opening))
  | .opening => some (c.msgsnd side p.msg .receiving)
  | .receiving =>
    match c.queue with
    | none => some (c.set side (p.received side p.msg))
    | some queue =>
      (takeFirst (fun msg => msg.mtype = side.asks) queue).map fun taken =>
        { c.set side (p.received side taken.1) with queue := some taken.2 }
  | .typing => some (c.set side (p.type side .sending))
  | .sending => some (c.msgsnd side p.msg (if isEnd p.msg.mtext then .ending else .receiving))
  | .ending => some (c.msgsnd side terminated side.leaves)
  | .removing => some { c.set side { p with point := .done } with queue := none }
  | .done => none

def Next (c d : System) : Prop := ∃ side, step c side = some d

def schedule (c : System) (sides : List Side) : Option System := sides.foldlM step c

theorem schedule_path (ran : schedule c sides = some d) : Relation.ReflTransGen Next c d := by
  induction sides generalizing c with
  | nil =>
    cases ran
    exact .refl
  | cons side sides ih =>
    obtain ⟨next, stepped, rest⟩ := Option.bind_eq_some_iff.mp ran
    exact .head ⟨side, stepped⟩ (ih rest)

inductive Moves (c : System) (side : Side) : System → Prop where
  | type (here : (c.party side).point = .greeting ∧ next = .opening ∨
        (c.party side).point = .typing ∧ next = .sending) :
      Moves c side (c.set side ((c.party side).type side next))
  | send (here : (c.party side).point = .opening ∧ next = .receiving ∨
        (c.party side).point = .sending ∧
          next = if isEnd (c.party side).msg.mtext then .ending else .receiving) :
      Moves c side (c.msgsnd side (c.party side).msg next)
  | receive (here : (c.party side).point = .receiving) (stands : c.queue = some queue)
      (taken : takeFirst (fun msg => msg.mtype = side.asks) queue = some (msg, rest)) :
      Moves c side { c.set side ((c.party side).received side msg) with queue := some rest }
  | miss (here : (c.party side).point = .receiving) (removed : c.queue = none) :
      Moves c side (c.set side ((c.party side).received side (c.party side).msg))
  | terminate (here : (c.party side).point = .ending) :
      Moves c side (c.msgsnd side terminated side.leaves)
  | remove (here : (c.party side).point = .removing) :
      Moves c side { c.set side { c.party side with point := .done } with queue := none }

section Steps

variable {c d : System} {side : Side}

theorem step_moves (stepped : step c side = some d) : Moves c side d := by
  unfold step at stepped
  cases here : (c.party side).point with
  | greeting =>
    simp only [here, Option.some.injEq] at stepped
    exact stepped ▸ .type (.inl ⟨here, rfl⟩)
  | opening =>
    simp only [here, Option.some.injEq] at stepped
    exact stepped ▸ .send (.inl ⟨here, rfl⟩)
  | receiving =>
    simp only [here] at stepped
    cases queue : c.queue with
    | none =>
      simp only [queue, Option.some.injEq] at stepped
      exact stepped ▸ .miss here queue
    | some messages =>
      simp only [queue] at stepped
      obtain ⟨⟨msg, rest⟩, taken, rfl⟩ := Option.map_eq_some_iff.mp stepped
      exact .receive here queue taken
  | typing =>
    simp only [here, Option.some.injEq] at stepped
    exact stepped ▸ .type (.inr ⟨here, rfl⟩)
  | sending =>
    simp only [here, Option.some.injEq] at stepped
    exact stepped ▸ .send (.inr ⟨here, rfl⟩)
  | ending =>
    simp only [here, Option.some.injEq] at stepped
    exact stepped ▸ .terminate here
  | removing =>
    simp only [here, Option.some.injEq] at stepped
    exact stepped ▸ .remove here
  | done => simp [here] at stepped

@[simp] theorem set_self (c : System) (side : Side) (p : Party) : (c.set side p).party side = p :=
  Function.update_self ..

theorem set_other (c : System) (p : Party) (apart : other ≠ side) :
    (c.set side p).party other = c.party other := Function.update_of_ne apart ..

@[simp] theorem set_queue (c : System) (side : Side) (p : Party) : (c.set side p).queue = c.queue := rfl

@[simp] theorem msgsnd_self (c : System) (side : Side) (msg : Message) (next : Point) :
    (c.msgsnd side msg next).party side = { c.party side with
      msg := msg
      sent := (c.party side).sent ++ if c.queue.isSome then [msg] else []
      point := next } := Function.update_self ..

theorem msgsnd_other (c : System) (msg : Message) (next : Point) (apart : other ≠ side) :
    (c.msgsnd side msg next).party other = c.party other := Function.update_of_ne apart ..

@[simp] theorem msgsnd_queue (c : System) (side : Side) (msg : Message) (next : Point) :
    (c.msgsnd side msg next).queue = c.queue.map (· ++ [msg]) := rfl

theorem set_printed {p : Party} (kept : p.printed = (c.party side).printed) (other : Side) :
    ((c.set side p).party other).printed = (c.party other).printed := by
  by_cases same : other = side
  · subst same
    rw [set_self, kept]
  · rw [set_other c p same]

theorem set_sent {p : Party} (kept : p.sent = (c.party side).sent) (other : Side) :
    ((c.set side p).party other).sent = (c.party other).sent := by
  by_cases same : other = side
  · subst same
    rw [set_self, kept]
  · rw [set_other c p same]

theorem msgsnd_printed (c : System) (side : Side) (msg : Message) (next : Point) (other : Side) :
    ((c.msgsnd side msg next).party other).printed = (c.party other).printed := by
  by_cases same : other = side
  · subst same
    rw [msgsnd_self]
  · rw [msgsnd_other c msg next same]

theorem peer_ne (side : Side) : side.peer ≠ side := by cases side <;> decide

@[simp] theorem peer_peer (side : Side) : side.peer.peer = side := by cases side <;> rfl

theorem asks_peer (side : Side) : side.peer.asks = side.sends := by cases side <;> rfl

theorem eq_peer (apart : other ≠ side) : other = side.peer := by
  cases other <;> cases side <;> first | rfl | exact absurd rfl apart

end Steps

end Tasks.Chat.SystemV
