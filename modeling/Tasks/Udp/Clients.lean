import Mathlib.Algebra.Group.Nat.Defs
import Mathlib.Data.Fin.Tuple.Basic
import Mathlib.Logic.Function.Basic

/-! Additional Task 1, `server.c`: the table that counts datagrams per client. A slot whose
address and port are both zero is free; no function stores that it is. -/
namespace Tasks.Udp.Server

def maxClients : Nat := 100

/-- Source address and port of a datagram. -/
structure Endpoint where
  ip : UInt32
  port : UInt16
  deriving DecidableEq, Repr

structure ClientInfo where
  ip : UInt32
  port : UInt16
  count : Int
  deriving DecidableEq, Repr

/-- The array `clients`; the program declares `maxClients` slots. -/
abbrev Clients (n : Nat) := Fin n → ClientInfo

/-- A slot after `memset` to zero, as in the initial table. -/
def zeroed : ClientInfo := ⟨0, 0, 0⟩

def findClientIndex (clients : Clients n) (e : Endpoint) : Option (Fin n) :=
  Fin.find? fun i => (clients i).ip == e.ip && (clients i).port == e.port

def addClient (clients : Clients n) (e : Endpoint) : Option (Clients n × Fin n) :=
  match Fin.find? fun i => (clients i).ip == 0 && (clients i).port == 0 with
  | some i => some (Function.update clients i ⟨e.ip, e.port, 0⟩, i)
  | none => none

def removeClient (clients : Clients n) (e : Endpoint) : Clients n :=
  match findClientIndex clients e with
  | some index => Function.update clients index zeroed
  | none => clients

/-- What the receive loop decides about an accepted datagram. -/
inductive Outcome where
  | closed
  | refused
  | answered (count : Int)
  deriving DecidableEq, Repr

/-- `count++` on a 32-bit `int`, wrapping around. -/
def increment (count : Int) : Int := (count + 1).bmod (2 ^ 32)

def countDatagram (clients : Clients n) (clientIndex : Fin n) : Clients n × Outcome :=
  let count := increment (clients clientIndex).count
  (Function.update clients clientIndex { clients clientIndex with count }, .answered count)

/-- The part of the receive loop that works on the table; `close` tells whether the payload
is the text `CLOSE_CONNECTION`. -/
def dispatch (clients : Clients n) (e : Endpoint) (close : Bool) : Clients n × Outcome :=
  if close then (removeClient clients e, .closed)
  else match findClientIndex clients e with
    | some clientIndex => countDatagram clients clientIndex
    | none => match addClient clients e with
      | some (clients, clientIndex) => countDatagram clients clientIndex
      | none => (clients, .refused)

section Slots

variable {clients : Clients n} {e : Endpoint}

def ClientInfo.endpoint (c : ClientInfo) : Endpoint := ⟨c.ip, c.port⟩

/-- The endpoint that the code takes for a free slot. -/
def nobody : Endpoint := ⟨0, 0⟩

def ClientInfo.Occupied (c : ClientInfo) : Prop := c.endpoint ≠ nobody

instance (c : ClientInfo) : Decidable c.Occupied := inferInstanceAs (Decidable (_ ≠ _))

theorem endpoint_eq_iff (c : ClientInfo) (e : Endpoint) :
    c.endpoint = e ↔ (c.ip == e.ip && c.port == e.port) = true := by
  cases e
  simp [ClientInfo.endpoint]

theorem findClientIndex_some (e : Endpoint) (found : findClientIndex clients e = some i) :
    (clients i).endpoint = e :=
  (endpoint_eq_iff _ _).mpr (Fin.eq_true_of_find?_eq_some found)

theorem findClientIndex_none (e : Endpoint) :
    findClientIndex clients e = none ↔ ∀ i, (clients i).endpoint ≠ e := by
  simp only [findClientIndex, Fin.find?_eq_none_iff, ne_eq, endpoint_eq_iff, Bool.not_eq_true]

theorem addClient_some (added : addClient clients e = some (next, i)) :
    ¬ (clients i).Occupied ∧ next = Function.update clients i ⟨e.ip, e.port, 0⟩ := by
  unfold addClient at added
  split at added
  next j found =>
    cases added
    exact ⟨not_not.mpr (findClientIndex_some nobody found), rfl⟩
  next => contradiction

theorem addClient_none : addClient clients e = none ↔ ∀ i, (clients i).Occupied := by
  refine Iff.trans ?_ (findClientIndex_none nobody)
  unfold addClient findClientIndex nobody
  split
  next i found => simp [found]
  next absent => simp [absent]

/-- All that handling one datagram can do to the table. -/
theorem dispatch_cases (clients : Clients n) (e : Endpoint) (close : Bool) :
    (close = true ∧ (dispatch clients e close).2 = .closed ∧
      ((∃ i, (clients i).endpoint = e ∧
          (dispatch clients e close).1 = Function.update clients i zeroed) ∨
        (∀ i, (clients i).endpoint ≠ e) ∧ (dispatch clients e close).1 = clients)) ∨
    (close = false ∧ ∃ i, (clients i).endpoint = e ∧
      dispatch clients e close = countDatagram clients i) ∨
    (close = false ∧ (∀ i, (clients i).endpoint ≠ e) ∧ ∃ i, ¬ (clients i).Occupied ∧
      dispatch clients e close =
        countDatagram (Function.update clients i ⟨e.ip, e.port, 0⟩) i) ∨
    (close = false ∧ (∀ i, (clients i).endpoint ≠ e) ∧ (∀ i, (clients i).Occupied) ∧
      dispatch clients e close = (clients, .refused)) := by
  cases close with
  | true =>
    refine .inl ⟨rfl, rfl, ?_⟩
    cases found : findClientIndex clients e with
    | some i => exact .inl ⟨i, findClientIndex_some e found, by simp [dispatch, removeClient, found]⟩
    | none => exact .inr ⟨(findClientIndex_none e).mp found, by simp [dispatch, removeClient, found]⟩
  | false =>
    right
    cases found : findClientIndex clients e with
    | some i => exact .inl ⟨rfl, i, findClientIndex_some e found, by simp [dispatch, found]⟩
    | none =>
      right
      have absent := (findClientIndex_none e).mp found
      cases added : addClient clients e with
      | some slot =>
        obtain ⟨free, same⟩ := addClient_some added
        exact .inl ⟨rfl, absent, slot.2, free, by simp [dispatch, found, added, same]⟩
      | none =>
        exact .inr ⟨rfl, absent, addClient_none.mp added, by simp [dispatch, found, added]⟩

def Distinct (clients : Clients n) : Prop :=
  ∀ i j, (clients i).Occupied → (clients i).endpoint = (clients j).endpoint → i = j

theorem noClients_distinct : Distinct (fun _ : Fin n => zeroed) :=
  fun _ _ occupied => absurd rfl occupied

/-- Counting does not move anybody. -/
@[simp] theorem countDatagram_endpoint (clients : Clients n) (i j : Fin n) :
    ((countDatagram clients i).1 j).endpoint = (clients j).endpoint := by
  by_cases same : j = i
  · subst same
    simp [countDatagram, ClientInfo.endpoint]
  · simp [countDatagram, same]

theorem Distinct.update {clients : Clients n} (distinct : Distinct clients) (i : Fin n)
    (c : ClientInfo) (alone : c.Occupied → ∀ j, j ≠ i → (clients j).endpoint ≠ c.endpoint) :
    Distinct (Function.update clients i c) := by
  intro a b occupied same
  by_cases ha : a = i
  · subst ha
    rw [Function.update_self] at occupied same
    by_contra different
    rw [Function.update_of_ne (Ne.symm different)] at same
    exact alone occupied b (Ne.symm different) same.symm
  · rw [Function.update_of_ne ha] at occupied same
    by_cases hb : b = i
    · subst hb
      rw [Function.update_self] at same
      have taken : c.Occupied := fun free => occupied (same.trans free)
      exact absurd same (alone taken a ha)
    · rw [Function.update_of_ne hb] at same
      exact distinct a b occupied same

theorem Distinct.count {clients : Clients n} (distinct : Distinct clients) (i : Fin n) :
    Distinct (countDatagram clients i).1 := by
  intro a b occupied same
  simp only [ClientInfo.Occupied, countDatagram_endpoint] at occupied same
  exact distinct a b occupied same

theorem dispatch_distinct (distinct : Distinct clients) (e : Endpoint) (close : Bool) :
    Distinct (dispatch clients e close).1 := by
  rcases dispatch_cases clients e close with
    ⟨_, _, ⟨i, _, next⟩ | ⟨_, next⟩⟩ | ⟨_, i, _, next⟩ | ⟨_, absent, i, _, next⟩ | ⟨_, _, _, next⟩
  · rw [next]
    exact distinct.update i zeroed fun occupied => absurd rfl occupied
  · rw [next]
    exact distinct
  · rw [next]
    exact distinct.count i
  · rw [next]
    exact (distinct.update i ⟨e.ip, e.port, 0⟩ fun _ j _ => absent j).count i
  · rw [next]
    exact distinct

end Slots
end Tasks.Udp.Server
