import HashMiner.Foundation.Machine

/-!
# Bounded channels

A channel holds no more than its capacity. What is offered while it is full, or after its
receiver has gone, is lost, and the sender does not wait.
-/

namespace HashMiner.Foundation

universe u

structure Mpsc (α : Type u) where
  capacity : Nat
  queue : List α
  rxOpen : Bool
  within : queue.length ≤ capacity

/-- What happens to a channel. A receiver that goes takes along what is queued. -/
inductive Passage (α : Type u) where
  | offer (x : α) (taken : Bool)
  | take (x : α)

namespace Passage

variable {α : Type u}

def offered? : Passage α → Option α
  | .offer x _ => some x
  | .take _ => none

def accepted? : Passage α → Option α
  | .offer x taken => if taken then some x else none
  | .take _ => none

def received? : Passage α → Option α
  | .offer _ _ => none
  | .take x => some x

variable (log more : List (Passage α))

def offered : List α := log.filterMap offered?

def accepted : List α := log.filterMap accepted?

def received : List α := log.filterMap received?

@[simp] theorem offered_append : offered (log ++ more) = offered log ++ offered more :=
  List.filterMap_append

@[simp] theorem accepted_append : accepted (log ++ more) = accepted log ++ accepted more :=
  List.filterMap_append

@[simp] theorem received_append : received (log ++ more) = received log ++ received more :=
  List.filterMap_append

variable (x : α)

@[simp] theorem offered_offer (taken : Bool) : offered [.offer x taken] = [x] := rfl

@[simp] theorem offered_take : offered [.take x] = [] := rfl

@[simp] theorem accepted_offer_true : accepted [.offer x true] = [x] := rfl

@[simp] theorem accepted_offer_false : accepted [.offer x false] = [] := rfl

@[simp] theorem accepted_take : accepted [.take x] = [] := rfl

@[simp] theorem received_offer (taken : Bool) : received [.offer x taken] = [] := rfl

@[simp] theorem received_take : received [.take x] = [x] := rfl

variable {log}

/-- Nothing that was offered has been lost. -/
def Complete (log : List (Passage α)) : Prop := ∀ x, .offer x false ∉ log

theorem accepted_sublist (log : List (Passage α)) : (accepted log).Sublist (offered log) := by
  induction log with
  | nil => exact List.Sublist.slnil
  | cons p log ih =>
    cases p with
    | offer x taken =>
      cases taken with
      | false => exact ih.cons x
      | true => exact ih.cons_cons x
    | take x => exact ih

theorem accepted_eq (complete : Complete log) : accepted log = offered log := by
  induction log with
  | nil => rfl
  | cons p log ih =>
    have rest := ih fun x member => complete x (List.mem_cons_of_mem p member)
    cases p with
    | offer x taken =>
      cases taken with
      | false => exact absurd List.mem_cons_self (complete x)
      | true => exact congrArg (x :: ·) rest
    | take x => exact rest

end Passage

namespace Mpsc

variable {α : Type u}

def channel (capacity : Nat) : Mpsc α := ⟨capacity, [], true, Nat.zero_le _⟩

variable (c : Mpsc α)

/-- There is a receiver, and the channel is not full. -/
def Room : Prop := c.rxOpen = true ∧ c.queue.length < c.capacity

instance : Decidable c.Room := inferInstanceAs (Decidable (_ ∧ _))

def trySend (x : α) : Mpsc α :=
  if room : c.Room then
    { c with
      queue := c.queue ++ [x]
      within := by
        rw [List.length_append]
        exact room.2 }
  else c

def recv : Option (α × Mpsc α) :=
  match queued : c.queue with
  | [] => none
  | x :: rest =>
    some (x, { c with
      queue := rest
      within := by
        have within := c.within
        rw [queued] at within
        exact Nat.le_of_succ_le within })

/-- The receiver goes. -/
def drop : Mpsc α := { c with queue := [], rxOpen := false, within := Nat.zero_le _ }

variable {c} {log : List (Passage α)} {x : α}

@[simp] theorem trySend_rxOpen : (c.trySend x).rxOpen = c.rxOpen := by
  unfold trySend
  split <;> rfl

theorem recv_cases {c' : Mpsc α} (received : c.recv = some (x, c')) :
    c.queue = x :: c'.queue ∧ c'.rxOpen = c.rxOpen := by
  unfold recv at received
  split at received
  · cases received
  · next queued =>
    cases received
    exact ⟨queued, rfl⟩

/-- The channel is where its history leaves it. -/
structure Carries (c : Mpsc α) (log : List (Passage α)) : Prop where
  order : Passage.received log <+: Passage.accepted log
  queued : c.rxOpen = true → Passage.accepted log = Passage.received log ++ c.queue

theorem carries_channel (capacity : Nat) : Carries (channel capacity : Mpsc α) [] where
  order := List.prefix_refl _
  queued _ := rfl

theorem Carries.trySend (carries : Carries c log) (x : α) :
    Carries (c.trySend x) (log ++ [.offer x (decide c.Room)]) := by
  by_cases room : c.Room
  · have taken : c.trySend x = _ := dif_pos room
    have queued := carries.queued room.1
    rw [taken, decide_eq_true room]
    constructor
    · simp only [Passage.accepted_append, Passage.accepted_offer_true, Passage.received_append,
        Passage.received_offer, List.append_nil]
      exact carries.order.trans (List.prefix_append _ _)
    · intro _
      simp [queued]
  · have refused : c.trySend x = c := dif_neg room
    rw [refused, decide_eq_false room]
    constructor
    · simpa using carries.order
    · intro opened
      simpa using carries.queued opened

theorem Carries.recv {c' : Mpsc α} (carries : Carries c log) (opened : c.rxOpen = true)
    (received : c.recv = some (x, c')) : Carries c' (log ++ [.take x]) := by
  obtain ⟨queue, _⟩ := recv_cases received
  have queued := carries.queued opened
  have moved : Passage.accepted (log ++ [Passage.take x]) =
      Passage.received (log ++ [Passage.take x]) ++ c'.queue := by
    simp [queued, queue]
  exact ⟨moved ▸ List.prefix_append _ _, fun _ => moved⟩

theorem Carries.drop (carries : Carries c log) : Carries c.drop log where
  order := carries.order
  queued opened := by cases opened

end Mpsc

end HashMiner.Foundation
