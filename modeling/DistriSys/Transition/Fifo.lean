import Mathlib.Data.List.Basic

/-!
# Queues as histories of operations

The sequential specification of a queue, first in, first out. `runQueue q ops` is what
is in line after the operations `ops`; a history in which a `take` yields anything
but the first in line is no history of a queue. A concurrent implementation is correct
if the operations it carried out, in the order in which they took effect, are such a
history and leave what it holds.

- `runQueue_append`: histories are put together;
- `puts_of_runQueue`: what was put is what was taken, in the same order, and then what is left.
-/

namespace DistriSys.Transition

universe u

variable {α : Type u}

/-- An operation on a queue, with what it puts in line or yields. -/
inductive QueueOp (α : Type u) where
  | put (a : α)
  | take (a : α)
deriving DecidableEq

/-- What the operation puts in line or yields. -/
def QueueOp.item : QueueOp α → α
  | put a => a
  | take a => a

/-- What a `put` puts in line. -/
def QueueOp.put? : QueueOp α → Option α
  | put a => some a
  | take _ => none

/-- What a `take` yields. -/
def QueueOp.take? : QueueOp α → Option α
  | put _ => none
  | take a => some a

section

variable [DecidableEq α]

/-- One operation on a queue, the first in line at the head of the list. -/
def QueueOp.run (q : List α) : QueueOp α → Option (List α)
  | put a => some (q ++ [a])
  | take a =>
    match q with
    | [] => none
    | b :: q => if b = a then some q else none

/-- What is in line after these operations. -/
def runQueue (q : List α) (ops : List (QueueOp α)) : Option (List α) := ops.foldlM QueueOp.run q

@[simp] theorem runQueue_nil (q : List α) : runQueue q [] = some q := rfl

@[simp] theorem runQueue_cons (q : List α) (op : QueueOp α) (ops : List (QueueOp α)) :
    runQueue q (op :: ops) = (op.run q).bind fun q => runQueue q ops := rfl

/-- Histories are extended at their end. -/
theorem runQueue_append {q q' : List α} {ops ops' : List (QueueOp α)}
    (h : runQueue q ops = some q') : runQueue q (ops ++ ops') = runQueue q' ops' := by
  rw [runQueue, List.foldlM_append, ← runQueue, h]
  rfl

/-- The element in front can be taken. -/
theorem run_take (a : α) (q : List α) : (QueueOp.take a).run (a :: q) = some q := if_pos rfl

/-- **First in, first out**: what was put in line is what has been taken, in the same
order, followed by what is still there. -/
theorem puts_of_runQueue {q q' : List α} {ops : List (QueueOp α)} (h : runQueue q ops = some q') :
    q ++ ops.filterMap QueueOp.put? = ops.filterMap QueueOp.take? ++ q' := by
  induction ops generalizing q with
  | nil =>
    cases h
    simp
  | cons op ops ih =>
    obtain ⟨q₁, hop, hrest⟩ := Option.bind_eq_some_iff.mp h
    have hrest := ih hrest
    cases op with
    | put a =>
      cases hop
      simpa [List.filterMap_cons, QueueOp.put?, QueueOp.take?] using hrest
    | take a =>
      cases q with
      | nil => cases hop
      | cons b q =>
        simp only [QueueOp.run] at hop
        split at hop
        · next hba =>
          cases hop
          simpa [List.filterMap_cons, QueueOp.put?, QueueOp.take?, hba] using hrest
        · cases hop

end

end DistriSys.Transition
