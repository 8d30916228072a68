import DistriSys.Core.Requests

/-!
# What a rejected command leaves of an `enqueue` call

The first command of `enqueue` saves the job; all others come after it, and none of
them is undone. So a call that ends with an exception after `saveJob` leaves a record
that no list refers to (`after_enqueue_of_strands`), and **`enqueue_all_or_nothing`**
says exactly when it leaves nothing. `rejected_push_strands_record` is a call that
leaves one.

An exception leaves the caller with nothing, so it will call again, with another id. The record
that was left behind says `waiting` for ever; nobody looks for records that no list refers to.
-/

namespace DistriSys

open Js Redis

variable {T : Type}

/-- The job records, waiting lists and idempotency slots are the same. -/
structure Store.SameQueues (st st' : Store) : Prop where
  jobs : st'.jobs = st.jobs
  waiting : ∀ queue priority,
    st'.lists (.waitingList queue priority) = st.lists (.waitingList queue priority)
  idempotency : st'.idempotency = st.idempotency

/-- A command that a call for `id` with this key issues after `saveJob` is rejected. -/
def EnqueueCircumstances.Strands (c : EnqueueCircumstances) (st : Store) (id : JobId) :
    Option String → Prop
  | none => c.rejects .push = true
  | some key => c.rejects .claim = true ∨
    c.rejects .discard = true ∧
      ∃ holder ≠ id, Volatile.get? c.claimedAt (st.idempotency key) = some holder

section Enqueue

variable {env : Env T} {c : EnqueueCircumstances} {id : JobId} {call : EnqueueCall T} {st : Store}

/-- With `saveJob` carried out, the call throws when a later command is rejected. -/
theorem throws_enqueue (hsave : c.rejects .save = false) :
    (Queue.enqueue env c id call).throws st = true ↔ c.Strands st id call.idempotencyKey := by
  rw [Queue.enqueue, Async.throws_request_bind, hsave, Bool.false_or]
  cases hkey : call.idempotencyKey with
  | none => simp [EnqueueCircumstances.Strands]
  | some key =>
    cases hslot : Volatile.get? c.claimedAt (st.idempotency key) with
    | none =>
      simp [EnqueueCircumstances.Strands, Store.idempotentEnqueue, saveJob, hslot]
    | some holder =>
      by_cases hholder : holder = id
      · subst hholder
        simp [EnqueueCircumstances.Strands, Store.idempotentEnqueue, saveJob, hslot]
      · simp [EnqueueCircumstances.Strands, Store.idempotentEnqueue, saveJob, hslot, hholder]

/-- What is left then is the record. -/
theorem after_enqueue_of_strands (hsave : c.rejects .save = false)
    (h : c.Strands st id call.idempotencyKey) :
    (Queue.enqueue env c id call).after st =
      saveJob st id (call.record env.json id c.createdAt) := by
  rw [Queue.enqueue, Async.after_request_bind, hsave]
  cases hkey : call.idempotencyKey with
  | none =>
    rw [hkey] at h
    have hpush : c.rejects .push = true := h
    simp [hpush]
  | some key =>
    rw [hkey] at h
    rcases h with hclaim | ⟨hdiscard, holder, hne, hslot⟩
    · simp [hclaim]
    · -- the script has found the slot held, and changed nothing
      simp [hdiscard, Store.idempotentEnqueue, saveJob, hslot, hne]

/-- A call whose `saveJob` is rejected has done nothing. -/
theorem after_enqueue_of_unsaved (hsave : c.rejects .save = true) :
    (Queue.enqueue env c id call).after st = st := by
  rw [Queue.enqueue, Async.after_request_bind, if_pos hsave]

/-- **When `enqueue` is all or nothing.** A call that ends with an exception leaves
records, waiting lists and idempotency slots as they were if and only if `saveJob`
is rejected, or no later command of the call is, or the record it writes was there
before. -/
theorem enqueue_all_or_nothing (env : Env T) (c : EnqueueCircumstances) (id : JobId)
    (call : EnqueueCall T) (st : Store) :
    ((Queue.enqueue env c id call).throws st = true →
        st.SameQueues ((Queue.enqueue env c id call).after st)) ↔
      c.rejects .save = true ∨ ¬ c.Strands st id call.idempotencyKey ∨
        (st.jobs id).patch (call.record env.json id c.createdAt) = st.jobs id := by
  cases hsave : c.rejects .save with
  -- `saveJob` is the first command: rejected, nothing has been written
  | true =>
    refine iff_of_true ?_ (.inl rfl)
    intro _
    rw [after_enqueue_of_unsaved hsave]
    exact ⟨rfl, fun _ _ => rfl, rfl⟩
  | false =>
    rw [throws_enqueue hsave]
    -- what is stranded is the record, which shows unless it was there already
    by_cases hstrands : c.Strands st id call.idempotencyKey
    · rw [after_enqueue_of_strands hsave hstrands]
      constructor
      · intro h
        have hjobs := congrFun (h hstrands).jobs id
        rw [saveJob, Store.hmset_jobs, Function.update_self] at hjobs
        exact .inr (.inr hjobs)
      · rintro (hnot | hnot | hsame) _
        · cases hnot
        · exact absurd hstrands hnot
        · refine ⟨?_, fun _ _ => rfl, rfl⟩
          show Function.update st.jobs id _ = st.jobs
          rw [hsame, Function.update_eq_self]
    · exact iff_of_true (fun h => absurd h hstrands) (.inr (.inl hstrands))

end Enqueue

/-- **A rejected push strands the record.** -/
theorem rejected_push_strands_record :
    ¬ ∀ (st : Store) (c : EnqueueCircumstances) (call : EnqueueCall Unit),
      (Queue.enqueue mainQueue c "a" call).throws st = true →
        st.SameQueues ((Queue.enqueue mainQueue c "a" call).after st) := by
  intro h
  have hsame := h .empty ⟨fun command => command = .push, 0, 0⟩
    (.core "mail" () .absent none) rfl
  exact absurd (congrFun hsame.jobs "a") (by decide)

end DistriSys
