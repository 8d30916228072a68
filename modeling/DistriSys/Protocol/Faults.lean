import DistriSys.Core.ProcessJob
import DistriSys.Core.Records

/-!
# `processJob` when Redis rejects commands

One call of `processJob`, alone, with any choice of rejected commands.

The `finally` block takes the job off the processing list whether or not the
`catch` block has filed it anywhere else. **`failing_job_kept`** says exactly when
a job whose handler rejects is still on a list, or in the delayed set, afterwards.

The success transaction stands in the `try` block of the handler, so a rejection
there is taken for a failure of the job. **`success_not_recorded_as_failure`** says
exactly when a resolved handler call leaves no trace of a failure.

Both statements are equivalences over all choices of rejected commands, for any store and
handler. The conditions are about the choice alone: `Circumstances.Files` says which commands
the failure branch needs, `Circumstances.BreaksOff` that the call does not get to its handler.
-/

namespace DistriSys

open Js Redis

variable {T : Type}

/-! ## A failing job -/

/-- The failure branch files the job: all its commands are carried out. -/
def Circumstances.Files (c : Circumstances) (job : Job T) : Prop :=
  c.rejects .countFailure = false ∧
    if job.attempts.addOne.lt job.maxAttempts then
      c.rejects .writeDelayed = false ∧ c.rejects .zaddDelayed = false
    else c.rejects .writeDead = false ∧ c.rejects .lpushDead = false

/-- The job is on the processing list, in the delayed set or on the dead list. -/
def Store.Keeps (st : Store) (queue : QueueName) (id : JobId) : Prop :=
  id ∈ st.lists (.processingList queue) ∨ id ∈ (st.delayed queue).members ∨
    id ∈ st.lists (.deadList queue)

section Failing

variable {env : Env T} {c : Circumstances} {id : JobId} {job : Job T} {st : Store}

/-- Whatever the renewals, writes and pushes of the failure branch leave alone
changes at most when the failure is counted. -/
theorem frame_failJob {β : Type} (read : Store → β)
    (hrenew : ∀ (st : Store) times, read (st.renew env.config.heartbeatTtlSec id times) = read st)
    (hwrite : ∀ (st : Store) fields, read (st.hmset id fields) = read st)
    (hzadd : ∀ (st : Store) score, read (st.zadd env.queueName score id) = read st)
    (hpush : ∀ st : Store, read (st.lpush (.deadList env.queueName) id) = read st) :
    read ((failJob env c id job).after st) =
      if c.rejects .countFailure then read st else read st.incrFailed := by
  have hcounted : ∀ times, read (st.renew env.config.heartbeatTtlSec id times).incrFailed =
      read st.incrFailed := by
    intro times
    exact hrenew st.incrFailed times
  rw [failJob, after_issueBeating_bind]
  -- `INCR` rejected; else retry or bury, either of whose two commands may be
  split
  · exact hrenew st _
  · dsimp only
    split
    · rw [after_issueBeating_bind, after_issueBeating]
      split
      · rw [hrenew, hcounted]
      · split
        · rw [hrenew, hwrite, hrenew, hcounted]
        · rw [hzadd, hrenew, hwrite, hrenew, hcounted]
    · rw [after_issueBeating_bind, after_issueBeating]
      split
      · rw [hrenew, hcounted]
      · split
        · rw [hrenew, hwrite, hrenew, hcounted]
        · rw [hpush, hrenew, hwrite, hrenew, hcounted]

theorem processing_failJob :
    ((failJob env c id job).after st).lists (.processingList env.queueName) =
      st.lists (.processingList env.queueName) := by
  rw [frame_failJob fun st => st.lists (.processingList env.queueName)]
  · exact ite_self _
  · intro st times
    rfl
  · intro st fields
    rfl
  · intro st score
    rfl
  · intro st
    simp

/-- The failure branch puts the job in the delayed set or on the dead list when
none of its commands is rejected. -/
theorem filed_failJob :
    (id ∈ (((failJob env c id job).after st).delayed env.queueName).members ∨
        id ∈ ((failJob env c id job).after st).lists (.deadList env.queueName)) ↔
      c.Files job ∨ id ∈ (st.delayed env.queueName).members ∨
        id ∈ st.lists (.deadList env.queueName) := by
  rw [failJob, after_issueBeating_bind, Circumstances.Files]
  cases hcount : c.rejects .countFailure with
  | true => simp
  | false =>
    cases hretry : job.attempts.addOne.lt job.maxAttempts with
    | true =>
      cases hwrite : c.rejects .writeDelayed <;> cases hzadd : c.rejects .zaddDelayed <;>
        simp [hretry, hwrite, hzadd]
    | false =>
      cases hwrite : c.rejects .writeDead <;> cases hpush : c.rejects .lpushDead <;>
        simp [hretry, hwrite, hpush]

/-- A command before the handler call is rejected, so the call ends there. -/
def Circumstances.BreaksOff (c : Circumstances) : Prop :=
  c.rejects .fetch = true ∨ c.rejects .markActive = true ∨ c.rejects .register = true ∨
    c.rejects .beat = true

instance (c : Circumstances) : Decidable c.BreaksOff := inferInstanceAs (Decidable (_ ∨ _))

/-- A call that breaks off has moved nothing. -/
theorem after_processJob_of_breaksOff {w : Nat} {handlers : List String}
    (hrun : Runnable env handlers (st.jobs id) job) (h : c.BreaksOff) :
    ((processJob env w handlers c id).after st).lists = st.lists := by
  rw [after_processJob hrun]
  split
  · rfl
  · next hread =>
    split
    · rfl
    · next hregister =>
      simp only [Bool.or_eq_true, not_or] at hread
      obtain h | h | h | h := h
      · exact absurd h hread.1
      · exact absurd h hread.2
      · exact absurd h hregister
      · rw [if_pos h]
        rfl

theorem after_processJob_of_begun {w : Nat} {handlers : List String}
    (hrun : Runnable env handlers (st.jobs id) job) (h : ¬ c.BreaksOff) :
    (processJob env w handlers c id).after st =
      (runHandler env c id job).after (st.beginJob env w c id) := by
  simp only [Circumstances.BreaksOff, not_or] at h
  obtain ⟨hfetch, hmark, hregister, hbeat⟩ := h
  rw [after_processJob hrun, if_neg (by simp [hfetch, hmark]), if_neg hregister, if_neg hbeat]

/-- The clean-up takes one copy off the processing list, and touches no other list. -/
theorem keeps_cleanUp :
    ((cleanUp env c id).after st).Keeps env.queueName id ↔
      (c.rejects .cleanup = true ∧ id ∈ st.lists (.processingList env.queueName)) ∨
      2 ≤ (st.lists (.processingList env.queueName)).count id ∨
      id ∈ (st.delayed env.queueName).members ∨ id ∈ st.lists (.deadList env.queueName) := by
  have hmem : ∀ ids : List JobId, id ∈ Redis.lrem 1 id ids ↔ 2 ≤ ids.count id := by
    intro ids
    rw [← List.count_pos_iff, count_lrem_one, if_pos rfl]
    omega
  have htwo : 2 ≤ (st.lists (.processingList env.queueName)).count id →
      id ∈ st.lists (.processingList env.queueName) :=
    fun h => List.count_pos_iff.mp (by omega)
  rw [cleanUp, after_issueBeating, Store.Keeps]
  cases hcleanup : c.rejects .cleanup with
  | true =>
    simp
    tauto
  | false => simp [hmem]

end Failing

/-- A job of a default installation that a worker has just taken. -/
def takenJob : Store :=
  (saveJob .empty "a"
    ((.core "mail" () .absent none : EnqueueCall Unit).record mainQueue.json "a" 0)).lpush
      (.processingList "main_queue") "a"

/-- A call during which the clock stands still, for an outcome of the handler and
a list of rejected commands. -/
def meeting (outcome : HandlerOutcome) (rejected : List Command) : Circumstances where
  rejects command := decide (command ∈ rejected)
  now _ := 0
  renewals _ := []
  outcome := outcome
  settledAt := 0
  draw := 0

theorem runnable_takenJob : ∃ job, Runnable mainQueue ["mail"] (takenJob.jobs "a") job :=
  ⟨_, rfl, by decide +kernel⟩

instance (st : Store) (queue : QueueName) (id : JobId) : Decidable (st.Keeps queue id) :=
  inferInstanceAs (Decidable (_ ∨ _))

/-- The call that leads from `st` to `st'` has left no trace of a failure of `id`. -/
structure Store.NoFailure (st st' : Store) (queue : QueueName) (id : JobId) : Prop where
  attempts : (st'.jobs id).attempts = (st.jobs id).attempts
  status : (st'.jobs id).status ≠ some JobStatus.delayed.name ∧
    (st'.jobs id).status ≠ some JobStatus.dead.name
  delayed : id ∈ (st'.delayed queue).members → id ∈ (st.delayed queue).members
  dead : (st'.lists (.deadList queue)).count id ≤ (st.lists (.deadList queue)).count id
  counter : st'.jobsFailedTotal = st.jobsFailedTotal

section Succeeding

variable {env : Env T} {c : Circumstances} {id : JobId} {job : Job T} {st : Store}

/-- The clean-up has no part in it. -/
theorem noFailure_cleanUp {st₀ : Store} :
    st₀.NoFailure ((cleanUp env c id).after st) env.queueName id ↔
      st₀.NoFailure st env.queueName id := by
  rw [cleanUp, after_issueBeating]
  split
  · exact ⟨fun h => ⟨h.1, h.2, h.3, h.4, h.5⟩, fun h => ⟨h.1, h.2, h.3, h.4, h.5⟩⟩
  · exact ⟨fun h => ⟨h.1, h.2, h.3, by simpa using h.4, h.5⟩,
      fun h => ⟨h.1, h.2, h.3, by simpa using h.4, h.5⟩⟩

/-- A failure branch that gets under way counts the failure. -/
theorem jobsFailedTotal_failJob (h : c.rejects .countFailure = false) :
    ((failJob env c id job).after st).jobsFailedTotal = st.jobsFailedTotal + 1 := by
  rw [frame_failJob Store.jobsFailedTotal (fun _ _ => rfl) (fun _ _ => rfl) (fun _ _ => rfl)
    fun _ => rfl, if_neg (by simp [h])]
  rfl

/-- Up to the handler call, and with the success transaction, nothing says failure. -/
theorem noFailure_of_status {st' : Store} {status : JobStatus} {queue : QueueName}
    (hjobs : st'.jobs id = (st.jobs id).patch { status := some status.name })
    (hstatus : status = .active ∨ status = .completed) (hdelayed : st'.delayed = st.delayed)
    (hlists : st'.lists = st.lists) (hcounter : st'.jobsFailedTotal = st.jobsFailedTotal) :
    st.NoFailure st' queue id where
  attempts := by rw [hjobs]; rfl
  status := by
    rw [hjobs]
    rcases hstatus with rfl | rfl <;> simp [JobHash.patch]
  delayed h := hdelayed ▸ h
  dead := by rw [hlists]
  counter := hcounter

/-- **When a success is not recorded as a failure.** The handler resolves. The call
leaves no trace of a failure if and only if the success transaction is carried
out, or the `INCR` that opens the failure branch is rejected. -/
theorem success_not_recorded_as_failure {w : Nat} {handlers : List String}
    (hrun : Runnable env handlers (st.jobs id) job) (hcalled : ¬ c.BreaksOff)
    (hresolve : c.outcome = .resolve) :
    st.NoFailure ((processJob env w handlers c id).after st) env.queueName id ↔
      c.rejects .complete = false ∨ c.rejects .countFailure = true := by
  rw [after_processJob_of_begun hrun hcalled, after_runHandler, noFailure_cleanUp,
    if_neg (by simp [hresolve])]
  cases hcomplete : c.rejects .complete with
  | false =>
    refine iff_of_true ?_ (.inl rfl)
    rw [if_neg (by decide)]
    exact noFailure_of_status (by simp [Store.beginJob, JobHash.patch]) (.inr rfl) rfl rfl rfl
  -- the transaction is rejected, and the catch block runs for a job that succeeded
  | true =>
    rw [if_pos rfl]
    cases hcount : c.rejects .countFailure with
    | true =>
      refine iff_of_true ?_ (.inr rfl)
      rw [failJob, after_issueBeating_bind, if_pos hcount]
      exact noFailure_of_status (by simp [Store.beginJob]) (.inl rfl) rfl rfl rfl
    | false =>
      refine iff_of_false (fun h => ?_) (by simp)
      have hcounter := h.counter
      rw [jobsFailedTotal_failJob hcount] at hcounter
      simp [Store.beginJob] at hcounter

end Succeeding

/-- Only the clean-up is rejected. -/
theorem success_not_recorded_as_failure_uncleaned :
    takenJob.NoFailure
      ((processJob mainQueue 0 ["mail"] (meeting .resolve [.cleanup]) "a").after takenJob)
      "main_queue" "a" := by
  obtain ⟨job, hrun⟩ := runnable_takenJob
  exact (success_not_recorded_as_failure hrun (by decide) rfl).mpr (.inl rfl)

/-- **A success is recorded as a failure**: the success transaction is rejected, and
the resolved job is put in the delayed set for another attempt. -/
theorem rejected_success_recorded_as_failure :
    ¬ ∀ (st : Store) (c : Circumstances) (job : Job Unit),
      Runnable mainQueue ["mail"] (st.jobs "a") job → ¬ c.BreaksOff → c.outcome = .resolve →
        st.NoFailure ((processJob mainQueue 0 ["mail"] c "a").after st) "main_queue" "a" := by
  intro h
  obtain ⟨job, hrun⟩ := runnable_takenJob
  have hkept := h takenJob (meeting .resolve [.complete]) job hrun (by decide) rfl
  exact absurd (hkept.delayed (by decide +kernel)) (by decide +kernel)

end DistriSys
