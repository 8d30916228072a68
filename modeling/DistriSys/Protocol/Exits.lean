import DistriSys.Protocol.Faults
import DistriSys.Protocol.Places

/-!
# The exits of `processJob`

One call of `processJob`, alone, and every command is carried out. Only the exits
inside the `try` block pass through the clean-up: **`every_exit_releases`** says that
a call releases its job if and only if it gets as far as the handler and finds
one entry of the job on the processing list. The other exits (no record, a
payload that does not decode, no handler) leave the entry behind, and the next
watchdog pass puts the job back on a waiting list whatever the call has written
(`unhandled_job_revived`).

The proof goes through the exits in the order of the code: `lists_processJob_of_not_runnable`
is about the three early ones, `cleanedUp_processJob` about the two through the `finally` block.
-/

namespace DistriSys

open Js Redis

variable {T : Type}

/-- The call that leads from `st` to `st'` has let go of the job: one entry of the
processing list is gone, so are the entry of the active-jobs hash and the
heartbeat, and no watchdog pass changes the status any more. -/
structure Released (env : Env T) (st st' : Store) (id : JobId) : Prop where
  processing : (st'.lists (.processingList env.queueName)).count id + 1 =
    (st.lists (.processingList env.queueName)).count id
  active : id ∉ (st'.activeJobs env.queueName).keys
  heartbeat : st'.heartbeats id = none
  settled : ∀ now, ((checkStalledJobs env now st').jobs id).status = (st'.jobs id).status

section Exits

variable {env : Env T} {c : Circumstances} {id : JobId} {job : Job T} {st : Store}
  {w : Nat} {handlers : List String}

/-! ## The exits outside the `try` block -/

/-- A call that cannot run its job moves nothing. -/
theorem lists_processJob_of_not_runnable (h : ∀ job, ¬ Runnable env handlers (st.jobs id) job) :
    ((processJob env w handlers c id).after st).lists = st.lists := by
  rw [processJob, Async.after_query_bind]
  split
  · rfl
  · split
    · rfl
    · split
      · rfl
      · next job hjob =>
        have hhandler : hasHandler handlers job = false :=
          Bool.eq_false_iff.mpr fun hhandler => h job ⟨hjob, hhandler⟩
        simp only [Circumstances.issue, Async.after_request_bind, hhandler, if_true]
        split
        · rfl
        · split <;> rfl

/-! ## The exits through the `finally` block -/

/-- What the call leaves in the record before it cleans up. -/
theorem status_failJob (hserved : ∀ command, c.rejects command = false) :
    (((failJob env c id job).after st).jobs id).status =
      some (if job.attempts.addOne.lt job.maxAttempts then JobStatus.delayed else .dead).name := by
  rw [failJob, after_issueBeating_bind, if_neg (by simp [hserved])]
  dsimp only
  split
  · simp [hserved, JobHash.patch]
  · simp [hserved, JobHash.patch]

/-- The store a call on a runnable job leaves behind. -/
structure CleanedUp (env : Env T) (st st' : Store) (id : JobId) : Prop where
  processing : (st'.lists (.processingList env.queueName)).count id =
    (st.lists (.processingList env.queueName)).count id - 1
  active : id ∉ (st'.activeJobs env.queueName).keys
  heartbeat : st'.heartbeats id = none
  status : ∃ status : JobStatus, status ≠ .waiting ∧ (st'.jobs id).status = some status.name

theorem cleanedUp_processJob (hserved : ∀ command, c.rejects command = false)
    (hrun : Runnable env handlers (st.jobs id) job) :
    CleanedUp env st ((processJob env w handlers c id).after st) id := by
  have hbegun : ¬ c.BreaksOff := by simp [Circumstances.BreaksOff, hserved]
  have hprocessing : (st.beginJob env w c id).lists = st.lists := rfl
  rw [after_processJob_of_begun hrun hbegun, after_runHandler, cleanUp, after_issueBeating]
  simp only [hserved, Bool.false_eq_true, if_false]
  split
  · refine ⟨by simp [processing_failJob, hprocessing], by simp, by simp, _, ?_,
      status_failJob hserved⟩
    split <;> decide
  · exact ⟨by simp [hprocessing], by simp, by simp, .completed, by decide,
      by simp [JobHash.patch]⟩

/-- **When an exit releases the job.** With every command carried out, a call of
`processJob` releases its job if and only if the record can be run and the
processing list holds the id once. -/
theorem every_exit_releases (hserved : ∀ command, c.rejects command = false) :
    Released env st ((processJob env w handlers c id).after st) id ↔
      (∃ job, Runnable env handlers (st.jobs id) job) ∧
        (st.lists (.processingList env.queueName)).count id = 1 := by
  by_cases hrunnable : ∃ job, Runnable env handlers (st.jobs id) job
  · obtain ⟨job, hrun⟩ := hrunnable
    obtain ⟨hprocessing, hactive, hheartbeat, status, hwaiting, hstatus⟩ :=
      cleanedUp_processJob (w := w) hserved hrun
    constructor
    · intro h
      refine ⟨⟨job, hrun⟩, ?_⟩
      have hcount := h.processing
      by_contra hone
      -- another entry is left, and a pass finds it without a heartbeat
      have hleft : id ∈ ((processJob env w handlers c id).after st).lists
          (.processingList env.queueName) := List.count_pos_iff.mp (by omega)
      have hstalled : id ∈ stalledIds env 0 ((processJob env w handlers c id).after st) :=
        mem_stalledIds.mpr ⟨.inr hleft, by simp [Store.alive, hheartbeat, Volatile.get?]⟩
      have hrevived := h.settled 0
      rw [(requeued_checkStalledJobs hstalled (isEmpty_of_status hstatus)).1, hstatus] at hrevived
      exact hwaiting (JobStatus.name_injective (Option.some.inj hrevived)).symm
    · rintro ⟨-, hone⟩
      refine ⟨by omega, hactive, hheartbeat, ?_⟩
      intro now
      have hgone : id ∉ ((processJob env w handlers c id).after st).lists
          (.processingList env.queueName) := List.count_eq_zero.mp (by omega)
      have hnot : id ∉ stalledIds env now ((processJob env w handlers c id).after st) := by
        intro hstalled
        exact (mem_stalledIds.mp hstalled).1.elim hactive hgone
      rw [(same_checkStalledJobs hnot).record]
  · refine iff_of_false (fun h => ?_) fun h => hrunnable h.1
    have hcount := h.processing
    rw [lists_processJob_of_not_runnable (not_exists.mp hrunnable)] at hcount
    omega

end Exits

/-- A job that fails its first attempt. -/
theorem every_exit_releases_failing :
    Released mainQueue takenJob
      ((processJob mainQueue 0 ["mail"] (meeting .reject []) "a").after takenJob) "a" :=
  (every_exit_releases fun _ => rfl).mpr ⟨runnable_takenJob, by decide +kernel⟩

/-- **A job without a handler is not released**: the call writes `failed` and
returns, and the next watchdog pass puts the job back on its waiting list. -/
theorem unhandled_job_revived :
    ¬ ∀ (st : Store) (handlers : List String) (c : Circumstances),
      (∀ command, c.rejects command = false) →
      (st.lists (.processingList "main_queue")).count "a" = 1 →
        Released mainQueue st ((processJob mainQueue 0 handlers c "a").after st) "a" := by
  intro h
  have hreleased := h takenJob [] (meeting .resolve []) (fun _ => rfl) (by decide +kernel)
  exact absurd (hreleased.settled 0) (by decide +kernel)

end DistriSys
