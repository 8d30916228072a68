import DistriSys.Protocol.Frame

/-!
# Manual retries

A retry request reads the status of a job and later runs a transaction that takes
the id off the dead list, if it is there, and pushes it on a waiting list in any
case. **`manual_retry_moves`**: if a request goes on only for a job that lies on
the dead list, and no two that have gone on for the same job overlap, every such
transaction moves a copy and makes none.

The status the request looks at promises neither. `second_retry_copies` is the
run in which two requests for one dead job are both accepted, and both push.

- `Config.accepts`: the request whose read the step is, with the job it goes on for;
- `RetriesBuried`: the condition, on the state in which a request decides to go on;
- `pendingBuried_step`: a request that has gone on still finds its job on the dead list, since
  no worker takes from there and no other request is after the same job.
-/

namespace DistriSys

open Js Redis Transition

variable {T : Type}

/-! ## Requests -/

/-- The job a request that arrives now is accepted for. -/
def Config.accepts (env : Env T) (s : Config T) : Action T → Option JobId
  | .request _ id => (retryRequest env s.store id).jobId?
  | _ => none

/-- The requests that do not move in the step. -/
def Config.otherRetries (s : Config T) : Action T → List RetryPc
  | .respond i => s.retries.eraseIdx i
  | _ => s.retries

/-- A request is accepted only for a job on the dead list, and a retry
transaction runs only when no other accepted request for its job is pending. -/
def RetriesBuried (env : Env T) (s : Config T) (a : Action T) : Prop :=
  (∀ id ∈ s.accepts env a, id ∈ s.store.lists (.deadList env.queueName)) ∧
    ∀ id ∈ s.retryTransaction a, ∀ pc ∈ s.otherRetries a, pc.jobId? ≠ some id

instance (env : Env T) (s : Config T) (a : Action T) : Decidable (RetriesBuried env s a) :=
  inferInstanceAs (Decidable (_ ∧ _))

/-- Everywhere a job of the queue can lie. -/
def Store.copies (st : Store) (queue : QueueName) (id : JobId) : Nat :=
  st.waiting queue id + (st.lists (.processingList queue)).count id +
    (st.delayed queue).members.count id + (st.lists (.deadList queue)).count id

/-- If the step is a retry transaction, it takes its job off the dead list and
leaves no more copies than there were. -/
def RetryMoves (env : Env T) (s : Config T) (a : Action T) (s' : Config T) : Prop :=
  ∀ id ∈ s.retryTransaction a,
    (s'.store.lists (.deadList env.queueName)).count id <
        (s.store.lists (.deadList env.queueName)).count id ∧
      s'.store.copies env.queueName id ≤ s.store.copies env.queueName id

instance (env : Env T) (s : Config T) (a : Action T) (s' : Config T) :
    Decidable (RetryMoves env s a s') := by
  unfold RetryMoves
  infer_instance

section Runs

variable {env : Env T} {s₀ s s' : Config T} {a : Action T} {id : JobId}

/-- A push adds at most one copy to the waiting lists, none if its list is not
one of the three. -/
theorem Store.waiting_lpush_le {st : Store} {queue : QueueName} {priority : String} {j : JobId} :
    (st.lpush (.waitingList queue priority) j).waiting queue id ≤ st.waiting queue id + 1 := by
  by_cases h : ∃ p : JobPriority, priority = p.name
  · obtain ⟨p, rfl⟩ := h
    rw [waiting_lpush]
    split <;> omega
  · push Not at h
    have hsame : (st.lpush (.waitingList queue priority) j).waiting queue id = st.waiting queue id :=
      waiting_congr fun p => by simp [lpush, Ne.symm (h p)]
    omega

/-- Every accepted request is for a job on the dead list. -/
def PendingBuried (env : Env T) (s : Config T) : Prop :=
  ∀ pc ∈ s.retries, ∀ id ∈ pc.jobId?, id ∈ s.store.lists (.deadList env.queueName)

/-- Where an accepted request comes from: it was there before, or it is accepted
in the step. -/
theorem mem_retries_step (hs : step env s a = some s') {pc : RetryPc} (hpc : pc ∈ s'.retries)
    (hid : pc.jobId? = some id) : pc ∈ s.otherRetries a ∨ s.accepts env a = some id := by
  cases stepped hs with
  | @request i id' hi =>
    rcases List.mem_or_eq_of_mem_set hpc with hpc | rfl
    · exact .inl hpc
    · exact .inr hid
  | @respond i pc₀ e hi he =>
    rcases mem_eraseIdx_or_eq_of_mem_set hpc with hpc | rfl
    · exact .inl hpc
    · cases pc₀ with
      | idle => cases he
      | requeue =>
        cases he
        cases hid
  | crashRetry hi =>
    rcases List.mem_or_eq_of_mem_set hpc with hpc | rfl
    · exact .inl hpc
    · cases hid
  | _ => exact .inl hpc

theorem Config.mem_retries_of_mem_others {pc : RetryPc} (h : pc ∈ s.otherRetries a) :
    pc ∈ s.retries := by
  cases a with
  | respond => exact List.mem_of_mem_eraseIdx h
  | _ => exact h

theorem pendingBuried_step (h : PendingBuried env s) (hok : RetriesBuried env s a)
    (hs : step env s a = some s') : PendingBuried env s' := by
  intro pc hpc id hid
  rcases mem_retries_step hs hpc hid with hother | haccepts
  · -- the transaction of the step is about another job
    exact dead_kept hs (fun htx => hok.2 id htx pc hother hid)
      (h pc (Config.mem_retries_of_mem_others hother) id hid)
  · have hnone : s.retryTransaction a ≠ some id := by
      cases a with
      | request => rintro ⟨⟩
      | _ => cases haccepts
    exact dead_kept hs hnone (hok.1 id haccepts)

theorem pendingBuried_run (h₀ : ∀ pc ∈ s₀.retries, pc = .idle)
    (h : Reach (step env) (RetriesBuried env) s₀ s) : PendingBuried env s :=
  h.invariant (fun pc hpc id hid => by rw [h₀ pc hpc] at hid; cases hid)
    fun _ _ _ hP hok hs => pendingBuried_step hP hok hs

/-- **A manual retry moves its job.** From any state without a request under way,
in every run that accepts requests only for jobs on the dead list, and never two
at a time for one job, each retry transaction takes the id it pushes off this
queue's dead list, and the job has no more copies than before. -/
theorem manual_retry_moves (h₀ : ∀ pc ∈ s₀.retries, pc = .idle)
    (h : Reach (step env) (RetriesBuried env) s₀ s) (hs : step env s a = some s') :
    RetryMoves env s a s' := by
  intro id htx
  cases a with
  | respond i =>
    cases stepped hs with
    | @respond _ pc e hi he =>
      cases pc with
      | idle => cases he
      | requeue id' priority =>
        obtain rfl : id' = id := by simpa [Config.retryTransaction, hi] using htx
        have hdead : 0 < (s.store.lists (.deadList env.queueName)).count id' :=
          List.count_pos_iff.mpr
            (pendingBuried_run h₀ h _ (List.mem_of_getElem? hi) id' rfl)
        cases he
        -- `LREM 0` takes off every copy, `LPUSH` puts one back
        have hwaiting : ∀ st : Store,
            (st.lpush (.waitingList env.queueName priority) id').waiting env.queueName id' ≤
              st.waiting env.queueName id' + 1 := fun _ => Store.waiting_lpush_le
        refine ⟨by simpa using hdead, ?_⟩
        have := hwaiting ((s.store.lrem (.deadList env.queueName) 0 id').hmset id'
          { status := some JobStatus.waiting.name, attempts := some "0" })
        simp only [Store.waiting_hmset, Store.waiting_lrem_dead] at this
        simp [Store.copies]
        omega
  | _ => cases htx

end Runs

/-- A job with a single attempt, buried. -/
def buryOnce : List (Action Unit) :=
  [.enqueue 0 "a" (.core "mail" () (.options none (some 1) none) none), .produce 0, .produce 0,
    .work 0 0, .work 0 0, .work 0 0, .work 0 0, .work 0 0, .work 0 0, .settle 0 .reject,
    .work 0 0, .work 0 0, .work 0 0, .work 0 0]

/-- The retry of a buried job. -/
theorem manual_retry_moves_buried :
    ∃ s s' : Config Unit, s.retryTransaction (.respond 0) = some "a" ∧
      step mainQueue s (.respond 0) = some s' ∧ RetryMoves mainQueue s (.respond 0) s' := by
  obtain ⟨s, hs, htx, hsome⟩ :=
    exists_reach_of_run (step mainQueue) (RetriesBuried mainQueue) (init ⟨1, [["mail"]], 0, 0, 1⟩)
      (fun s : Config Unit => s.retryTransaction (.respond 0) = some "a" ∧
        (step mainQueue s (.respond 0)).isSome)
      (buryOnce ++ [.request 0 "a"]) (by decide +kernel)
  obtain ⟨s', hs'⟩ := Option.isSome_iff_exists.mp hsome
  refine ⟨s, s', htx, hs', manual_retry_moves (fun pc hpc => ?_) hs hs'⟩
  exact List.eq_of_mem_replicate hpc

/-- **A second retry copies the job.** Two requests for a dead job pass the check;
the second transaction finds nothing to remove and pushes all the same. -/
theorem second_retry_copies :
    ¬ ∀ (s s' : Config Unit) (a : Action Unit),
      Reach (step mainQueue) (fun _ _ => True) (init ⟨1, [["mail"]], 0, 0, 2⟩) s →
      step mainQueue s a = some s' → RetryMoves mainQueue s a s' := by
  intro h
  obtain ⟨s, hs, htx, hnone, hsome⟩ :=
    exists_reach_of_run (step mainQueue) (fun _ _ => True) (init ⟨1, [["mail"]], 0, 0, 2⟩)
      (fun s : Config Unit => s.retryTransaction (.respond 1) = some "a" ∧
        (s.store.lists (.deadList "main_queue")).count "a" = 0 ∧
        (step mainQueue s (.respond 1)).isSome)
      (buryOnce ++ [.request 0 "a", .request 1 "a", .respond 0]) (by decide +kernel)
  obtain ⟨s', hs'⟩ := Option.isSome_iff_exists.mp hsome
  have hmoved : (s'.store.lists (.deadList "main_queue")).count "a" <
      (s.store.lists (.deadList "main_queue")).count "a" := (h s s' _ hs hs' "a" htx).1
  omega

end DistriSys
