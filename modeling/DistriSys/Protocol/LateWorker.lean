import DistriSys.Protocol.Frame

/-!
# A late worker and its successor

A worker whose heartbeat has run out may only have been slow. When it goes on,
its job has been requeued, and another worker may hold it. Both dispatches then
write to the same keys:

- `late_step`: past the call of its handler a worker's commands leave what the
  other dispatch relies on (`Store.Intact`), except for those that settle the job
  or clean up (`Config.settles`);
- **`late_worker_harmless`**: so the successor's dispatch survives everything late
  workers do, as long as each of them settles and cleans up only when no other
  live worker holds the job;
- `settlement_disturbs`: the condition is exact for a successor that is running
  its handler;
- `late_cleanup_hits_the_successor`: a run in which it fails.
-/

namespace DistriSys

open Js Redis Transition

variable {T : Type}

/-- What a dispatch of `id` relies on in `st` is still there in `st'`: no entry,
registration or heartbeat is gone, status and attempts are the same. -/
structure Store.Intact (queue : QueueName) (id : JobId) (st st' : Store) : Prop where
  entry : (st.lists (.processingList queue)).count id ≤
    (st'.lists (.processingList queue)).count id
  registration : id ∈ (st.activeJobs queue).keys → id ∈ (st'.activeJobs queue).keys
  heartbeat : st.heartbeats id ≠ none → st'.heartbeats id ≠ none
  status : (st'.jobs id).status = (st.jobs id).status
  attempts : (st'.jobs id).attempts = (st.jobs id).attempts

namespace Store.Intact

variable {queue : QueueName} {id : JobId} {st st' st'' : Store}

theorem of_untouched (h : st.Untouched queue id st') : Intact queue id st st' where
  entry := h.processing.ge
  registration := h.active.mpr
  heartbeat hset := h.heartbeat ▸ hset
  status := by rw [h.record]
  attempts := by rw [h.record]

theorem trans (h : Intact queue id st st') (h' : Intact queue id st' st'') :
    Intact queue id st st'' where
  entry := h.entry.trans h'.entry
  registration hkey := h'.registration (h.registration hkey)
  heartbeat hset := h'.heartbeat (h.heartbeat hset)
  status := h'.status.trans h.status
  attempts := h'.attempts.trans h.attempts

theorem setHeartbeat {now ttl : Nat} {j : JobId} : Intact queue id st (st.setHeartbeat now ttl j) where
  entry := Nat.le_refl _
  registration hkey := hkey
  heartbeat hset := by
    by_cases hj : id = j
    · subst hj
      simp
    · simpa [hj] using hset
  status := rfl
  attempts := rfl

end Store.Intact

/-! ## Late workers -/

/-- The job of a worker that has called its handler. -/
def WorkerPc.late (pc : WorkerPc T) : Option JobId :=
  match pc.custody with
  | some (_, .loading) => none
  | some (jobId, _) => some jobId
  | none => none

/-- The job whose status, attempts or dispatch keys the worker's next command
writes or deletes. -/
def WorkerPc.settles : WorkerPc T → Option JobId
  | complete jobId _ => some jobId
  | writeDelayed jobId _ _ => some jobId
  | writeDead jobId _ => some jobId
  | cleanup jobId => some jobId
  | _ => none

/-- The job for which a worker acts that has called its handler. -/
def Config.late (s : Config T) : Action T → Option JobId
  | .work w _ => s.workers[w]?.bind fun wk => wk.pc.late
  | .settle w _ => s.workers[w]?.bind fun wk => wk.pc.late
  | .renew w => s.workers[w]?.bind fun wk => wk.pc.late
  | _ => none

/-- The job that a worker settles or cleans up after. -/
def Config.settles (s : Config T) : Action T → Option JobId
  | .work w _ => s.workers[w]?.bind fun wk => wk.pc.settles
  | _ => none

/-- A worker settles a job and cleans up after it only when no other live worker
holds the job. -/
def SettlesAlone (s : Config T) (a : Action T) : Prop :=
  ∀ id ∈ s.settles a, ∀ wk ∈ s.otherWorkers a, wk.pc.jobId? ≠ some id

instance (s : Config T) (a : Action T) : Decidable (SettlesAlone s a) :=
  inferInstanceAs (Decidable (∀ id ∈ s.settles a, ∀ wk ∈ s.otherWorkers a, wk.pc.jobId? ≠ some id))

/-- The worker that moves. -/
def Action.worker? : Action T → Option Nat
  | .work w _ => some w
  | .settle w _ => some w
  | .renew w => some w
  | .process w _ => some w
  | .crash (.worker w) => some w
  | _ => none

/-- Worker `v` does not move, and what is done about `id` is done by a late worker. -/
def Apart (env : Env T) (v : Nat) (id : JobId) (s : Config T) (a : Action T) : Prop :=
  a.worker? ≠ some v ∧ (s.touches env a = some id → s.late a = some id)

instance (env : Env T) (v : Nat) (id : JobId) (s : Config T) (a : Action T) :
    Decidable (Apart env v id s a) :=
  inferInstanceAs (Decidable (_ ∧ _))

section Steps

variable {env : Env T} {s s' : Config T} {a : Action T} {id : JobId}

/-- **What a late worker may do**: everything but settling and cleaning up. -/
theorem late_step (hs : step env s a = some s') (hlate : s.late a = some id)
    (hsettles : s.settles a ≠ some id) : s.store.Intact env.queueName id s'.store := by
  cases stepped hs with
  | @work w draw wk e hw he =>
    obtain ⟨handlers, pc⟩ := wk
    simp only [Config.late, Config.settles, hw, Option.bind_some] at hlate hsettles
    cases pc with
    | countFailure jobId job =>
      cases he
      -- counters, the delayed set and the dead list are not the successor's
      exact .of_untouched (.counters _ _ _)
    | zaddDelayed jobId score =>
      cases he
      exact .of_untouched .zadd
    | lpushDead jobId =>
      cases he
      exact .of_untouched (.lpush nofun)
    | complete => exact absurd hlate hsettles
    | writeDelayed => exact absurd hlate hsettles
    | writeDead => exact absurd hlate hsettles
    | cleanup => exact absurd hlate hsettles
    | running => cases he
    | crashed => cases he
    | _ => cases hlate
  | settle => exact .of_untouched .refl
  | renew => exact .setHeartbeat
  | _ => cases hlate

/-- A settlement or a clean-up always hits a dispatch that is in order. -/
theorem settlement_disturbs (hs : step env s a = some s') (hsettles : s.settles a = some id)
    (hstatus : (s.store.jobs id).status = some JobStatus.active.name)
    (hkey : id ∈ (s.store.activeJobs env.queueName).keys) :
    ¬ s.store.Intact env.queueName id s'.store := by
  intro hintact
  cases stepped hs with
  | @work w draw wk e hw he =>
    obtain ⟨handlers, pc⟩ := wk
    simp only [Config.settles, hw, Option.bind_some] at hsettles
    cases pc with
    | complete jobId elapsed =>
      cases hsettles
      cases he
      -- the status is no longer `active`
      have hsame := hintact.status
      rw [hstatus] at hsame
      simp [JobHash.patch] at hsame
    | writeDelayed jobId nextAttempt delay =>
      cases hsettles
      cases he
      have hsame := hintact.status
      rw [hstatus] at hsame
      simp [JobHash.patch] at hsame
    | writeDead jobId nextAttempt =>
      cases hsettles
      cases he
      have hsame := hintact.status
      rw [hstatus] at hsame
      simp [JobHash.patch] at hsame
    | cleanup jobId =>
      cases hsettles
      cases he
      -- and the clean-up removes the registration
      have hkept := hintact.registration hkey
      simp at hkept
    | _ => cases hsettles
  | _ => cases hsettles

end Steps

/-! ## Runs -/

section Runs

variable {env : Env T} {s t : Config T} {v : Nat} {wk : Worker T} {id : JobId}

/-- A worker that does not move stays where it is, and among the others. -/
theorem stays_step {s s' : Config T} {a : Action T} (hs : step env s a = some s')
    (hmove : a.worker? ≠ some v) (hv : s.workers[v]? = some wk) :
    s'.workers[v]? = some wk ∧ wk ∈ s.otherWorkers a := by
  have hother : ∀ w, w ≠ v → wk ∈ s.workers.eraseIdx w := fun w hne =>
    List.mem_eraseIdx_iff_getElem?.mpr ⟨v, Ne.symm hne, hv⟩
  have hset : ∀ w wk', w ≠ v → (s.workers.set w wk')[v]? = some wk := fun w wk' hne => by
    rw [List.getElem?_set_ne hne, hv]
  have hmem := List.mem_of_getElem? hv
  cases stepped hs with
  | @work w =>
    have hne : w ≠ v := fun h => hmove (congrArg some h)
    exact ⟨hset w _ hne, hother w hne⟩
  | @settle w =>
    have hne : w ≠ v := fun h => hmove (congrArg some h)
    exact ⟨hset w _ hne, hother w hne⟩
  | @process w =>
    have hne : w ≠ v := fun h => hmove (congrArg some h)
    exact ⟨hset w _ hne, hother w hne⟩
  | @crashWorker w =>
    have hne : w ≠ v := fun h => hmove (congrArg some h)
    exact ⟨hset w _ hne, hother w hne⟩
  | _ => exact ⟨hv, hmem⟩

/-- **A late worker does not disturb its successor** when it comes to settle and
clean up only after the successor. Worker `v` holds `id` in the state `s`, which
may be any; on the way to `t` it does not move, and what is done about `id` is done
by workers that have called their handlers. -/
theorem late_worker_harmless (hv : s.workers[v]? = some wk) (hid : wk.pc.jobId? = some id)
    (h : Reach (step env) (fun s a => SettlesAlone s a ∧ Apart env v id s a) s t) :
    s.store.Intact env.queueName id t.store := by
  refine (h.invariant (I := fun t => t.workers[v]? = some wk ∧
    s.store.Intact env.queueName id t.store) ⟨hv, .of_untouched .refl⟩ ?_).2
  intro u a u' ⟨hu, hintact⟩ ⟨halone, hmove, hlate⟩ hs
  obtain ⟨hstays, hother⟩ := stays_step hs hmove hu
  refine ⟨hstays, hintact.trans ?_⟩
  by_cases htouches : u.touches env a = some id
  · exact late_step hs (hlate htouches) fun hsettles => halone id hsettles wk hother hid
  · exact .of_untouched (untouched_step htouches hs)

end Runs

/-- A worker starts its handler and is not heard of until its job has been
requeued and taken by a second worker, which starts its handler too. -/
def overtaken : List (Action Unit) :=
  [.enqueue 0 "a" (.core "mail" () .absent none), .produce 0, .produce 0,
    .work 0 0, .work 0 0, .work 0 0, .work 0 0, .work 0 0, .work 0 0, .tick 15001,
    .watch 0, .watch 0, .watch 0, .watch 0, .watch 0,
    .work 1 0, .work 1 0, .work 1 0, .work 1 0, .work 1 0, .work 1 0]

/-- The late worker's handler rejects while the successor is running. -/
theorem late_worker_harmless_rejected :
    ∃ s t : Config Unit, held s.workers "a" .running = 2 ∧ .rejected "a" ∈ t.log ∧
      s.store.Intact "main_queue" "a" t.store := by
  obtain ⟨s, -, htwo, hholds, hrun⟩ :=
    exists_reach_of_run (step mainQueue) (fun _ _ => True)
      (init ⟨1, [["mail"], ["mail"]], 0, 1, 0⟩)
      (fun s : Config Unit => held s.workers "a" .running = 2 ∧
        (s.workers[1]?).any (fun wk : Worker Unit => decide (wk.pc.jobId? = some "a")) = true ∧
        (runGuarded (step mainQueue) (fun s a => SettlesAlone s a ∧ Apart mainQueue 1 "a" s a) s
          [.settle 0 .reject, .work 0 0]).any (fun t => decide (.rejected "a" ∈ t.log)) = true)
      overtaken (by decide +kernel)
  obtain ⟨wk, hwk, hid⟩ := (Option.any_eq_true _ _).mp hholds
  obtain ⟨t, ht, hrejected⟩ := exists_reach_of_run _ _ _ _ _ hrun
  exact ⟨s, t, htwo, hrejected, late_worker_harmless hwk (of_decide_eq_true hid) ht⟩

/-- **A late worker undoes its successor's dispatch.** Its success transaction
overwrites the status, and its clean-up removes the entry, the registration and
the heartbeat of the worker that is running the job. -/
theorem late_cleanup_hits_the_successor :
    ¬ ∀ s t : Config Unit, ∀ v wk id,
      Reach (step mainQueue) (fun _ a => a.workerDeath = none)
          (init ⟨1, [["mail"], ["mail"]], 0, 1, 0⟩) s →
        .requeued id ∈ s.log → s.workers[v]? = some wk → wk.pc.jobId? = some id →
          Reach (step mainQueue) (Apart mainQueue v id) s t →
            id ∈ t.store.lists (.processingList "main_queue") ∨
              id ∈ (t.store.activeJobs "main_queue").keys ∨ t.store.heartbeats id ≠ none ∨
              (t.store.jobs id).status = (s.store.jobs id).status := by
  intro h
  obtain ⟨s, hs, hrequeued, hstatus, hholds, hrun⟩ :=
    exists_reach_of_run (step mainQueue) (fun _ a => a.workerDeath = none)
      (init ⟨1, [["mail"], ["mail"]], 0, 1, 0⟩)
      (fun s : Config Unit => .requeued "a" ∈ s.log ∧
        (s.store.jobs "a").status = some JobStatus.active.name ∧
        (s.workers[1]?).any (fun wk : Worker Unit => decide (wk.pc.jobId? = some "a")) = true ∧
        (runGuarded (step mainQueue) (Apart mainQueue 1 "a") s
          [.settle 0 .resolve, .work 0 0, .work 0 0]).any (fun t =>
            decide ("a" ∉ t.store.lists (.processingList "main_queue") ∧
              "a" ∉ (t.store.activeJobs "main_queue").keys ∧ t.store.heartbeats "a" = none ∧
              (t.store.jobs "a").status = some JobStatus.completed.name)) = true)
      overtaken (by decide +kernel)
  obtain ⟨wk, hwk, hid⟩ := (Option.any_eq_true _ _).mp hholds
  obtain ⟨t, ht, hprocessing, hactive, hheartbeat, hcompleted⟩ := exists_reach_of_run _ _ _ _ _ hrun
  -- everything the four disjuncts could keep is gone
  rcases h s t 1 wk "a" hs hrequeued hwk (of_decide_eq_true hid) ht with hl | hk | hb | hsame
  · exact hprocessing hl
  · exact hactive hk
  · exact hb hheartbeat
  · rw [hcompleted, hstatus] at hsame
    exact absurd hsame (by decide)

end DistriSys
