import DistriSys.Protocol.Release

/-!
# One dispatch at a time

While no worker dies, a job has one *open* copy: it is announced, or lies on one
list or in the delayed set, or is in the hands of one worker that has not filed
it yet, or has resolved (`Ledger.Single`). Entries of workers that have already
filed the job do not count; they may coexist with the next dispatch.

The invariant stands or falls with what the watchdog requeues: an entry that a
worker has left behind (it could not run the job) is fine, anything else makes a
second copy. Hence **`exclusive_execution`** under `Orderly`, and the run
`requeue_of_a_fresh_dispatch` in which the watchdog looks at the heartbeat of a
job between its `RPOPLPUSH` and its first `SET`, and two handlers run.
-/

namespace DistriSys

open Js Redis Transition

variable {T : Type}

/-! ## The invariant of the life cycle -/

/-- The copies of a job that somebody may still take up. -/
def Ledger.openCopies (L : Ledger) : Nat :=
  L.announced + L.waiting + L.delayed + L.dead + (L.processing - L.completing - L.closing)

/-- A job has one copy that may still be taken up, or has been resolved. Every live worker that
holds it accounts for an entry on the processing list. -/
structure Ledger.Single (L : Ledger) : Prop where
  published : L.Published
  covered : L.holders ≤ L.processing
  single : L.openCopies + L.resolved ≤ 1
  settled : L.completing + L.completed = L.resolved

/-- The moves of a run in which workers live and every transaction finds its job
where it expects it. -/
def Ledger.Orderly (L : Ledger) : Move → Prop
  | .die _ => False
  | .release => 1 ≤ L.delayed
  | .requeue _ => L.holders = 0 ∧ 1 ≤ L.processing
  | .retry => 1 ≤ L.dead
  | _ => True

theorem single_init : Ledger.Single {} where
  published := published_init
  covered := Nat.le_refl 0
  single := Nat.zero_le 1
  settled := rfl

theorem single_step {L L' : Ledger} {m : Move} (h : L.Single) (hm : L.Orderly m)
    (hs : L.Steps m L') : L'.Single := by
  have hpublished := published_step h.published hs
  obtain ⟨hen, rfl⟩ := hs
  obtain ⟨⟨honce, hcalled, hnowhere⟩, hcovered, hsingle, hsettled⟩ := h
  simp only [Ledger.holders] at hnowhere
  refine ⟨hpublished, ?_, ?_, ?_⟩
  -- every holder keeps a copy on the processing list: a requeue finds no holder
  · cases m with
    | die phase => exact hm.elim
    | _ =>
      simp only [Ledger.enabled, Ledger.Orderly, Ledger.apply, Ledger.holders] at hen hm hcovered ⊢
      omega
  -- each transaction takes the copy it replaces
  · cases m with
    | die phase => exact hm.elim
    | _ =>
      simp only [Ledger.enabled, Ledger.Orderly, Ledger.apply, Ledger.holders, Ledger.openCopies]
        at hen hm hcovered hsingle ⊢
      omega
  · cases m with
    | die phase => exact hm.elim
    | _ =>
      simp only [Ledger.enabled, Ledger.apply] at hen ⊢
      omega

/-- What a dispatch that has not filed its job yet leaves for everybody else: nothing. -/
theorem Ledger.Single.alone {L : Ledger} (h : L.Single)
    (hopen : 1 ≤ L.loading + L.running + L.failing + L.delaying + L.burying) :
    L.loading + L.running + L.failing + L.delaying + L.burying = 1 ∧ L.announced = 0 ∧
      L.waiting = 0 ∧ L.delayed = 0 ∧ L.dead = 0 ∧ L.resolved = 0 := by
  obtain ⟨-, hcovered, hsingle, -⟩ := h
  simp only [Ledger.holders, Ledger.openCopies] at hcovered hsingle
  omega

/-! ## Runs -/

/-- No worker dies; a watchdog transaction finds an entry of its job on the
processing list that no worker holds; a retry transaction finds its job on the
dead list. -/
def Orderly (env : Env T) (s : Config T) (a : Action T) : Prop :=
  a.workerDeath = none ∧
    (∀ id ∈ s.watchdogTransaction a,
      s.holders id = 0 ∧ id ∈ s.store.lists (.processingList env.queueName)) ∧
    ∀ id ∈ s.retryTransaction a, id ∈ s.store.lists (.deadList env.queueName)

instance (env : Env T) (s : Config T) (a : Action T) : Decidable (Orderly env s a) :=
  inferInstanceAs (Decidable (_ ∧ _ ∧ _))

section Runs

variable {env : Env T} {topology : Topology} {s : Config T}

/-- With a single scheduler, an orderly step is an orderly move of every job. -/
theorem orderly_licensed {ok : Config T → Action T → Prop} {a : Action T} {id : JobId} {m : Move}
    (hsole : topology.schedulers ≤ 1) (h : Reach (step env) ok (init topology) s)
    (hok : Orderly env s a) (hm : Licensed env s a id m) : (ledger env s id).Orderly m := by
  cases m with
  | die phase => exact hm.workerDeath hok.1
  | release =>
    obtain ⟨pc, hpc, hid⟩ := pending_of_schedulerTransaction hm.schedulerTransaction
    exact List.count_pos_iff.mpr ((sole_pass_pending hsole h).tracked pc hpc id hid)
  | requeue attempts =>
    obtain ⟨hholders, hentry⟩ := hok.2.1 id hm.watchdogTransaction
    exact ⟨ledger_holders env s id ▸ hholders, List.count_pos_iff.mpr hentry⟩
  | retry => exact List.count_pos_iff.mpr (hok.2.2 id hm.retryTransaction)
  | _ => trivial

theorem single_run {ok : Config T → Action T → Prop} (hsole : topology.schedulers ≤ 1)
    (hok : ∀ s a, ok s a → Orderly env s a) (h : Reach (step env) ok (init topology) s)
    (id : JobId) : (ledger env s id).Single :=
  ledger_run h id Ledger.Orderly Ledger.Single
    (fun s a _ hr ha hm => orderly_licensed hsole hr (hok s a ha) hm)
    single_init fun _ _ _ hL hm hs => single_step hL hm hs

/-- **Exclusive execution.** In every run with one scheduler in which no worker
dies and the watchdog requeues only entries that no worker holds any more, no
job has two handler calls under way. -/
theorem exclusive_execution (h : Reach (step env) (Orderly env) (init topology) s)
    (hsole : topology.schedulers ≤ 1) (id : JobId) :
    held s.workers id .running ≤ 1 := by
  have hL := single_run hsole (fun _ _ h => h) h id
  show (ledger env s id).running ≤ 1
  by_cases hrunning : (ledger env s id).running = 0
  · omega
  · have := (hL.alone (by omega)).1
    omega

end Runs

/-- A worker without a handler leaves its entry behind; the job is requeued and
another worker runs it, alone. -/
theorem exclusive_execution_abandoned :
    ∃ s : Config Unit, .requeued "a" ∈ s.log ∧ held s.workers "a" .running = 1 ∧
      held s.workers "a" .running ≤ 1 := by
  obtain ⟨s, hs, hrequeued, hone⟩ :=
    exists_reach_of_run (step mainQueue) (Orderly mainQueue)
      (init ⟨1, [[], ["mail"]], 1, 1, 0⟩)
      (fun s => .requeued "a" ∈ s.log ∧ held s.workers "a" .running = 1)
      [.enqueue 0 "a" (.core "mail" () .absent none), .produce 0, .produce 0,
        .work 0 0, .work 0 0, .work 0 0, .work 0 0, .work 0 0,
        .watch 0, .watch 0, .watch 0, .watch 0, .watch 0,
        .work 1 0, .work 1 0, .work 1 0, .work 1 0, .work 1 0, .work 1 0]
      (by decide +kernel)
  exact ⟨s, hrequeued, hone, exclusive_execution hs (Nat.le_refl 1) "a"⟩

/-! ## The heartbeat does not make it so -/

/-- The job whose heartbeat key a `processJob` call has set and not deleted yet. -/
def WorkerPc.beating : WorkerPc T → Option JobId
  | cleanup jobId => some jobId
  | pc => pc.renews

/-- No worker dies, and time does not outrun a heartbeat that is still needed. -/
def HeartbeatsKept (s : Config T) (a : Action T) : Prop :=
  a.workerDeath = none ∧
    match a with
    | .tick ms => ∀ wk ∈ s.workers, ∀ id ∈ wk.pc.beating, s.store.alive (s.clock + ms) id = true
    | _ => True

instance (s : Config T) (a : Action T) : Decidable (HeartbeatsKept s a) := by
  cases a <;> exact inferInstanceAs (Decidable (_ ∧ _))

/-- **The watchdog requeues a dispatch that has just begun**: it finds the id on
the processing list, and no heartbeat, before the worker has set one. The job is
taken a second time, and both handlers run. -/
theorem requeue_of_a_fresh_dispatch :
    ¬ ∀ s : Config Unit, Reach (step mainQueue) HeartbeatsKept
        (init ⟨1, [["mail"], ["mail"]], 1, 1, 0⟩) s →
      ∀ id, held s.workers id .running ≤ 1 := by
  intro h
  obtain ⟨s, hs, htwo⟩ :=
    exists_reach_of_run (step mainQueue) HeartbeatsKept
      (init ⟨1, [["mail"], ["mail"]], 1, 1, 0⟩)
      (fun s => held s.workers "a" .running = 2)
      [.enqueue 0 "a" (.core "mail" () .absent none), .produce 0, .produce 0,
        .work 0 0, .work 0 0,
        .watch 0, .watch 0, .watch 0, .watch 0, .watch 0,
        .work 0 0, .work 0 0, .work 0 0, .work 0 0,
        .work 1 0, .work 1 0, .work 1 0, .work 1 0, .work 1 0, .work 1 0]
      (by decide +kernel)
  have := h s hs "a"
  omega

end DistriSys
