import DistriSys.Protocol.Integrity

/-!
# Strict priority

A worker looks at the three waiting lists one after the other, so what it knows
about the higher ones is as old as its scan. `strict_priority`: as long as
nobody pushes on a list some worker has just found empty, a job is taken from a
list only while all higher lists are empty. `overtaken_in_mid_scan` is the run
without that proviso: a high-priority job arrives between two probes of one
scan, and a normal one is taken over its head.

`WorkerPc.probed` is what the worker believes to be empty. A step of anybody else leaves it so
unless it pushes there (`waiting_subset_step`), and that is what `ScansUndisturbed` excludes;
pushes on other lists, and on any list between two scans, are allowed.

The condition is about all workers that are scanning, and the conclusion about all workers that
are about to take a job; it holds in every state of such a run, whatever crashes.
-/

namespace DistriSys

open Js Redis Transition

variable {T : Type}

/-! ## Scans -/

/-- The priorities above this one. -/
def JobPriority.above (p : JobPriority) : List JobPriority := priorities.takeWhile (· ≠ p)

/-- The priority of the list a worker is about to pop. -/
def WorkerPc.polling : WorkerPc T → Option JobPriority
  | poll p => some p
  | _ => none

/-- The priorities whose lists a worker has found empty in the scan it is in. -/
def WorkerPc.probed : WorkerPc T → List JobPriority
  | poll p => p.above
  | _ => []

/-- A scan goes on with one more list, or starts over. -/
theorem JobPriority.above_next {p q : JobPriority} (h : q ∈ p.next.above) : q ∈ p.above ∨ q = p := by
  cases p <;> cases q <;> simp_all [above, next, priorities, List.takeWhile]

/-! ## Pushes -/

/-- The priority of the waiting list the step pushes on. -/
def Config.waitingPush (s : Config T) : Action T → Option String
  | .produce i =>
    match s.producers[i]? with
    | some (.claim _ job key) =>
      if (Volatile.get? s.clock (s.store.idempotency key)).isNone then some job.priority else none
    | some (.push _ job) => some job.priority
    | _ => none
  | .schedule i =>
    match s.schedulers[i]? with
    | some (.move _ priority _) => some priority
    | _ => none
  | .watch i =>
    match s.watchdogs[i]? with
    | some (.requeue _ jobHash _) =>
      if jobHash.isEmpty then none else some (orNormal jobHash.priority)
    | _ => none
  | .respond i =>
    match s.retries[i]? with
    | some (.requeue _ priority) => some priority
    | _ => none
  | _ => none

section Steps

variable {env : Env T} {s s' : Config T} {a : Action T} {key : ListKey} {st st' : Store}

theorem Store.lists_lpush_subset {key' : ListKey} {id : JobId} (h : key' ≠ key) :
    (st.lpush key' id).lists key ⊆ st.lists key := by
  simp [lpush, Ne.symm h]

theorem Store.lists_lrem_subset {key' : ListKey} {n : Nat} {id : JobId} :
    (st.lrem key' n id).lists key ⊆ st.lists key := by
  intro j hj
  by_cases h : key = key'
  · subst h
    exact mem_of_mem_lrem (by simpa [Store.lrem] using hj)
  · simpa [Store.lrem, h] using hj

theorem Store.lists_rpoplpush_subset {source destination : ListKey} {id : JobId}
    (h : st.rpoplpush source destination = some (id, st')) (hkey : destination ≠ key) :
    st'.lists key ⊆ st.lists key := by
  obtain ⟨rest, hpop, rfl⟩ := rpoplpush_eq_some h
  refine List.Subset.trans (lists_lpush_subset hkey) fun j hj => ?_
  by_cases hsource : key = source
  · subst hsource
    rw [rpop_eq_some.mp hpop]
    exact List.mem_append_left _ (by simpa using hj)
  · simpa [hsource] using hj

/-- A worker pushes on the processing list when it takes a job, and on the dead
list when it buries one. -/
theorem workerStep_lists_subset {now w draw : Nat} {handlers : List String} {pc : WorkerPc T}
    {e : Effect (WorkerPc T)} (he : workerStep env now w draw handlers st pc = some e)
    (hprocessing : ∀ p, pc = .poll p → key ≠ .processingList env.queueName)
    (hdead : ∀ id, pc = .lpushDead id → key ≠ .deadList env.queueName) :
    e.store.lists key ⊆ st.lists key := by
  cases pc with
  | poll p =>
    simp only [workerStep] at he
    split at he
    · next jobId st' hpop =>
      cases he
      -- the pop moves from one list to another
      exact Store.lists_rpoplpush_subset hpop (hprocessing p rfl).symm
    · cases he
      exact List.Subset.refl _
  | fetch jobId =>
    simp only [workerStep] at he
    split at he
    · cases he
      exact List.Subset.refl _
    · split at he <;> cases he <;> exact List.Subset.refl _
  | lpushDead jobId =>
    cases he
    exact Store.lists_lpush_subset (hdead jobId rfl).symm
  | cleanup jobId =>
    cases he
    exact Store.lists_lrem_subset
  | running => cases he
  | crashed => cases he
  | _ =>
    cases he
    exact List.Subset.refl _

/-- A waiting list nobody pushes on gains nothing. -/
theorem waiting_subset_step (hs : step env s a = some s') {priority : String}
    (hpush : s.waitingPush a ≠ some priority) :
    s'.store.lists (.waitingList env.queueName priority) ⊆
      s.store.lists (.waitingList env.queueName priority) := by
  have hne : ∀ priority', priority' ≠ priority →
      ListKey.waitingList env.queueName priority' ≠ .waitingList env.queueName priority :=
    fun _ h h' => h (ListKey.waitingList.inj h').2
  cases stepped hs with
  | @produce i pc e hi he =>
    cases pc with
    | idle => cases he
    | save =>
      cases he
      exact List.Subset.refl _
    | claim id job key =>
      rw [store_of_claim he, Store.idempotentEnqueue]
      split
      -- the script pushes when the key is free
      · next hslot =>
        exact Store.lists_lpush_subset
          (hne _ fun h => hpush (by simp [Config.waitingPush, hi, hslot, h]))
      · exact List.Subset.refl _
    | push id job =>
      cases he
      exact Store.lists_lpush_subset (hne _ fun h => hpush (by simp [Config.waitingPush, hi, h]))
    | discard =>
      cases he
      exact List.Subset.refl _
  | work hw he => exact workerStep_lists_subset he (by rintro _ _ ⟨⟩) (by rintro _ _ ⟨⟩)
  | @schedule i pc hi =>
    cases pc with
    | move jobId priority' rest =>
      exact Store.lists_lpush_subset (hne _ fun h => hpush (by simp [Config.waitingPush, hi, h]))
    | _ => exact List.Subset.refl _
  | @watch i pc hi =>
    cases pc with
    | requeue jobId jobHash rest =>
      simp only [watchdogStep, requeueTransaction]
      split
      · exact Store.lists_lrem_subset
      -- a stalled job with a record is pushed back
      · next hd =>
        refine List.Subset.trans (Store.lists_lpush_subset (hne _ fun h => hpush ?_)) ?_
        · simp [Config.waitingPush, hi, hd, h]
        · rw [Store.hmset_lists]
          exact Store.lists_lrem_subset
    | _ => exact List.Subset.refl _
  | @respond i pc e hi he =>
    cases pc with
    | idle => cases he
    | requeue id priority' =>
      cases he
      refine List.Subset.trans (Store.lists_lpush_subset (hne _ fun h => hpush ?_)) ?_
      · simp [Config.waitingPush, hi, h]
      · rw [Store.hmset_lists]
        exact Store.lists_lrem_subset
  | _ => exact List.Subset.refl _

end Steps

/-! ## Runs -/

/-- A step pushes on no list that some worker has found empty in its scan. -/
def ScansUndisturbed (s : Config T) (a : Action T) : Prop :=
  ∀ priority ∈ s.waitingPush a, ∀ wk ∈ s.workers, ∀ p ∈ wk.pc.probed, p.name ≠ priority

instance (s : Config T) (a : Action T) : Decidable (ScansUndisturbed s a) := by
  unfold ScansUndisturbed
  infer_instance

/-- Worker `w` is about to take a job from the list of priority `p`. -/
def Config.Takes (env : Env T) (s : Config T) (w : Nat) (p : JobPriority) : Prop :=
  s.workers[w]?.bind (·.pc.polling) = some p ∧
    s.store.lists (.waitingList env.queueName p.name) ≠ []

instance (env : Env T) (s : Config T) (w : Nat) (p : JobPriority) : Decidable (s.Takes env w p) :=
  inferInstanceAs (Decidable (_ ∧ _))

/-- Jobs are taken in the order of their priorities. -/
def StrictPriority (env : Env T) (s : Config T) : Prop :=
  ∀ w p, s.Takes env w p → ∀ q ∈ p.above, s.store.lists (.waitingList env.queueName q.name) = []

section Runs

variable {env : Env T} {topology : Topology} {s s' : Config T} {a : Action T}

/-- What scanning workers have found empty still is. -/
def Scanned (env : Env T) (s : Config T) : Prop :=
  ∀ wk ∈ s.workers, ∀ p ∈ wk.pc.probed, s.store.lists (.waitingList env.queueName p.name) = []

theorem scanned_init (env : Env T) (topology : Topology) : Scanned env (init topology) :=
  fun _ _ _ _ => rfl

/-- A worker goes on to the next list because it found this one empty. -/
theorem probed_workerStep {now w draw : Nat} {handlers : List String} {st : Store} {pc : WorkerPc T}
    {e : Effect (WorkerPc T)} (he : workerStep env now w draw handlers st pc = some e)
    {q : JobPriority} (hq : q ∈ e.pc.probed) :
    q ∈ pc.probed ∨ st.lists (.waitingList env.queueName q.name) = [] := by
  cases pc with
  | poll p =>
    simp only [workerStep] at he
    split at he
    · cases he
      cases hq
    · next hpop =>
      cases he
      rcases JobPriority.above_next hq with hq | rfl
      · exact .inl hq
      -- the list it has just found empty
      · exact .inr (Store.lists_eq_nil_of_rpoplpush hpop)
  | fetch jobId =>
    simp only [workerStep] at he
    split at he
    · cases he
      cases hq
    · split at he <;> cases he <;> cases hq
  | markActive jobId job =>
    cases he
    dsimp only at hq
    split at hq <;> cases hq
  | countFailure jobId job =>
    cases he
    dsimp only [retryOrBury] at hq
    split at hq <;> cases hq
  | running => cases he
  | crashed => cases he
  | _ =>
    cases he
    cases hq

theorem probed_settleStep {now : Nat} {outcome : HandlerOutcome} {pc pc' : WorkerPc T}
    {events : List Event} (he : settleStep now outcome pc = some (pc', events)) :
    pc'.probed = [] := by
  cases pc with
  | running => cases outcome <;> cases he <;> rfl
  | _ => cases he

/-- Only a worker's own probe adds to what it has found empty. -/
theorem scanned_step (h : Scanned env s) (hok : ScansUndisturbed s a)
    (hs : step env s a = some s') : Scanned env s' := by
  intro wk' hwk' p hp
  have hempty : s.store.lists (.waitingList env.queueName p.name) = [] ∧
      s.waitingPush a ≠ some p.name := by
    have hkept : ∀ wk ∈ s.workers, p ∈ wk.pc.probed →
        s.store.lists (.waitingList env.queueName p.name) = [] ∧
          s.waitingPush a ≠ some p.name :=
      fun wk hwk hp => ⟨h wk hwk p hp, fun hpush => hok _ hpush wk hwk p hp rfl⟩
    rcases workerMoved_of_mem hs hwk' with hother | hdied | ⟨-, hw, hpc⟩ | ⟨rfl, hw, he, hpc⟩ |
      ⟨-, hw, he, hpc⟩
    · exact hkept wk' (Config.mem_workers_of_mem_others hother) hp
    · rw [hdied] at hp
      cases hp
    · exact hkept _ (List.mem_of_getElem? hw) (hpc ▸ hp)
    · rcases probed_workerStep he (hpc ▸ hp) with hp | hnil
      · exact hkept _ (List.mem_of_getElem? hw) hp
      · -- a probe pushes on no waiting list
        exact ⟨hnil, by rintro ⟨⟩⟩
    · rw [hpc, probed_settleStep he] at hp
      cases hp
  refine List.eq_nil_of_subset_nil ?_
  rw [← hempty.1]
  exact waiting_subset_step hs hempty.2

theorem scanned_run (h : Reach (step env) ScansUndisturbed (init topology) s) : Scanned env s :=
  h.invariant (scanned_init env topology) fun _ _ _ hS hok hs => scanned_step hS hok hs

/-- **Strict priority.** In every run in which no push hits a list that a worker
has found empty in the scan it is in, a job is taken from a waiting list only
when the lists of all higher priorities are empty. -/
theorem strict_priority (h : Reach (step env) ScansUndisturbed (init topology) s) :
    StrictPriority env s := by
  rintro w p ⟨hpoll, -⟩ q hq
  obtain ⟨wk, hw, hpoll⟩ := Option.bind_eq_some_iff.mp hpoll
  have hprobed : wk.pc.probed = p.above := by
    cases hpc : wk.pc <;> rw [hpc] at hpoll <;> cases hpoll
    rfl
  exact scanned_run h wk (List.mem_of_getElem? hw) q (hprobed ▸ hq)

end Runs

/-- A normal job is about to be taken, and no high one waits. -/
theorem strict_priority_normal :
    ∃ s : Config Unit, s.Takes mainQueue 0 .normal ∧ StrictPriority mainQueue s := by
  obtain ⟨s, hs, htakes⟩ :=
    exists_reach_of_run (step mainQueue) ScansUndisturbed (init ⟨1, [["mail"]], 0, 0, 0⟩)
      (fun s : Config Unit => s.Takes mainQueue 0 .normal)
      [.enqueue 0 "a" (.core "mail" () .absent none), .produce 0, .produce 0, .work 0 0]
      (by decide +kernel)
  exact ⟨s, htakes, strict_priority hs⟩

/-- **A job is overtaken in mid-scan.** The worker finds the list `high` empty; a
job is pushed on it; the worker goes on and takes the waiting normal job. -/
theorem overtaken_in_mid_scan :
    ¬ ∀ s : Config Unit, Reach (step mainQueue) (fun _ _ => True)
        (init ⟨1, [["mail"]], 0, 0, 0⟩) s → StrictPriority mainQueue s := by
  intro h
  obtain ⟨s, hs, htakes, hhigh⟩ :=
    exists_reach_of_run (step mainQueue) (fun _ _ => True) (init ⟨1, [["mail"]], 0, 0, 0⟩)
      (fun s : Config Unit => s.Takes mainQueue 0 .normal ∧
        s.store.lists (.waitingList "main_queue" JobPriority.high.name) = ["b"])
      [.enqueue 0 "a" (.core "mail" () .absent none), .produce 0, .produce 0, .work 0 0,
        .enqueue 0 "b" (.core "mail" () (.priority .high) none), .produce 0, .produce 0]
      (by decide +kernel)
  have hempty := h s hs 0 .normal htakes .high (by decide)
  exact absurd (hhigh.symm.trans hempty) (by simp)

end DistriSys
