import DistriSys.Core.Operations
import DistriSys.Core.System
import DistriSys.Protocol.Faults
import DistriSys.Transition.Reach

/-!
# Whole operations are runs

Each operation of `Core.Operations` is what the system does when one component
runs its commands to the end and everybody else stands still: **`enqueue_reach`**,
**`workerLoop_reach`**, **`processDelayedJobs_reach`**, **`checkStalledJobs_reach`**,
**`retryJob_reach`**. So a sequence of whole operations is one of the runs
of the system, and the two accounts of the code agree.

Each proof runs the component command by command from its idle state (`schedulerStep_reach`,
`workerStep_reach`, …) and shows, by induction on what is still to be done, that the store it
ends with is the operation's. The clock stands still, except in a worker's call, where time
passes between the commands as the circumstances say (`Circumstances.Timely`).
-/

namespace DistriSys

open Js Redis Transition

variable {T : Type} {env : Env T} {s : Config T} {i w : Nat}

theorem set_self_of_getElem? {α : Type} {l : List α} {i : Nat} {a : α} (h : l[i]? = some a) :
    l.set i a = l := by
  obtain ⟨hi, rfl⟩ := List.getElem?_eq_some_iff.mp h
  exact List.set_getElem_self hi

/-! ## Passes -/

section Watchdog

/-- `s` with another store and log, and watchdog pass `i` at `pc`. -/
def Config.atWatchdog (s : Config T) (i : Nat) (pc : WatchdogPc) (st : Store) (log : List Event) :
    Config T :=
  { s with store := st, log := log, watchdogs := s.watchdogs.set i pc }

theorem watchdogStep_reach (env : Env T) (hi : i < s.watchdogs.length) (pc : WatchdogPc)
    (st : Store) (log : List Event) :
    ∃ log', Reach (step env) (fun _ a => a = .watch i) (s.atWatchdog i pc st log)
      (s.atWatchdog i (watchdogStep env s.clock st pc).pc (watchdogStep env s.clock st pc).store
        log') :=
  ⟨log ++ (watchdogStep env s.clock st pc).events,
    Reach.refl.tail rfl (by simp [step, Config.atWatchdog, hi])⟩

/-- The loop of a watchdog pass over the ids it found stalled. -/
theorem requeue_loop_reach (env : Env T) (hi : i < s.watchdogs.length) (ids : List JobId)
    (st : Store) (log : List Event) :
    ∃ log', Reach (step env) (fun _ a => a = .watch i) (s.atWatchdog i (.next ids) st log)
      (s.atWatchdog i .idle
        (ids.foldl (fun st id => requeueTransaction env st id (st.jobs id)) st) log') := by
  induction ids generalizing st log with
  | nil => exact ⟨log, .refl⟩
  | cons id ids ih =>
    obtain ⟨log₁, hinspect⟩ := watchdogStep_reach env hi (.inspect id ids) st log
    obtain ⟨log₂, hrequeue⟩ := watchdogStep_reach env hi (.requeue id (st.jobs id) ids) st log₁
    obtain ⟨log₃, hrest⟩ := ih (requeueTransaction env st id (st.jobs id)) log₂
    exact ⟨log₃, (hinspect.trans hrequeue).trans hrest⟩

/-- A watchdog pass that nobody disturbs. -/
theorem checkStalledJobs_reach (h : s.watchdogs[i]? = some .idle) :
    ∃ log', Reach (step env) (fun _ a => a = .watch i) s
      { s with store := checkStalledJobs env s.clock s.store, log := log' } := by
  have hi : i < s.watchdogs.length := (List.getElem?_eq_some_iff.mp h).1
  have hidle : ∀ st log, s.atWatchdog i .idle st log = { s with store := st, log := log } := by
    intro st log
    simp only [Config.atWatchdog, set_self_of_getElem? h]
  obtain ⟨log₁, hkeys⟩ := watchdogStep_reach env hi .idle s.store s.log
  obtain ⟨log₂, hlist⟩ := watchdogStep_reach env hi
    (.readProcessing (s.store.activeJobs env.queueName).keys) s.store log₁
  rw [hidle] at hkeys
  simp only [watchdogStep] at hlist
  split at hlist
  · next hnone =>
    -- nothing is on the processing list or in the active-jobs hash
    have hstalled : stalledIds env s.clock s.store = [] := by rw [stalledIds, hnone]; rfl
    rw [hidle] at hlist
    refine ⟨log₂, hkeys.trans ?_⟩
    rwa [checkStalledJobs, hstalled]
  · obtain ⟨log₃, hheartbeats⟩ := watchdogStep_reach env hi (.readHeartbeats _) s.store log₂
    obtain ⟨log₄, hloop⟩ := requeue_loop_reach env hi (stalledIds env s.clock s.store) s.store log₃
    rw [hidle] at hloop
    exact ⟨log₄, ((hkeys.trans hlist).trans hheartbeats).trans hloop⟩

end Watchdog

section Scheduler

/-- `s` with another store and log, and scheduler pass `i` at `pc`. -/
def Config.atScheduler (s : Config T) (i : Nat) (pc : SchedulerPc) (st : Store) (log : List Event) :
    Config T :=
  { s with store := st, log := log, schedulers := s.schedulers.set i pc }

theorem schedulerStep_reach (env : Env T) (hi : i < s.schedulers.length) (pc : SchedulerPc)
    (st : Store) (log : List Event) :
    ∃ log', Reach (step env) (fun _ a => a = .schedule i) (s.atScheduler i pc st log)
      (s.atScheduler i (schedulerStep env s.clock st pc).pc (schedulerStep env s.clock st pc).store
        log') :=
  ⟨log ++ (schedulerStep env s.clock st pc).events,
    Reach.refl.tail rfl (by simp [step, Config.atScheduler, hi])⟩

/-- The loop of a scheduler pass over the ids it found due. -/
theorem release_loop_reach (env : Env T) (hi : i < s.schedulers.length) (ids : List JobId)
    (st : Store) (log : List Event) :
    ∃ log', Reach (step env) (fun _ a => a = .schedule i) (s.atScheduler i (.next ids) st log)
      (s.atScheduler i .idle (ids.foldl
        (fun st id => releaseTransaction env st id (orNormal (st.jobs id).priority)) st) log') := by
  induction ids generalizing st log with
  | nil => exact ⟨log, .refl⟩
  | cons id ids ih =>
    obtain ⟨log₁, hlookup⟩ := schedulerStep_reach env hi (.lookup id ids) st log
    obtain ⟨log₂, hmove⟩ :=
      schedulerStep_reach env hi (.move id (orNormal (st.jobs id).priority) ids) st log₁
    obtain ⟨log₃, hrest⟩ := ih (releaseTransaction env st id (orNormal (st.jobs id).priority)) log₂
    exact ⟨log₃, (hlookup.trans hmove).trans hrest⟩

/-- A scheduler pass that nobody disturbs. -/
theorem processDelayedJobs_reach (h : s.schedulers[i]? = some .idle) :
    ∃ log', Reach (step env) (fun _ a => a = .schedule i) s
      { s with store := processDelayedJobs env s.clock s.store, log := log' } := by
  have hi : i < s.schedulers.length := (List.getElem?_eq_some_iff.mp h).1
  have hidle : ∀ st log, s.atScheduler i .idle st log = { s with store := st, log := log } := by
    intro st log
    simp only [Config.atScheduler, set_self_of_getElem? h]
  obtain ⟨log₁, hdue⟩ := schedulerStep_reach env hi .idle s.store s.log
  obtain ⟨log₂, hloop⟩ := release_loop_reach env hi
    ((s.store.delayed env.queueName).zrangebyscore s.clock) s.store log₁
  rw [hidle] at hdue hloop
  exact ⟨log₂, hdue.trans hloop⟩

end Scheduler

/-! ## Calls -/

section Producer

variable {id : JobId} {call : EnqueueCall T}

/-- `s` after call `call`, with another store and log, and producer `i` at `pc`. -/
def Config.atProducer (s : Config T) (i : Nat) (id : JobId) (call : EnqueueCall T)
    (pc : ProducerPc T) (st : Store) (log : List Event) : Config T :=
  { s with
    store := st, log := log, producers := s.producers.set i pc
    calls := s.calls ++ [⟨id, call, s.clock⟩] }

theorem producerStep_reach {pc pc' : ProducerPc T} {st st' : Store} {log events : List Event}
    (hi : i < s.producers.length)
    (he : producerStep env s.clock st pc = some { store := st', pc := pc', events := events }) :
    Reach (step env) (fun _ a => a = .enqueue i id call ∨ a = .produce i)
      (s.atProducer i id call pc st log) (s.atProducer i id call pc' st' (log ++ events)) :=
  Reach.refl.tail (.inr rfl) (by simp [step, Config.atProducer, hi, he])

/-- An `enqueue` call that nobody disturbs. -/
theorem enqueue_reach (h : s.producers[i]? = some .idle) (hid : id ∉ s.calls.map Call.id) :
    ∃ log', Reach (step env) (fun _ a => a = .enqueue i id call ∨ a = .produce i) s
      { s with
        store := (enqueue env s.clock id call s.store).2, log := log'
        calls := s.calls ++ [⟨id, call, s.clock⟩] } := by
  have hi : i < s.producers.length := (List.getElem?_eq_some_iff.mp h).1
  have hidle : ∀ st log, s.atProducer i id call .idle st log =
      { s with store := st, log := log, calls := s.calls ++ [⟨id, call, s.clock⟩] } := by
    intro st log
    simp only [Config.atProducer, set_self_of_getElem? h]
  have hcall : Reach (step env) (fun _ a => a = .enqueue i id call ∨ a = .produce i) s
      (s.atProducer i id call (.save id (call.job id s.clock) call.idempotencyKey) s.store s.log) :=
    Reach.refl.tail (.inl rfl) (by simp only [step, h, hid, if_false]; rfl)
  -- `saveJob` first, with a key or without
  have hsave := hcall.trans (producerStep_reach hi rfl)
  cases hkey : call.idempotencyKey with
  | none =>
    rw [hkey] at hsave
    have hpush := hsave.trans (producerStep_reach hi rfl)
    rw [hidle] at hpush
    rw [enqueue_unkeyed hkey]
    exact ⟨_, hpush⟩
  | some key =>
    rw [hkey] at hsave
    cases hslot : Volatile.get? s.clock (s.store.idempotency key) with
    | none =>
      have hclaim := hsave.trans (producerStep_reach hi (producerStep_claim_free hslot))
      rw [hidle, Store.idempotentEnqueue, Store.hmset_idempotency, hslot] at hclaim
      rw [enqueue_free hkey hslot]
      exact ⟨_, hclaim⟩
    | some holder =>
      -- the id that holds the key is another call's, unless `id` has been drawn twice
      by_cases hne : holder = id
      · subst hne
        have hclaimed : producerStep env s.clock
            (s.store.hmset holder (serializeJob env.json (call.job holder s.clock)))
            (.claim holder (call.job holder s.clock) key) = some
              { store := s.store.hmset holder (serializeJob env.json (call.job holder s.clock))
                pc := .idle, events := [.returnedJob holder] } := by
          simp [producerStep, Store.idempotentEnqueue, hslot]
        have hclaim := hsave.trans (producerStep_reach hi hclaimed)
        rw [hidle] at hclaim
        simp only [enqueue, hkey, Store.idempotentEnqueue, Store.hmset_idempotency, hslot]
        exact ⟨_, by simpa using hclaim⟩
      · have hclaim := hsave.trans (producerStep_reach hi (producerStep_claim_held hslot hne))
        have hdiscard := hclaim.trans (producerStep_reach hi rfl)
        rw [hidle] at hdiscard
        rw [enqueue_held hkey hslot hne]
        exact ⟨_, hdiscard⟩

end Producer

section Retry

variable {id : JobId}

/-- A retry request that nobody disturbs. -/
theorem retryJob_reach (h : s.retries[i]? = some .idle) :
    ∃ log', Reach (step env) (fun _ a => a = .request i id ∨ a = .respond i) s
      { s with store := retryJob env id s.store, log := log' } := by
  have hi : i < s.retries.length := (List.getElem?_eq_some_iff.mp h).1
  have hrequest : Reach (step env) (fun _ a => a = .request i id ∨ a = .respond i) s
      { s with retries := s.retries.set i (retryRequest env s.store id) } :=
    Reach.refl.tail (.inl rfl) (by simp only [step, h])
  unfold retryJob
  split
  · next hidle =>
    rw [hidle, set_self_of_getElem? h] at hrequest
    exact ⟨s.log, hrequest⟩
  · next id' priority haccepted =>
    rw [haccepted] at hrequest
    refine ⟨s.log ++ [.retried id'], hrequest.tail (.inr rfl) ?_⟩
    simp [step, hi, retryStep, set_self_of_getElem? h]

end Retry

/-! ## Jobs -/

/-- What worker `w`, its handler and its interval timer do; time may pass. -/
def Action.ofWorker (w : Nat) : Action T → Bool
  | .tick _ => true
  | .work w' _ => decide (w' = w)
  | .settle w' _ => decide (w' = w)
  | .renew w' => decide (w' = w)
  | _ => false

/-- The clock does not run backwards in the course of a call that begins at time `now`. -/
structure Circumstances.Timely (c : Circumstances) (now : Nat) : Prop where
  markActive : now ≤ c.now .markActive
  beat : c.now .markActive ≤ c.now .beat
  settled : c.now .beat ≤ c.settledAt
  writeDelayed : c.settledAt ≤ c.now .writeDelayed

section Worker

variable {id : JobId} {handlers : List String} {c : Circumstances} {job : Job T}

/-- `s` at another time, with another store and log, and worker `w` at `pc`. -/
def Config.atWorker (s : Config T) (w : Nat) (handlers : List String) (clock : Nat)
    (pc : WorkerPc T) (st : Store) (log : List Event) : Config T :=
  { s with
    store := st, clock := clock, log := log, workers := s.workers.set w ⟨handlers, pc⟩ }

theorem workerStep_reach {clock : Nat} {pc pc' : WorkerPc T} {st st' : Store}
    {log events : List Event} (draw : Nat) (hw : w < s.workers.length)
    (he : workerStep env clock w draw handlers st pc =
      some { store := st', pc := pc', events := events }) :
    Reach (step env) (fun _ a => a.ofWorker w) (s.atWorker w handlers clock pc st log)
      (s.atWorker w handlers clock pc' st' (log ++ events)) := by
  have hok : (Action.work w draw : Action T).ofWorker w = true := by simp [Action.ofWorker]
  exact Reach.refl.tail hok (by simp [step, Config.atWorker, hw, he])

theorem tick_reach {clock now : Nat} {pc : WorkerPc T} {st : Store} {log : List Event}
    (h : clock ≤ now) :
    Reach (step env) (fun _ a => a.ofWorker w) (s.atWorker w handlers clock pc st log)
      (s.atWorker w handlers now pc st log) := by
  obtain ⟨ms, rfl⟩ := Nat.exists_eq_add_of_le h
  have hok : (Action.tick ms : Action T).ofWorker w = true := rfl
  exact Reach.refl.tail hok rfl

theorem settleStep_reach {clock : Nat} {pc pc' : WorkerPc T} {st : Store}
    {log events : List Event} (outcome : HandlerOutcome) (hw : w < s.workers.length)
    (he : settleStep clock outcome pc = some (pc', events)) :
    Reach (step env) (fun _ a => a.ofWorker w) (s.atWorker w handlers clock pc st log)
      (s.atWorker w handlers clock pc' st (log ++ events)) := by
  have hok : (Action.settle w outcome : Action T).ofWorker w = true := by simp [Action.ofWorker]
  exact Reach.refl.tail hok (by simp [step, Config.atWorker, hw, he])

@[simp] theorem Store.renew_nil {st : Store} {ttl : Nat} : st.renew ttl id [] = st := rfl

/-- From the handler call on. -/
theorem runHandler_reach (env : Env T) (id : JobId) (job : Job T) (st : Store) (log : List Event)
    (hw : w < s.workers.length)
    (hserved : ∀ command, c.rejects command = false)
    (hrenewals : ∀ command, c.renewals command = [])
    (hsettled : c.now .beat ≤ c.settledAt) (hwrite : c.settledAt ≤ c.now .writeDelayed) :
    ∃ clock log', Reach (step env) (fun _ a => a.ofWorker w)
      (s.atWorker w handlers (c.now .beat) (.running id job (c.now .beat)) st log)
      (s.atWorker w handlers clock (.poll .high) ((runHandler env c id job).after st) log') := by
  -- the handler runs until `settledAt`
  have hend : Reach (step env) (fun _ a => a.ofWorker w)
      (s.atWorker w handlers (c.now .beat) (.running id job (c.now .beat)) st log)
      (s.atWorker w handlers c.settledAt (.running id job (c.now .beat)) st log) :=
    tick_reach hsettled
  rw [after_runHandler, cleanUp, after_issueBeating]
  simp only [hserved, hrenewals, Store.renew_nil, Bool.false_eq_true, if_false]
  cases houtcome : c.outcome with
  | resolve =>
    have hresolved := hend.trans (settleStep_reach .resolve hw rfl)
    have hcompleted := hresolved.trans (workerStep_reach c.draw hw rfl)
    exact ⟨_, _, hcompleted.trans (workerStep_reach c.draw hw rfl)⟩
  | reject =>
    have hrejected := hend.trans (settleStep_reach .reject hw rfl)
    have hcounted := hrejected.trans (workerStep_reach c.draw hw rfl)
    simp only [failJob, after_issueBeating_bind, hserved, hrenewals, Store.renew_nil,
      Bool.false_eq_true, if_false, retryOrBury, if_true] at hcounted ⊢
    split
    · next hretry =>
      rw [if_pos hretry] at hcounted
      have hwritten := (hcounted.trans (tick_reach hwrite)).trans (workerStep_reach c.draw hw rfl)
      have hfiled := hwritten.trans (workerStep_reach c.draw hw rfl)
      simp only [after_issueBeating_bind, after_issueBeating, hserved, hrenewals, Store.renew_nil,
        Bool.false_eq_true, if_false]
      exact ⟨_, _, hfiled.trans (workerStep_reach c.draw hw rfl)⟩
    · next hbury =>
      rw [if_neg hbury] at hcounted
      have hwritten := hcounted.trans (workerStep_reach c.draw hw rfl)
      have hfiled := hwritten.trans (workerStep_reach c.draw hw rfl)
      simp only [after_issueBeating_bind, after_issueBeating, hserved, hrenewals, Store.renew_nil,
        Bool.false_eq_true, if_false]
      exact ⟨_, _, hfiled.trans (workerStep_reach c.draw hw rfl)⟩

/-- A call of `processJob` that nobody disturbs, in which no command is rejected and the
handler ends before the interval timer fires. -/
theorem processJob_reach {now : Nat} (env : Env T) (id : JobId) (st : Store) (log : List Event)
    (hw : w < s.workers.length) (hserved : ∀ command, c.rejects command = false)
    (hrenewals : ∀ command, c.renewals command = []) (htimely : c.Timely now) :
    ∃ clock log', Reach (step env) (fun _ a => a.ofWorker w)
      (s.atWorker w handlers now (.fetch id) st log)
      (s.atWorker w handlers clock (.poll .high) ((processJob env w handlers c id).after st)
        log') := by
  have hfetch : ∀ pc' : WorkerPc T, workerStep env now w c.draw handlers st (.fetch id) =
      some { store := st, pc := pc', events := [] } →
      Reach (step env) (fun _ a => a.ofWorker w) (s.atWorker w handlers now (.fetch id) st log)
        (s.atWorker w handlers now pc' st (log ++ [])) :=
    fun _ he => workerStep_reach c.draw hw he
  rw [processJob, Async.after_query_bind, if_neg (by simp [hserved])]
  -- the two early returns of `processJob`
  cases hempty : (st.jobs id).isEmpty with
  | true => exact ⟨_, _, hfetch _ (by simp [workerStep, hempty])⟩
  | false =>
    cases hjob : deserializeJob env.json (st.jobs id) with
    | error e => exact ⟨_, _, hfetch _ (by simp [workerStep, hempty, hjob])⟩
    | ok job =>
      have hread := hfetch (.markActive id job) (by simp [workerStep, hempty, hjob])
      have hmarked := (hread.trans (tick_reach htimely.markActive)).trans
        (workerStep_reach c.draw hw rfl)
      cases hhandler : hasHandler handlers job with
      | false =>
        rw [hhandler] at hmarked
        have hfailed := hmarked.trans (workerStep_reach c.draw hw rfl)
        simp only [Circumstances.issue, hserved, hhandler]
        exact ⟨_, _, hfailed⟩
      | true =>
        rw [hhandler] at hmarked
        have hregistered := hmarked.trans (workerStep_reach c.draw hw rfl)
        have hbeating := (hregistered.trans (tick_reach htimely.beat)).trans
          (workerStep_reach c.draw hw rfl)
        obtain ⟨clock, log', hrun⟩ := runHandler_reach env id job _ _ hw hserved hrenewals
          htimely.settled htimely.writeDelayed
        simp only [Circumstances.issue, hserved, hhandler]
        exact ⟨clock, log', hbeating.trans hrun⟩

/-- A turn of the worker loop that nobody disturbs. -/
theorem workerLoop_reach {now : Nat} (env : Env T) (st : Store) (log : List Event)
    (hw : w < s.workers.length) (hserved : ∀ command, c.rejects command = false)
    (hrenewals : ∀ command, c.renewals command = []) (htimely : c.Timely now) :
    ∃ clock log', Reach (step env) (fun _ a => a.ofWorker w)
      (s.atWorker w handlers now (.poll .high) st log)
      (s.atWorker w handlers clock (.poll .high) (workerLoop env w handlers c st) log') := by
  have hempty : ∀ p log, st.rpoplpush (.waitingList env.queueName p.name)
      (.processingList env.queueName) = none →
      Reach (step env) (fun _ a => a.ofWorker w) (s.atWorker w handlers now (.poll p) st log)
        (s.atWorker w handlers now (.poll p.next) st (log ++ [])) :=
    fun p log hpop => workerStep_reach c.draw hw (by simp [workerStep, hpop])
  have htake : ∀ p id st' log, st.rpoplpush (.waitingList env.queueName p.name)
      (.processingList env.queueName) = some (id, st') →
      Reach (step env) (fun _ a => a.ofWorker w) (s.atWorker w handlers now (.poll p) st log)
        (s.atWorker w handlers now (.fetch id) st' (log ++ [.dequeued id])) :=
    fun p id st' log hpop => workerStep_reach c.draw hw (by simp [workerStep, hpop])
  -- the poll that takes a job is followed by the call for it
  have hrun : ∀ {p id st' log₁}, Reach (step env) (fun _ a => a.ofWorker w)
      (s.atWorker w handlers now (.poll .high) st log)
        (s.atWorker w handlers now (.poll p) st log₁) →
      st.rpoplpush (.waitingList env.queueName p.name) (.processingList env.queueName) =
        some (id, st') →
      ∃ clock log', Reach (step env) (fun _ a => a.ofWorker w)
        (s.atWorker w handlers now (.poll .high) st log)
        (s.atWorker w handlers clock (.poll .high) ((processJob env w handlers c id).after st')
          log') := by
    intro p id st' log₁ hpolled hpop
    obtain ⟨clock, log', hjob⟩ := processJob_reach env id st' _ hw hserved hrenewals htimely
    exact ⟨clock, log', (hpolled.trans (htake p id st' log₁ hpop)).trans hjob⟩
  cases hhigh : st.rpoplpush (.waitingList env.queueName JobPriority.high.name)
      (.processingList env.queueName) with
  | some taken =>
    simp only [workerLoop, takeJob, priorities, List.findSome?_cons, hhigh]
    exact hrun .refl hhigh
  | none =>
    have hatNormal := hempty .high log hhigh
    cases hnormal : st.rpoplpush (.waitingList env.queueName JobPriority.normal.name)
        (.processingList env.queueName) with
    | some taken =>
      simp only [workerLoop, takeJob, priorities, List.findSome?_cons, hhigh, hnormal]
      exact hrun hatNormal hnormal
    | none =>
      have hatLow := hatNormal.trans (hempty .normal _ hnormal)
      cases hlow : st.rpoplpush (.waitingList env.queueName JobPriority.low.name)
          (.processingList env.queueName) with
      | some taken =>
        simp only [workerLoop, takeJob, priorities, List.findSome?_cons, hhigh, hnormal, hlow]
        exact hrun hatLow hlow
      | none =>
        simp only [workerLoop, takeJob, priorities, List.findSome?_cons, List.findSome?_nil, hhigh,
          hnormal, hlow]
        exact ⟨_, _, hatLow.trans (hempty .low _ hlow)⟩

end Worker

end DistriSys
