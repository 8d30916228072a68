import DistriSys.Protocol.RawStore
import DistriSys.Protocol.Rejections
import DistriSys.Transition.Bisimulation

/-!
# The code over one database behaves as the model

`Raw` is the system over one Redis database of strings, `faultyStep` the one over `Store`.
Command by command, the first does what the second says (`producer_follows`,
`worker_follows`, …), so the two go in lock step: **`raw_lockstep`**.

- `Follows now st x e`: the request `x`, on a database that encodes `st`, has the reply and the
  effect `e`;
- `step_rel`, `faultyStep_rel`: the same for a step of the whole system, in both directions: it
  is possible over the database just when it is over the store;
- `raw_runs`, `raw_reach`: so schedules correspond, and what is proved of reachable states of
  the typed model holds of what the database encodes.

The premise of the step lemmas is `Integrity`: a list key in a request comes from the record of a
job, and only for a record in order is it one of the keys of the queue. Without it the code could
ask for a list under a name that something else is stored under.
-/

namespace DistriSys

open Js Redis Redis.Request Transition

variable {T : Type}

namespace Raw

/-- The state with a store for its database. -/
def Config.withStore (s : Raw.Config T) (st : Store) : DistriSys.Config T where
  store := st
  clock := s.clock
  producers := s.producers
  workers := s.workers
  schedulers := s.schedulers
  watchdogs := s.watchdogs
  retries := s.retries
  calls := s.calls
  log := s.log

/-- One state of the two systems: the database encodes the store, everything else is the same. -/
def Corresponds (f : Raw.Faulty T) (r : DistriSys.Faulty T) : Prop :=
  ∃ st, Encodes f.config.db st ∧ r = ⟨f.config.withStore st, f.jobs⟩

/-- A request has the effect of a step. -/
def Follows {Pc : Type} (now : Nat) (st : Store) (x : Request (Pc × List Event)) (e : Effect Pc) :
    Prop :=
  Completes now (Encodes · st) x fun answer db => answer = (e.pc, e.events) ∧ Encodes db e.store

section Components

variable {env : Env T} {now : Nat} {st : Store} {calls : List (Call T)} {log : List Event}

/-- The list a call pushes on is one of the three that are polled. -/
theorem proper_waitingList (queue : QueueName) (c : Call T) :
    (ListKey.waitingList queue c.request.priority.name).Proper :=
  ⟨_, rfl⟩

/-- Command by command: on a database that encodes the store, a producer's request has the
reply the model gives and leaves a database that encodes the store it leaves. -/
theorem producer_follows {pc : ProducerPc T} (hpc : pc.Fine calls log st.jobs) :
    Option.Rel (Follows now st) (Raw.producerStep env pc) (DistriSys.producerStep env now st pc) := by
  cases pc with
  | idle => exact .none
  | save id job key =>
    refine .some ((completes_hmset (.refl _)).bind fun _ => ?_)
    cases key <;> exact .pure fun _ h => ⟨rfl, h⟩
  | claim id job key =>
    -- the list it pushes to is one of the three of the queue
    obtain ⟨-, -, c, -, -, hjob, -⟩ := hpc
    have hproper : (ListKey.waitingList env.queueName job.priority).Proper :=
      hjob ▸ proper_waitingList env.queueName c
    have hscript := @completes_idempotentEnqueue st now _ key hproper id idempotencyTtlSec
    simp only [Raw.producerStep, DistriSys.producerStep]
    split
    · next hne =>
      refine .some (hscript.bind fun answer => ?_)
      rintro db ⟨rfl, h⟩
      dsimp only
      rw [if_pos hne]
      exact ⟨_, db, rfl, rfl, h⟩
    · next heq =>
      refine .some (hscript.bind fun answer => ?_)
      rintro db ⟨rfl, h⟩
      dsimp only
      rw [if_neg heq]
      exact ⟨_, db, rfl, rfl, h⟩
  | push id job =>
    obtain ⟨-, -, c, -, -, rfl, -⟩ := hpc
    exact .some ((completes_lpush (proper_waitingList env.queueName c) id).bind fun _ =>
      .pure fun _ h => ⟨rfl, h⟩)
  | discard id claimedId =>
    exact .some (completes_delJob.bind fun _ => .pure fun _ h => ⟨rfl, h⟩)

/-- The same for a worker. The replies of Redis decide where it goes on, so both go on alike.
-/
theorem worker_follows (env : Env T) (now w draw : Nat) (handlers : List String) (st : Store)
    (pc : WorkerPc T) :
    Option.Rel (Follows now st) (Raw.workerStep env now w draw handlers pc)
      (DistriSys.workerStep env now w draw handlers st pc) := by
  cases pc with
  | poll p =>
    have hfrom : (ListKey.waitingList env.queueName p.name).Proper := ⟨p, rfl⟩
    have hto : (ListKey.processingList env.queueName).Proper := trivial
    have hpop : Completes now (Encodes · st) _ _ := completes_rpoplpush hfrom hto
    simp only [Raw.workerStep, DistriSys.workerStep]
    cases htaken : st.rpoplpush (.waitingList env.queueName p.name)
        (.processingList env.queueName) with
    | none =>
      simp only [htaken] at hpop
      refine .some (hpop.bind fun answer => ?_)
      rintro db ⟨rfl, h⟩
      exact ⟨_, db, rfl, rfl, h⟩
    | some taken =>
      obtain ⟨id, st'⟩ := taken
      simp only [htaken] at hpop
      refine .some (hpop.bind fun answer => ?_)
      rintro db ⟨rfl, h⟩
      exact ⟨_, db, rfl, rfl, h⟩
  | fetch jobId =>
    simp only [Raw.workerStep, DistriSys.workerStep]
    cases hempty : (st.jobs jobId).isEmpty with
    | true =>
      refine .some (completes_hgetall.bind fun hash => ?_)
      rintro db ⟨h, hr⟩
      -- `HGETALL` of no key is the empty hash
      rw [if_pos (hr.isEmpty_iff.mpr hempty)]
      exact ⟨_, db, rfl, rfl, h⟩
    | false =>
      -- a record that is there has a field
      have hread : ∀ hash, IsRecord hash (st.jobs jobId) → hash.entries ≠ [] :=
        fun hash hr hnil => by simp [hr.isEmpty_iff.mp hnil] at hempty
      cases hjob : deserializeJob env.json (st.jobs jobId) with
      | error e =>
        refine .some (completes_hgetall.bind fun hash => ?_)
        rintro db ⟨h, hr⟩
        rw [if_neg (hread hash hr), hr.ofHash_eq, hjob]
        exact ⟨_, db, rfl, rfl, h⟩
      | ok job =>
        refine .some (completes_hgetall.bind fun hash => ?_)
        rintro db ⟨h, hr⟩
        rw [if_neg (hread hash hr), hr.ofHash_eq, hjob]
        exact ⟨_, db, rfl, rfl, h⟩
  | markActive jobId job =>
    exact .some ((completes_setStatus _).bind fun _ => .pure fun _ h => ⟨rfl, h⟩)
  | markFailed jobId =>
    exact .some ((completes_setStatus _).bind fun _ => .pure fun _ h => ⟨rfl, h⟩)
  | register jobId job startedAt =>
    exact .some ((completes_hsetActive _).bind fun _ => .pure fun _ h => ⟨rfl, h⟩)
  | beat jobId job =>
    exact .some ((completes_setHeartbeat _).bind fun _ => .pure fun _ h => ⟨rfl, h⟩)
  | running => exact .none
  | complete jobId elapsed =>
    -- `MULTI`: status, counter and time total
    exact .some ((completes_setStatus _).bind fun _ => completes_incrProcessed.bind fun _ =>
      (completes_addTime _).bind fun _ => .pure fun _ h => ⟨rfl, h⟩)
  | countFailure jobId job =>
    exact .some (completes_incrFailed.bind fun _ => .pure fun _ h => ⟨rfl, h⟩)
  | writeDelayed jobId nextAttempt delay =>
    exact .some ((completes_setAttempts .delayed _).bind fun _ => .pure fun _ h => ⟨rfl, h⟩)
  | writeDead jobId nextAttempt =>
    exact .some ((completes_setAttempts .dead _).bind fun _ => .pure fun _ h => ⟨rfl, h⟩)
  | zaddDelayed jobId score =>
    exact .some ((completes_zadd _ _).bind fun _ => .pure fun _ h => ⟨rfl, h⟩)
  | lpushDead jobId =>
    exact .some ((completes_lpush (l := .deadList env.queueName) trivial _).bind
      fun _ => .pure fun _ h => ⟨rfl, h⟩)
  | cleanup jobId =>
    exact .some (completes_hdelActive.bind fun _ => completes_delHeartbeat.bind fun _ =>
      (completes_lrem (l := .processingList env.queueName) trivial _ _).bind
        fun _ => .pure fun _ h => ⟨rfl, h⟩)
  | crashed => exact .none

/-- The same for a scheduler pass. -/
theorem scheduler_follows {pc : SchedulerPc} (hpc : pc.Fine calls log) :
    Follows now st (Raw.schedulerStep env now pc) (DistriSys.schedulerStep env now st pc) := by
  cases pc with
  | idle =>
    refine (completes_zrangebyscore now).bind fun dueJobs => ?_
    rintro db ⟨h, rfl⟩
    exact ⟨_, db, rfl, rfl, h⟩
  | lookup jobId rest =>
    refine (completes_hget .priority).bind fun priority => ?_
    rintro db ⟨h, rfl⟩
    exact ⟨_, db, rfl, rfl, h⟩
  | move jobId priority rest =>
    obtain ⟨c, -, -, rfl⟩ := hpc.priority jobId priority rest rfl
    exact (completes_zrem _).bind fun _ =>
      (completes_lpush (proper_waitingList env.queueName c) _).bind fun _ =>
        (completes_setStatus _).bind fun _ => .pure fun _ h => ⟨rfl, h⟩

/-- The same for a watchdog pass; its transaction is one request. -/
theorem watchdog_follows {pc : WatchdogPc} (hpc : pc.Fine env.json calls log) :
    Follows now st (Raw.watchdogStep env pc) (DistriSys.watchdogStep env now st pc) := by
  cases pc with
  | idle =>
    refine completes_activeKeys.bind fun activeJobs => ?_
    rintro db ⟨h, hkeys⟩
    exact ⟨_, db, rfl, by rw [hkeys]; rfl, h⟩
  | readProcessing activeIds =>
    have hrange : Completes now (Encodes · st)
        (Request.lrange (RedisKeys.processingList env.queueName) (some 0) (some (-1))) _ :=
      completes_lrange (l := .processingList env.queueName) trivial (lrange_all _)
    refine hrange.bind fun processingIds => ?_
    rintro db ⟨h, rfl⟩
    exact ⟨_, db, rfl, rfl, h⟩
  | readHeartbeats jobIds =>
    refine (completes_mget jobIds).bind fun heartbeats => ?_
    rintro db ⟨h, halive⟩
    exact ⟨_, db, rfl, by rw [halive]; rfl, h⟩
  | inspect jobId rest =>
    refine completes_hgetall.bind fun hash => ?_
    rintro db ⟨h, hr⟩
    exact ⟨_, db, rfl, by rw [hr.ofHash_eq]; rfl, h⟩
  | requeue jobId jobHash rest =>
    -- the record it has read is a whole one, so it names a list
    obtain ⟨c, -, -, hd⟩ := hpc.record jobId jobHash rest rfl
    have hne : ¬ jobHash.isEmpty = true := by simp [hd.isEmpty]
    have hproper : (ListKey.waitingList env.queueName (orNormal jobHash.priority)).Proper :=
      ⟨c.request.priority, by rw [hd.priority, orNormal_name]⟩
    rw [DistriSys.watchdogStep, requeueTransaction, if_neg hne, if_neg hne]
    refine completes_hdelActive.bind fun _ =>
      (completes_lrem (l := .processingList env.queueName) trivial 1 jobId).bind fun _ => ?_
    rw [if_neg hne]
    exact (completes_hmset (.swap _ _ [])).bind fun _ =>
      (completes_lpush hproper jobId).bind fun _ => .pure fun _ h => ⟨rfl, h⟩

/-- `GET /jobs/:id` on the database answers what it answers on the store. -/
theorem completes_getJob (json : Json T) (id : JobId) :
    Completes now (Encodes · st) (Raw.getJob json id) fun answer db =>
      Encodes db st ∧ answer = DistriSys.getJob json st id := by
  refine completes_hgetall.bind fun hash => ?_
  rintro db ⟨h, hr⟩
  rw [DistriSys.getJob]
  split
  · next hempty => exact ⟨_, db, rfl, h, by rw [if_pos (hr.isEmpty_iff.mp hempty)]⟩
  · next hne =>
    refine ⟨_, db, rfl, h, ?_⟩
    rw [if_neg (mt hr.isEmpty_iff.mpr hne), hr.ofHash_eq]

/-- The read of a retry request decides alike. -/
theorem completes_retryRequest (env : Env T) (id : JobId) :
    Completes now (Encodes · st) (Raw.retryRequest env id) fun answer db =>
      Encodes db st ∧ answer = DistriSys.retryRequest env st id := by
  refine (completes_getJob env.json id).bind fun job => ?_
  rintro db ⟨h, rfl⟩
  rw [DistriSys.retryRequest]
  cases DistriSys.getJob env.json st id with
  | error e => exact ⟨_, db, rfl, h, rfl⟩
  | ok found =>
    cases found with
    | none => exact ⟨_, db, rfl, h, rfl⟩
    | some job =>
      dsimp only
      by_cases hstatus : job.status ≠ some JobStatus.dead.name ∧
          job.status ≠ some JobStatus.failed.name
      · simp only [if_pos hstatus]
        exact ⟨_, db, rfl, h, rfl⟩
      · simp only [if_neg hstatus]
        exact ⟨_, db, rfl, h, rfl⟩

theorem retry_follows {pc : RetryPc} (hpc : pc.Fine calls log) :
    Option.Rel (Follows now st) (Raw.retryStep env pc) (DistriSys.retryStep env st pc) := by
  cases pc with
  | idle => exact .none
  | requeue id priority =>
    obtain ⟨c, -, -, rfl⟩ := hpc.priority id priority rfl
    exact .some ((completes_lrem (l := .deadList env.queueName) trivial _ _).bind fun _ =>
      (completes_setAttempts .waiting "0").bind fun _ =>
        (completes_lpush (proper_waitingList env.queueName c) _).bind
          fun _ => .pure fun _ h => ⟨rfl, h⟩)

end Components

/-! ## Lock step -/

section Steps

variable {env : Env T} {f : Raw.Config T} {st : Store}

/-- The same state but for the database. -/
def Config.Encodes (f : Raw.Config T) (s : DistriSys.Config T) : Prop :=
  ∃ st, DistriSys.Encodes f.db st ∧ s = f.withStore st

/-- A step that carries a request out. -/
theorem Follows.rel {Pc σ τ : Type} {S : σ → τ → Prop} {now : Nat} {db : Database}
    {x : Request (Pc × List Event)} {e : Effect Pc} {next : (Pc × List Event) × Database → σ}
    {t : τ} (hx : Follows now st x e) (h : DistriSys.Encodes db st)
    (hnext : ∀ db', DistriSys.Encodes db' e.store → S (next ((e.pc, e.events), db')) t) :
    Option.Rel S ((x now db).bind fun answer => some (next answer)) (some t) := by
  obtain ⟨_, db', hx, rfl, h'⟩ := hx db h
  rw [hx]
  exact .some (hnext db' h')

/-- A death leaves the database alone. -/
theorem crash_rel (h : DistriSys.Encodes f.db st) (component : Component) :
    Option.Rel Config.Encodes (Raw.crash f component)
      (DistriSys.crash (f.withStore st) component) := by
  cases component with
  | producer i => exact rel_map_self fun _ _ => ⟨st, h, rfl⟩
  | worker w => exact rel_map_self fun _ _ => ⟨st, h, rfl⟩
  | scheduler i => exact rel_map_self fun _ _ => ⟨st, h, rfl⟩
  | watchdog i => exact rel_map_self fun _ _ => ⟨st, h, rfl⟩
  | retry i => exact rel_map_self fun _ _ => ⟨st, h, rfl⟩

/-- **One step**, of whichever component. -/
theorem step_rel (h : DistriSys.Encodes f.db st) (hI : Integrity env (f.withStore st))
    (a : Action T) :
    Option.Rel Config.Encodes (Raw.step env f a) (DistriSys.step env (f.withStore st) a) := by
  cases a with
  | tick ms => exact .some ⟨st, h, rfl⟩
  | enqueue i id call =>
    simp only [Raw.step, DistriSys.step, Config.withStore]
    rcases f.producers[i]? with _ | pc
    · exact .none
    · cases pc with
      | idle =>
        -- the same ids are taken on both sides
        by_cases hid : id ∈ f.calls.map Call.id
        · simp only [hid, ↓reduceIte]
          exact .none
        · simp only [hid, ↓reduceIte]
          exact .some ⟨st, h, rfl⟩
      | _ => exact .none
  | produce i =>
    refine rel_bind_self fun pc hi => ?_
    have hfine := hI.producers pc (List.mem_of_getElem? hi)
    refine rel_bind (producer_follows hfine) fun _ e hx => ?_
    exact hx.rel h fun db' h' => ⟨e.store, h', rfl⟩
  | work w draw =>
    refine rel_bind_self fun wk _ => ?_
    refine rel_bind (worker_follows env f.clock w draw wk.handlers st wk.pc) fun _ e hx => ?_
    exact hx.rel h fun db' h' => ⟨e.store, h', rfl⟩
  | settle w outcome =>
    refine rel_bind_self fun wk _ => ?_
    -- a handler that ends asks Redis nothing
    exact rel_bind_self fun _ _ => .some ⟨st, h, rfl⟩
  | renew w =>
    refine rel_bind_self fun wk _ => ?_
    refine rel_bind_self fun id _ => ?_
    -- `SETEX`, whose reply the timer does not look at
    have hbeat := @completes_setHeartbeat st f.clock id env.config.heartbeatTtlSec
    obtain ⟨_, db', hx, h'⟩ := hbeat f.db h
    rw [hx]
    exact .some ⟨_, h', rfl⟩
  | process w type => exact rel_bind_self fun wk _ => .some ⟨st, h, rfl⟩
  | schedule i =>
    refine rel_bind_self fun pc hi => ?_
    have hfine := hI.schedulers pc (List.mem_of_getElem? hi)
    exact (scheduler_follows hfine).rel h fun db' h' => ⟨_, h', rfl⟩
  | watch i =>
    refine rel_bind_self fun pc hi => ?_
    have hfine := hI.watchdogs pc (List.mem_of_getElem? hi)
    exact (watchdog_follows hfine).rel h fun db' h' => ⟨_, h', rfl⟩
  | request i id =>
    simp only [Raw.step, DistriSys.step, Config.withStore]
    rcases f.retries[i]? with _ | pc
    · exact .none
    · cases pc with
      | idle =>
        have hrequest := @completes_retryRequest T f.clock st env id
        obtain ⟨pc, db', hx, h', rfl⟩ := hrequest f.db h
        simp only [hx]
        exact .some ⟨_, h', rfl⟩
      | requeue => exact .none
  | respond i =>
    refine rel_bind_self fun pc hi => ?_
    have hfollows := @retry_follows T env f.clock st _ _ pc (hI.retries pc (List.mem_of_getElem? hi))
    refine rel_bind hfollows fun _ e hx => ?_
    exact hx.rel h fun db' h' => ⟨e.store, h', rfl⟩
  | crash component => exact crash_rel h component

/-- The fallback jobs are noted from the same program counters. -/
theorem noteJob_eq (f : Raw.Config T) (st : Store) (a : Action T) (jobs : Nat → Option (Job T)) :
    Raw.noteJob f a jobs = DistriSys.noteJob (f.withStore st) a jobs := by
  cases a <;> rfl

/-- With rejections: a rejected request has not touched the database. -/
theorem faultyStep_rel {jobs : Nat → Option (Job T)} (h : DistriSys.Encodes f.db st)
    (hI : Integrity env (f.withStore st)) (a : FaultyAction T) :
    Option.Rel Corresponds (Raw.faultyStep env ⟨f, jobs⟩ a)
      (DistriSys.faultyStep env ⟨f.withStore st, jobs⟩ a) := by
  cases a with
  | act a =>
    refine rel_map (step_rel h hI a) ?_
    rintro f' _ ⟨st', h', rfl⟩
    exact ⟨st', h', by rw [noteJob_eq f st]⟩
  | reject component =>
    have hcrash := crash_rel h component
    cases component with
    | worker w =>
      refine rel_bind_self fun wk _ => ?_
      exact rel_bind_self fun _ _ => .some ⟨st, h, rfl⟩
    | _ =>
      refine rel_map hcrash ?_
      rintro f' _ ⟨st', h', rfl⟩
      exact ⟨st', h', rfl⟩

/-- So the two systems go in lock step, from one sound state to the next. -/
theorem raw_lockstep (env : Env T) :
    LockStep (fun f r => Corresponds f r ∧ Sound env r) (Raw.faultyStep env)
      (DistriSys.faultyStep env) := by
  rintro ⟨f, jobs⟩ r a ⟨⟨st, h, rfl⟩, hsound⟩
  exact rel_and (faultyStep_rel h hsound.integrity a) fun _ hs => sound_step hsound hs

/-- The empty database encodes the empty store. -/
theorem corresponds_init (topology : Topology) :
    Corresponds (Raw.Faulty.init topology : Raw.Faulty T) (DistriSys.Faulty.init topology) :=
  ⟨.empty, encodes_empty, rfl⟩

end Steps

section Runs

variable (env : Env T) (topology : Topology)

/-- **One database of strings is enough.** Take any schedule of steps, crashes and rejected
commands, and run it from the start over one Redis database and over the store of typed keys.
Either both systems go through with it, and the database then encodes the store, or both stop at
the same step: no two uses of Redis get in each other's way, and no command finds a value of
the wrong type. -/
theorem raw_runs (as : List (FaultyAction T)) :
    Option.Rel Corresponds (as.foldlM (Raw.faultyStep env) (Raw.Faulty.init topology))
      (as.foldlM (DistriSys.faultyStep env) (DistriSys.Faulty.init topology)) := by
  have hruns := (raw_lockstep env).runs ⟨corresponds_init topology, sound_init env topology⟩ as
  exact rel_mono hruns fun _ _ h => h.1

/-- Every state of the one system is one of the other. -/
theorem raw_reach {env : Env T} {topology : Topology} {f : Raw.Faulty T}
    (h : Reach (Raw.faultyStep env) (fun _ _ => True) (Raw.Faulty.init topology) f) :
    ∃ r, Reach (DistriSys.faultyStep env) (fun _ _ => True) (DistriSys.Faulty.init topology) r ∧
      Corresponds f r ∧ Sound env r :=
  (raw_lockstep env).reach ⟨corresponds_init topology, sound_init env topology⟩
    (fun _ _ _ _ _ => trivial) h

end Runs

end Raw

end DistriSys
