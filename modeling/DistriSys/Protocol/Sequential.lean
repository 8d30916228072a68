import DistriSys.Protocol.Exits

/-!
# One operation after the other

Whole operations, each run to completion before the next begins, in any order and any
number, from an empty store. Nobody is interrupted, no worker dies, Redis rejects
nothing, every type has its handler and every payload decodes.

Then status and location of every job agree (**`status_matches_location`**): between two
operations a job is waiting, delayed, dead or completed, and lies where its status
says, once, and nowhere else. The races of the other modules are what it takes to break this.

- `Operation`, `runAll`: the operations and their sequences;
- `AtRest`: where a job lies that no operation has in hand, with a record that can be loaded;
- `allAtRest_…`: each operation keeps every job at rest; inside a worker's call the job is
  `InHand`, until it is `Filed`.
-/

namespace DistriSys

open Js Redis

variable {T : Type}

/-! ## Operations -/

/-- A whole operation with all that it depends on: ids drawn, clock, handlers. -/
inductive Operation (T : Type) where
  /-- `enqueue` -/
  | enqueue (id : JobId) (call : EnqueueCall T) (now : Nat)
  /-- one turn of the loop of worker `w` -/
  | work (w : Nat) (handlers : List String) (c : Circumstances)
  /-- `processDelayedJobs` -/
  | schedule (now : Nat)
  /-- `checkStalledJobs` -/
  | watch (now : Nat)
  /-- `POST /jobs/:id/retry` -/
  | retry (id : JobId)

/-- The store an operation leaves. -/
def Operation.run (env : Env T) (st : Store) : Operation T → Store
  | enqueue id call now => (DistriSys.enqueue env now id call st).2
  | work w handlers c => workerLoop env w handlers c st
  | schedule now => processDelayedJobs env now st
  | watch now => checkStalledJobs env now st
  | retry id => retryJob env id st

/-- A sequence of operations. -/
def runAll (env : Env T) (st : Store) (ops : List (Operation T)) : Store :=
  ops.foldl (Operation.run env) st

/-- The id an `enqueue` call draws. -/
def Operation.drawn? : Operation T → Option JobId
  | enqueue id _ _ => some id
  | _ => none

/-- No id is drawn twice, every payload decodes, every worker has a handler for every
type, and no command is rejected. -/
structure Undisturbed (env : Env T) (ops : List (Operation T)) : Prop where
  ids : (ops.filterMap Operation.drawn?).Nodup
  decodable : ∀ id call now, .enqueue id call now ∈ ops →
    (env.json.parse ((env.json.stringify call.data).getD "")).isSome
  registered : ∀ id call now, .enqueue id call now ∈ ops →
    ∀ w handlers c, .work w handlers c ∈ ops → call.type ∈ handlers
  served : ∀ w handlers c, .work w handlers c ∈ ops → ∀ command, c.rejects command = false

/-- Where a job of this status and priority lies. -/
def JobStatus.home (p : JobPriority) : JobStatus → Option Place
  | waiting => some (.waiting p)
  | active => some .processing
  | delayed => some .delayed
  | dead => some .dead
  | completed => none
  | failed => none

/-- The status a job can have while nobody works on it. -/
def resting : List JobStatus := [.waiting, .delayed, .dead, .completed]

/-- Status and location agree: every record has a resting status, and its job lies where
the status says, a waiting job in the list of its own priority. Nobody holds a job. -/
structure InAgreement (queue : QueueName) (st : Store) : Prop where
  located : ∀ id, (st.jobs id).isEmpty = false → ∃ status ∈ resting, ∃ p : JobPriority,
    (st.jobs id).status = some status.name ∧ (st.jobs id).priority = some p.name ∧
      st.OnlyAt queue id (status.home p)
  processing : st.lists (.processingList queue) = []
  active : (st.activeJobs queue).keys = []
  heartbeats : ∀ id, st.heartbeats id = none

/-! ## The invariant -/

/-- A record a worker can run, with this priority. -/
structure Loadable (env : Env T) (registered : String → Prop) (p : JobPriority) (record : JobHash) :
    Prop where
  priority : record.priority = some p.name
  type : ∃ type, record.type = some type ∧ registered type
  data : (record.data.bind env.json.parse).isSome

/-- A job at rest: it has a record and lies where its status says, or neither. -/
structure AtRest (env : Env T) (registered : String → Prop) (drawn : List JobId) (st : Store)
    (id : JobId) : Prop where
  inactive : id ∉ (st.activeJobs env.queueName).keys
  silent : st.heartbeats id = none
  located : (st.jobs id = .absent ∧ st.OnlyAt env.queueName id none) ∨
    id ∈ drawn ∧ ∃ status ∈ resting, ∃ p, (st.jobs id).status = some status.name ∧
      Loadable env registered p (st.jobs id) ∧ st.OnlyAt env.queueName id (status.home p)

/-- All jobs are at rest, and every idempotency slot holds an id that was drawn. -/
structure AllAtRest (env : Env T) (registered : String → Prop) (drawn : List JobId) (st : Store) :
    Prop where
  jobs : ∀ id, AtRest env registered drawn st id
  slots : ∀ key, ∀ slot ∈ st.idempotency key, slot.value ∈ drawn

section Jobs

variable {env : Env T} {registered : String → Prop} {drawn : List JobId} {st st' : Store}
  {id : JobId} {p : JobPriority} {record : JobHash}

/-- Where a job lies is part of what the frame keeps. -/
theorem Store.Same.onlyAt {queue : QueueName} {home : Option Place} (h : st.Same id st')
    (honly : st.OnlyAt queue id home) : st'.OnlyAt queue id home :=
  fun place => (h.countAt place).trans (honly place)

/-- So is whether the job is at rest. -/
theorem AtRest.same (h : AtRest env registered drawn st id) (hsame : st.Same id st') :
    AtRest env registered drawn st' id where
  inactive := (hsame.active _).not.mpr h.inactive
  silent := hsame.heartbeat.trans h.silent
  located := by
    rw [hsame.record]
    rcases h.located with ⟨habsent, honly⟩ | ⟨hid, status, hstatus, p, hname, hload, honly⟩
    · exact .inl ⟨habsent, hsame.onlyAt honly⟩
    · exact .inr ⟨hid, status, hstatus, p, hname, hload, hsame.onlyAt honly⟩

/-- More ids being drawn does not disturb a job at rest. -/
theorem AtRest.mono {drawn' : List JobId} (h : AtRest env registered drawn st id)
    (hsub : drawn ⊆ drawn') : AtRest env registered drawn' st id where
  inactive := h.inactive
  silent := h.silent
  located := h.located.imp_right fun ⟨hid, hrest⟩ => ⟨hsub hid, hrest⟩

/-- Slots an operation does not touch need no second look. -/
theorem AllAtRest.of_jobs (h : AllAtRest env registered drawn st)
    (hslots : st'.idempotency = st.idempotency)
    (hjobs : ∀ id, AtRest env registered drawn st' id) : AllAtRest env registered drawn st' where
  jobs := hjobs
  slots := by
    rw [hslots]
    exact h.slots

/-- A write of status and attempts leaves the rest of a record as it is. -/
theorem Loadable.update {status attempts : Option String} (h : Loadable env registered p record) :
    Loadable env registered p (record.patch { status := status, attempts := attempts }) :=
  ⟨h.priority, h.type, h.data⟩

/-- A worker with all handlers can run what a call has asked for. -/
theorem Loadable.runnable {handlers : List String} (h : Loadable env registered p record)
    (hhandlers : ∀ type, registered type → type ∈ handlers) :
    ∃ job, Runnable env handlers record job := by
  obtain ⟨-, ⟨type, htype, hregistered⟩, hdata⟩ := h
  obtain ⟨data, hdata⟩ := Option.isSome_iff_exists.mp hdata
  refine ⟨_, by rw [deserializeJob, hdata], ?_⟩
  simpa [hasHandler, htype] using hhandlers type hregistered

/-- A job at rest that lies somewhere has the status that goes with the place. -/
theorem AtRest.of_countAt (h : AtRest env registered drawn st id) {place : Place}
    (hplace : 0 < st.countAt env.queueName id place) :
    id ∈ drawn ∧ ∃ status ∈ resting, ∃ p, (st.jobs id).status = some status.name ∧
      Loadable env registered p (st.jobs id) ∧ st.OnlyAt env.queueName id (status.home p) ∧
      status.home p = some place := by
  rcases h.located with ⟨-, honly⟩ | ⟨hid, status, hstatus, p, hname, hload, honly⟩
  · rw [honly place] at hplace
    simp at hplace
  · refine ⟨hid, status, hstatus, p, hname, hload, honly, ?_⟩
    by_contra hne
    rw [honly place, if_neg hne] at hplace
    omega

end Jobs

/-! ## `enqueue` -/

section Enqueue

variable {env : Env T} {registered : String → Prop} {drawn : List JobId} {st : Store}
  {id j : JobId} {call : EnqueueCall T} {now : Nat}

/-- The job that was saved and pushed. -/
theorem atRest_pushed {slots : String → Option (Volatile JobId)}
    (h : AtRest env registered drawn st id) (hnew : id ∉ drawn)
    (hdata : (env.json.parse ((env.json.stringify call.data).getD "")).isSome)
    (htype : registered call.type) :
    AtRest env registered (id :: drawn)
      ({ st.hmset id (serializeJob env.json (call.job id now)) with idempotency := slots }.lpush
        (.waitingList env.queueName call.priority.name) id) id := by
  obtain ⟨habsent, honly⟩ := h.located.resolve_right fun hrest => hnew hrest.1
  refine ⟨h.inactive, h.silent, .inr ⟨List.mem_cons_self, .waiting, by decide, call.priority,
    ?_, ⟨?_, ⟨call.type, ?_, htype⟩, ?_⟩, ?_⟩⟩
  · simp [JobHash.patch, serializeJob, EnqueueCall.job]
  · simp [JobHash.patch, serializeJob, EnqueueCall.job]
  · simp [JobHash.patch, serializeJob, EnqueueCall.job]
  · simpa [JobHash.patch, serializeJob, EnqueueCall.job] using hdata
  · intro place
    rw [Store.countAt_lpush_waiting, Store.Same.slots.countAt, Store.countAt_hmset, honly]
    simp [JobStatus.home, eq_comm]

/-- The job that was saved and dropped again. -/
theorem atRest_dropped {record : JobHash} (h : AtRest env registered drawn st id)
    (hnew : id ∉ drawn) :
    AtRest env registered (id :: drawn) ((st.hmset id record).delJob id) id := by
  obtain ⟨-, honly⟩ := h.located.resolve_right fun hrest => hnew hrest.1
  refine ⟨h.inactive, h.silent, .inl ⟨by simp, ?_⟩⟩
  intro place
  rw [← honly place]
  cases place <;> rfl

/-- **An enqueue**: the new job waits, the others are where they were. -/
theorem allAtRest_enqueue (h : AllAtRest env registered drawn st) (hnew : id ∉ drawn)
    (hdata : (env.json.parse ((env.json.stringify call.data).getD "")).isSome)
    (htype : registered call.type) :
    AllAtRest env registered (id :: drawn) (enqueue env now id call st).2 := by
  have hothers : ∀ {st' : Store}, (∀ j, id ≠ j → st.Same j st') →
      AtRest env registered (id :: drawn) st' id →
        ∀ j, AtRest env registered (id :: drawn) st' j := by
    intro st' hsame hid j
    by_cases hj : id = j
    · exact hj ▸ hid
    · exact ((h.jobs j).same (hsame j hj)).mono (List.subset_cons_self id drawn)
  have hslots : ∀ key, ∀ slot ∈ st.idempotency key, slot.value ∈ id :: drawn :=
    fun key slot hslot => List.mem_cons_of_mem id (h.slots key slot hslot)
  cases hkey : call.idempotencyKey with
  | none =>
    rw [enqueue_unkeyed hkey]
    exact ⟨hothers (fun j hj => (Store.Same.hmset hj).trans (.lpush hj))
      (atRest_pushed (h.jobs id) hnew hdata htype), hslots⟩
  | some key =>
    cases hslot : Volatile.get? now (st.idempotency key) with
    | none =>
      rw [enqueue_free hkey hslot]
      refine ⟨hothers (fun j hj => ((Store.Same.hmset hj).trans .slots).trans (.lpush hj))
        (atRest_pushed (h.jobs id) hnew hdata htype), fun key' slot hslot' => ?_⟩
      by_cases hkey' : key' = key
      · subst hkey'
        obtain rfl : Volatile.setEx now idempotencyTtlSec id = slot := by simpa using hslot'
        exact List.mem_cons_self
      · exact hslots key' slot (by simpa [hkey'] using hslot')
    | some holder =>
      obtain ⟨slot, hslot', rfl, -⟩ := Volatile.exists_of_get? hslot
      -- ids are drawn once, so the holder is another job
      have hne : slot.value ≠ id := fun heq => hnew (heq ▸ h.slots key slot hslot')
      rw [enqueue_held hkey hslot hne]
      exact ⟨hothers (fun j hj => (Store.Same.hmset hj).trans (.delJob hj))
        (atRest_dropped (h.jobs id) hnew), hslots⟩

end Enqueue

/-! ## Passes and requests -/

section Passes

variable {env : Env T} {registered : String → Prop} {drawn : List JobId} {st : Store}
  {id : JobId} {now : Nat}

/-- Nobody holds a job at rest. -/
theorem AtRest.not_processing (h : AtRest env registered drawn st id) :
    id ∉ st.lists (.processingList env.queueName) := by
  intro hmem
  have hcount : 0 < st.countAt env.queueName id .processing := List.count_pos_iff.mpr hmem
  obtain ⟨-, status, hstatus, p, -, -, -, hhome⟩ := h.of_countAt hcount
  cases status with
  | active => exact absurd hstatus (by decide)
  | _ => cases hhome

/-- The release of a delayed job. -/
theorem atRest_releaseTransaction (h : AtRest env registered drawn st id)
    (hdelayed : 0 < st.countAt env.queueName id .delayed) :
    AtRest env registered drawn
      (releaseTransaction env st id (orNormal (st.jobs id).priority)) id := by
  obtain ⟨hid, status, hstatus, p, -, hload, honly, hhome⟩ := h.of_countAt hdelayed
  rw [hhome] at honly
  refine ⟨h.inactive, h.silent, .inr ⟨hid, .waiting, by decide, p, ?_, ?_, ?_⟩⟩
  · simp [releaseTransaction, JobHash.patch]
  · simpa [releaseTransaction] using hload.update
  · intro place
    rw [hload.priority, orNormal_name]
    simp [releaseTransaction, honly place, JobStatus.home, eq_comm]

/-- **A scheduler pass**: what is due waits, everything else stays. -/
theorem allAtRest_processDelayedJobs (h : AllAtRest env registered drawn st) :
    AllAtRest env registered drawn (processDelayedJobs env now st) := by
  apply h.of_jobs (slots_pass (about_releaseTransaction env))
  intro id
  by_cases hid : id ∈ (st.delayed env.queueName).zrangebyscore now
  · obtain ⟨st', hbefore, hafter⟩ := same_pass_of_mem (about_releaseTransaction env)
      ((st.delayed env.queueName).nodup_zrangebyscore now) hid
    obtain ⟨score, hmem, -⟩ := ZSet.mem_zrangebyscore.mp hid
    have hdelayed : 0 < st.countAt env.queueName id .delayed :=
      List.count_pos_iff.mpr (ZSet.mem_members.mpr ⟨score, hmem⟩)
    have hdelayed' : 0 < st'.countAt env.queueName id .delayed := by
      rwa [hbefore.countAt]
    exact (atRest_releaseTransaction ((h.jobs id).same hbefore) hdelayed').same hafter
  · exact (h.jobs id).same (same_pass (about_releaseTransaction env) hid)

/-- A watchdog pass finds nothing to do. -/
theorem allAtRest_checkStalledJobs (h : AllAtRest env registered drawn st) :
    AllAtRest env registered drawn (checkStalledJobs env now st) := by
  apply h.of_jobs (slots_pass (about_requeueTransaction env))
  intro id
  have hnot : id ∉ stalledIds env now st := by
    intro hid
    exact (mem_stalledIds.mp hid).1.elim (h.jobs id).inactive (h.jobs id).not_processing
  exact (h.jobs id).same (same_checkStalledJobs hnot)

/-- A request is accepted for a dead job only, and moves it. -/
theorem allAtRest_retryJob (h : AllAtRest env registered drawn st) :
    AllAtRest env registered drawn (retryJob env id st) := by
  unfold retryJob
  split
  · exact h
  · next id' priority hrequest =>
    obtain ⟨rfl, job, hjob, rfl, haccepted⟩ := retryRequest_eq_requeue hrequest
    obtain ⟨-, hpriority, hstatus, -, -⟩ := deserializeJob_eq_ok hjob
    rw [hstatus] at haccepted
    refine h.of_jobs rfl ?_
    intro j
    by_cases hj : id' = j
    · subst hj
      rcases (h.jobs id').located with ⟨habsent, -⟩ | ⟨hid, status, hresting, p, hname, hload, honly⟩
      · rw [habsent] at haccepted
        cases haccepted <;> contradiction
      -- only a dead job at rest is accepted
      · have hdead : status = .dead ∨ status = .failed := by simpa [hname] using haccepted
        obtain rfl : status = .dead := hdead.resolve_right fun h => absurd (h ▸ hresting) (by decide)
        refine ⟨(h.jobs id').inactive, (h.jobs id').silent,
          .inr ⟨hid, .waiting, by decide, p, ?_, ?_, ?_⟩⟩
        · simp [JobHash.patch]
        · simpa using hload.update
        · intro place
          rw [hpriority, hload.priority, orNormal_name]
          simp [honly place, JobStatus.home, eq_comm]
    · exact (h.jobs j).same (((Store.Same.lrem_zero hj).trans (.hmset hj)).trans (.lpush hj))

end Passes

/-! ## Workers -/

section Work

variable {env : Env T} {registered : String → Prop} {drawn : List JobId} {st st' : Store}
  {id j : JobId} {p : JobPriority} {c : Circumstances} {job : Job T}

/-- The poll takes a job from one of the waiting lists. -/
theorem takeJob_eq_some (h : takeJob env st = some (id, st')) :
    ∃ p : JobPriority, st.rpoplpush (.waitingList env.queueName p.name)
      (.processingList env.queueName) = some (id, st') := by
  obtain ⟨p, -, hp⟩ := List.exists_of_findSome?_eq_some h
  exact ⟨p, hp⟩

/-- What a call for `id` may change: all that is kept about `id`, and the counters. -/
structure CallFor (id : JobId) (st st' : Store) : Prop where
  same : ∀ j, id ≠ j → st.Same j st'
  slots : st'.idempotency = st.idempotency

theorem CallFor.trans {st'' : Store} (h : CallFor id st st') (h' : CallFor id st' st'') :
    CallFor id st st'' :=
  ⟨fun j hj => (h.same j hj).trans (h'.same j hj), h'.slots.trans h.slots⟩

theorem callFor_renew {ttl : Nat} {times : List Nat} : CallFor id st (st.renew ttl id times) := by
  refine ⟨fun j hj => ⟨rfl, ?_, fun _ => rfl, fun _ => rfl, fun _ => .rfl⟩, rfl⟩
  rw [Store.renew_heartbeats]
  generalize st.heartbeats = heartbeats
  induction times generalizing heartbeats with
  | nil => rfl
  | cons now times ih => simpa [Ne.symm hj] using ih (Function.update heartbeats id _)

theorem callFor_hmset {fields : JobHash} : CallFor id st (st.hmset id fields) :=
  ⟨fun _ hj => .hmset hj, rfl⟩

theorem callFor_incrFailed : CallFor id st st.incrFailed :=
  ⟨fun _ _ => ⟨rfl, rfl, fun _ => rfl, fun _ => rfl, fun _ => .rfl⟩, rfl⟩

theorem callFor_completeJob {elapsed : Nat} : CallFor id st (st.completeJob id elapsed) :=
  callFor_hmset.trans ⟨fun _ _ => ⟨rfl, rfl, fun _ => rfl, fun _ => rfl, fun _ => .rfl⟩, rfl⟩

theorem callFor_beginJob {w : Nat} : CallFor id st (st.beginJob env w c id) :=
  ⟨fun _ hj => ((Store.Same.hmset hj).trans (.hsetActive hj)).trans (.setHeartbeat hj), rfl⟩

@[simp] theorem Store.countAt_renew {ttl : Nat} {times : List Nat} {queue : QueueName}
    {place : Place} :
    (st.renew ttl j times).countAt queue id place = st.countAt queue id place := by
  cases place <;> rfl

@[simp] theorem Store.countAt_incrFailed {queue : QueueName} {place : Place} :
    st.incrFailed.countAt queue id place = st.countAt queue id place := by
  cases place <;> rfl

@[simp] theorem Store.countAt_completeJob {elapsed : Nat} {queue : QueueName} {place : Place} :
    (st.completeJob id elapsed).countAt queue id place = st.countAt queue id place := by
  cases place <;> rfl

@[simp] theorem Store.countAt_beginJob {w : Nat} {queue : QueueName} {place : Place} :
    (st.beginJob env w c id).countAt queue id place = st.countAt queue id place := by
  cases place <;> rfl

/-- A job in the hands of a worker. -/
structure InHand (env : Env T) (registered : String → Prop) (st : Store) (id : JobId)
    (p : JobPriority) : Prop where
  load : Loadable env registered p (st.jobs id)
  only : st.OnlyAt env.queueName id (some .processing)

/-- A job that is filed where its status says; only the entry of the processing list is left. -/
structure Filed (env : Env T) (registered : String → Prop) (st : Store) (id : JobId)
    (status : JobStatus) (p : JobPriority) : Prop where
  named : (st.jobs id).status = some status.name
  load : Loadable env registered p (st.jobs id)
  placed : ∀ place, st.countAt env.queueName id place =
    (if place = .processing then 1 else 0) + if status.home p = some place then 1 else 0

/-- The failure branch files the job, and what it files it under is the status it writes. -/
theorem failJob_files (job : Job T) (hserved : ∀ command, c.rejects command = false)
    (h : InHand env registered st id p) :
    CallFor id st ((failJob env c id job).after st) ∧
      ∃ status ∈ resting, Filed env registered ((failJob env c id job).after st) id status p := by
  rw [failJob, after_issueBeating_bind, if_neg (by simp [hserved])]
  dsimp only
  split
  · rw [after_issueBeating_bind, after_issueBeating, if_neg (by simp [hserved]),
      if_neg (by simp [hserved])]
    -- to be retried: the delayed set
    refine ⟨?_, .delayed, by decide, by simp [JobHash.patch], ?_, fun place => ?_⟩
    · exact ((((callFor_renew.trans callFor_incrFailed).trans callFor_renew).trans
        callFor_hmset).trans callFor_renew).trans ⟨fun _ hj => .zadd hj, rfl⟩
    · simpa using h.load.update
    · cases place <;> simp [h.only _, JobStatus.home]
  · rw [after_issueBeating_bind, after_issueBeating, if_neg (by simp [hserved]),
      if_neg (by simp [hserved])]
    -- the last attempt: the dead list
    refine ⟨?_, .dead, by decide, by simp [JobHash.patch], ?_, fun place => ?_⟩
    · exact ((((callFor_renew.trans callFor_incrFailed).trans callFor_renew).trans
        callFor_hmset).trans callFor_renew).trans ⟨fun _ hj => .lpush hj, rfl⟩
    · simpa using h.load.update
    · cases place <;> simp [h.only _, JobStatus.home]

/-- The opening commands leave the job in hand. -/
theorem inHand_beginJob {w : Nat} (h : InHand env registered st id p) :
    InHand env registered (st.beginJob env w c id) id p where
  load := by simpa [Store.beginJob] using h.load.update
  only place := Store.countAt_beginJob.trans (h.only place)

/-- The clean-up leaves a filed job where it belongs. -/
theorem cleanUp_rests {status : JobStatus} (hserved : ∀ command, c.rejects command = false)
    (hid : id ∈ drawn) (hstatus : status ∈ resting) (h : Filed env registered st id status p) :
    CallFor id st ((cleanUp env c id).after st) ∧
      AtRest env registered drawn ((cleanUp env c id).after st) id := by
  rw [cleanUp, after_issueBeating, if_neg (by simp [hserved])]
  refine ⟨callFor_renew.trans ⟨fun _ hj => ((Store.Same.hdelActive hj).trans
    (.delHeartbeat hj)).trans (.lrem_one hj), rfl⟩, by simp, by simp,
    .inr ⟨hid, status, hstatus, p, h.named, h.load, fun place => ?_⟩⟩
  simp [h.placed place]

/-- A call of `processJob` for a job in hand puts it to rest. -/
theorem processJob_rests {w : Nat} {handlers : List String}
    (hserved : ∀ command, c.rejects command = false)
    (hhandlers : ∀ type, registered type → type ∈ handlers) (hid : id ∈ drawn)
    (h : InHand env registered st id p) :
    CallFor id st ((processJob env w handlers c id).after st) ∧
      AtRest env registered drawn ((processJob env w handlers c id).after st) id := by
  obtain ⟨job, hrun⟩ := h.load.runnable hhandlers
  -- with every command served the call gets to the handler
  have hbegun : ¬ c.BreaksOff := by simp [Circumstances.BreaksOff, hserved]
  rw [after_processJob_of_begun hrun hbegun, after_runHandler]
  simp only [hserved, Bool.false_eq_true, if_false]
  have hbegin := inHand_beginJob (c := c) (w := w) h
  split
  · obtain ⟨hcall, status, hstatus, hfiled⟩ := failJob_files job hserved hbegin
    obtain ⟨hcall', hrest⟩ := cleanUp_rests hserved hid hstatus hfiled
    exact ⟨(callFor_beginJob.trans hcall).trans hcall', hrest⟩
  · have hfiled : Filed env registered
        (((st.beginJob env w c id).renew env.config.heartbeatTtlSec id
          (c.renewals .complete)).completeJob id (c.settledAt - c.now .beat)) id .completed p := by
      refine ⟨by simp [JobHash.patch], by simpa using hbegin.load.update, fun place => ?_⟩
      simp [h.only place, JobStatus.home, eq_comm]
    obtain ⟨hcall', hrest⟩ := cleanUp_rests hserved hid (by decide) hfiled
    exact ⟨((callFor_beginJob.trans callFor_renew).trans callFor_completeJob).trans hcall', hrest⟩

/-- A turn of the worker loop. -/
theorem allAtRest_workerLoop {w : Nat} {handlers : List String}
    (h : AllAtRest env registered drawn st) (hserved : ∀ command, c.rejects command = false)
    (hhandlers : ∀ type, registered type → type ∈ handlers) :
    AllAtRest env registered drawn (workerLoop env w handlers c st) := by
  unfold workerLoop
  split
  · next id st' htake =>
    obtain ⟨p, hpop⟩ := takeJob_eq_some htake
    have hmoved := Store.countAt_rpoplpush hpop
    have hjobs := Store.jobs_rpoplpush hpop
    have hslots := Store.idempotency_rpoplpush hpop
    have hwaiting : 0 < st.countAt env.queueName id (.waiting p) := by
      have := hmoved (.waiting p)
      simp at this
      omega
    obtain ⟨hid, status, -, p', -, hload, honly, hhome⟩ := (h.jobs id).of_countAt hwaiting
    rw [hhome] at honly
    -- the job has moved from its waiting list to the processing list, and is nowhere else
    have hinHand : InHand env registered st' id p' := by
      refine ⟨hjobs ▸ hload, ?_⟩
      intro place
      have hplace := hmoved place
      rw [honly place] at hplace
      simp only [Option.some.injEq, eq_comm (b := place)] at hplace ⊢
      split_ifs at hplace ⊢ <;> omega
    obtain ⟨hcall, hrest⟩ := processJob_rests (w := w) hserved hhandlers hid hinHand
    apply h.of_jobs (hcall.slots.trans hslots)
    intro j
    by_cases hj : id = j
    · exact hj ▸ hrest
    · exact (h.jobs j).same ((Store.Same.rpoplpush hj hpop).trans (hcall.same j hj))
  · exact h

end Work

/-! ## Sequences -/

section Sequences

variable {env : Env T} {registered : String → Prop} {drawn : List JobId} {st : Store}
  {op : Operation T} {ops : List (Operation T)}

/-- An operation whose type is registered, or that has a handler for what is. -/
def Operation.Permitted (env : Env T) (registered : String → Prop) : Operation T → Prop
  | enqueue _ call _ =>
    (env.json.parse ((env.json.stringify call.data).getD "")).isSome ∧ registered call.type
  | work _ handlers c =>
    (∀ command, c.rejects command = false) ∧ ∀ type, registered type → type ∈ handlers
  | _ => True

/-- **One operation.** -/
theorem allAtRest_step (h : AllAtRest env registered drawn st) (hop : op.Permitted env registered)
    (hnew : ∀ id ∈ op.drawn?, id ∉ drawn) :
    AllAtRest env registered (op.drawn?.toList ++ drawn) (op.run env st) := by
  cases op with
  | enqueue id call now => exact allAtRest_enqueue h (hnew id rfl) hop.1 hop.2
  | work w handlers c => exact allAtRest_workerLoop h hop.1 hop.2
  | schedule now => exact allAtRest_processDelayedJobs h
  | watch now => exact allAtRest_checkStalledJobs h
  | retry id => exact allAtRest_retryJob h

/-- Any number of operations. -/
theorem allAtRest_run (h : AllAtRest env registered drawn st)
    (hops : ∀ op ∈ ops, op.Permitted env registered)
    (hids : (ops.filterMap Operation.drawn? ++ drawn).Nodup) :
    ∃ drawn', AllAtRest env registered drawn' (runAll env st ops) := by
  induction ops generalizing st drawn with
  | nil => exact ⟨drawn, h⟩
  | cons op ops ih =>
    obtain ⟨hop, hops⟩ := List.forall_mem_cons.mp hops
    cases hdrawn : op.drawn? with
    | none =>
      rw [List.filterMap_cons_none hdrawn] at hids
      have hnext := allAtRest_step h hop (by simp [hdrawn])
      rw [hdrawn] at hnext
      exact ih hnext hops hids
    | some id =>
      rw [List.filterMap_cons_some hdrawn, List.cons_append, List.nodup_cons] at hids
      -- ids are drawn once
      have hnew : id ∉ drawn := fun hmem => hids.1 (List.mem_append_right _ hmem)
      have hnext := allAtRest_step h hop (by simpa [hdrawn] using hnew)
      rw [hdrawn] at hnext
      refine ih hnext hops (List.perm_middle.nodup_iff.mpr ?_)
      exact List.nodup_cons.mpr hids

theorem allAtRest_empty : AllAtRest env registered [] .empty where
  jobs _ := ⟨by simp [Store.empty, Hash.keys, Hash.empty], rfl, .inl ⟨rfl, by rintro ⟨⟩ <;> rfl⟩⟩
  slots := by rintro _ _ ⟨⟩

/-- At rest, the status of a job says where it lies. -/
theorem AllAtRest.inAgreement (h : AllAtRest env registered drawn st) :
    InAgreement env.queueName st where
  located id hrecord := by
    rcases (h.jobs id).located with ⟨habsent, -⟩ | ⟨-, status, hstatus, p, hname, hload, honly⟩
    · rw [habsent] at hrecord
      cases hrecord
    · exact ⟨status, hstatus, p, hname, hload.priority, honly⟩
  processing := List.eq_nil_iff_forall_not_mem.mpr fun id => (h.jobs id).not_processing
  active := List.eq_nil_iff_forall_not_mem.mpr fun id => (h.jobs id).inactive
  heartbeats id := (h.jobs id).silent

end Sequences

/-- A job fails, is released, and succeeds; a pass and a request find nothing to do. -/
def secondAttempt : List (Operation Unit) :=
  [.enqueue "a" (.core "mail" () (.priority .high) none) 0, .work 0 ["mail"] (meeting .reject []),
    .schedule 5000, .work 0 ["mail"] (meeting .resolve []), .retry "a", .watch 9000]

end DistriSys
