import DistriSys.Protocol.Integrity
import DistriSys.Transition.Bisimulation

/-!
# What a queue has of Redis

`Store.SameOn`: two stores hold the same lists, delayed set and active jobs of a queue, and the
same under the keys of certain jobs and certain idempotency keys.

The components of the queue read nothing else, so they do the same on both stores
(`workerStep_same`, …), and those of other queues write nothing of it (`workerStep_other`, …).

- `SameOn` is an equivalence, and both sides of it may carry out the same command
  (`SameOn.hmset`, `SameOn.lpush`, …) or one of them a command about something else
  (`SameOn.hmset_other`, …);
- for each component there is one lemma of either kind, by cases on its program counter.

They are about single steps of single components; `Protocol.Queues` puts runs together.
-/

namespace DistriSys

open Js Redis Transition

variable {T : Type}

/-- The queue a list belongs to. -/
def ListKey.queue : ListKey → QueueName
  | waitingList queue _ => queue
  | processingList queue => queue
  | deadList queue => queue

/-- The stores agree on the queue, the jobs `ids` and the idempotency keys `keys`. -/
structure Store.SameOn (queue : QueueName) (ids : Set JobId) (keys : Set String)
    (st st' : Store) : Prop where
  lists : ∀ key : ListKey, key.queue = queue → st.lists key = st'.lists key
  delayed : ∀ q, q = queue → st.delayed q = st'.delayed q
  activeJobs : ∀ q, q = queue → st.activeJobs q = st'.activeJobs q
  jobs : ∀ id ∈ ids, st.jobs id = st'.jobs id
  heartbeats : ∀ id ∈ ids, st.heartbeats id = st'.heartbeats id
  idempotency : ∀ key ∈ keys, st.idempotency key = st'.idempotency key

namespace Store.SameOn

variable {queue : QueueName} {ids ids' : Set JobId} {keys keys' : Set String}
  {st st' st'' : Store}

theorem refl : SameOn queue ids keys st st where
  lists _ _ := rfl
  delayed _ _ := rfl
  activeJobs _ _ := rfl
  jobs _ _ := rfl
  heartbeats _ _ := rfl
  idempotency _ _ := rfl

theorem symm (h : SameOn queue ids keys st st') : SameOn queue ids keys st' st where
  lists key hkey := (h.lists key hkey).symm
  delayed q hq := (h.delayed q hq).symm
  activeJobs q hq := (h.activeJobs q hq).symm
  jobs id hid := (h.jobs id hid).symm
  heartbeats id hid := (h.heartbeats id hid).symm
  idempotency key hkey := (h.idempotency key hkey).symm

theorem trans (h : SameOn queue ids keys st st') (h' : SameOn queue ids keys st' st'') :
    SameOn queue ids keys st st'' where
  lists key hkey := (h.lists key hkey).trans (h'.lists key hkey)
  delayed q hq := (h.delayed q hq).trans (h'.delayed q hq)
  activeJobs q hq := (h.activeJobs q hq).trans (h'.activeJobs q hq)
  jobs id hid := (h.jobs id hid).trans (h'.jobs id hid)
  heartbeats id hid := (h.heartbeats id hid).trans (h'.heartbeats id hid)
  idempotency key hkey := (h.idempotency key hkey).trans (h'.idempotency key hkey)

/-- A smaller share agrees where a larger one does. -/
theorem mono (hids : ids' ⊆ ids) (hkeys : keys' ⊆ keys) (h : SameOn queue ids keys st st') :
    SameOn queue ids' keys' st st' :=
  { h with
    jobs := fun id hid => h.jobs id (hids hid)
    heartbeats := fun id hid => h.heartbeats id (hids hid)
    idempotency := fun key hkey => h.idempotency key (hkeys hkey) }

/-! ## One command on both stores -/

section Both

/-- An entry changes in both functions, depending on what is there. -/
theorem update_same {α β : Type} [DecidableEq α] {P : α → Prop} {f g : α → β}
    (h : ∀ x, P x → f x = g x) (a : α) (F : β → β) :
    ∀ x, P x → Function.update f a (F (f a)) x = Function.update g a (F (g a)) x := by
  intro x hx
  by_cases hxa : x = a
  · subst hxa
    rw [Function.update_self, Function.update_self, h x hx]
  · rw [Function.update_of_ne hxa, Function.update_of_ne hxa, h x hx]

variable (h : SameOn queue ids keys st st')

include h

/-- What one command writes on both sides is the same on both sides, whatever it is about:
`SameOn` speaks of a share of the store only. -/
theorem hmset (id : JobId) (fields : JobHash) :
    SameOn queue ids keys (st.hmset id fields) (st'.hmset id fields) :=
  { h with jobs := update_same h.jobs id (·.patch fields) }

theorem delJob (id : JobId) : SameOn queue ids keys (st.delJob id) (st'.delJob id) :=
  { h with jobs := update_same h.jobs id fun _ => .absent }

theorem lpush (key : ListKey) (id : JobId) :
    SameOn queue ids keys (st.lpush key id) (st'.lpush key id) :=
  { h with lists := update_same h.lists key (id :: ·) }

theorem lrem (key : ListKey) (count : Nat) (id : JobId) :
    SameOn queue ids keys (st.lrem key count id) (st'.lrem key count id) :=
  { h with lists := update_same h.lists key (Redis.lrem count id) }

theorem zadd (q : QueueName) (score : Nat) (id : JobId) :
    SameOn queue ids keys (st.zadd q score id) (st'.zadd q score id) :=
  { h with delayed := update_same h.delayed q (·.zadd score id) }

theorem zrem (q : QueueName) (id : JobId) :
    SameOn queue ids keys (st.zrem q id) (st'.zrem q id) :=
  { h with delayed := update_same h.delayed q (·.zrem id) }

theorem hsetActive (q : QueueName) (id : JobId) (entry : ActiveJobEntry) :
    SameOn queue ids keys (st.hsetActive q id entry) (st'.hsetActive q id entry) :=
  { h with activeJobs := update_same h.activeJobs q (·.hset id entry) }

theorem hdelActive (q : QueueName) (id : JobId) :
    SameOn queue ids keys (st.hdelActive q id) (st'.hdelActive q id) :=
  { h with activeJobs := update_same h.activeJobs q (·.hdel id) }

theorem setHeartbeat (now ttlSec : Nat) (id : JobId) :
    SameOn queue ids keys (st.setHeartbeat now ttlSec id) (st'.setHeartbeat now ttlSec id) :=
  { h with heartbeats := update_same h.heartbeats id fun _ => some (.setEx now ttlSec ()) }

theorem delHeartbeat (id : JobId) :
    SameOn queue ids keys (st.delHeartbeat id) (st'.delHeartbeat id) :=
  { h with heartbeats := update_same h.heartbeats id fun _ => none }

/-- The counters are not the queue's own. -/
theorem counters (a b c a' b' c' : Nat) :
    SameOn queue ids keys
      { st with jobsProcessedTotal := a, jobsFailedTotal := b, processingTimeSum := c }
      { st' with jobsProcessedTotal := a', jobsFailedTotal := b', processingTimeSum := c' } :=
  { h with }

/-- The two lists are of the queue, or the reply might differ. -/
theorem rpoplpush {source : ListKey} (hsource : source.queue = queue) (destination : ListKey) :
    Option.Rel (fun x x' => x.1 = x'.1 ∧ SameOn queue ids keys x.2 x'.2)
      (st.rpoplpush source destination) (st'.rpoplpush source destination) := by
  unfold Store.rpoplpush
  rw [h.lists source hsource]
  cases rpop (st'.lists source) with
  | none => exact .none
  | some taken =>
    obtain ⟨id, rest⟩ := taken
    have hrest : SameOn queue ids keys { st with lists := Function.update st.lists source rest }
        { st' with lists := Function.update st'.lists source rest } :=
      { h with lists := update_same h.lists source fun _ => rest }
    exact .some ⟨rfl, hrest.lpush destination id⟩

/-- The slot is one of the shared keys, so the script decides alike on both sides. -/
theorem idempotentEnqueue {key : String} (hkey : key ∈ keys) (now : Nat) (list : ListKey)
    (id : JobId) (ttl : Nat) :
    (st.idempotentEnqueue now key list id ttl).1 = (st'.idempotentEnqueue now key list id ttl).1 ∧
      SameOn queue ids keys (st.idempotentEnqueue now key list id ttl).2
        (st'.idempotentEnqueue now key list id ttl).2 := by
  unfold Store.idempotentEnqueue
  rw [h.idempotency key hkey]
  cases Volatile.get? now (st'.idempotency key) with
  | none =>
    have hslot : SameOn queue ids keys
        { st with idempotency := Function.update st.idempotency key (some (.setEx now ttl id)) }
        { st' with idempotency := Function.update st'.idempotency key (some (.setEx now ttl id)) } :=
      { h with idempotency := update_same h.idempotency key fun _ => some (.setEx now ttl id) }
    exact ⟨rfl, hslot.lpush list id⟩
  | some holder => exact ⟨rfl, h⟩

end Both

/-! ## One command about something else -/

section Other

/-- An update outside of `P` is not seen in `P`. -/
theorem update_other {α β : Type} [DecidableEq α] {P : α → Prop} (f : α → β) {a : α} (ha : ¬ P a)
    (b : β) : ∀ x, P x → f x = Function.update f a b x := by
  intro x hx
  refine (Function.update_of_ne ?_ b f).symm
  rintro rfl
  exact ha hx

variable (h : SameOn queue ids keys st st') {id : JobId} {q : QueueName} {key : ListKey}

include h

theorem hmset_other (hid : id ∉ ids) (fields : JobHash) :
    SameOn queue ids keys st (st'.hmset id fields) :=
  h.trans { (refl : SameOn queue ids keys st' st') with jobs := update_other _ hid _ }

theorem delJob_other (hid : id ∉ ids) : SameOn queue ids keys st (st'.delJob id) :=
  h.trans { (refl : SameOn queue ids keys st' st') with jobs := update_other _ hid _ }

/-- A list of another queue is no business of this one's share. -/
theorem lists_other (hkey : key.queue ≠ queue) (l : List JobId) :
    SameOn queue ids keys st { st' with lists := Function.update st'.lists key l } :=
  h.trans { (refl : SameOn queue ids keys st' st') with lists := update_other (P := fun l : ListKey => l.queue = queue) _ hkey _ }

theorem lpush_other (hkey : key.queue ≠ queue) : SameOn queue ids keys st (st'.lpush key id) :=
  h.lists_other hkey _

theorem lrem_other (hkey : key.queue ≠ queue) (count : Nat) :
    SameOn queue ids keys st (st'.lrem key count id) :=
  h.lists_other hkey _

theorem zadd_other (hq : q ≠ queue) (score : Nat) :
    SameOn queue ids keys st (st'.zadd q score id) :=
  h.trans { (refl : SameOn queue ids keys st' st') with delayed := update_other (P := (· = queue)) _ hq _ }

theorem zrem_other (hq : q ≠ queue) : SameOn queue ids keys st (st'.zrem q id) :=
  h.trans { (refl : SameOn queue ids keys st' st') with delayed := update_other (P := (· = queue)) _ hq _ }

theorem hsetActive_other (hq : q ≠ queue) (entry : ActiveJobEntry) :
    SameOn queue ids keys st (st'.hsetActive q id entry) :=
  h.trans { (refl : SameOn queue ids keys st' st') with activeJobs := update_other (P := (· = queue)) _ hq _ }

theorem hdelActive_other (hq : q ≠ queue) : SameOn queue ids keys st (st'.hdelActive q id) :=
  h.trans { (refl : SameOn queue ids keys st' st') with activeJobs := update_other (P := (· = queue)) _ hq _ }

theorem setHeartbeat_other (hid : id ∉ ids) (now ttlSec : Nat) :
    SameOn queue ids keys st (st'.setHeartbeat now ttlSec id) :=
  h.trans { (refl : SameOn queue ids keys st' st') with heartbeats := update_other _ hid _ }

theorem delHeartbeat_other (hid : id ∉ ids) : SameOn queue ids keys st (st'.delHeartbeat id) :=
  h.trans { (refl : SameOn queue ids keys st' st') with heartbeats := update_other _ hid _ }

theorem rpoplpush_other {source destination : ListKey} {id : JobId} {st'' : Store}
    (hsource : source.queue ≠ queue) (hdestination : destination.queue ≠ queue)
    (hpop : st'.rpoplpush source destination = some (id, st'')) :
    SameOn queue ids keys st st'' := by
  obtain ⟨rest, -, rfl⟩ := Store.rpoplpush_eq_some hpop
  exact (h.lists_other hsource rest).lpush_other hdestination

/-- The script of another queue writes that queue's list and a key that is not shared. -/
theorem idempotentEnqueue_other {key : String} {list : ListKey} (hkey : key ∉ keys)
    (hlist : list.queue ≠ queue) (now ttl : Nat) :
    SameOn queue ids keys st (st'.idempotentEnqueue now key list id ttl).2 := by
  unfold Store.idempotentEnqueue
  cases Volatile.get? now (st'.idempotency key) with
  | none =>
    have hslot : SameOn queue ids keys st { st' with
        idempotency := Function.update st'.idempotency key (some (.setEx now ttl id)) } :=
      h.trans { (refl : SameOn queue ids keys st' st') with
        idempotency := update_other _ hkey _ }
    exact hslot.lpush_other hlist
  | some holder => exact h

end Other

end Store.SameOn

/-! ## The components of the queue -/

/-- The effects differ in the store only, and there in nothing that belongs to the queue. -/
structure SameEffect {Pc : Type} (queue : QueueName) (ids : Set JobId) (keys : Set String)
    (e e' : Effect Pc) : Prop where
  pc : e.pc = e'.pc
  events : e.events = e'.events
  store : Store.SameOn queue ids keys e.store e'.store

section Components

variable {env : Env T} {now : Nat} {st st' : Store} {ids : Set JobId} {keys : Set String}
  (h : Store.SameOn env.queueName ids keys st st')

include h

/-- A producer answers and acts by its own record and slot, so two stores that agree on these
take it the same way. -/
theorem producerStep_same {pc : ProducerPc T}
    (hkeys : ∀ id job key, pc = .claim id job key → key ∈ keys) :
    Option.Rel (SameEffect env.queueName ids keys) (producerStep env now st pc)
      (producerStep env now st' pc) := by
  cases pc with
  | idle => exact .none
  | save id job key => exact .some ⟨rfl, rfl, h.hmset id _⟩
  | claim id job key =>
    have hkey : key ∈ keys := hkeys id job key rfl
    obtain ⟨hanswer, hstore⟩ := h.idempotentEnqueue hkey now
      (.waitingList env.queueName job.priority) id idempotencyTtlSec
    simp only [producerStep, hanswer, h.idempotency key hkey]
    split
    · exact .some ⟨rfl, rfl, hstore⟩
    · exact .some ⟨rfl, rfl, hstore⟩
  | push id job => exact .some ⟨rfl, rfl, h.lpush _ id⟩
  | discard id claimedId => exact .some ⟨rfl, rfl, h.delJob id⟩

/-- A worker pops from the lists of its queue and otherwise goes by the id it holds. -/
theorem workerStep_same {w draw : Nat} {handlers : List String} {pc : WorkerPc T}
    (hids : ∀ id, pc.jobId? = some id → id ∈ ids) :
    Option.Rel (SameEffect env.queueName ids keys) (workerStep env now w draw handlers st pc)
      (workerStep env now w draw handlers st' pc) := by
  cases pc with
  | poll p =>
    have hwaiting : (ListKey.waitingList env.queueName p.name).queue = env.queueName := rfl
    have hpop := h.rpoplpush hwaiting (.processingList env.queueName)
    simp only [workerStep]
    -- both pop the same id, or both nothing
    generalize st.rpoplpush _ _ = x at *
    generalize st'.rpoplpush _ _ = y at *
    cases hpop with
    | none => exact .some ⟨rfl, rfl, h⟩
    | some hxy =>
      obtain ⟨hid, hstore⟩ := hxy
      have hevents := congrArg (fun id => [Event.dequeued id]) hid
      exact .some ⟨congrArg WorkerPc.fetch hid, hevents, hstore⟩
  | fetch jobId =>
    simp only [workerStep, h.jobs jobId (hids jobId rfl)]
    split
    · exact .some ⟨rfl, rfl, h⟩
    · split
      · exact .some ⟨rfl, rfl, h⟩
      · exact .some ⟨rfl, rfl, h⟩
  | markActive jobId job => exact .some ⟨rfl, rfl, h.hmset jobId _⟩
  | markFailed jobId => exact .some ⟨rfl, rfl, h.hmset jobId _⟩
  | register jobId job startedAt => exact .some ⟨rfl, rfl, h.hsetActive _ jobId _⟩
  | beat jobId job => exact .some ⟨rfl, rfl, h.setHeartbeat now _ jobId⟩
  | running => exact .none
  | complete jobId elapsed =>
    exact .some ⟨rfl, rfl, (h.hmset jobId _).counters _ _ _ _ _ _⟩
  | countFailure jobId job => exact .some ⟨rfl, rfl, h.counters _ _ _ _ _ _⟩
  | writeDelayed jobId nextAttempt delay => exact .some ⟨rfl, rfl, h.hmset jobId _⟩
  | writeDead jobId nextAttempt => exact .some ⟨rfl, rfl, h.hmset jobId _⟩
  | zaddDelayed jobId score => exact .some ⟨rfl, rfl, h.zadd _ score jobId⟩
  | lpushDead jobId => exact .some ⟨rfl, rfl, h.lpush _ jobId⟩
  | cleanup jobId =>
    exact .some ⟨rfl, rfl, ((h.hdelActive _ jobId).delHeartbeat jobId).lrem _ 1 jobId⟩
  | crashed => exact .none

/-- A scheduler pass reads the delayed set of its queue and the records of what it moves. -/
theorem schedulerStep_same {pc : SchedulerPc} (hids : ∀ id ∈ pc.pending, id ∈ ids) :
    SameEffect env.queueName ids keys (schedulerStep env now st pc)
      (schedulerStep env now st' pc) := by
  cases pc with
  | idle => exact ⟨by simp only [schedulerStep, h.delayed _ rfl], rfl, h⟩
  | lookup jobId rest =>
    have hid : jobId ∈ ids := hids jobId List.mem_cons_self
    exact ⟨by simp only [schedulerStep, h.jobs jobId hid], rfl, h⟩
  | move jobId priority rest =>
    exact ⟨rfl, rfl, ((h.zrem _ jobId).lpush _ jobId).hmset jobId _⟩

/-- A watchdog pass reads the lists and the hash of its queue and the heartbeats and records of
what it has listed. -/
theorem watchdogStep_same {pc : WatchdogPc} (hids : ∀ id ∈ pc.pending, id ∈ ids) :
    SameEffect env.queueName ids keys (watchdogStep env now st pc)
      (watchdogStep env now st' pc) := by
  cases pc with
  | idle => exact ⟨by simp only [watchdogStep, h.activeJobs _ rfl], rfl, h⟩
  | readProcessing activeIds =>
    have hlist := h.lists (.processingList env.queueName) rfl
    exact ⟨by simp only [watchdogStep, hlist], rfl, h⟩
  | readHeartbeats jobIds =>
    have halive : ∀ id ∈ jobIds, (!st.alive now id) = !st'.alive now id := by
      intro id hid
      -- only the heartbeats of the listed jobs are read
      simp only [Store.alive, h.heartbeats id (hids id hid)]
    exact ⟨congrArg WatchdogPc.next (List.filter_congr halive), rfl, h⟩
  | inspect jobId rest =>
    have hid : jobId ∈ ids := hids jobId List.mem_cons_self
    exact ⟨by simp only [watchdogStep, h.jobs jobId hid], rfl, h⟩
  | requeue jobId jobHash rest =>
    have hremoved := (h.hdelActive env.queueName jobId).lrem (.processingList env.queueName) 1 jobId
    refine ⟨rfl, rfl, ?_⟩
    simp only [watchdogStep, requeueTransaction]
    split
    · exact hremoved
    · exact (hremoved.hmset jobId _).lpush _ jobId

theorem retryRequest_same {id : JobId} (hid : id ∈ ids) :
    retryRequest env st id = retryRequest env st' id := by
  unfold retryRequest getJob
  rw [h.jobs id hid]

/-- The transaction of a retry goes by the record it was given, and by nothing it reads. -/
theorem retryStep_same (pc : RetryPc) :
    Option.Rel (SameEffect env.queueName ids keys) (retryStep env st pc)
      (retryStep env st' pc) := by
  cases pc with
  | idle => exact .none
  | requeue id priority => exact .some ⟨rfl, rfl, ((h.lrem _ 0 id).hmset id _).lpush _ id⟩

end Components

/-! ## The components of other queues -/

section Others

variable {env : Env T} {now : Nat} {st : Store} {queue : QueueName} {ids : Set JobId}
  {keys : Set String} (hqueue : env.queueName ≠ queue)

include hqueue

/-- A producer of another queue, with an id and a key of its own, stays outside the share. -/
theorem producerStep_other {pc : ProducerPc T} {e : Effect (ProducerPc T)}
    (hids : ∀ id, pc.jobId? = some id → id ∉ ids)
    (hkeys : ∀ id job key, pc = .claim id job key → key ∉ keys)
    (he : producerStep env now st pc = some e) : st.SameOn queue ids keys e.store := by
  cases pc with
  | idle => cases he
  | save id job key =>
    cases he
    exact Store.SameOn.refl.hmset_other (hids id rfl) _
  | claim id job key =>
    rw [store_of_claim he]
    have hwaiting : (ListKey.waitingList env.queueName job.priority).queue ≠ queue := hqueue
    exact Store.SameOn.refl.idempotentEnqueue_other (hkeys id job key rfl) hwaiting _ _
  | push id job =>
    cases he
    exact Store.SameOn.refl.lpush_other hqueue
  | discard id claimedId =>
    cases he
    exact Store.SameOn.refl.delJob_other (hids id rfl)

/-- So does a worker of another queue, as long as the ids it gets hold of are not of the share.
-/
theorem workerStep_other {w draw : Nat} {handlers : List String} {pc : WorkerPc T}
    {e : Effect (WorkerPc T)} (hids : ∀ id, pc.jobId? = some id → id ∉ ids)
    (he : workerStep env now w draw handlers st pc = some e) :
    st.SameOn queue ids keys e.store := by
  have hst : st.SameOn queue ids keys st := .refl
  have hwaiting : ∀ p, (ListKey.waitingList env.queueName p).queue ≠ queue := fun _ => hqueue
  have hprocessing : (ListKey.processingList env.queueName).queue ≠ queue := hqueue
  cases pc with
  | poll p =>
    simp only [workerStep] at he
    split at he
    · next jobId st' hpop =>
      cases he
      exact hst.rpoplpush_other (hwaiting p.name) hprocessing hpop
    · cases he
      exact hst
  | fetch jobId =>
    simp only [workerStep] at he
    split at he
    · cases he
      exact hst
    · split at he <;> cases he <;> exact hst
  | markActive jobId | markFailed jobId | writeDelayed jobId | writeDead jobId =>
    cases he
    exact hst.hmset_other (hids jobId rfl) _
  | register jobId job startedAt =>
    cases he
    exact hst.hsetActive_other hqueue _
  | beat jobId job =>
    cases he
    exact hst.setHeartbeat_other (hids jobId rfl) _ _
  | running => cases he
  | complete jobId elapsed =>
    cases he
    exact { hst.hmset_other (hids jobId rfl) _ with }
  | countFailure jobId job =>
    cases he
    exact { hst with }
  | zaddDelayed jobId score =>
    cases he
    exact hst.zadd_other hqueue _
  | lpushDead jobId =>
    cases he
    exact hst.lpush_other hqueue
  | cleanup jobId =>
    cases he
    have hid : jobId ∉ ids := hids jobId rfl
    exact ((hst.hdelActive_other hqueue).delHeartbeat_other hid).lrem_other hprocessing 1
  | crashed => cases he

/-- So does a scheduler pass. -/
theorem schedulerStep_other {pc : SchedulerPc} (hids : ∀ id ∈ pc.pending, id ∉ ids) :
    st.SameOn queue ids keys (schedulerStep env now st pc).store := by
  cases pc with
  | idle => exact .refl
  | lookup jobId rest => exact .refl
  | move jobId priority rest =>
    have hid : jobId ∉ ids := hids jobId List.mem_cons_self
    have hwaiting : (ListKey.waitingList env.queueName priority).queue ≠ queue := hqueue
    exact ((Store.SameOn.refl.zrem_other hqueue).lpush_other hwaiting).hmset_other hid _

/-- So does a watchdog pass. -/
theorem watchdogStep_other {pc : WatchdogPc} (hids : ∀ id ∈ pc.pending, id ∉ ids) :
    st.SameOn queue ids keys (watchdogStep env now st pc).store := by
  cases pc with
  | requeue jobId jobHash rest =>
    have hid : jobId ∉ ids := hids jobId List.mem_cons_self
    have hprocessing : (ListKey.processingList env.queueName).queue ≠ queue := hqueue
    have hwaiting : ∀ p, (ListKey.waitingList env.queueName p).queue ≠ queue := fun _ => hqueue
    have hremoved : st.SameOn queue ids keys
        ((st.hdelActive env.queueName jobId).lrem (.processingList env.queueName) 1 jobId) :=
      (Store.SameOn.refl.hdelActive_other hqueue).lrem_other hprocessing 1
    simp only [watchdogStep, requeueTransaction]
    split
    · exact hremoved
    · exact (hremoved.hmset_other hid _).lpush_other (hwaiting _)
  | _ => exact .refl

/-- So does a retry request. -/
theorem retryStep_other {pc : RetryPc} {e : Effect RetryPc}
    (hids : ∀ id, pc.jobId? = some id → id ∉ ids) (he : retryStep env st pc = some e) :
    st.SameOn queue ids keys e.store := by
  cases pc with
  | idle => cases he
  | requeue id priority =>
    cases he
    have hdead : (ListKey.deadList env.queueName).queue ≠ queue := hqueue
    have hwaiting : (ListKey.waitingList env.queueName priority).queue ≠ queue := hqueue
    have hid : id ∉ ids := hids id rfl
    exact ((Store.SameOn.refl.lrem_other hdead 0).hmset_other hid _).lpush_other hwaiting

end Others

end DistriSys
