import DistriSys.Core.Operations

/-!
# Where a job lies

A job of a queue can lie on a waiting list, on the processing list, in the
delayed set and on the dead list (`Place`). Nothing in Redis keeps it from lying in
several places at once, so a store is read as a count for each place, and
`Store.OnlyAt` says that a job lies in one place, once, or nowhere.

Whole operations are about one job at a time. `Store.Same` is the frame: all that a
store says about a job is what another store says. A pass is a sequence of
transactions for different jobs, so from a single job's view it is its own
transaction, if the pass deals with it, and nothing else (**`same_pass`**,
**`same_pass_of_mem`**).

- `Store.countAt_…`: what a command does to the count of its own job in each place, so that a
  transaction is computed place by place;
- `Store.Same.…`: commands about another job;
- `About`: a transaction that is about one job, with the rules for passes made of them.
-/

namespace DistriSys

open Js Redis

variable {T : Type}

/-! ## Places -/

/-- Where a job of a queue can lie. -/
inductive Place where
  | waiting (priority : JobPriority)
  | processing
  | delayed
  | dead
deriving DecidableEq

/-- How often a job lies in a place. -/
def Store.countAt (st : Store) (queue : QueueName) (id : JobId) : Place → Nat
  | .waiting p => (st.lists (.waitingList queue p.name)).count id
  | .processing => (st.lists (.processingList queue)).count id
  | .delayed => (st.delayed queue).members.count id
  | .dead => (st.lists (.deadList queue)).count id

/-- The job lies in this place, once, and nowhere else; `none` is nowhere at all. -/
def Store.OnlyAt (st : Store) (queue : QueueName) (id : JobId) (home : Option Place) : Prop :=
  ∀ place, st.countAt queue id place = if home = some place then 1 else 0

/-- A push on the waiting list of this priority lands there; of the names a record may
give, only those of the three priorities are polled. -/
def Place.Receives (priority : String) : Place → Prop
  | .waiting p => priority = p.name
  | _ => False

instance (name : String) : DecidablePred (Place.Receives name)
  | .waiting _ => inferInstanceAs (Decidable (_ = _))
  | .processing | .delayed | .dead => isFalse nofun

/-- A job with this record belongs there: the status says so, and for a waiting
list the priority too. -/
def Place.Fits (record : JobHash) : Place → Prop
  | .waiting p => record.status = some JobStatus.waiting.name ∧ orNormal record.priority = p.name
  | .processing => record.status = some JobStatus.active.name
  | .delayed => record.status = some JobStatus.delayed.name
  | .dead => record.status = some JobStatus.dead.name

@[simp] theorem Place.receives_name {q : JobPriority} {place : Place} :
    place.Receives q.name ↔ place = .waiting q := by
  cases place <;> simp [Place.Receives, eq_comm]

section Counts

variable {st : Store} {queue : QueueName} {id : JobId} {place : Place}

@[simp] theorem Store.countAt_hmset {fields : JobHash} :
    (st.hmset id fields).countAt queue id place = st.countAt queue id place := by
  cases place <;> rfl

@[simp] theorem Store.countAt_hdelActive :
    (st.hdelActive queue id).countAt queue id place = st.countAt queue id place := by
  cases place <;> rfl

@[simp] theorem Store.countAt_delHeartbeat :
    (st.delHeartbeat id).countAt queue id place = st.countAt queue id place := by
  cases place <;> rfl

@[simp] theorem Store.countAt_lpush_waiting {priority : String} :
    (st.lpush (.waitingList queue priority) id).countAt queue id place =
      st.countAt queue id place + if place.Receives priority then 1 else 0 := by
  cases place with
  | waiting p =>
    by_cases hp : priority = p.name
    · simp [countAt, Place.Receives, hp]
    · simp [countAt, Place.Receives, hp, Ne.symm hp]
  | _ => simp [countAt, Place.Receives]

@[simp] theorem Store.countAt_lpush_dead :
    (st.lpush (.deadList queue) id).countAt queue id place =
      st.countAt queue id place + if place = .dead then 1 else 0 := by
  cases place <;> simp [countAt]

@[simp] theorem Store.countAt_lrem_processing :
    (st.lrem (.processingList queue) 1 id).countAt queue id place =
      st.countAt queue id place - if place = .processing then 1 else 0 := by
  cases place <;> simp [countAt]

@[simp] theorem Store.countAt_lrem_dead :
    (st.lrem (.deadList queue) 0 id).countAt queue id place =
      if place = .dead then 0 else st.countAt queue id place := by
  cases place <;> simp [countAt]

@[simp] theorem Store.countAt_zadd {score : Nat} :
    (st.zadd queue score id).countAt queue id place =
      if place = .delayed then 1 else st.countAt queue id place := by
  cases place <;> simp [countAt]

@[simp] theorem Store.countAt_zrem :
    (st.zrem queue id).countAt queue id place =
      if place = .delayed then 0 else st.countAt queue id place := by
  cases place <;> simp [countAt]

/-- `RPOPLPUSH` moves the id it returns from one place to another. -/
theorem Store.countAt_rpoplpush {st' : Store} {p : JobPriority}
    (h : st.rpoplpush (.waitingList queue p.name) (.processingList queue) = some (id, st'))
    (place : Place) :
    st.countAt queue id place + (if place = .processing then 1 else 0) =
      st'.countAt queue id place + (if place = .waiting p then 1 else 0) := by
  obtain ⟨rest, hpop, rfl⟩ := rpoplpush_eq_some h
  have hcount := count_rpop hpop id
  rw [if_pos rfl] at hcount
  cases place with
  | waiting p' =>
    by_cases hp : p' = p
    · subst hp
      simp [countAt, hcount]
    · simp [countAt, hp]
  | processing => simp [countAt]
  | delayed => simp [countAt]
  | dead => simp [countAt]

end Counts

theorem isEmpty_of_status {jobHash : JobHash} {status : String} (h : jobHash.status = some status) :
    jobHash.isEmpty = false := by
  refine decide_eq_false ?_
  rintro rfl
  cases h

/-! ## Everything about one job -/

/-- All that `st'` says about `id` is what `st` says. -/
structure Store.Same (id : JobId) (st st' : Store) : Prop where
  record : st'.jobs id = st.jobs id
  heartbeat : st'.heartbeats id = st.heartbeats id
  listed : ∀ key, (st'.lists key).count id = (st.lists key).count id
  delayed : ∀ queue, (st'.delayed queue).members.count id = (st.delayed queue).members.count id
  active : ∀ queue, id ∈ (st'.activeJobs queue).keys ↔ id ∈ (st.activeJobs queue).keys

namespace Store.Same

variable {queue : QueueName} {id j : JobId} {st st' st'' : Store}

theorem refl : Same id st st := ⟨rfl, rfl, fun _ => rfl, fun _ => rfl, fun _ => .rfl⟩

theorem trans (h : Same id st st') (h' : Same id st' st'') : Same id st st'' :=
  ⟨h'.record.trans h.record, h'.heartbeat.trans h.heartbeat,
    fun key => (h'.listed key).trans (h.listed key),
    fun queue => (h'.delayed queue).trans (h.delayed queue),
    fun queue => (h'.active queue).trans (h.active queue)⟩

theorem countAt (h : Same id st st') (place : Place) :
    st'.countAt queue id place = st.countAt queue id place := by
  cases place with
  | delayed => exact h.delayed queue
  | _ => exact h.listed _

theorem hmset {fields : JobHash} (hj : j ≠ id) : Same id st (st.hmset j fields) :=
  ⟨by simp [Ne.symm hj], rfl, fun _ => rfl, fun _ => rfl, fun _ => .rfl⟩

theorem delJob (hj : j ≠ id) : Same id st (st.delJob j) :=
  ⟨by simp [Ne.symm hj], rfl, fun _ => rfl, fun _ => rfl, fun _ => .rfl⟩

/-- Idempotency slots say nothing about a job. -/
theorem slots {slots : String → Option (Volatile JobId)} :
    Same id st { st with idempotency := slots } :=
  ⟨rfl, rfl, fun _ => rfl, fun _ => rfl, fun _ => .rfl⟩

/-- Writing a list that has as many copies of `id` as before. -/
theorem setList {key : ListKey} {ids : List JobId} (hids : ids.count id = (st.lists key).count id) :
    Same id st { st with lists := Function.update st.lists key ids } := by
  refine ⟨rfl, rfl, ?_, fun _ => rfl, fun _ => .rfl⟩
  intro key'
  by_cases hkey : key' = key
  · subst hkey
    simpa using hids
  · simp [hkey]

theorem lpush {key : ListKey} (hj : j ≠ id) : Same id st (st.lpush key j) :=
  setList (by simp [hj])

theorem lrem_one {key : ListKey} (hj : j ≠ id) : Same id st (st.lrem key 1 j) :=
  setList (by simp [hj])

theorem lrem_zero {key : ListKey} (hj : j ≠ id) : Same id st (st.lrem key 0 j) :=
  setList (by simp [hj])

/-- Likewise for a delayed set, -/
theorem setDelayed {due : ZSet JobId}
    (hdue : due.members.count id = (st.delayed queue).members.count id) :
    Same id st { st with delayed := Function.update st.delayed queue due } := by
  refine ⟨rfl, rfl, fun _ => rfl, ?_, fun _ => .rfl⟩
  intro queue'
  by_cases hqueue : queue' = queue
  · subst hqueue
    simpa using hdue
  · simp [hqueue]

/-- and for a hash of active jobs. -/
theorem setActive {entries : Hash JobId ActiveJobEntry}
    (hentries : id ∈ entries.keys ↔ id ∈ (st.activeJobs queue).keys) :
    Same id st { st with activeJobs := Function.update st.activeJobs queue entries } := by
  refine ⟨rfl, rfl, fun _ => rfl, fun _ => rfl, ?_⟩
  intro queue'
  by_cases hqueue : queue' = queue
  · subst hqueue
    simpa using hentries
  · simp [hqueue]

theorem zadd {score : Nat} (hj : j ≠ id) : Same id st (st.zadd queue score j) :=
  setDelayed (by simp [hj])

theorem zrem (hj : j ≠ id) : Same id st (st.zrem queue j) :=
  setDelayed (by simp [hj])

theorem hdelActive (hj : j ≠ id) : Same id st (st.hdelActive queue j) :=
  setActive (by simp [Ne.symm hj])

theorem hsetActive {entry : ActiveJobEntry} (hj : j ≠ id) :
    Same id st (st.hsetActive queue j entry) :=
  setActive (by simp [Ne.symm hj])

theorem setHeartbeat {now ttl : Nat} (hj : j ≠ id) : Same id st (st.setHeartbeat now ttl j) :=
  ⟨rfl, by simp [Ne.symm hj], fun _ => rfl, fun _ => rfl, fun _ => .rfl⟩

theorem delHeartbeat (hj : j ≠ id) : Same id st (st.delHeartbeat j) :=
  ⟨rfl, by simp [Ne.symm hj], fun _ => rfl, fun _ => rfl, fun _ => .rfl⟩

/-- `RPOPLPUSH` is about the id it returns. -/
theorem rpoplpush {source destination : ListKey} (hj : j ≠ id)
    (h : st.rpoplpush source destination = some (j, st')) : Same id st st' := by
  obtain ⟨rest, hpop, rfl⟩ := Store.rpoplpush_eq_some h
  have hrest : rest.count id = (st.lists source).count id := by
    rw [count_rpop hpop id, if_neg hj, Nat.add_zero]
  exact (setList hrest).trans (lpush hj)

end Store.Same

/-! ## Passes -/

section Passes

variable {env : Env T} {id j : JobId} {ids : List JobId} {st : Store}

/-- A transaction that is about the id it is run for. -/
structure About (f : Store → JobId → Store) : Prop where
  same : ∀ (st : Store) (j id : JobId), j ≠ id → st.Same id (f st j)
  slots : ∀ (st : Store) (j : JobId), (f st j).idempotency = st.idempotency

/-- A pass leaves alone what it does not deal with. -/
theorem same_pass {f : Store → JobId → Store} (hf : About f) (hid : id ∉ ids) :
    st.Same id (ids.foldl f st) := by
  induction ids generalizing st with
  | nil => exact .refl
  | cons j ids ih =>
    obtain ⟨hj, hids⟩ := not_or.mp (List.mem_cons.not.mp hid)
    exact (hf.same st j id (Ne.symm hj)).trans (ih hids)

theorem slots_pass {f : Store → JobId → Store} (hf : About f) :
    (ids.foldl f st).idempotency = st.idempotency := by
  induction ids generalizing st with
  | nil => rfl
  | cons j ids ih => exact ih.trans (hf.slots st j)

/-- What a pass does to a job it deals with is the one transaction for that job. -/
theorem same_pass_of_mem {f : Store → JobId → Store} (hf : About f) (hnodup : ids.Nodup)
    (hid : id ∈ ids) : ∃ st', st.Same id st' ∧ (f st' id).Same id (ids.foldl f st) := by
  induction ids generalizing st with
  | nil => cases hid
  | cons j ids ih =>
    obtain ⟨hj, hnodup⟩ := List.nodup_cons.mp hnodup
    rcases List.mem_cons.mp hid with rfl | hid
    · exact ⟨st, .refl, same_pass hf hj⟩
    · obtain ⟨st', hbefore, hafter⟩ :
          ∃ st', (f st j).Same id st' ∧ (f st' id).Same id (ids.foldl f (f st j)) := ih hnodup hid
      have hne : j ≠ id := fun h => hj (h ▸ hid)
      exact ⟨st', (hf.same st j id hne).trans hbefore, hafter⟩

theorem about_requeueTransaction (env : Env T) :
    About fun st j => requeueTransaction env st j (st.jobs j) where
  same st j id hne := by
    have hremoved : st.Same id
        ((st.hdelActive env.queueName j).lrem (.processingList env.queueName) 1 j) :=
      (Store.Same.hdelActive hne).trans (.lrem_one hne)
    simp only [requeueTransaction]
    split
    · exact hremoved
    · exact (hremoved.trans (.hmset hne)).trans (.lpush hne)
  slots st j := by
    simp only [requeueTransaction]
    split <;> rfl

theorem about_releaseTransaction (env : Env T) :
    About fun st j => releaseTransaction env st j (orNormal (st.jobs j).priority) where
  same _ _ _ hne := ((Store.Same.zrem hne).trans (.lpush hne)).trans (.hmset hne)
  slots _ _ := rfl

theorem nodup_stalledIds (env : Env T) (now : Nat) (st : Store) : (stalledIds env now st).Nodup :=
  (nodup_distinct _).filter _

theorem mem_stalledIds {now : Nat} :
    id ∈ stalledIds env now st ↔
      (id ∈ (st.activeJobs env.queueName).keys ∨ id ∈ st.lists (.processingList env.queueName)) ∧
        st.alive now id = false := by
  simp [stalledIds]

/-- A watchdog pass leaves alone the jobs it does not take for stalled. -/
theorem same_checkStalledJobs {now : Nat} (hid : id ∉ stalledIds env now st) :
    st.Same id (checkStalledJobs env now st) :=
  same_pass (about_requeueTransaction env) hid

/-- The transaction of the watchdog for a job with a record. -/
theorem record_requeueTransaction (env : Env T) (st : Store) (id : JobId) {jobHash : JobHash}
    (h : jobHash.isEmpty = false) :
    ((requeueTransaction env st id jobHash).jobs id).status = some JobStatus.waiting.name ∧
      ((requeueTransaction env st id jobHash).jobs id).priority = (st.jobs id).priority := by
  simp [requeueTransaction, h, JobHash.patch]

/-- It takes one entry off the processing list and pushes one on a waiting list. -/
theorem countAt_requeueTransaction {jobHash : JobHash} (h : jobHash.isEmpty = false)
    (place : Place) :
    (requeueTransaction env st id jobHash).countAt env.queueName id place =
      st.countAt env.queueName id place - (if place = .processing then 1 else 0) +
        (if place.Receives (orNormal jobHash.priority) then 1 else 0) := by
  simp [requeueTransaction, h]

/-- A watchdog pass requeues a stalled job, in the priority its record gives. -/
theorem requeued_checkStalledJobs {now : Nat} (hid : id ∈ stalledIds env now st)
    (hrecord : (st.jobs id).isEmpty = false) :
    ((checkStalledJobs env now st).jobs id).status = some JobStatus.waiting.name ∧
      ((checkStalledJobs env now st).jobs id).priority = (st.jobs id).priority ∧
      ∀ place, (checkStalledJobs env now st).countAt env.queueName id place =
        st.countAt env.queueName id place - (if place = .processing then 1 else 0) +
          (if place.Receives (orNormal (st.jobs id).priority) then 1 else 0) := by
  obtain ⟨st', hbefore, hafter⟩ :=
    same_pass_of_mem (about_requeueTransaction env) (nodup_stalledIds env now st) hid
  have hrecord' : (st'.jobs id).isEmpty = false := by rwa [hbefore.record]
  have hwritten := record_requeueTransaction env st' id hrecord'
  rw [checkStalledJobs, hafter.record]
  refine ⟨hwritten.1, by rw [hwritten.2, hbefore.record], ?_⟩
  intro place
  rw [hafter.countAt, countAt_requeueTransaction hrecord', hbefore.countAt, hbefore.record]

/-- A watchdog pass drops a stalled id without a record. -/
theorem dropped_checkStalledJobs {now : Nat} (hid : id ∈ stalledIds env now st)
    (hrecord : st.jobs id = .absent) : (checkStalledJobs env now st).jobs id = .absent := by
  obtain ⟨st', hbefore, hafter⟩ :=
    same_pass_of_mem (about_requeueTransaction env) (nodup_stalledIds env now st) hid
  have hrecord' : st'.jobs id = .absent := hbefore.record.trans hrecord
  rw [checkStalledJobs, hafter.record]
  simp [requeueTransaction, hrecord', JobHash.isEmpty]

end Passes

end DistriSys
