import DistriSys.Core.System

/-!
# Where the store names a job

`Store.Mentions st id`: some key other than the record itself names `id`. Each
command adds at most its own argument to the ids mentioned (the lemmas
`Store.Mentions.of_…`).

`Consumes held st st'` collects what the components other than producers do to
the store: commands about ids they have in hand, where a record is changed only
by writing a status, with or without an attempts count. One induction over it
then serves every consumer (`Consumes.mentions`, `Consumes.record`).
-/

namespace DistriSys

open Js Redis

/-- `id` is named by a list, a delayed set, an active-jobs hash or an idempotency slot. -/
inductive Store.Mentions (st : Store) (id : JobId) : Prop
  | listed (key : ListKey) (h : id ∈ st.lists key)
  | delayed (queue : QueueName) (h : id ∈ (st.delayed queue).members)
  | active (queue : QueueName) (h : id ∈ (st.activeJobs queue).keys)
  | slot (key : String) (v : Volatile JobId) (h : st.idempotency key = some v) (hv : v.value = id)

namespace Store

variable {st : Store} {id j : JobId}

theorem not_mentions_empty : ¬ Store.empty.Mentions id := by
  rintro (⟨_, h⟩ | ⟨_, h⟩ | ⟨_, h⟩ | ⟨_, _, h, -⟩)
  · exact List.not_mem_nil h
  · exact ZSet.mem_empty.mp h
  · exact Hash.mem_keys_empty.mp h
  · cases h

/-- Only the four kinds of keys that hold ids matter. -/
theorem Mentions.congr {st' : Store} (h : st'.Mentions id) (hlists : st'.lists = st.lists)
    (hdelayed : st'.delayed = st.delayed) (hactive : st'.activeJobs = st.activeJobs)
    (hslots : st'.idempotency = st.idempotency) : st.Mentions id := by
  cases h with
  | listed key h => exact .listed key (hlists ▸ h)
  | delayed queue h => exact .delayed queue (hdelayed ▸ h)
  | active queue h => exact .active queue (hactive ▸ h)
  | slot key v h hv => exact .slot key v (hslots ▸ h) hv

theorem Mentions.of_hmset {fields : JobHash} (h : (st.hmset j fields).Mentions id) :
    st.Mentions id :=
  h.congr rfl rfl rfl rfl

theorem Mentions.of_delJob (h : (st.delJob j).Mentions id) : st.Mentions id :=
  h.congr rfl rfl rfl rfl

theorem Mentions.of_setHeartbeat {now ttl : Nat} (h : (st.setHeartbeat now ttl j).Mentions id) :
    st.Mentions id :=
  h.congr rfl rfl rfl rfl

theorem Mentions.of_delHeartbeat (h : (st.delHeartbeat j).Mentions id) : st.Mentions id :=
  h.congr rfl rfl rfl rfl

theorem Mentions.of_lpush {key : ListKey} (h : (st.lpush key j).Mentions id) :
    id = j ∨ st.Mentions id := by
  cases h with
  | listed key' h =>
    by_cases hkey : key' = key
    · subst hkey
      rcases List.mem_cons.mp (by simpa [lpush] using h) with rfl | h
      · exact .inl rfl
      · exact .inr (.listed key' h)
    · exact .inr (.listed key' (by simpa [lpush, hkey] using h))
  | delayed queue h => exact .inr (.delayed queue h)
  | active queue h => exact .inr (.active queue h)
  | slot key v h hv => exact .inr (.slot key v h hv)

theorem Mentions.of_lrem {key : ListKey} {n : Nat} (h : (st.lrem key n j).Mentions id) :
    st.Mentions id := by
  cases h with
  | listed key' h =>
    by_cases hkey : key' = key
    · subst hkey
      exact .listed key' (mem_of_mem_lrem (by simpa [Store.lrem] using h))
    · exact .listed key' (by simpa [Store.lrem, hkey] using h)
  | delayed queue h => exact .delayed queue h
  | active queue h => exact .active queue h
  | slot key v h hv => exact .slot key v h hv

/-- What `RPOPLPUSH` returns was in the source list. -/
theorem mentions_of_rpoplpush {source destination : ListKey} {st' : Store}
    (h : st.rpoplpush source destination = some (j, st')) : st.Mentions j := by
  obtain ⟨rest, hpop, -⟩ := rpoplpush_eq_some h
  exact .listed source (by simp [rpop_eq_some.mp hpop])

theorem Mentions.of_rpoplpush {source destination : ListKey} {st' : Store}
    (hst : st.rpoplpush source destination = some (j, st')) (h : st'.Mentions id) :
    id = j ∨ st.Mentions id := by
  obtain ⟨rest, hpop, rfl⟩ := rpoplpush_eq_some hst
  refine h.of_lpush.imp_right fun h => ?_
  cases h with
  | listed key h =>
    by_cases hkey : key = source
    · subst hkey
      have h' : id ∈ rest := by simpa using h
      exact .listed key (by simp [rpop_eq_some.mp hpop, h'])
    · exact .listed key (by simpa [hkey] using h)
  | delayed queue h => exact .delayed queue h
  | active queue h => exact .active queue h
  | slot key v h hv => exact .slot key v h hv

theorem Mentions.of_zadd {queue : QueueName} {score : Nat}
    (h : (st.zadd queue score j).Mentions id) : id = j ∨ st.Mentions id := by
  cases h with
  | listed key h => exact .inr (.listed key h)
  | delayed queue' h =>
    by_cases hqueue : queue' = queue
    · subst hqueue
      have h : id = j ∨ id ∈ (st.delayed queue').members := by simpa [zadd] using h
      exact h.imp_right (.delayed queue')
    · exact .inr (.delayed queue' (by simpa [zadd, hqueue] using h))
  | active queue h => exact .inr (.active queue h)
  | slot key v h hv => exact .inr (.slot key v h hv)

theorem Mentions.of_zrem {queue : QueueName} (h : (st.zrem queue j).Mentions id) :
    st.Mentions id := by
  cases h with
  | listed key h => exact .listed key h
  | delayed queue' h =>
    by_cases hqueue : queue' = queue
    · subst hqueue
      exact .delayed queue' (ZSet.mem_zrem.mp (by simpa [zrem] using h)).1
    · exact .delayed queue' (by simpa [zrem, hqueue] using h)
  | active queue h => exact .active queue h
  | slot key v h hv => exact .slot key v h hv

theorem Mentions.of_hsetActive {queue : QueueName} {entry : ActiveJobEntry}
    (h : (st.hsetActive queue j entry).Mentions id) : id = j ∨ st.Mentions id := by
  cases h with
  | listed key h => exact .inr (.listed key h)
  | delayed queue h => exact .inr (.delayed queue h)
  | active queue' h =>
    by_cases hqueue : queue' = queue
    · subst hqueue
      have h : id = j ∨ id ∈ (st.activeJobs queue').keys := by simpa [hsetActive] using h
      exact h.imp_right (.active queue')
    · exact .inr (.active queue' (by simpa [hsetActive, hqueue] using h))
  | slot key v h hv => exact .inr (.slot key v h hv)

theorem Mentions.of_hdelActive {queue : QueueName} (h : (st.hdelActive queue j).Mentions id) :
    st.Mentions id := by
  cases h with
  | listed key h => exact .listed key h
  | delayed queue h => exact .delayed queue h
  | active queue' h =>
    by_cases hqueue : queue' = queue
    · subst hqueue
      exact .active queue' (Hash.mem_keys_hdel.mp (by simpa [hdelActive] using h)).1
    · exact .active queue' (by simpa [hdelActive, hqueue] using h)
  | slot key v h hv => exact .slot key v h hv

/-- The script names at most the caller's id, and answers with it or with an id
the slot named already. -/
theorem Mentions.of_idempotentEnqueue {now ttl : Nat} {key : String} {list : ListKey}
    (h : (st.idempotentEnqueue now key list j ttl).2.Mentions id) : id = j ∨ st.Mentions id := by
  unfold idempotentEnqueue at h
  split at h
  · refine h.of_lpush.elim .inl fun h => ?_
    cases h with
    | listed key h => exact .inr (.listed key h)
    | delayed queue h => exact .inr (.delayed queue h)
    | active queue h => exact .inr (.active queue h)
    | slot key' v h hv =>
      by_cases hkey : key' = key
      · subst hkey
        obtain rfl : Volatile.setEx now ttl j = v := by simpa using h
        exact .inl hv.symm
      · exact .inr (.slot key' v (by simpa [hkey] using h) hv)
  · exact .inr h

end Store

/-! ## Commands of consumers -/

/-- The partial record writes of consumers: a status, or a status and an attempts count. -/
inductive JobHash.IsUpdate : JobHash → Prop
  | status (status : JobStatus) : IsUpdate { status := some status.name }
  | attempts (status : JobStatus) (n : Nat) :
      IsUpdate { status := some status.name, attempts := some (Nat.repr n) }

/-- `st'` comes from `st` by commands of a consumer that has the ids `held` in hand. -/
inductive Consumes (held : JobId → Prop) (st : Store) : Store → Prop
  | refl : Consumes held st st
  | hmset {st' : Store} {id : JobId} {fields : JobHash} (h : Consumes held st st') (hid : held id)
      (hfields : fields.IsUpdate) : Consumes held st (st'.hmset id fields)
  | lpush {st' : Store} {key : ListKey} {id : JobId} (h : Consumes held st st') (hid : held id) :
      Consumes held st (st'.lpush key id)
  | lrem {st' : Store} {key : ListKey} {n : Nat} {id : JobId} (h : Consumes held st st') :
      Consumes held st (st'.lrem key n id)
  | rpoplpush {st' st'' : Store} {source destination : ListKey} {id : JobId}
      (h : Consumes held st st') (hst : st'.rpoplpush source destination = some (id, st'')) :
      Consumes held st st''
  | zadd {st' : Store} {queue : QueueName} {score : Nat} {id : JobId} (h : Consumes held st st')
      (hid : held id) : Consumes held st (st'.zadd queue score id)
  | zrem {st' : Store} {queue : QueueName} {id : JobId} (h : Consumes held st st') :
      Consumes held st (st'.zrem queue id)
  | hsetActive {st' : Store} {queue : QueueName} {id : JobId} {entry : ActiveJobEntry}
      (h : Consumes held st st') (hid : held id) :
      Consumes held st (st'.hsetActive queue id entry)
  | hdelActive {st' : Store} {queue : QueueName} {id : JobId} (h : Consumes held st st') :
      Consumes held st (st'.hdelActive queue id)
  | setHeartbeat {st' : Store} {now ttl : Nat} {id : JobId} (h : Consumes held st st') :
      Consumes held st (st'.setHeartbeat now ttl id)
  | delHeartbeat {st' : Store} {id : JobId} (h : Consumes held st st') :
      Consumes held st (st'.delHeartbeat id)
  | counters {st' : Store} (processed failed time : Nat) (h : Consumes held st st') :
      Consumes held st
        { st' with
          jobsProcessedTotal := processed
          jobsFailedTotal := failed
          processingTimeSum := time }

namespace Consumes

variable {held : JobId → Prop} {st st' : Store} {id : JobId}

theorem mentions (h : Consumes held st st') (hid : st'.Mentions id) : held id ∨ st.Mentions id := by
  induction h with
  | refl => exact .inr hid
  | hmset _ _ _ ih => exact ih hid.of_hmset
  | lpush _ hj ih => exact hid.of_lpush.elim (fun h => .inl (h ▸ hj)) ih
  | lrem _ ih => exact ih hid.of_lrem
  | rpoplpush _ hst ih =>
    exact (hid.of_rpoplpush hst).elim (fun h => ih (h ▸ Store.mentions_of_rpoplpush hst)) ih
  | zadd _ hj ih => exact hid.of_zadd.elim (fun h => .inl (h ▸ hj)) ih
  | zrem _ ih => exact ih hid.of_zrem
  | hsetActive _ hj ih => exact hid.of_hsetActive.elim (fun h => .inl (h ▸ hj)) ih
  | hdelActive _ ih => exact ih hid.of_hdelActive
  | setHeartbeat _ ih => exact ih hid.of_setHeartbeat
  | delHeartbeat _ ih => exact ih hid.of_delHeartbeat
  | counters _ _ _ _ ih => exact ih (hid.congr rfl rfl rfl rfl)

/-- A property of the record of `id` that partial writes keep is kept by a
consumer; one that does not have `id` in hand writes nothing there. -/
theorem record {P : JobHash → Prop}
    (hP : held id → ∀ h fields, fields.IsUpdate → P h → P (h.patch fields))
    (h : Consumes held st st') (hid : P (st.jobs id)) : P (st'.jobs id) := by
  induction h with
  | refl => exact hid
  | @hmset st' j fields _ hj hfields ih =>
    by_cases hne : id = j
    · subst hne
      simpa [Store.hmset] using hP hj _ _ hfields ih
    · simpa [Store.hmset, hne] using ih
  | lpush _ _ ih => exact ih
  | lrem _ ih => exact ih
  | rpoplpush _ hst ih => exact Store.jobs_rpoplpush hst ▸ ih
  | zadd _ _ ih => exact ih
  | zrem _ ih => exact ih
  | hsetActive _ _ ih => exact ih
  | hdelActive _ ih => exact ih
  | setHeartbeat _ ih => exact ih
  | delHeartbeat _ ih => exact ih
  | counters _ _ _ _ ih => exact ih

/-- Only producers write idempotency slots. -/
theorem idempotency_eq (h : Consumes held st st') : st'.idempotency = st.idempotency := by
  induction h with
  | rpoplpush _ hst ih => exact (Store.idempotency_rpoplpush hst).trans ih
  | refl => rfl
  | hmset _ _ _ ih => exact ih
  | lpush _ _ ih => exact ih
  | lrem _ ih => exact ih
  | zadd _ _ ih => exact ih
  | zrem _ ih => exact ih
  | hsetActive _ _ ih => exact ih
  | hdelActive _ ih => exact ih
  | setHeartbeat _ ih => exact ih
  | delHeartbeat _ ih => exact ih
  | counters _ _ _ _ ih => exact ih

theorem jobs_eq (h : Consumes held st st') (hid : ¬ held id) : st'.jobs id = st.jobs id :=
  h.record (P := (· = st.jobs id)) (fun hh => absurd hh hid) rfl

end Consumes

/-! ## The ids a component has in hand -/

variable {T : Type}

/-- The job of a call under way. -/
def ProducerPc.jobId? : ProducerPc T → Option JobId
  | idle => none
  | save id _ _ => some id
  | claim id _ _ => some id
  | push id _ => some id
  | discard id _ => some id

/-- The job a worker has in hand, from the pop to the end of its clean-up. -/
def WorkerPc.jobId? : WorkerPc T → Option JobId
  | poll _ => none
  | fetch jobId => some jobId
  | markActive jobId _ => some jobId
  | markFailed jobId => some jobId
  | register jobId _ _ => some jobId
  | beat jobId _ => some jobId
  | running jobId _ _ => some jobId
  | complete jobId _ => some jobId
  | countFailure jobId _ => some jobId
  | writeDelayed jobId _ _ => some jobId
  | writeDead jobId _ => some jobId
  | zaddDelayed jobId _ => some jobId
  | lpushDead jobId => some jobId
  | cleanup jobId => some jobId
  | crashed => none

/-- The ids a pass has still to deal with. -/
def SchedulerPc.pending : SchedulerPc → List JobId
  | idle => []
  | lookup jobId rest => jobId :: rest
  | move jobId _ rest => jobId :: rest

@[simp] theorem SchedulerPc.pending_next (ids : List JobId) : (next ids).pending = ids := by
  cases ids <;> rfl

/-- The ids a pass has still to deal with. -/
def WatchdogPc.pending : WatchdogPc → List JobId
  | idle => []
  | readProcessing activeIds => activeIds
  | readHeartbeats jobIds => jobIds
  | inspect jobId rest => jobId :: rest
  | requeue jobId _ rest => jobId :: rest

@[simp] theorem WatchdogPc.pending_next (ids : List JobId) : (next ids).pending = ids := by
  cases ids <;> rfl

/-- The job of a retry under way. -/
def RetryPc.jobId? : RetryPc → Option JobId
  | idle => none
  | requeue id _ => some id

end DistriSys
