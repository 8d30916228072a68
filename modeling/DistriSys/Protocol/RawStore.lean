import DistriSys.Core.Raw
import DistriSys.Protocol.Keys

/-!
# What a database holds

`Encodes db st`: the database `db` holds under the name of each key what the store `st` says, in
the type the key is for, and nothing else. Since no two keys have one name, a command on one
key leaves the others as they are (`Encodes.update`).

For each command of the code there is a rule: it ends without an error, its answer is what the
store says, and the database encodes the store after it.

- `IsRecord`, `IsCounter`: the values of records and counters; `RedisKey.Holds`: the value of
  any key;
- `Encodes.list`, `Encodes.setList` and their like: reading and writing the key of one kind;
- `completes_…`: the rules, in the contracts of `Redis.Database`.

A collection that becomes empty is deleted, as Redis does it, so the empty list, sorted set and
hash have no key; an expired value may still be there, and no command finds it. The counters
start without a key, and a key that holds `"0"` encodes the same.
-/

namespace DistriSys

open Js Redis Redis.Request

/-! ## Records -/

/-- No two fields of a record share a name. -/
theorem JobField.name_injective : Function.Injective JobField.name := by
  intro a b h
  cases a <;> cases b <;> first | rfl | exact absurd h (by decide)

/-- These are all the fields there are. -/
theorem JobField.mem_all (field : JobField) : field ∈ all := by
  cases field <;> decide

/-- The hash has the fields of the record, and no others. -/
def IsRecord (hash : Hash String String) (h : JobHash) : Prop :=
  ∀ key value, (key, value) ∈ hash.entries ↔
    ∃ field : JobField, field.name = key ∧ h.get field = some value

section Records

variable {hash : Hash String String} {h fields : JobHash}

/-- A patch covers the fields it names. -/
theorem JobHash.get_patch (h fields : JobHash) (field : JobField) :
    (h.patch fields).get field = (fields.get field <|> h.get field) := by
  cases field <;> rfl

/-- The arguments of `HMSET` are the fields that are given. -/
theorem JobHash.mem_toFields {key value : String} :
    (key, value) ∈ fields.toFields ↔
      ∃ field : JobField, field.name = key ∧ fields.get field = some value := by
  simp only [toFields, List.mem_filterMap, Option.map_eq_some_iff, Prod.mk.injEq]
  constructor
  · rintro ⟨field, -, value', hvalue, hname, rfl⟩
    exact ⟨field, hname, hvalue⟩
  · rintro ⟨field, hname, hvalue⟩
    exact ⟨field, field.mem_all, value, hvalue, hname, rfl⟩

theorem JobHash.nodup_toFields : (fields.toFields.map Prod.fst).Nodup := by
  have hsub : ∀ all : List JobField,
      ((all.filterMap fun field => (fields.get field).map fun value => (field.name, value)).map
        Prod.fst).Sublist (all.map JobField.name) := by
    intro all
    induction all with
    | nil => exact .slnil
    | cons field rest ih =>
      rw [List.filterMap_cons, List.map_cons]
      cases fields.get field with
      | none => exact ih.cons _
      | some value => exact ih.cons_cons _
  exact (by decide : (JobField.all.map JobField.name).Nodup).sublist (hsub _)

/-- A field of the hash is a field of the record, also when it is missing. -/
theorem IsRecord.hget (hr : IsRecord hash h) (field : JobField) :
    hash.hget field.name = h.get field := by
  refine Option.ext fun value => ?_
  rw [Hash.hget_eq_some, hr]
  constructor
  · rintro ⟨field', hname, hvalue⟩
    rwa [← JobField.name_injective hname]
  · exact fun hvalue => ⟨field, rfl, hvalue⟩

/-- The code reads the record. -/
theorem IsRecord.ofHash_eq (hr : IsRecord hash h) : JobHash.ofHash hash = h := by
  have hfields := fun field => hr.hget field
  cases h
  simp only [JobHash.ofHash, JobHash.mk.injEq]
  exact ⟨hfields .id, hfields .type, hfields .data, hfields .status, hfields .priority,
    hfields .attempts, hfields .maxAttempts, hfields .createdAt⟩

/-- `Object.keys(hash).length === 0` says whether there is a record. -/
theorem IsRecord.isEmpty_iff (hr : IsRecord hash h) : hash.entries = [] ↔ h.isEmpty = true := by
  rw [JobHash.isEmpty, decide_eq_true_iff]
  constructor
  · intro hempty
    rw [← hr.ofHash_eq]
    simp [JobHash.ofHash, Hash.hget, hempty, JobHash.absent]
  · rintro rfl
    refine List.eq_nil_iff_forall_not_mem.mpr ?_
    rintro ⟨key, value⟩ hmem
    obtain ⟨field, -, hvalue⟩ := (hr key value).mp hmem
    cases field <;> cases hvalue

/-- An absent key is the absent record. -/
theorem isRecord_absent : IsRecord .empty .absent := by
  intro key value
  constructor
  · exact fun hmem => absurd hmem List.not_mem_nil
  · rintro ⟨field, -, hvalue⟩
    cases field <;> cases hvalue

/-- `HMSET` with the fields in any order. -/
theorem IsRecord.hmset (hr : IsRecord hash h) {l : List (String × String)}
    (hl : l.Perm fields.toFields) : IsRecord (hash.hmset l) (h.patch fields) := by
  intro key value
  have hnodup : (l.map Prod.fst).Nodup := (hl.map _).nodup_iff.mpr JobHash.nodup_toFields
  rw [Hash.mem_entries_hmset hnodup, hl.mem_iff, (hl.map Prod.fst).mem_iff, JobHash.mem_toFields,
    hr]
  simp only [JobHash.get_patch]
  constructor
  · rintro (⟨field, hname, hvalue⟩ | ⟨hkey, field, rfl, hvalue⟩)
    · exact ⟨field, hname, by rw [hvalue]; rfl⟩
    · refine ⟨field, rfl, ?_⟩
      -- a field that is not written keeps its value
      cases hnew : fields.get field with
      | none => exact hvalue
      | some value' =>
        have hmem : (field.name, value') ∈ fields.toFields :=
          JobHash.mem_toFields.mpr ⟨field, rfl, hnew⟩
        exact absurd (List.mem_map.mpr ⟨_, hmem, rfl⟩) hkey
  · rintro ⟨field, rfl, hvalue⟩
    cases hnew : fields.get field with
    | none =>
      rw [hnew] at hvalue
      refine .inr ⟨?_, field, rfl, hvalue⟩
      intro hkey
      obtain ⟨⟨key, value'⟩, hmem, hkey⟩ := List.mem_map.mp hkey
      obtain ⟨field', hname, hvalue'⟩ := JobHash.mem_toFields.mp hmem
      have hsame : field' = field := JobField.name_injective (hname.trans hkey)
      rw [hsame, hnew] at hvalue'
      cases hvalue'
    | some value' =>
      rw [hnew] at hvalue
      exact .inl ⟨field, rfl, hnew.trans hvalue⟩

end Records

/-! ## The database -/

/-- A counter is missing until something is counted. -/
def IsCounter (v : Option Value) (n : Nat) : Prop :=
  v = none ∧ n = 0 ∨ v = some (.string n.repr none)

/-- What a key holds. -/
def RedisKey.Holds (st : Store) : RedisKey → Option Value → Prop
  | jobHash id, v => ∃ hash, v = Collection.hashes.write hash ∧ IsRecord hash (st.jobs id)
  | waitingList queue p, v => v = Collection.lists.write (st.lists (.waitingList queue p.name))
  | processingList queue, v => v = Collection.lists.write (st.lists (.processingList queue))
  | delayedSet queue, v => v = Collection.zsets.write (st.delayed queue)
  | deadList queue, v => v = Collection.lists.write (st.lists (.deadList queue))
  | activeJobsHash queue, v =>
    v = Collection.hashes.write ((st.activeJobs queue).mapValues ActiveJobEntry.stringify)
  | heartbeat id, v => v = (st.heartbeats id).map fun beat => .string "1" (some beat.expiresAt)
  | idempotency key, v =>
    v = (st.idempotency key).map fun slot => .string slot.value (some slot.expiresAt)
  | jobsProcessedTotal, v => IsCounter v st.jobsProcessedTotal
  | jobsFailedTotal, v => IsCounter v st.jobsFailedTotal
  | processingTimeSum, v => IsCounter v st.processingTimeSum

/-- Every key of the store holds its value in the database, and there are no others. -/
structure Encodes (db : Database) (st : Store) : Prop where
  held : ∀ k : RedisKey, k.Holds st (db k.name)
  known : ∀ key, (∀ k : RedisKey, k.name ≠ key) → db key = none

/-- An empty Redis. -/
theorem encodes_empty : Encodes (fun _ => none) .empty where
  held k := by
    cases k with
    | jobHash id => exact ⟨.empty, rfl, isRecord_absent⟩
    | jobsProcessedTotal => exact .inl ⟨rfl, rfl⟩
    | jobsFailedTotal => exact .inl ⟨rfl, rfl⟩
    | processingTimeSum => exact .inl ⟨rfl, rfl⟩
    | _ => rfl
  known _ _ := rfl

section Database

variable {db : Database} {st st' : Store} {now : Nat} {l : ListKey}

/-- **One key changes.** -/
theorem Encodes.update (h : Encodes db st) {k : RedisKey} {v : Option Value} (hk : k.Holds st' v)
    (hother : ∀ k' ≠ k, ∀ v', k'.Holds st v' → k'.Holds st' v') :
    Encodes (Function.update db k.name v) st' where
  held k' := by
    by_cases heq : k' = k
    · subst heq
      rwa [Function.update_self]
    · rw [Function.update_of_ne (RedisKey.name_injective.ne heq)]
      exact hother k' heq _ (h.held k')
  known key hkey := by
    rw [Function.update_of_ne (hkey k).symm]
    exact h.known key hkey

/-! ## Lists -/

/-- A list is kept under the name of its key. -/
theorem RedisKey.name_of_list {k : RedisKey} (hk : k.list? = some l) : k.name = l.name := by
  cases k <;> cases hk <;> rfl

theorem RedisKey.holds_list {k : RedisKey} (hk : k.list? = some l) (v : Option Value) :
    k.Holds st v ↔ v = Collection.lists.write (st.lists l) := by
  cases k <;> cases hk <;> exact .rfl

/-- The value of a list key, absent when the list is empty. -/
theorem Encodes.list (h : Encodes db st) (hl : l.Proper) :
    db l.name = Collection.lists.write (st.lists l) := by
  obtain ⟨k, hname, hk⟩ := hl.exists_redisKey
  rw [← hname]
  exact (RedisKey.holds_list hk _).mp (h.held k)

/-- A list changes, and nothing else. -/
theorem Encodes.setList (h : Encodes db st) (hl : l.Proper) (ids : List JobId) :
    Encodes (Function.update db l.name (Collection.lists.write ids))
      { st with lists := Function.update st.lists l ids } := by
  obtain ⟨k, hname, hk⟩ := hl.exists_redisKey
  rw [← hname]
  refine h.update ((RedisKey.holds_list hk _).mpr ?_) ?_
  · simp only [Function.update_self]
  · intro k' hne v hv
    cases hk' : k'.list? with
    | none => cases k' <;> first | exact hv | cases hk'
    | some l' =>
      have hne' : l' ≠ l := by
        rintro rfl
        exact hne (RedisKey.name_injective ((RedisKey.name_of_list hk').trans hname.symm))
      rw [RedisKey.holds_list hk'] at hv ⊢
      simpa only [Function.update_of_ne hne'] using hv

/-- Any command on a list: what it does there is what the model does, and no other key changes.
-/
theorem completes_list (hl : l.Proper) (f : List JobId → List JobId) :
    Completes now (Encodes · st) (Request.update .lists l.name f) fun _ db =>
      Encodes db { st with lists := Function.update st.lists l (f (st.lists l)) } :=
  .update fun _ h => ⟨_, h.list hl, h.setList hl _⟩

theorem completes_lpush (hl : l.Proper) (id : JobId) :
    Completes now (Encodes · st) (lpush l.name id) fun _ db => Encodes db (st.lpush l id) :=
  completes_list hl _

theorem completes_lrem (hl : l.Proper) (count : Nat) (id : JobId) :
    Completes now (Encodes · st) (Request.lrem l.name count id) fun _ db =>
      Encodes db (st.lrem l count id) :=
  completes_list hl _

/-- A range with bounds that Redis accepts. -/
theorem completes_lrange (hl : l.Proper) {start stop : Option Int} {ids : List JobId}
    (hids : Redis.lrange (st.lists l) start stop = some ids) :
    Completes now (Encodes · st) (Request.lrange l.name start stop) fun answer db =>
      Encodes db st ∧ answer = ids :=
  .viewOrError fun _ h => ⟨_, ids, h.list hl, hids, h, rfl⟩

theorem completes_llen (hl : l.Proper) :
    Completes now (Encodes · st) (llen l.name) fun n db => Encodes db st ∧ n = st.llen l :=
  .view fun _ h => ⟨_, h.list hl, h, rfl⟩

/-- `RPOPLPUSH` writes two keys, and on an empty source none. -/
theorem completes_rpoplpush {l' : ListKey} (hl : l.Proper) (hl' : l'.Proper) :
    Completes now (Encodes · st) (Request.rpoplpush l.name l'.name) fun answer db =>
      match st.rpoplpush l l' with
      | some (id, st') => answer = some id ∧ Encodes db st'
      | none => answer = none ∧ Encodes db st := by
  unfold Request.rpoplpush Store.rpoplpush
  cases hpop : Redis.rpop (st.lists l) with
  | none =>
    have hx : Completes now (Encodes · st) (Request.rpop l.name) fun answer db =>
        answer = none ∧ Encodes db st := by
      -- popping from no list leaves the database as it is
      refine .alter fun db h => ⟨_, h.list hl, ?_⟩
      have hset := h.setList hl (st.lists l)
      rw [Function.update_eq_self] at hset
      simp only [hpop]
      exact ⟨trivial, hset⟩
    refine hx.bind fun answer => ?_
    rintro db ⟨rfl, h⟩
    exact ⟨none, db, rfl, rfl, h⟩
  | some popped =>
    obtain ⟨id, rest⟩ := popped
    have hx : Completes now (Encodes · st) (Request.rpop l.name) fun answer db =>
        answer = some id ∧ Encodes db { st with lists := Function.update st.lists l rest } := by
      refine .alter fun db h => ⟨_, h.list hl, ?_⟩
      simp only [hpop]
      exact ⟨trivial, h.setList hl rest⟩
    refine hx.bind fun answer => ?_
    rintro db ⟨rfl, h⟩
    exact ((completes_lpush hl' id).bind fun _ => .pure fun _ h => ⟨rfl, h⟩) db h

/-! ## The delayed set -/

section DelayedSet

variable {queue : QueueName}

/-- Any command on the delayed set. -/
theorem completes_delayed (f : ZSet JobId → ZSet JobId) :
    Completes now (Encodes · st) (Request.update .zsets (RedisKeys.delayedSet queue) f) fun _ db =>
      Encodes db { st with delayed := Function.update st.delayed queue (f (st.delayed queue)) } := by
  refine .update fun db h => ⟨_, h.held (.delayedSet queue), ?_⟩
  refine h.update (k := .delayedSet queue) ?_ ?_
  · simp [RedisKey.Holds]
  · intro k hne v hv
    cases k with
    | delayedSet queue' =>
      have hqueue : queue' ≠ queue := fun heq => hne (by rw [heq])
      simpa only [RedisKey.Holds, Function.update_of_ne hqueue] using hv
    | _ => exact hv

theorem completes_zadd (score : Nat) (id : JobId) :
    Completes now (Encodes · st) (Request.zadd (RedisKeys.delayedSet queue) score id) fun _ db =>
      Encodes db (st.zadd queue score id) :=
  completes_delayed _

theorem completes_zrem (id : JobId) :
    Completes now (Encodes · st) (Request.zrem (RedisKeys.delayedSet queue) id) fun _ db =>
      Encodes db (st.zrem queue id) :=
  completes_delayed _

theorem completes_zrangebyscore (max : Nat) :
    Completes now (Encodes · st) (Request.zrangebyscore (RedisKeys.delayedSet queue) max)
      fun ids db => Encodes db st ∧ ids = (st.delayed queue).zrangebyscore max :=
  .view fun _ h => ⟨_, h.held (.delayedSet queue), h, rfl⟩

theorem completes_zcard :
    Completes now (Encodes · st) (zcard (RedisKeys.delayedSet queue)) fun n db =>
      Encodes db st ∧ n = st.zcard queue :=
  .view fun _ h => ⟨_, h.held (.delayedSet queue), h, rfl⟩

end DelayedSet

/-! ## Records -/

section Records

variable {id : JobId}

/-- A database stays an encoding when the key of a record is written with what encodes the new
record. -/
theorem Encodes.setRecord (h : Encodes db st) {hash : Hash String String} {record : JobHash}
    (hr : IsRecord hash record) :
    Encodes (Function.update db (RedisKeys.jobHash id) (Collection.hashes.write hash))
      { st with jobs := Function.update st.jobs id record } := by
  refine h.update (k := .jobHash id) ⟨hash, rfl, ?_⟩ ?_
  · simpa only [Function.update_self] using hr
  · intro k hne v hv
    cases k with
    | jobHash id' =>
      have hid : id' ≠ id := fun heq => hne (by rw [heq])
      simpa only [RedisKey.Holds, Function.update_of_ne hid] using hv
    | _ => exact hv

/-- `HMSET` of the fields in any order is the patch of the record. -/
theorem completes_hmset {fields : JobHash} {l : List (String × String)}
    (hl : l.Perm fields.toFields) :
    Completes now (Encodes · st) (Request.hmset (RedisKeys.jobHash id) l) fun _ db =>
      Encodes db (st.hmset id fields) := by
  refine .update fun db h => ?_
  obtain ⟨hash, hwrite, hr⟩ := h.held (.jobHash id)
  exact ⟨hash, hwrite, h.setRecord (hr.hmset hl)⟩

/-- The two fields that change together. -/
theorem completes_setAttempts (status : JobStatus) (attempts : String) :
    Completes now (Encodes · st)
      (Request.hmset (RedisKeys.jobHash id) [("status", status.name), ("attempts", attempts)])
      fun _ db => Encodes db (st.hmset id { status := some status.name, attempts := some attempts }) :=
  completes_hmset (.refl _)

/-- A single field. -/
theorem completes_setStatus (status : JobStatus) :
    Completes now (Encodes · st) (hset (RedisKeys.jobHash id) "status" status.name) fun _ db =>
      Encodes db (st.hmset id { status := some status.name }) := by
  show Completes now _ (Request.hmset (RedisKeys.jobHash id) [("status", status.name)]) _
  exact completes_hmset (.refl _)

theorem completes_delJob :
    Completes now (Encodes · st) (del (RedisKeys.jobHash id)) fun _ db => Encodes db (st.delJob id) :=
  fun _ h => ⟨(), _, rfl, h.setRecord isRecord_absent⟩

/-- `HGETALL` of a record that is not there is the empty hash. -/
theorem completes_hgetall :
    Completes now (Encodes · st) (hgetall (RedisKeys.jobHash id)) fun hash db =>
      Encodes db st ∧ IsRecord hash (st.jobs id) := by
  refine .view fun db h => ?_
  obtain ⟨hash, hwrite, hr⟩ := h.held (.jobHash id)
  exact ⟨hash, hwrite, h, hr⟩

theorem completes_hget (field : JobField) :
    Completes now (Encodes · st) (Request.hget (RedisKeys.jobHash id) field.name) fun value db =>
      Encodes db st ∧ value = (st.jobs id).get field := by
  refine .view fun db h => ?_
  obtain ⟨hash, hwrite, hr⟩ := h.held (.jobHash id)
  exact ⟨hash, hwrite, h, hr.hget field⟩

end Records

/-! ## Active jobs -/

section ActiveJobs

variable {queue : QueueName} {id : JobId}

/-- The same for the active-jobs hash of a queue. -/
theorem Encodes.setActive (h : Encodes db st) (active : Hash JobId ActiveJobEntry) :
    Encodes (Function.update db (RedisKeys.activeJobsHash queue)
        (Collection.hashes.write (active.mapValues ActiveJobEntry.stringify)))
      { st with activeJobs := Function.update st.activeJobs queue active } := by
  refine h.update (k := .activeJobsHash queue) ?_ ?_
  · simp [RedisKey.Holds]
  · intro k hne v hv
    cases k with
    | activeJobsHash queue' =>
      have hqueue : queue' ≠ queue := fun heq => hne (by rw [heq])
      simpa only [RedisKey.Holds, Function.update_of_ne hqueue] using hv
    | _ => exact hv

theorem completes_hsetActive (entry : ActiveJobEntry) :
    Completes now (Encodes · st) (hset (RedisKeys.activeJobsHash queue) id entry.stringify)
      fun _ db => Encodes db (st.hsetActive queue id entry) := by
  refine .update fun db h => ⟨_, h.held (.activeJobsHash queue), ?_⟩
  rw [← Hash.mapValues_hset]
  exact h.setActive _

theorem completes_hdelActive :
    Completes now (Encodes · st) (Request.hdel (RedisKeys.activeJobsHash queue) id) fun _ db =>
      Encodes db (st.hdelActive queue id) := by
  refine .update fun db h => ⟨_, h.held (.activeJobsHash queue), ?_⟩
  rw [← Hash.mapValues_hdel]
  exact h.setActive _

theorem completes_activeKeys :
    Completes now (Encodes · st) (hgetall (RedisKeys.activeJobsHash queue)) fun hash db =>
      Encodes db st ∧ hash.keys = (st.activeJobs queue).keys :=
  .view fun _ h => ⟨_, h.held (.activeJobsHash queue), h, Hash.keys_mapValues _⟩

end ActiveJobs

/-! ## Heartbeats -/

section Heartbeats

variable {id : JobId}

/-- The same for a heartbeat, with its expiry time. -/
theorem Encodes.setHeartbeat (h : Encodes db st) (beat : Option (Volatile Unit)) :
    Encodes (Function.update db (RedisKeys.heartbeat id)
        (beat.map fun beat => .string "1" (some beat.expiresAt)))
      { st with heartbeats := Function.update st.heartbeats id beat } := by
  refine h.update (k := .heartbeat id) ?_ ?_
  · simp [RedisKey.Holds]
  · intro k hne v hv
    cases k with
    | heartbeat id' =>
      have hid : id' ≠ id := fun heq => hne (by rw [heq])
      simpa only [RedisKey.Holds, Function.update_of_ne hid] using hv
    | _ => exact hv

theorem completes_setHeartbeat (ttlSec : Nat) :
    Completes now (Encodes · st) (setEx (RedisKeys.heartbeat id) "1" ttlSec) fun _ db =>
      Encodes db (st.setHeartbeat now ttlSec id) :=
  fun _ h => ⟨(), _, rfl, h.setHeartbeat (some (.setEx now ttlSec ()))⟩

theorem completes_delHeartbeat :
    Completes now (Encodes · st) (del (RedisKeys.heartbeat id)) fun _ db =>
      Encodes db (st.delHeartbeat id) :=
  fun _ h => ⟨(), _, rfl, h.setHeartbeat none⟩

/-- A read finds the heartbeat if it is alive. -/
theorem Encodes.find_heartbeat (h : Encodes db st) (now : Nat) (id : JobId) :
    db.find now (RedisKeys.heartbeat id) = none ∧ st.alive now id = false ∨
      ∃ expiresAt, db.find now (RedisKeys.heartbeat id) = some (.string "1" expiresAt) ∧
        st.alive now id = true := by
  rw [Store.alive]
  rcases Database.find_volatile now (fun _ => "1") (h.held (.heartbeat id)) with
    ⟨hfind, hget⟩ | ⟨v, expiresAt, hfind, hget⟩
  · exact .inl ⟨hfind, by rw [hget]; rfl⟩
  · exact .inr ⟨_, hfind, by rw [hget]; rfl⟩

/-- `MGET` tells the jobs without a heartbeat: expired keys read as absent. -/
theorem completes_mget (ids : List JobId) :
    Completes now (Encodes · st) (mget (ids.map RedisKeys.heartbeat)) fun heartbeats db =>
      Encodes db st ∧
        ((ids.zip heartbeats).filter (·.2.isNone)).map Prod.fst =
          ids.filter fun id => !st.alive now id := by
  intro db h
  refine ⟨_, db, rfl, h, ?_⟩
  induction ids with
  | nil => rfl
  | cons id rest ih =>
    simp only [List.map_cons, List.zip_cons_cons, List.filter_cons]
    rcases h.find_heartbeat now id with ⟨hfind, halive⟩ | ⟨expiresAt, hfind, halive⟩
    · simpa [hfind, halive] using ih
    · simpa [hfind, halive] using ih

end Heartbeats

/-! ## Idempotency keys -/

/-- The same for an idempotency slot. -/
theorem Encodes.setSlot (h : Encodes db st) {key : String} (slot : Option (Volatile JobId)) :
    Encodes (Function.update db (idempotencyRedisKey key)
        (slot.map fun slot => .string slot.value (some slot.expiresAt)))
      { st with idempotency := Function.update st.idempotency key slot } := by
  refine h.update (k := .idempotency key) ?_ ?_
  · simp [RedisKey.Holds]
  · intro k hne v hv
    cases k with
    | idempotency key' =>
      have hkey : key' ≠ key := fun heq => hne (by rw [heq])
      simpa only [RedisKey.Holds, Function.update_of_ne hkey] using hv
    | _ => exact hv

/-- The script claims a free slot and pushes, or answers with the holder. -/
theorem completes_idempotentEnqueue {key : String} (hl : l.Proper) (id : JobId) (ttl : Nat) :
    Completes now (Encodes · st) (Raw.idempotentEnqueue (idempotencyRedisKey key) l.name id ttl)
      fun answer db =>
        answer = ((st.idempotentEnqueue now key l id ttl).1,
          (Volatile.get? now (st.idempotency key)).isNone) ∧
        Encodes db (st.idempotentEnqueue now key l id ttl).2 := by
  intro db h
  unfold Raw.idempotentEnqueue Store.idempotentEnqueue
  rcases Database.find_volatile now (fun holder => holder) (h.held (.idempotency key)) with
    ⟨hfind, hget⟩ | ⟨holder, expiresAt, hfind, hget⟩
  -- the key is free or has expired: `SET NX` sets it
  · have hclaim : setNxEx (idempotencyRedisKey key) id ttl now db = some (true, Function.update db
        (idempotencyRedisKey key) (some (.string id (some (now + ttl * 1000))))) := by
      unfold setNxEx
      rw [show db.find now (idempotencyRedisKey key) = none from hfind]
    rw [hget]
    refine ((Completes.of_eq hclaim).bind fun claimed => ?_) db rfl
    rintro _ ⟨rfl, rfl⟩
    exact ((completes_lpush hl id).bind fun _ => .pure fun _ h => ⟨rfl, h⟩) _
      (h.setSlot (some (.setEx now ttl id)))
  -- it is held: `SET NX` does nothing, and `GET` tells by whom
  · have hclaim : setNxEx (idempotencyRedisKey key) id ttl now db = some (false, db) := by
      unfold setNxEx
      rw [show db.find now (idempotencyRedisKey key) = _ from hfind]
    have hholder : Request.get (idempotencyRedisKey key) now db = some (some holder, db) := by
      unfold Request.get
      rw [show db.find now (idempotencyRedisKey key) = _ from hfind]
    rw [hget]
    refine ((Completes.of_eq hclaim).bind fun claimed => ?_) db rfl
    rintro _ ⟨rfl, rfl⟩
    refine ((Completes.of_eq hholder).bind fun answer => ?_) _ rfl
    rintro _ ⟨rfl, rfl⟩
    exact ⟨_, _, rfl, rfl, h⟩

/-! ## Counters -/

section Counters

variable {key : String} {n : Nat}

/-- A counter that is not there yet counts as zero. -/
theorem incrby_counter (h : IsCounter (db key) n) (m : Nat) :
    ∃ v, Request.incrby key m now db = some ((), Function.update db key v) ∧
      IsCounter v (n + m) := by
  rcases h with ⟨hv, rfl⟩ | hv
  · refine ⟨some (.string (m : Int).repr none), ?_, .inr ?_⟩
    · simp [Request.incrby, Database.find, hv]
    · rw [Nat.zero_add]
      rfl
  · refine ⟨some (.string ((n : Int) + m).repr none), ?_, .inr rfl⟩
    have hn : parseInteger n.repr = some (n : Int) := parseInteger_repr n
    simp [Request.incrby, Database.find_lasting now hv, hn]

theorem completes_incrProcessed :
    Completes now (Encodes · st) (Request.incr RedisKeys.jobsProcessedTotal) fun _ db =>
      Encodes db { st with jobsProcessedTotal := st.jobsProcessedTotal + 1 } := by
  intro db h
  obtain ⟨v, hincr, hv⟩ := incrby_counter (h.held .jobsProcessedTotal) 1
  refine ⟨(), _, hincr, h.update (k := .jobsProcessedTotal) hv fun k hne v hv => ?_⟩
  cases k <;> first | exact hv | exact absurd rfl hne

theorem completes_incrFailed :
    Completes now (Encodes · st) (Request.incr RedisKeys.jobsFailedTotal) fun _ db =>
      Encodes db { st with jobsFailedTotal := st.jobsFailedTotal + 1 } := by
  intro db h
  obtain ⟨v, hincr, hv⟩ := incrby_counter (h.held .jobsFailedTotal) 1
  refine ⟨(), _, hincr, h.update (k := .jobsFailedTotal) hv fun k hne v hv => ?_⟩
  cases k <;> first | exact hv | exact absurd rfl hne

theorem completes_addTime (elapsed : Nat) :
    Completes now (Encodes · st) (Request.incrby RedisKeys.processingTimeSum elapsed) fun _ db =>
      Encodes db { st with processingTimeSum := st.processingTimeSum + elapsed } := by
  intro db h
  obtain ⟨v, hincr, hv⟩ := incrby_counter (h.held .processingTimeSum) elapsed
  refine ⟨(), _, hincr, h.update (k := .processingTimeSum) hv fun k hne v hv => ?_⟩
  cases k <;> first | exact hv | exact absurd rfl hne

/-- The code reads the counter, whether it is there or not. -/
theorem get_counter (h : IsCounter (db key) n) :
    ∃ answer, Request.get key now db = some (answer, db) ∧
      (parseInt (Raw.orZero answer)).toNat = n := by
  rcases h with ⟨hv, rfl⟩ | hv
  · exact ⟨none, by simp [Request.get, Database.find, hv], by decide⟩
  · refine ⟨some n.repr, by simp [Request.get, Database.find_lasting now hv], ?_⟩
    have hne : n.repr ≠ "" := by
      intro hempty
      have hn := parseInt_repr n
      rw [hempty] at hn
      cases hn
    rw [Raw.orZero, if_neg hne, parseInt_repr]
    rfl

end Counters

end Database

end DistriSys
