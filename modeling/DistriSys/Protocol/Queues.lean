import DistriSys.Protocol.Isolation
import DistriSys.Protocol.Parts
import DistriSys.Protocol.Rejections
import DistriSys.Core.Stats
import Mathlib.Algebra.BigOperators.Group.Finset.Basic
import Mathlib.Data.Fintype.BigOperators

/-!
# Many queues on one Redis

The components of any number of queues, with different names, on one Redis and one clock
(`sharedStep`). Records, heartbeats, idempotency keys and counters do not carry the name of a
queue, so the queues are not independent as such: a call that comes with the idempotency key of
another queue is answered with the job there, and a retry request takes any job to its own
waiting list.

But that is all: without the two (`Separate`), every interleaving is one run of each queue by
itself, and the counters are the sums of theirs (**`queues_compose`**).

- `Composed`: the state of the shared system next to the states of the runs the queues have
  alone; each queue's share of the store is the same in both (`Store.SameOn`);
- `faultyStep_same`, `faultyStep_other`: a step of a queue does in its own run what it does
  here, and nothing to the share of the others;
- `composed_step`: so a shared step is a step of one of the runs, and leaves the others.
-/

namespace DistriSys

open Js Redis Transition

variable {T : Type}

/-! ## The system -/

/-- A state after others have used the same Redis. -/
def Faulty.sees (r : Faulty T) (st : Store) (clock : Nat) : Faulty T :=
  { r with config := { r.config with store := st, clock := clock } }

/-- Queue `i` goes on in the state `x`, and the others see it. -/
def moveOn {ι : Type} [DecidableEq ι] (s : ι → Faulty T) (i : ι) (x : Faulty T) : ι → Faulty T :=
  fun j => if j = i then x else (s j).sees x.config.store x.config.clock

/-- One step of the components of queue `i`. -/
def sharedStep {ι : Type} [DecidableEq ι] (env : Env T) (names : ι → QueueName)
    (s : ι → Faulty T) : ι × FaultyAction T → Option (ι → Faulty T)
  | (i, a) => (faultyStep (env.on (names i)) (s i) a).map (moveOn s i)

/-- Two calls with different ids and without a common idempotency key. -/
def Call.Unrelated (c c' : Call T) : Prop := c.id ≠ c'.id ∧ (c.key = none ∨ c.key ≠ c'.key)

instance (c c' : Call T) : Decidable (c.Unrelated c') :=
  inferInstanceAs (Decidable (_ ∧ _))

/-- A call is unrelated to the calls of the other queues, and a retry request is not for one of
their jobs. -/
def Separate {ι : Type} (s : ι → Faulty T) : ι × FaultyAction T → Prop
  | (i, .act (.enqueue _ id call)) =>
    ∀ j ≠ i, ∀ c ∈ (s j).config.calls, Call.Unrelated ⟨id, call, (s i).config.clock⟩ c
  | (i, .act (.request _ id)) => ∀ j ≠ i, ∀ c ∈ (s j).config.calls, c.id ≠ id
  | _ => True

instance {ι : Type} [DecidableEq ι] [Fintype ι] (s : ι → Faulty T) (a : ι × FaultyAction T) :
    Decidable (Separate s a) :=
  match a with
  | (i, .act (.enqueue _ id call)) =>
    inferInstanceAs (Decidable (∀ j ≠ i, ∀ c ∈ (s j).config.calls,
      Call.Unrelated ⟨id, call, (s i).config.clock⟩ c))
  | (i, .act (.request _ id)) =>
    inferInstanceAs (Decidable (∀ j ≠ i, ∀ c ∈ (s j).config.calls, c.id ≠ id))
  | (_, .act (.tick ..)) | (_, .act (.produce ..)) | (_, .act (.work ..))
  | (_, .act (.settle ..)) | (_, .act (.renew ..)) | (_, .act (.process ..))
  | (_, .act (.schedule ..)) | (_, .act (.watch ..)) | (_, .act (.respond ..))
  | (_, .act (.crash ..)) | (_, .reject ..) => .isTrue trivial

/-! ## Counters -/

/-- What the next command of a worker adds to them. -/
def WorkerPc.counts : WorkerPc T → ℕ × ℕ × ℕ
  | complete _ elapsed => (1, 0, elapsed)
  | countFailure _ _ => (0, 1, 0)
  | _ => (0, 0, 0)

/-- What a step adds to them. -/
def Config.counts (s : Config T) : Action T → ℕ × ℕ × ℕ
  | .work w _ => (s.workers[w]?).elim (0, 0, 0) fun wk => wk.pc.counts
  | _ => (0, 0, 0)

/-- A step that fails counts nothing. -/
def Faulty.counts (r : Faulty T) : FaultyAction T → ℕ × ℕ × ℕ
  | .act a => r.config.counts a
  | _ => (0, 0, 0)

section Counters

variable {env : Env T} {now : Nat} {st : Store}

/-- A producer counts nothing. -/
theorem counters_producerStep {pc : ProducerPc T} {e : Effect (ProducerPc T)}
    (he : producerStep env now st pc = some e) : e.store.counters = st.counters := by
  cases pc with
  | idle => cases he
  | claim id job key =>
    rw [store_of_claim he]
    unfold Store.idempotentEnqueue
    split <;> rfl
  | _ =>
    cases he
    rfl

/-- What a worker's command adds to the counters is told by the command alone. -/
theorem counters_workerStep {w draw : Nat} {handlers : List String} {pc : WorkerPc T}
    {e : Effect (WorkerPc T)} (he : workerStep env now w draw handlers st pc = some e) :
    e.store.counters = st.counters + pc.counts := by
  cases pc with
  | poll p =>
    simp only [workerStep] at he
    split at he
    · next jobId st' hpop =>
      cases he
      obtain ⟨rest, -, rfl⟩ := Store.rpoplpush_eq_some hpop
      rfl
    · cases he
      rfl
  | fetch jobId =>
    simp only [workerStep] at he
    split at he
    · cases he
      rfl
    · split at he <;> cases he <;> rfl
  | _ =>
    cases he
    try rfl

/-- What a step adds to the counters does not depend on the store. -/
theorem counters_step {s s' : Config T} {a : Action T} (hs : step env s a = some s') :
    s'.store.counters = s.store.counters + s.counts a := by
  cases stepped hs with
  | produce hi he => exact counters_producerStep he
  | work hw he =>
    rw [Config.counts, hw]
    exact counters_workerStep he
  | @schedule i pc hi => cases pc <;> rfl
  | @watch i pc hi =>
    cases pc with
    | requeue jobId jobHash rest =>
      simp only [watchdogStep, requeueTransaction]
      split <;> rfl
    | _ => rfl
  | @respond i pc e hi he =>
    cases pc with
    | idle => cases he
    | requeue id priority =>
      cases he
      rfl
  | _ => rfl

end Counters

/-! ## One step of a queue -/

/-- Everybody is at work on the jobs of the queue's own calls. -/
structure Config.OwnCalls (s : Config T) : Prop where
  producers : ∀ pc ∈ s.producers, ∀ id, pc.jobId? = some id → id ∈ s.calls.map Call.id
  claims : ∀ pc ∈ s.producers, ∀ id job key, pc = .claim id job key →
    ∃ c ∈ s.calls, c.key = some key
  workers : ∀ wk ∈ s.workers, ∀ id, wk.pc.jobId? = some id → id ∈ s.calls.map Call.id
  schedulers : ∀ pc ∈ s.schedulers, ∀ id ∈ pc.pending, id ∈ s.calls.map Call.id
  watchdogs : ∀ pc ∈ s.watchdogs, ∀ id ∈ pc.pending, id ∈ s.calls.map Call.id
  retries : ∀ pc ∈ s.retries, ∀ id, pc.jobId? = some id → id ∈ s.calls.map Call.id

/-- Every id a component holds is that of a call of its queue. -/
theorem Integrity.ownCalls {env : Env T} {s : Config T} (hI : Integrity env s) : s.OwnCalls where
  producers pc hpc id hid := by
    have hfine := hI.producers pc hpc
    cases pc with
    | idle => cases hid
    | save =>
      cases hid
      obtain ⟨-, c, hc, rfl, -⟩ := hfine
      exact List.mem_map_of_mem hc
    | claim | push =>
      cases hid
      obtain ⟨-, -, c, hc, rfl, -⟩ := hfine
      exact List.mem_map_of_mem hc
    | discard =>
      cases hid
      obtain ⟨-, c, hc, rfl⟩ := hfine
      exact List.mem_map_of_mem hc
  claims pc hpc id job key heq := by
    subst heq
    obtain ⟨-, -, c, hc, -, -, hkey⟩ := hI.producers _ hpc
    exact ⟨c, hc, hkey⟩
  workers wk hwk id hid := hI.pushed_called id ((hI.workers wk hwk).pushed id hid)
  schedulers pc hpc id hid := hI.pushed_called id ((hI.schedulers pc hpc).pushed id hid)
  watchdogs pc hpc id hid := hI.pushed_called id ((hI.watchdogs pc hpc).pushed id hid)
  retries pc hpc id hid := hI.pushed_called id ((hI.retries pc hpc).pushed id hid)

/-- The states differ in the store only, and there in nothing that belongs to the queue. -/
def Config.Beside (queue : QueueName) (ids : Set JobId) (keys : Set String) (s s' : Config T) :
    Prop :=
  s = { s' with store := s.store } ∧ s.store.SameOn queue ids keys s'.store

section Own

variable {env : Env T} {s : Config T} {st : Store} {ids : Set JobId} {keys : Set String}

/-- **The rest of the store makes no difference.** -/
theorem step_same (h : st.SameOn env.queueName ids keys s.store) (hown : s.OwnCalls)
    (hcalls : ∀ c ∈ s.calls, c.id ∈ ids ∧ ∀ key, c.key = some key → key ∈ keys) {a : Action T}
    (hrequest : ∀ i id, a = .request i id → id ∈ ids) :
    Option.Rel (Config.Beside env.queueName ids keys) (step env { s with store := st } a)
      (step env s a) := by
  -- the calls of the queue are its share
  have hids : ∀ id ∈ s.calls.map Call.id, id ∈ ids := by
    intro id hid
    obtain ⟨c, hc, rfl⟩ := List.mem_map.mp hid
    exact (hcalls c hc).1
  cases a with
  | tick ms => exact .some ⟨rfl, h⟩
  | enqueue i id call =>
    simp only [step]
    rcases s.producers[i]? with _ | pc
    · exact .none
    · cases pc with
      | idle =>
        dsimp only
        split
        · exact .none
        · exact .some ⟨rfl, h⟩
      | _ => exact .none
  | produce i =>
    refine rel_bind_self fun pc hi => ?_
    have hpc : pc ∈ s.producers := List.mem_of_getElem? hi
    -- the script reads its idempotency key, which is the queue's own
    have hkeys : ∀ id job key, pc = .claim id job key → key ∈ keys := by
      intro id job key heq
      obtain ⟨c, hc, hkey⟩ := hown.claims pc hpc id job key heq
      exact (hcalls c hc).2 key hkey
    refine rel_bind (producerStep_same h hkeys) fun e e' he => ?_
    exact .some ⟨by rw [he.pc, he.events], he.store⟩
  | work w draw =>
    refine rel_bind_self fun wk hw => ?_
    have hwk : ∀ id, wk.pc.jobId? = some id → id ∈ ids := fun id hid =>
      hids id (hown.workers wk (List.mem_of_getElem? hw) id hid)
    refine rel_bind (workerStep_same h hwk) fun e e' he => ?_
    exact .some ⟨by rw [he.pc, he.events], he.store⟩
  | settle w outcome =>
    refine rel_bind_self fun wk _ => ?_
    exact rel_bind_self fun _ _ => .some ⟨rfl, h⟩
  | renew w =>
    refine rel_bind_self fun wk _ => ?_
    exact rel_bind_self fun id _ => .some ⟨rfl, h.setHeartbeat _ _ id⟩
  | process w type => exact rel_bind_self fun wk _ => .some ⟨rfl, h⟩
  | schedule i =>
    refine rel_bind_self fun pc hi => ?_
    have hpc : ∀ id ∈ pc.pending, id ∈ ids := fun id hid =>
      hids id (hown.schedulers pc (List.mem_of_getElem? hi) id hid)
    have he : SameEffect env.queueName ids keys (schedulerStep env s.clock st pc)
        (schedulerStep env s.clock s.store pc) := schedulerStep_same h hpc
    refine .some ⟨?_, he.store⟩
    simp only [he.pc, he.events]
  | watch i =>
    refine rel_bind_self fun pc hi => ?_
    have hpc : ∀ id ∈ pc.pending, id ∈ ids := fun id hid =>
      hids id (hown.watchdogs pc (List.mem_of_getElem? hi) id hid)
    have he : SameEffect env.queueName ids keys (watchdogStep env s.clock st pc)
        (watchdogStep env s.clock s.store pc) := watchdogStep_same h hpc
    refine .some ⟨?_, he.store⟩
    simp only [he.pc, he.events]
  | request i id =>
    -- the id comes from outside; the premise puts it in the share
    simp only [step, retryRequest_same h (hrequest i id rfl)]
    rcases s.retries[i]? with _ | pc
    · exact .none
    · cases pc with
      | idle => exact .some ⟨rfl, h⟩
      | requeue => exact .none
  | respond i =>
    refine rel_bind_self fun pc _ => ?_
    refine rel_bind (retryStep_same h pc) fun e e' he => ?_
    exact .some ⟨by rw [he.pc, he.events], he.store⟩
  | crash component =>
    cases component <;> exact rel_map_self fun _ _ => ⟨rfl, h⟩

/-- The same with rejected commands. -/
def Faulty.Beside (queue : QueueName) (ids : Set JobId) (keys : Set String) (r r' : Faulty T) :
    Prop :=
  r = r'.sees r.config.store r'.config.clock ∧ r.config.store.SameOn queue ids keys r'.config.store

/-- The fallback jobs are no part of the store. -/
theorem Config.Beside.faulty {queue : QueueName} {s s' : Config T} (h : Beside queue ids keys s s')
    (jobs : Nat → Option (Job T)) : Faulty.Beside queue ids keys ⟨s, jobs⟩ ⟨s', jobs⟩ := by
  obtain ⟨hs, hst⟩ := h
  refine ⟨?_, hst⟩
  rw [hs]
  rfl

/-- **A step of a queue on a shared store** is the step it takes alone, if the two stores agree
on its share. -/
theorem faultyStep_same {r : Faulty T} (h : st.SameOn env.queueName ids keys r.config.store)
    (hown : r.config.OwnCalls)
    (hcalls : ∀ c ∈ r.config.calls, c.id ∈ ids ∧ ∀ key, c.key = some key → key ∈ keys)
    {a : FaultyAction T} (hrequest : ∀ i id, a = .act (.request i id) → id ∈ ids) :
    Option.Rel (Faulty.Beside env.queueName ids keys)
      (faultyStep env (r.sees st r.config.clock) a) (faultyStep env r a) := by
  have hact : ∀ a : Action T, (∀ i id, a = .request i id → id ∈ ids) →
      Option.Rel (Config.Beside env.queueName ids keys)
        (step env { r.config with store := st } a) (step env r.config a) :=
    fun a ha => step_same h hown hcalls ha
  cases a with
  | act a =>
    have hnote : noteJob { r.config with store := st } a r.jobs = noteJob r.config a r.jobs := by
      cases a <;> rfl
    refine rel_map (hact a fun i id heq => hrequest i id (congrArg _ heq)) fun s s' hs => ?_
    show Faulty.Beside _ _ _ ⟨s, noteJob { r.config with store := st } a r.jobs⟩ _
    rw [hnote]
    exact hs.faulty _
  | reject component =>
    have hcrash := hact (.crash component) (by simp)
    cases component with
    | worker w =>
      refine rel_bind_self fun wk _ => ?_
      exact rel_bind_self fun _ _ => .some ⟨rfl, h⟩
    | _ => exact rel_map hcrash fun _ _ hs => hs.faulty _

end Own

section Other

variable {env : Env T} {s s' : Config T} {queue : QueueName} {ids : Set JobId} {keys : Set String}

theorem jobId?_of_renews {pc : WorkerPc T} {id : JobId} (h : pc.renews = some id) :
    pc.jobId? = some id := by
  cases pc <;> first | exact h | cases h

/-- **A step leaves the other queues alone.** -/
theorem step_other {a : Action T} (hqueue : env.queueName ≠ queue) (hown : s.OwnCalls)
    (hcalls : ∀ c ∈ s.calls, c.id ∉ ids ∧ ∀ key, c.key = some key → key ∉ keys)
    (hs : step env s a = some s') : s.store.SameOn queue ids keys s'.store := by
  have hids : ∀ id ∈ s.calls.map Call.id, id ∉ ids := by
    intro id hid
    obtain ⟨c, hc, rfl⟩ := List.mem_map.mp hid
    exact (hcalls c hc).1
  cases stepped hs with
  | @produce i pc e hi he =>
    have hpc : pc ∈ s.producers := List.mem_of_getElem? hi
    refine producerStep_other hqueue (fun id hid => hids id (hown.producers pc hpc id hid)) ?_ he
    intro id job key heq
    obtain ⟨c, hc, hkey⟩ := hown.claims pc hpc id job key heq
    exact (hcalls c hc).2 key hkey
  | @work w draw wk e hw he =>
    have hwk : wk ∈ s.workers := List.mem_of_getElem? hw
    exact workerStep_other hqueue (fun id hid => hids id (hown.workers wk hwk id hid)) he
  | @renew w wk id hw hrenews =>
    have hwk : wk ∈ s.workers := List.mem_of_getElem? hw
    have hid : id ∉ ids := hids id (hown.workers wk hwk id (jobId?_of_renews hrenews))
    exact Store.SameOn.refl.setHeartbeat_other hid _ _
  | @schedule i pc hi =>
    have hpc : pc ∈ s.schedulers := List.mem_of_getElem? hi
    exact schedulerStep_other hqueue fun id hid => hids id (hown.schedulers pc hpc id hid)
  | @watch i pc hi =>
    have hpc : pc ∈ s.watchdogs := List.mem_of_getElem? hi
    exact watchdogStep_other hqueue fun id hid => hids id (hown.watchdogs pc hpc id hid)
  | @respond i pc e hi he =>
    have hpc : pc ∈ s.retries := List.mem_of_getElem? hi
    exact retryStep_other hqueue (fun id hid => hids id (hown.retries pc hpc id hid)) he
  | _ => exact .refl

/-- **A step of another queue** leaves the share alone. -/
theorem faultyStep_other {r r' : Faulty T} {a : FaultyAction T} (hqueue : env.queueName ≠ queue)
    (hown : r.config.OwnCalls)
    (hcalls : ∀ c ∈ r.config.calls, c.id ∉ ids ∧ ∀ key, c.key = some key → key ∉ keys)
    (hs : faultyStep env r a = some r') : r.config.store.SameOn queue ids keys r'.config.store := by
  cases faultyStepped hs with
  | act hstep => exact step_other hqueue hown hcalls hstep
  | rejectWorker => exact .refl
  | reject _ hstep => exact step_other hqueue hown hcalls hstep

end Other

section Calls

variable {env : Env T} {r r' : Faulty T} {a : FaultyAction T}

/-- A rejected command counts nothing. -/
theorem counters_faultyStep (hs : faultyStep env r a = some r') :
    r'.config.store.counters = r.config.store.counters + r.counts a := by
  cases faultyStepped hs with
  | act hstep => exact counters_step hstep
  | rejectWorker => rfl
  | reject _ hstep => exact counters_step hstep

/-- A new call is that of an `enqueue` step. -/
theorem call_of_step {s s' : Config T} {a : Action T} (hs : step env s a = some s') {c : Call T}
    (hc : c ∈ s'.calls) :
    c ∈ s.calls ∨ ∃ i id call, a = .enqueue i id call ∧ c = ⟨id, call, s.clock⟩ := by
  cases stepped hs with
  | @enqueue i id call =>
    rcases List.mem_append.mp hc with hold | hnew
    · exact .inl hold
    · exact .inr ⟨i, id, call, rfl, List.mem_singleton.mp hnew⟩
  | _ => exact .inl hc

/-- New calls are those of `enqueue` steps. -/
theorem call_of_faultyStep (hs : faultyStep env r a = some r') {c : Call T}
    (hc : c ∈ r'.config.calls) :
    c ∈ r.config.calls ∨
      ∃ i id call, a = .act (.enqueue i id call) ∧ c = ⟨id, call, r.config.clock⟩ := by
  cases faultyStepped hs with
  | act hstep =>
    rcases call_of_step hstep hc with hold | ⟨i, id, call, rfl, hnew⟩
    · exact .inl hold
    · exact .inr ⟨i, id, call, rfl, hnew⟩
  | rejectWorker => exact .inl hc
  | reject _ hstep =>
    rcases call_of_step hstep hc with hold | ⟨i, id, call, heq, -⟩
    · exact .inl hold
    · cases heq

theorem calls_faultyStep (hs : faultyStep env r a = some r') :
    r.config.calls ⊆ r'.config.calls := by
  cases faultyStepped hs with
  | act hstep => exact (calls_step hstep).subset
  | rejectWorker => exact List.Subset.refl _
  | reject _ hstep => exact (calls_step hstep).subset

theorem clock_faultyStep (hs : faultyStep env r a = some r') :
    r.config.clock ≤ r'.config.clock := by
  cases faultyStepped hs with
  | act hstep => exact clock_step hstep
  | rejectWorker => exact Nat.le_refl _
  | reject _ hstep => exact clock_step hstep

/-- Being unrelated is mutual. -/
theorem Call.Unrelated.symm {c c' : Call T} (h : c.Unrelated c') : c'.Unrelated c := by
  refine ⟨h.1.symm, ?_⟩
  rcases h.2 with hnone | hne
  · by_cases hnone' : c'.key = none
    · exact .inl hnone'
    · exact .inr fun heq => hnone' (heq.trans hnone)
  · exact .inr (Ne.symm hne)

end Calls

/-! ## Side by side -/

section Queues

variable {ι : Type} [DecidableEq ι] [Fintype ι] {env : Env T} {names : ι → QueueName}
  {s s' r : ι → Faulty T}

/-- The jobs that are not another queue's. -/
def ownIds (s : ι → Faulty T) (i : ι) : Set JobId :=
  {id | ∀ j ≠ i, ∀ c ∈ (s j).config.calls, c.id ≠ id}

/-- The idempotency keys that are not another queue's. -/
def ownKeys (s : ι → Faulty T) (i : ι) : Set String :=
  {key | ∀ j ≠ i, ∀ c ∈ (s j).config.calls, c.key ≠ some key}

/-- `s` is made up of the systems `r`, one for each queue: the same components in the same
state, the same calls and events, and in Redis the same lists, sets and hashes of each queue
and the same under the keys that no other queue uses. -/
structure Composed (names : ι → QueueName) (s r : ι → Faulty T) : Prop where
  /-- They all see the same Redis and the same clock. -/
  redis : ∀ i j, (s i).config.store = (s j).config.store
  clock : ∀ i j, (s i).config.clock = (s j).config.clock
  same : ∀ i, s i = (r i).sees (s i).config.store (r i).config.clock
  store : ∀ i, (s i).config.store.SameOn (names i) (ownIds s i) (ownKeys s i) (r i).config.store
  apart : ∀ i j, i ≠ j → ∀ c ∈ (s i).config.calls, ∀ c' ∈ (s j).config.calls, c.Unrelated c'
  counters : ∀ i, (s i).config.store.counters = ∑ j, (r j).config.store.counters

omit [DecidableEq ι] in
/-- Before the first step, the shared store is empty and so is every part. -/
theorem composed_init (names : ι → QueueName) (topology : ι → Topology) :
    Composed names (fun i => (Faulty.init (topology i) : Faulty T))
      (fun i => Faulty.init (topology i)) where
  redis _ _ := rfl
  clock _ _ := rfl
  same _ := rfl
  store _ := .refl
  apart _ _ _ _ hc := absurd hc List.not_mem_nil
  counters _ := (Finset.sum_eq_zero fun _ _ => rfl).symm

section Own

omit [DecidableEq ι]

/-- A call of a queue is in its share, with its key. -/
theorem Composed.mem_own (hC : Composed names s r) {i : ι} {c : Call T}
    (hc : c ∈ (s i).config.calls) :
    c.id ∈ ownIds s i ∧ ∀ key, c.key = some key → key ∈ ownKeys s i := by
  refine ⟨fun j hj c' hc' => (hC.apart j i hj c' hc' c hc).1, fun key hkey j hj c' hc' hkey' => ?_⟩
  rcases (hC.apart j i hj c' hc' c hc).2 with hnone | hne
  · rw [hnone] at hkey'
    cases hkey'
  · exact hne (hkey'.trans hkey.symm)

omit [Fintype ι] in
/-- And it is in nobody else's, as long as the calls of different queues are unrelated. -/
theorem not_mem_own {i j : ι} (hij : i ≠ j) {c : Call T} (hc : c ∈ (s i).config.calls) :
    c.id ∉ ownIds s j ∧ ∀ key, c.key = some key → key ∉ ownKeys s j :=
  ⟨fun h => h i hij c hc rfl, fun _ hkey h => h i hij c hc hkey⟩

theorem Composed.calls (hC : Composed names s r) (i : ι) :
    (s i).config.calls = (r i).config.calls := by
  rw [hC.same i]
  rfl

end Own

/-- Queue `i` goes on in the state `y`, and time passes for the others. -/
def moveAlone (r : ι → Faulty T) (i : ι) (y : Faulty T) : ι → Faulty T :=
  fun j => if j = i then y else (r j).sees (r j).config.store y.config.clock

section Move

variable {i : ι} {x y : Faulty T} {a : FaultyAction T}

omit [Fintype ι]

theorem store_moveOn (j : ι) : (moveOn s i x j).config.store = x.config.store := by
  unfold moveOn
  split <;> rfl

theorem clock_moveOn (j : ι) : (moveOn s i x j).config.clock = x.config.clock := by
  unfold moveOn
  split <;> rfl

/-- What a step of one queue leaves to the others: their calls are what they were, and its own
only grow. -/
theorem calls_moveOn (hx : faultyStep env (s i) a = some x) (j : ι) :
    (s j).config.calls ⊆ (moveOn s i x j).config.calls := by
  unfold moveOn
  split
  · next hji =>
    subst hji
    exact calls_faultyStep hx
  · exact List.Subset.refl _

theorem ownIds_moveOn (hx : faultyStep env (s i) a = some x) (j : ι) :
    ownIds (moveOn s i x) j ⊆ ownIds s j :=
  fun _ hid k hk c hc => hid k hk c (calls_moveOn hx k hc)

theorem ownKeys_moveOn (hx : faultyStep env (s i) a = some x) (j : ι) :
    ownKeys (moveOn s i x) j ⊆ ownKeys s j :=
  fun _ hkey k hk c hc => hkey k hk c (calls_moveOn hx k hc)

end Move

section Step

variable {i : ι} {x y : Faulty T} {a : FaultyAction T}

/-- Each queue has taken a step of its own or none. -/
theorem reach_moveAlone (hC : Composed names s r)
    (hy : faultyStep (env.on (names i)) (r i) a = some y) (j : ι) :
    Reach (faultyStep (env.on (names j))) (fun _ _ => True) (r j) (moveAlone r i y j) := by
  have hclock : (r j).config.clock = (r i).config.clock := by
    have hj : (s j).config.clock = (r j).config.clock := congrArg (·.config.clock) (hC.same j)
    have hi : (s i).config.clock = (r i).config.clock := congrArg (·.config.clock) (hC.same i)
    rw [← hj, ← hi, hC.clock j i]
  unfold moveAlone
  split
  · next hji =>
    subst hji
    exact Reach.refl.tail trivial hy
  · -- the clock goes on
    obtain ⟨ms, hms⟩ := Nat.exists_eq_add_of_le (hclock.trans_le (clock_faultyStep hy))
    refine Reach.refl.tail (a := .act (.tick ms)) trivial ?_
    rw [hms]
    rfl

omit [DecidableEq ι] in
/-- A new call is unrelated to the calls of the other queues. -/
theorem Composed.unrelated (hC : Composed names s r) (ha : Separate s (i, a))
    (hx : faultyStep env (s i) a = some x) {c : Call T} (hc : c ∈ x.config.calls) {j : ι}
    (hj : j ≠ i) {c' : Call T} (hc' : c' ∈ (s j).config.calls) : c.Unrelated c' := by
  rcases call_of_faultyStep hx hc with hold | ⟨n, id, call, rfl, rfl⟩
  · exact hC.apart i j hj.symm c hold c' hc'
  · exact ha j hj c' hc'

/-- A separate step keeps the calls of different queues unrelated. -/
theorem Composed.apart_moveOn (hC : Composed names s r) (ha : Separate s (i, a))
    (hx : faultyStep env (s i) a = some x) {j k : ι} (hjk : j ≠ k) :
    ∀ c ∈ (moveOn s i x j).config.calls, ∀ c' ∈ (moveOn s i x k).config.calls,
      c.Unrelated c' := by
  intro c hc c' hc'
  unfold moveOn at hc hc'
  split at hc
  · next hj =>
    subst hj
    rw [if_neg hjk.symm] at hc'
    exact hC.unrelated ha hx hc hjk.symm hc'
  · next hj =>
    split at hc'
    · next hk =>
      subst hk
      exact (hC.unrelated ha hx hc' hj hc).symm
    · exact hC.apart j k hjk c hc c' hc'

omit [DecidableEq ι] in
theorem Composed.ownCalls (hC : Composed names s r)
    (hI : ∀ i, Integrity (env.on (names i)) (r i).config) (i : ι) : (s i).config.OwnCalls := by
  rw [hC.same i]
  exact { (hI i).ownCalls with }

/-- The shared step, seen from one queue, is the step it takes alone. -/
theorem Composed.same_moveOn (hC : Composed names s r)
    (hxy : x = y.sees x.config.store y.config.clock) (j : ι) :
    moveOn s i x j = (moveAlone r i y j).sees x.config.store (moveAlone r i y j).config.clock := by
  have hclock : x.config.clock = y.config.clock := congrArg (·.config.clock) hxy
  unfold moveOn moveAlone
  split
  · exact hxy
  · rw [hC.same j, hclock]
    rfl

/-- Its share of the store is as in the run it has alone: its own steps do the same there, the
others' do nothing. -/
theorem Composed.store_moveOn (hnames : Function.Injective names) (hC : Composed names s r)
    (hI : ∀ i, Integrity (env.on (names i)) (r i).config)
    (hx : faultyStep (env.on (names i)) (s i) a = some x)
    (hstore : x.config.store.SameOn (names i) (ownIds s i) (ownKeys s i) y.config.store) (j : ι) :
    x.config.store.SameOn (names j) (ownIds (moveOn s i x) j) (ownKeys (moveOn s i x) j)
      (moveAlone r i y j).config.store := by
  refine .mono (ownIds_moveOn hx j) (ownKeys_moveOn hx j) ?_
  unfold moveAlone
  split
  · next hji =>
    subst hji
    exact hstore
  · next hji =>
    -- the step is not about queue `j`
    have hqueue : (env.on (names i)).queueName ≠ names j := fun heq => hji (hnames heq).symm
    have hframe := faultyStep_other hqueue (hC.ownCalls hI i)
      (fun c hc => not_mem_own (Ne.symm hji) hc) hx
    rw [hC.redis i j] at hframe
    exact hframe.symm.trans (hC.store j)

theorem counts_sees (r : Faulty T) (st : Store) (clock : Nat) (a : FaultyAction T) :
    (r.sees st clock).counts a = r.counts a := by
  cases a with
  | act a => cases a <;> rfl
  | reject => rfl

/-- The one set of counters is the sum of those the queues would have alone. -/
theorem Composed.counters_moveOn (hC : Composed names s r)
    (hx : faultyStep (env.on (names i)) (s i) a = some x)
    (hy : faultyStep (env.on (names i)) (r i) a = some y) :
    x.config.store.counters = ∑ j, (moveAlone r i y j).config.store.counters := by
  have hcounts : (s i).counts a = (r i).counts a := by
    rw [hC.same i]
    exact counts_sees _ _ _ a
  have hparts : ∀ j, (moveAlone r i y j).config.store.counters =
      (r j).config.store.counters + if j = i then (r i).counts a else 0 := by
    intro j
    unfold moveAlone
    split
    · next hji =>
      subst hji
      exact counters_faultyStep hy
    · exact (add_zero _).symm
  rw [counters_faultyStep hx, hC.counters i, hcounts, Finset.sum_congr rfl fun j _ => hparts j,
    Finset.sum_add_distrib, Finset.sum_ite_eq', if_pos (Finset.mem_univ i)]

/-- **One step.** -/
theorem composed_step (hnames : Function.Injective names) (hC : Composed names s r)
    (hI : ∀ i, Integrity (env.on (names i)) (r i).config) {a : ι × FaultyAction T}
    (ha : Separate s a) (hs : sharedStep env names s a = some s') :
    ∃ r', (∀ i, Reach (faultyStep (env.on (names i))) (fun _ _ => True) (r i) (r' i)) ∧
      Composed names s' r' := by
  obtain ⟨i, a⟩ := a
  obtain ⟨x, hx, rfl⟩ := Option.map_eq_some_iff.mp hs
  -- the queue does by itself what it does beside the others
  have hrequest : ∀ n id, a = .act (.request n id) → id ∈ ownIds s i := by
    rintro n id rfl
    exact ha
  have hcalls : ∀ c ∈ (r i).config.calls,
      c.id ∈ ownIds s i ∧ ∀ key, c.key = some key → key ∈ ownKeys s i := by
    intro c hc
    rw [← hC.calls i] at hc
    exact hC.mem_own hc
  have hst : (s i).config.store.SameOn (env.on (names i)).queueName (ownIds s i) (ownKeys s i)
      (r i).config.store := hC.store i
  have hrel := faultyStep_same hst (hI i).ownCalls hcalls hrequest
  rw [← hC.same i, hx] at hrel
  obtain ⟨y, hy, hxy, hstore⟩ := exists_of_rel hrel
  refine ⟨moveAlone r i y, reach_moveAlone hC hy, ?_⟩
  exact {
    redis := fun j k => (store_moveOn j).trans (store_moveOn k).symm
    clock := fun j k => (clock_moveOn j).trans (clock_moveOn k).symm
    same := fun j => by
      rw [store_moveOn]
      exact hC.same_moveOn hxy j
    store := fun j => by
      rw [store_moveOn]
      exact hC.store_moveOn hnames hI hx hstore j
    apart := fun j k hjk => hC.apart_moveOn ha hx hjk
    counters := fun j => by
      rw [store_moveOn]
      exact hC.counters_moveOn hx hy }

end Step

/-- **Queues on one Redis do not interfere.** Let any number of queues with different names share
one Redis, and let no call come with another queue's idempotency key and no retry request be for
another queue's job. Then in every interleaving, whatever crashes and whichever commands are
rejected, each queue is in a state it also reaches by itself, with the same components, calls
and events and the same in Redis, and the counters in Redis are the sums of what the queues
count by themselves. -/
theorem queues_compose {topology : ι → Topology} (hnames : Function.Injective names)
    (h : Reach (sharedStep env names) Separate (fun i => (Faulty.init (topology i) : Faulty T)) s) :
    ∃ r : ι → Faulty T, (∀ i, Reach (faultyStep (env.on (names i))) (fun _ _ => True)
      (Faulty.init (topology i)) (r i)) ∧ Composed names s r := by
  refine h.parts (composed_init names topology) ?_
  intro s r a s' hr hC ha hs
  exact composed_step hnames hC (fun i => (sound_run (hr i)).integrity) ha hs

end Queues

/-- A job on each of two queues, step by step in turn. -/
def jobOnEach : List (Bool × FaultyAction Unit) :=
  [(true, .act (.enqueue 0 "a" (.core "mail" () .absent none))),
    (false, .act (.enqueue 0 "b" (.core "mail" () .absent none)))] ++
  [Action.produce 0, .produce 0, .work 0 0, .work 0 0, .work 0 0, .work 0 0, .work 0 0, .work 0 0,
    .settle 0 .resolve, .work 0 0].flatMap fun a => [(true, .act a), (false, .act a)]

/-- Both jobs are done: Redis has counted two, each queue by itself one. -/
theorem queues_compose_two : ∃ s r : Bool → Faulty Unit,
    Composed (fun i => if i then "main_queue" else "mails") s r ∧
      (s true).config.store.jobsProcessedTotal = 2 ∧
      (∑ i, (r i).config.store.counters).1 = 2 := by
  have hnames : Function.Injective fun i => if i = true then "main_queue" else "mails" := by
    intro i j h
    cases i <;> cases j <;> simp_all
  obtain ⟨s, hs, hprocessed⟩ :=
    exists_reach_of_run (sharedStep mainQueue fun i => if i then "main_queue" else "mails") Separate
      (fun _ => Faulty.init ⟨1, [["mail"]], 1, 1, 0⟩)
      (fun s => (s true).config.store.jobsProcessedTotal = 2) jobOnEach (by decide +kernel)
  obtain ⟨r, -, hC⟩ := queues_compose hnames hs
  refine ⟨s, r, hC, hprocessed, ?_⟩
  rw [← hC.counters true]
  exact hprocessed

end DistriSys
