import DistriSys.Core.Operations
import DistriSys.Core.System

/-!
# Queues on one Redis

`enqueue` calls on any queues, one after the other, against the same Redis. What
does queue `queue` see of the others? Two runs are compared: all calls, and only
those on `queue`.

Lists carry the name of their queue, idempotency slots do not. So the slots are
the one thing through which the other queues show: **`queues_isolated`** says that
the results of the calls on `queue` and its waiting lists are the same in both
runs if and only if none of its calls meets a slot that a job of an earlier call on another
queue holds.

`SideBySide` relates the two stores: the lists of `queue` are the same, and an idempotency key
is either the same in both or held, in the run with all calls only, by a job of another queue.
`sideBySide_own` and `sideBySide_other` are its steps, one for each kind of call, and
`isolated_iff_unshadowed` is the induction over the calls. Ids are fresh and time does not run
backwards (`History`); the store the calls start from is arbitrary.
-/

namespace DistriSys

open Js Redis

variable {T : Type}

/-- An `enqueue` call on the queue of this name. -/
structure Arrival (T : Type) where
  queue : QueueName
  call : Call T

/-- The environment of a queue on the same Redis. -/
def Env.on (env : Env T) (queue : QueueName) : Env T := { env with queueName := queue }

/-- The call, made at its time. -/
def Arrival.enqueue (env : Env T) (a : Arrival T) (st : Store) : EnqueueResult × Store :=
  DistriSys.enqueue (env.on a.queue) a.call.time a.call.id a.call.request st

/-- The store after a sequence of calls. -/
def enqueueAll (env : Env T) (as : List (Arrival T)) (st : Store) : Store :=
  as.foldl (fun st a => (a.enqueue env st).2) st

/-- What the calls on `queue` return in a sequence of calls. -/
def results (env : Env T) (queue : QueueName) : List (Arrival T) → Store → List EnqueueResult
  | [], _ => []
  | a :: as, st =>
    let rest := results env queue as (a.enqueue env st).2
    if a.queue = queue then (a.enqueue env st).1 :: rest else rest

/-- The calls on `queue` return the same, and leave the same waiting lists, when the calls
on other queues are omitted. -/
def Isolated (env : Env T) (queue : QueueName) (as : List (Arrival T)) (st : Store) : Prop :=
  let own := as.filter (·.queue = queue)
  results env queue as st = results env queue own st ∧
    ∀ p : JobPriority, (enqueueAll env as st).lists (.waitingList queue p.name) =
      (enqueueAll env own st).lists (.waitingList queue p.name)

/-- No call on `queue` comes with a key whose slot is held by one of the jobs
`others`, or by the job of an earlier call on another queue. -/
def Unshadowed (env : Env T) (queue : QueueName) (others : List JobId) :
    List (Arrival T) → Store → Prop
  | [], _ => True
  | a :: as, st =>
    (a.queue = queue → ∀ key ∈ a.call.key,
      ∀ holder ∈ Volatile.get? a.call.time (st.idempotency key), holder ∉ others) ∧
    Unshadowed env queue (if a.queue = queue then others else a.call.id :: others) as
      (a.enqueue env st).2

/-- Calls in the order of their times, each with an id of its own that no slot holds yet. -/
structure History (as : List (Arrival T)) (st : Store) : Prop where
  ids : (as.map (·.call.id)).Nodup
  fresh : ∀ a ∈ as, ∀ key, ∀ slot ∈ st.idempotency key, slot.value ≠ a.call.id
  times : as.Pairwise fun a b => a.call.time ≤ b.call.time

/-! ## Two runs side by side -/

/-- The run with all calls is in `full`, the run with the calls on `queue` is in
`own`. A slot differs only if a job of another queue has claimed it in `full`, and
then it is free in `own`. -/
structure SideBySide (queue : QueueName) (others : List JobId) (now : Nat) (full own : Store) :
    Prop where
  lists : ∀ p : JobPriority,
    full.lists (.waitingList queue p.name) = own.lists (.waitingList queue p.name)
  slots : ∀ key, full.idempotency key = own.idempotency key ∨
    (∃ slot ∈ full.idempotency key, slot.value ∈ others) ∧
      Volatile.get? now (own.idempotency key) = none
  clean : ∀ key, ∀ slot ∈ own.idempotency key, slot.value ∉ others

section Runs

variable {env : Env T} {queue : QueueName} {others : List JobId} {now : Nat}
  {st full own : Store} {a : Arrival T} {as : List (Arrival T)} {key : String} {holder : JobId}

/-- A call without a key, or with a key whose slot is free, pushes its job. -/
theorem pushed_enqueue (env : Env T)
    (hfree : ∀ key ∈ a.call.key, Volatile.get? a.call.time (st.idempotency key) = none) :
    (a.enqueue env st).1 = .job a.call.id ∧
      (a.enqueue env st).2.lists = Function.update st.lists
        (.waitingList a.queue a.call.request.priority.name)
        (a.call.id :: st.lists (.waitingList a.queue a.call.request.priority.name)) ∧
      ∀ key, (a.enqueue env st).2.idempotency key = if a.call.key = some key
        then some (.setEx a.call.time idempotencyTtlSec a.call.id) else st.idempotency key := by
  cases hkey : a.call.key with
  | none =>
    rw [Arrival.enqueue, enqueue_unkeyed hkey]
    exact ⟨rfl, rfl, fun key => by simp⟩
  | some key =>
    rw [Arrival.enqueue, enqueue_free hkey (hfree key hkey)]
    refine ⟨rfl, rfl, ?_⟩
    intro key'
    by_cases h : key' = key
    · subst h
      simp
    · simp [h, Ne.symm h]

/-- A call whose slot is held returns the holder, and changes neither lists nor slots. -/
theorem dropped_enqueue (env : Env T) (hkey : a.call.key = some key)
    (hheld : Volatile.get? a.call.time (st.idempotency key) = some holder)
    (hne : holder ≠ a.call.id) :
    (a.enqueue env st).1 = .existing holder ∧ (a.enqueue env st).2.lists = st.lists ∧
      (a.enqueue env st).2.idempotency = st.idempotency := by
  rw [Arrival.enqueue, enqueue_held hkey hheld hne]
  exact ⟨rfl, rfl, rfl⟩

/-- A slot that is not free is held by somebody. -/
theorem exists_held {now : Nat} {key? : Option String}
    (h : ¬ ∀ key ∈ key?, Volatile.get? now (st.idempotency key) = none) :
    ∃ key ∈ key?, ∃ slot ∈ st.idempotency key,
      Volatile.get? now (st.idempotency key) = some slot.value := by
  push Not at h
  obtain ⟨key, hkey, hheld⟩ := h
  obtain ⟨holder, hheld⟩ := Option.ne_none_iff_exists'.mp hheld
  obtain ⟨slot, hslot, rfl, -⟩ := Volatile.exists_of_get? hheld
  exact ⟨key, hkey, slot, hslot, hheld⟩

/-- Either way a slot holds what it held, or the id of the call. -/
theorem slot_enqueue (hfresh : ∀ key, ∀ slot ∈ st.idempotency key, slot.value ≠ a.call.id)
    {slot : Volatile JobId} (hslot : slot ∈ (a.enqueue env st).2.idempotency key) :
    slot ∈ st.idempotency key ∨ slot.value = a.call.id := by
  by_cases hfree : ∀ key ∈ a.call.key, Volatile.get? a.call.time (st.idempotency key) = none
  · rw [(pushed_enqueue env hfree).2.2] at hslot
    split at hslot
    · cases hslot
      exact .inr rfl
    · exact .inl hslot
  · obtain ⟨key', hkey', v, hv, hheld⟩ := exists_held hfree
    rw [(dropped_enqueue env hkey' hheld (hfresh _ v hv)).2.2] at hslot
    exact .inl hslot

theorem History.tail (h : History (a :: as) st) : History as st where
  ids := (List.nodup_cons.mp h.ids).2
  fresh b hb := h.fresh b (List.mem_cons_of_mem a hb)
  times := (List.pairwise_cons.mp h.times).2

theorem History.fresh_head (h : History (a :: as) st) :
    ∀ key, ∀ slot ∈ st.idempotency key, slot.value ≠ a.call.id :=
  h.fresh a List.mem_cons_self

theorem History.enqueue (h : History (a :: as) st) : History as (a.enqueue env st).2 where
  ids := h.tail.ids
  fresh b hb key slot hslot := by
    rcases slot_enqueue h.fresh_head hslot with hslot | hslot
    · exact h.tail.fresh b hb key slot hslot
    · intro heq
      exact (List.nodup_cons.mp h.ids).1 (List.mem_map.mpr ⟨b, hb, heq.symm.trans hslot⟩)
  times := h.tail.times

/-! ## The two runs, call by call -/

/-- A call on another queue shows in the slots only. -/
theorem sideBySide_other (env : Env T) (h : SideBySide queue others now full own)
    (hqueue : a.queue ≠ queue) (hle : now ≤ a.call.time)
    (hfull : ∀ key, ∀ slot ∈ full.idempotency key, slot.value ≠ a.call.id)
    (hown : ∀ key, ∀ slot ∈ own.idempotency key, slot.value ≠ a.call.id) :
    SideBySide queue (a.call.id :: others) a.call.time (a.enqueue env full).2 own := by
  obtain ⟨hlists, hslots, hclean⟩ := h
  have hclean' : ∀ key, ∀ slot ∈ own.idempotency key, slot.value ∉ a.call.id :: others :=
    fun key slot hslot => by
      simpa using ⟨hown key slot hslot, hclean key slot hslot⟩
  -- time only makes slots expire
  have hlater : ∀ key, full.idempotency key = own.idempotency key ∨
      (∃ slot ∈ full.idempotency key, slot.value ∈ a.call.id :: others) ∧
        Volatile.get? a.call.time (own.idempotency key) = none := by
    intro key
    rcases hslots key with heq | ⟨⟨slot, hslot, hother⟩, hnone⟩
    · exact .inl heq
    · exact .inr ⟨⟨slot, hslot, List.mem_cons_of_mem _ hother⟩,
        Volatile.get?_eq_none_mono hle hnone⟩
  by_cases hfree : ∀ key ∈ a.call.key, Volatile.get? a.call.time (full.idempotency key) = none
  · obtain ⟨-, hpush, hclaim⟩ := pushed_enqueue env hfree
    refine ⟨?_, ?_, hclean'⟩
    · intro p
      rw [hpush, ← hlists p]
      simp [Ne.symm hqueue]
    · intro key
      rw [hclaim]
      split
      · next hkey =>
        refine .inr ⟨⟨_, rfl, List.mem_cons_self⟩, ?_⟩
        rcases hlater key with heq | ⟨-, hnone⟩
        · exact heq ▸ hfree key hkey
        · exact hnone
      · exact hlater key
  · obtain ⟨key, hkey, v, hv, hheld⟩ := exists_held hfree
    obtain ⟨-, hsame, hsame'⟩ := dropped_enqueue env hkey hheld (hfull key v hv)
    refine ⟨?_, ?_, hclean'⟩
    · intro p
      rw [hsame, hlists]
    · intro key
      rw [hsame']
      exact hlater key

/-- A call on the queue whose slot no job of another queue holds returns the same in
both runs. -/
theorem sideBySide_own (env : Env T) (h : SideBySide queue others now full own)
    (hqueue : a.queue = queue) (hle : now ≤ a.call.time) (hnew : a.call.id ∉ others)
    (hfull : ∀ key, ∀ slot ∈ full.idempotency key, slot.value ≠ a.call.id)
    (hclear : ∀ key ∈ a.call.key,
      ∀ holder ∈ Volatile.get? a.call.time (full.idempotency key), holder ∉ others) :
    (a.enqueue env full).1 = (a.enqueue env own).1 ∧
      SideBySide queue others a.call.time (a.enqueue env full).2 (a.enqueue env own).2 := by
  obtain ⟨hlists, hslots, hclean⟩ := h
  have hlater : ∀ key, full.idempotency key = own.idempotency key ∨
      (∃ slot ∈ full.idempotency key, slot.value ∈ others) ∧
        Volatile.get? a.call.time (own.idempotency key) = none :=
    fun key => (hslots key).imp_right fun h => ⟨h.1, Volatile.get?_eq_none_mono hle h.2⟩
  -- the two runs find the slot of the call in the same condition
  have hseen : ∀ key ∈ a.call.key, Volatile.get? a.call.time (full.idempotency key) =
      Volatile.get? a.call.time (own.idempotency key) := by
    intro key hkey
    rcases hlater key with heq | ⟨⟨slot, hslot, hother⟩, hnone⟩
    · rw [heq]
    · rw [hnone]
      cases hheld : Volatile.get? a.call.time (full.idempotency key) with
      | none => rfl
      | some holder =>
        obtain ⟨v, hv, rfl, -⟩ := Volatile.exists_of_get? hheld
        obtain rfl : slot = v := Option.mem_unique hslot hv
        exact absurd hother (hclear key hkey _ hheld)
  by_cases hfree : ∀ key ∈ a.call.key, Volatile.get? a.call.time (full.idempotency key) = none
  · have hfree' : ∀ key ∈ a.call.key, Volatile.get? a.call.time (own.idempotency key) = none :=
      fun key hkey => (hseen key hkey).symm.trans (hfree key hkey)
    obtain ⟨hjob, hpush, hclaim⟩ := pushed_enqueue env hfree
    obtain ⟨hjob', hpush', hclaim'⟩ := pushed_enqueue env hfree'
    refine ⟨hjob.trans hjob'.symm, ?_, ?_, ?_⟩
    · intro p
      rw [hpush, hpush', hqueue, hlists a.call.request.priority]
      by_cases hp : p = a.call.request.priority
      · simp [hp]
      · simp [hp, hlists p]
    · intro key
      rw [hclaim, hclaim']
      split
      · exact .inl rfl
      · exact hlater key
    · intro key slot hslot
      rw [hclaim'] at hslot
      split at hslot
      · cases hslot
        exact hnew
      · exact hclean key slot hslot
  · obtain ⟨key, hkey, v, hv, hheld⟩ := exists_held hfree
    have hne := hfull key v hv
    obtain ⟨hid, hsame, hsame'⟩ := dropped_enqueue env hkey hheld hne
    obtain ⟨hid', hsame₁, hsame₁'⟩ := dropped_enqueue env hkey
      ((hseen key hkey).symm.trans hheld) hne
    refine ⟨hid.trans hid'.symm, ?_, ?_, ?_⟩
    · intro p
      rw [hsame, hsame₁, hlists]
    · intro key
      rw [hsame', hsame₁']
      exact hlater key
    · rw [hsame₁']
      exact hclean

/-- A call on the queue whose slot a job of another queue holds returns that job, but not
in the run without the other queues. -/
theorem results_ne_of_shadowed (h : SideBySide queue others now full own)
    (hfull : ∀ key, ∀ slot ∈ full.idempotency key, slot.value ≠ a.call.id)
    (hown : ∀ key, ∀ slot ∈ own.idempotency key, slot.value ≠ a.call.id)
    (hkey : a.call.key = some key)
    (hheld : Volatile.get? a.call.time (full.idempotency key) = some holder)
    (hother : holder ∈ others) : (a.enqueue env full).1 ≠ (a.enqueue env own).1 := by
  obtain ⟨v, hv, rfl, -⟩ := Volatile.exists_of_get? hheld
  rw [(dropped_enqueue env hkey hheld (hfull key v hv)).1]
  cases hheld' : Volatile.get? a.call.time (own.idempotency key) with
  | none =>
    have hfree : ∀ key ∈ a.call.key, Volatile.get? a.call.time (own.idempotency key) = none := by
      rintro _ hkey'
      cases hkey.symm.trans hkey'
      exact hheld'
    rw [(pushed_enqueue env hfree).1]
    nofun
  | some holder' =>
    obtain ⟨v', hv', rfl, -⟩ := Volatile.exists_of_get? hheld'
    rw [(dropped_enqueue env hkey hheld' (hown key v' hv')).1]
    intro heq
    exact h.clean key v' hv' (EnqueueResult.existing.inj heq ▸ hother)

/-- The comparison of the two runs, from any point on. -/
theorem isolated_iff_unshadowed (h : SideBySide queue others now full own)
    (hfull : History as full) (hown : History as own) (hnow : ∀ a ∈ as, now ≤ a.call.time)
    (hnew : ∀ a ∈ as, a.call.id ∉ others) :
    (results env queue as full = results env queue (as.filter (·.queue = queue)) own ∧
        ∀ p : JobPriority, (enqueueAll env as full).lists (.waitingList queue p.name) =
          (enqueueAll env (as.filter (·.queue = queue)) own).lists (.waitingList queue p.name)) ↔
      Unshadowed env queue others as full := by
  induction as generalizing others now full own with
  | nil => exact iff_of_true ⟨rfl, h.lists⟩ trivial
  | cons a as ih =>
    have hle : now ≤ a.call.time := hnow a List.mem_cons_self
    have hlater : ∀ b ∈ as, a.call.time ≤ b.call.time := (List.pairwise_cons.mp hfull.times).1
    have hnew' : ∀ b ∈ as, b.call.id ∉ others := fun b hb => hnew b (List.mem_cons_of_mem a hb)
    by_cases hqueue : a.queue = queue
    · have hfilter : (a :: as).filter (·.queue = queue) = a :: as.filter (·.queue = queue) :=
        List.filter_cons_of_pos (by simpa using hqueue)
      rw [hfilter, results, results, Unshadowed, if_pos hqueue, if_pos hqueue, if_pos hqueue,
        List.cons_eq_cons]
      -- the queue's own call: is its key held by another queue's job?
      by_cases hclear : ∀ key ∈ a.call.key,
          ∀ holder ∈ Volatile.get? a.call.time (full.idempotency key), holder ∉ others
      · obtain ⟨hresult, hnext⟩ := sideBySide_own env h hqueue hle
          (hnew a List.mem_cons_self) hfull.fresh_head hclear
        rw [and_assoc, and_iff_right hresult, and_iff_right fun _ => hclear]
        exact ih hnext hfull.enqueue hown.enqueue hlater hnew'
      · refine iff_of_false (fun hsame => ?_) fun hunshadowed => hclear (hunshadowed.1 hqueue)
        push Not at hclear
        obtain ⟨key, hkey, holder, hheld, hother⟩ := hclear
        exact results_ne_of_shadowed h hfull.fresh_head hown.fresh_head hkey hheld hother hsame.1.1
    · have hfilter : (a :: as).filter (·.queue = queue) = as.filter (·.queue = queue) :=
        List.filter_cons_of_neg (by simpa using hqueue)
      -- a call of another queue may take keys, and that is all
      have hnext := sideBySide_other env h hqueue hle hfull.fresh_head hown.fresh_head
      have hnew'' : ∀ b ∈ as, b.call.id ∉ a.call.id :: others := by
        intro b hb
        have hne : b.call.id ≠ a.call.id := fun heq =>
          (List.nodup_cons.mp hfull.ids).1 (List.mem_map.mpr ⟨b, hb, heq⟩)
        simpa using ⟨hne, hnew' b hb⟩
      rw [hfilter, results, Unshadowed, if_neg hqueue, if_neg hqueue,
        and_iff_right fun heq => absurd heq hqueue]
      exact ih hnext hfull.enqueue hown.tail hlater hnew''

/-- **When a queue is isolated.** From any store, for any sequence of `enqueue` calls on
any queues: the results of the calls on `queue` and its waiting lists are those of
the run without the other calls if and only if no call on `queue` meets an idempotency
slot that the job of an earlier call on another queue holds. A slot that was set in `st`
already is there in both runs, so its job does not count, whichever queue it is of. -/
theorem queues_isolated (h : History as st) :
    Isolated env queue as st ↔ Unshadowed env queue [] as st := by
  have hstart : SideBySide queue [] 0 st st :=
    ⟨fun _ => rfl, fun _ => .inl rfl, fun _ _ _ => List.not_mem_nil⟩
  exact isolated_iff_unshadowed hstart h h (fun _ _ => Nat.zero_le _) fun _ _ => List.not_mem_nil

end Runs

instance decidableUnshadowed (env : Env T) (queue : QueueName) :
    ∀ (others : List JobId) (as : List (Arrival T)) (st : Store),
      Decidable (Unshadowed env queue others as st)
  | _, [], _ => isTrue trivial
  | others, a :: as, st =>
    have := decidableUnshadowed env queue (if a.queue = queue then others else a.call.id :: others)
      as (a.enqueue env st).2
    inferInstanceAs (Decidable (_ ∧ _))

/-- Two queues whose calls share no key. -/
theorem queues_isolated_by_keys :
    Isolated mainQueue "b"
      [⟨"a", "1", .core "mail" () (.options none none (some "order-1")) none, 0⟩,
        ⟨"b", "2", .core "mail" () (.options none none (some "order-2")) none, 5⟩,
        ⟨"b", "3", .core "mail" () (.options none none (some "order-2")) none, 9⟩] .empty := by
  refine (queues_isolated ⟨by decide +kernel, ?_, by decide +kernel⟩).mpr (by decide +kernel)
  rintro _ _ _ _ ⟨⟩

/-- **A shared key drops a job**: queue `a` has claimed the slot, and the call on queue
`b` returns the id of a job of `a` instead of pushing its own. -/
theorem shared_key_drops_job :
    ¬ ∀ (as : List (Arrival Unit)) (st : Store), History as st → Isolated mainQueue "b" as st := by
  intro h
  have hhistory : History (T := Unit)
      [⟨"a", "1", .core "mail" () (.options none none (some "order")) none, 0⟩,
        ⟨"b", "2", .core "mail" () (.options none none (some "order")) none, 5⟩] .empty := by
    refine ⟨by decide +kernel, ?_, by decide +kernel⟩
    rintro _ _ _ _ ⟨⟩
  exact absurd (h _ _ hhistory).1 (by decide +kernel)

end DistriSys
