import DistriSys.Protocol.Idempotency

/-!
# An idempotency key is good for one push a day

`idempotent_enqueue` is about the calls within one lifetime of a slot. Over a run of any
length a slot expires and is claimed again. What remains is said with a record of the run
(`Record`): the log, stamped with the time at which Redis carried out each command, and what
the script answered to the calls it turned down (`Refusal`).

Three things are kept, by a step lemma each:

- the pushes under one key are more than its lifetime apart, since the slot outlasts the
  last of them (`Spaced`);
- the slot holds the id of a push under the key, and for as long as its lifetime from that
  push on; so a call that is turned down gets the id of the push in whose lifetime its script
  ran (`Held`);
- what `enqueue` returns to such a call is what the script answered (`Recalled`), however much
  later it gets there.

**`pushes_spaced`** puts them together, for every run, whoever dies and however the calls
overlap.
-/

namespace DistriSys

open Js Redis Transition

variable {T : Type}

/-- What the script answered to a call that found its slot taken. -/
structure Refusal where
  key : String
  /-- the id the call had drawn -/
  asked : JobId
  /-- the id it got -/
  claimedId : JobId
  time : Nat
deriving DecidableEq

/-- What is recorded of a run. -/
structure Record where
  /-- the log, with times -/
  stamps : List (Event × Nat)
  refusals : List Refusal

/-- A run with its record. -/
abbrev Stamped (T : Type) := Recorded (Config T) Record

/-- The step is a script that turns its call down. -/
def refusal? (s s' : Config T) : Action T → Option Refusal
  | .produce i =>
    match s.producers[i]?, s'.producers[i]? with
    | some (.claim id _ key), some (.discard _ claimedId) => some ⟨key, id, claimedId, s.clock⟩
    | _, _ => none
  | _ => none

/-- The events of a step are stamped with the clock. -/
def stamp (s : Config T) (a : Action T) (s' : Config T) (record : Record) : Record where
  stamps := record.stamps ++ (s'.log.drop s.log.length).map fun event => (event, s.clock)
  refusals := record.refusals ++ (refusal? s s' a).toList

/-- The job was enqueued with this idempotency key. -/
abbrev Keyed (calls : List (Call T)) (key : String) : JobId → Prop :=
  Called calls fun c => c.key = some key

/-- The time of the stamp, if it is on a push under this key. -/
def pushTime? (calls : List (Call T)) (key : String) : Event × Nat → Option Nat
  | (.pushed id, time) => if Keyed calls key id then some time else none
  | _ => none

/-- The times of the pushes under a key. -/
def pushTimes (r : Stamped T) (key : String) : List Nat :=
  r.history.stamps.filterMap (pushTime? r.state.calls key)

/-- The later of two pushes under a key comes after the slot of the first has expired. -/
def FarApart (time time' : Nat) : Prop := time + idempotencyTtlSec * 1000 < time'

/-- The job was pushed under the key, not later than `now` and within its lifetime from then. -/
def PushedWithin (r : Stamped T) (key : String) (id : JobId) (now : Nat) : Prop :=
  ∃ time, (.pushed id, time) ∈ r.history.stamps ∧ Keyed r.state.calls key id ∧ time ≤ now ∧
    now ≤ time + idempotencyTtlSec * 1000

/-- The pushes so far are far apart, and the slot outlasts the last of them. -/
structure Spaced (key : String) (r : Stamped T) : Prop where
  logged : ∀ entry ∈ r.history.stamps, entry.1 ∈ r.state.log
  apart : (pushTimes r key).Pairwise FarApart
  held : ∀ time ∈ pushTimes r key, ∃ v, r.state.store.idempotency key = some v ∧
    time + idempotencyTtlSec * 1000 ≤ v.expiresAt

/-- The slot is that of a push, and so is what a call got that was turned down. -/
structure Held (key : String) (r : Stamped T) : Prop where
  slot : ∀ v, r.state.store.idempotency key = some v → ∃ time,
    (.pushed v.value, time) ∈ r.history.stamps ∧ Keyed r.state.calls key v.value ∧
      time ≤ r.state.clock ∧ v.expiresAt = time + idempotencyTtlSec * 1000
  refused : ∀ refusal ∈ r.history.refusals, refusal.key = key →
    PushedWithin r key refusal.claimedId refusal.time

/-- Some call was turned down like this, by the given time. -/
def TurnedDown (r : Stamped T) (asked claimedId : JobId) (time : Nat) : Prop :=
  ∃ refusal ∈ r.history.refusals,
    refusal.asked = asked ∧ refusal.claimedId = claimedId ∧ refusal.time ≤ time

/-- A call returns another job's id only because its script answered so. -/
structure Recalled (r : Stamped T) : Prop where
  keyed : ∀ refusal ∈ r.history.refusals, Keyed r.state.calls refusal.key refusal.asked
  discarding : ∀ (i : Nat) asked claimedId, r.state.producers[i]? = some (.discard asked claimedId) →
    TurnedDown r asked claimedId r.state.clock
  returned : ∀ asked claimedId time, (.returnedId asked claimedId, time) ∈ r.history.stamps →
    TurnedDown r asked claimedId time

section Steps

variable {env : Env T} {r r' : Stamped T} {a : Action T} {key : String} {s : Config T}
  {events : List Event}

theorem stamps_stamp (a : Action T) (hlog : s.log = r.state.log ++ events) :
    (stamp r.state a s r.history).stamps =
      r.history.stamps ++ events.map fun event => (event, r.state.clock) := by
  rw [stamp, hlog, List.drop_left]

/-- What is stamped has been logged. -/
theorem mem_log_of_mem_stamp (a : Action T) (h : ∀ entry ∈ r.history.stamps, entry.1 ∈ r.state.log)
    (hlog : s.log = r.state.log ++ events) :
    ∀ entry ∈ (stamp r.state a s r.history).stamps, entry.1 ∈ s.log := by
  intro entry hentry
  rw [stamps_stamp a hlog] at hentry
  rw [hlog]
  rcases List.mem_append.mp hentry with hentry | hentry
  · exact List.mem_append_left _ (h entry hentry)
  · obtain ⟨event, hevent, rfl⟩ := List.mem_map.mp hentry
    exact List.mem_append_right _ hevent

/-- No push under the key, and the slot as it was. -/
theorem Spaced.keep (h : Spaced key r) (hcalls : s.calls = r.state.calls)
    (hlog : s.log = r.state.log ++ events)
    (hevents : ∀ event ∈ events, ∀ time, pushTime? r.state.calls key (event, time) = none)
    (hslot : s.store.idempotency key = r.state.store.idempotency key) :
    Spaced key ⟨s, stamp r.state a s r.history⟩ := by
  have htimes : pushTimes ⟨s, stamp r.state a s r.history⟩ key = pushTimes r key := by
    have hnone : (events.map fun event => (event, r.state.clock)).filterMap
        (pushTime? r.state.calls key) = [] := by
      refine List.filterMap_eq_nil_iff.mpr fun entry hentry => ?_
      obtain ⟨event, hevent, rfl⟩ := List.mem_map.mp hentry
      exact hevents event hevent r.state.clock
    rw [pushTimes, hcalls, stamps_stamp a hlog, List.filterMap_append, hnone, List.append_nil]
    rfl
  refine ⟨mem_log_of_mem_stamp a h.logged hlog, ?_, fun time htime => ?_⟩
  · rw [htimes]
    exact h.apart
  · rw [htimes] at htime
    show ∃ v, s.store.idempotency key = some v ∧ _
    rw [hslot]
    exact h.held time htime

/-- A push under the key finds its slot free, so the pushes before are long past. -/
theorem Spaced.claim (h : Spaced key r) {c : Call T} {id : JobId}
    (hnodup : (r.state.calls.map Call.id).Nodup) (hc : c ∈ r.state.calls) (hid : c.id = id)
    (hkey : c.key = some key)
    (hfree : Volatile.get? r.state.clock (r.state.store.idempotency key) = none)
    (hcalls : s.calls = r.state.calls) (hlog : s.log = r.state.log ++ [.pushed id, .returnedJob id])
    (hslot : s.store.idempotency key = some (.setEx r.state.clock idempotencyTtlSec id)) :
    Spaced key ⟨s, stamp r.state a s r.history⟩ := by
  subst hid
  have hkeyed : Keyed r.state.calls key c.id := (called_iff hnodup hc).mpr hkey
  have htimes : pushTimes ⟨s, stamp r.state a s r.history⟩ key =
      pushTimes r key ++ [r.state.clock] := by
    rw [pushTimes, hcalls, stamps_stamp a hlog, List.filterMap_append]
    simp [pushTime?, hkeyed, pushTimes]
  -- the slot of the last push has expired, or the script would have found it
  have hpast : ∀ time ∈ pushTimes r key, FarApart time r.state.clock := by
    intro time htime
    obtain ⟨v, hv, hle⟩ := h.held time htime
    rw [hv, Volatile.get?] at hfree
    split at hfree
    · cases hfree
    · next hexpired =>
      unfold FarApart
      omega
  refine ⟨mem_log_of_mem_stamp a h.logged hlog, ?_, fun time htime => ?_⟩
  · rw [htimes, List.pairwise_append]
    exact ⟨h.apart, List.pairwise_singleton _ _, by simpa using hpast⟩
  · rw [htimes] at htime
    refine ⟨_, hslot, ?_⟩
    rcases List.mem_append.mp htime with htime | htime
    · have hfar := hpast time htime
      simp only [FarApart, Volatile.setEx] at hfar ⊢
      omega
    · rw [List.mem_singleton.mp htime]
      exact Nat.le_refl _

/-- A call yet to be carried out changes nothing. -/
theorem Spaced.enqueue (h : Spaced key r) (hI : Integrity env r.state) {calls' : List (Call T)}
    (hnodup : ((r.state.calls ++ calls').map Call.id).Nodup) (hlog : s.log = r.state.log)
    (hcalls : s.calls = r.state.calls ++ calls') (hstore : s.store = r.state.store) :
    Spaced key ⟨s, stamp r.state a s r.history⟩ := by
  have hlog : s.log = r.state.log ++ [] := by rw [hlog, List.append_nil]
  have htimes : pushTimes ⟨s, stamp r.state a s r.history⟩ key = pushTimes r key := by
    rw [pushTimes, hcalls, stamps_stamp a hlog, List.map_nil, List.append_nil]
    refine List.filterMap_congr ?_
    rintro ⟨event, time⟩ hentry
    cases event with
    | pushed id =>
      -- a push on record is of a call made before
      have hid := hI.pushed_called id (h.logged _ hentry)
      simp only [pushTime?, Keyed, called_append hnodup hid]
    | _ => rfl
  refine ⟨mem_log_of_mem_stamp a h.logged hlog, ?_, fun time htime => ?_⟩
  · rw [htimes]
    exact h.apart
  · rw [htimes] at htime
    show ∃ v, s.store.idempotency key = some v ∧ _
    rw [hstore]
    exact h.held time htime

/-- **One step** keeps the pushes apart. -/
theorem spaced_step (h : Spaced key r) (hI : Integrity env r.state)
    (hr : recording (step env) stamp r a = some r') : Spaced key r' := by
  obtain ⟨s', hs, rfl⟩ := recording_eq_some hr
  have hI' := integrity_step hI hs
  have hnone : ∀ event ∈ ([] : List Event), ∀ time,
      pushTime? r.state.calls key (event, time) = none := by
    simp
  cases callStep_of_step hI hs with
  | called hi hid => exact h.enqueue hI hI'.calls_nodup rfl rfl rfl
  | produced hproduced =>
    cases hproduced with
    | saved hc hi =>
      exact h.keep rfl (List.append_nil _).symm hnone rfl
    | @claimed c key' hc hkey hi hslot =>
      -- a push under another key is nothing to this one
      by_cases hkeys : key' = key
      · subst hkeys
        refine h.claim hI.calls_nodup hc rfl hkey hslot rfl rfl ?_
        simp [Store.idempotentEnqueue, hslot]
      · refine h.keep rfl rfl ?_ ?_
        · have hother : ¬ Keyed r.state.calls key c.id := by
            rw [Keyed, called_iff hI.calls_nodup hc, hkey]
            simpa using hkeys
          simp [pushTime?, hother]
        · simp [Store.idempotentEnqueue, hslot, Ne.symm hkeys]
    | beaten hc hkey hi hslot =>
      exact h.keep rfl (List.append_nil _).symm hnone rfl
    -- without a key the push is unconditional, and is not counted
    | @published c hc hkey hi =>
      have hother : ¬ Keyed r.state.calls key c.id := by
        rw [Keyed, called_iff hI.calls_nodup hc, hkey]
        simp
      exact h.keep rfl rfl (by simp [pushTime?, hother]) rfl
    | discarded hc hi =>
      exact h.keep rfl rfl (by simp [pushTime?]) rfl
  | died i => exact h.keep rfl (List.append_nil _).symm hnone rfl
  | consumed _ hconsumer =>
    obtain ⟨events, hquiet, hlog⟩ := hconsumer.log
    refine h.keep hconsumer.calls hlog ?_ (congrFun hconsumer.store.idempotency_eq key)
    intro event hevent time
    have hq := hquiet event hevent
    cases event with
    | pushed => exact hq.elim
    | _ => rfl

end Steps

/-! ## What the script answers -/

section Answers

variable {env : Env T} {r r' : Stamped T} {a : Action T} {key : String} {s : Config T}

/-- The record only grows. -/
structure Extends (r r' : Stamped T) : Prop where
  stamps : ∀ entry ∈ r.history.stamps, entry ∈ r'.history.stamps
  refusals : ∀ refusal ∈ r.history.refusals, refusal ∈ r'.history.refusals
  calls : r.state.calls <+: r'.state.calls
  clock : r.state.clock ≤ r'.state.clock

theorem extends_of_step (hs : step env r.state a = some s) :
    Extends r ⟨s, stamp r.state a s r.history⟩ where
  stamps _ h := List.mem_append_left _ h
  refusals _ h := List.mem_append_left _ h
  calls := calls_step hs
  clock := clock_step hs

theorem Extends.keyed (h : Extends r r') {id : JobId} (hid : Keyed r.state.calls key id) :
    Keyed r'.state.calls key id := by
  obtain ⟨c, hc, hcall⟩ := hid
  exact ⟨c, h.calls.subset hc, hcall⟩

theorem Extends.pushedWithin (h : Extends r r') {id : JobId} {now : Nat}
    (hpushed : PushedWithin r key id now) : PushedWithin r' key id now := by
  obtain ⟨time, hstamp, hkeyed, hle, hlifetime⟩ := hpushed
  exact ⟨time, h.stamps _ hstamp, h.keyed hkeyed, hle, hlifetime⟩

theorem Extends.turnedDown (h : Extends r r') {asked claimedId : JobId} {time time' : Nat}
    (hdown : TurnedDown r asked claimedId time) (hle : time ≤ time') :
    TurnedDown r' asked claimedId time' := by
  obtain ⟨refusal, hmem, hasked, hclaimed, htime⟩ := hdown
  exact ⟨refusal, h.refusals _ hmem, hasked, hclaimed, le_trans htime hle⟩

/-- Only a script that finds its slot taken turns a call down. -/
theorem refusal?_eq_none (h : ∀ i, a ≠ .produce i) (s s' : Config T) : refusal? s s' a = none := by
  cases a with
  | produce i => exact absurd rfl (h i)
  | _ => rfl

/-- A script that finds its slot taken. -/
theorem refusal?_of_beaten {s : Config T} {i : Nat} {id holder : JobId} {job : Job T}
    (hi : s.producers[i]? = some (.claim id job key)) :
    refusal? s { s with producers := s.producers.set i (.discard id holder) } (.produce i) =
      some ⟨key, id, holder, s.clock⟩ := by
  have hlt : i < s.producers.length := (List.getElem?_eq_some_iff.mp hi).1
  unfold refusal?
  dsimp only
  rw [hi, List.getElem?_set_self hlt]

theorem mem_refusals_stamp {refusal : Refusal}
    (h : refusal ∈ (stamp r.state a s r.history).refusals) :
    refusal ∈ r.history.refusals ∨ refusal? r.state s a = some refusal := by
  rcases List.mem_append.mp h with h | h
  · exact .inl h
  · exact .inr (Option.mem_toList.mp h)

/-- A stamp is an old one, or on an event of the step. -/
theorem mem_stamps_stamp {events : List Event} {event : Event} {time : Nat}
    (hlog : s.log = r.state.log ++ events)
    (h : (event, time) ∈ (stamp r.state a s r.history).stamps) :
    (event, time) ∈ r.history.stamps ∨ event ∈ events ∧ time = r.state.clock := by
  rw [stamps_stamp a hlog] at h
  rcases List.mem_append.mp h with h | h
  · exact .inl h
  · obtain ⟨event', hevent, heq⟩ := List.mem_map.mp h
    cases heq
    exact .inr ⟨hevent, rfl⟩

theorem turnedDown_of_refusal {refusal : Refusal} (h : refusal? r.state s a = some refusal) :
    TurnedDown ⟨s, stamp r.state a s r.history⟩ refusal.asked refusal.claimedId refusal.time :=
  ⟨refusal, List.mem_append_right _ (Option.mem_toList.mpr h), rfl, rfl, le_rfl⟩

/-- Neither the slot nor what was answered changes. -/
theorem Held.keep (h : Held key r) (hs : step env r.state a = some s)
    (hrefusal : ∀ refusal, refusal? r.state s a = some refusal → refusal.key ≠ key)
    (hslot : s.store.idempotency key = r.state.store.idempotency key) :
    Held key ⟨s, stamp r.state a s r.history⟩ := by
  have hext := extends_of_step hs
  constructor
  · intro v hv
    obtain ⟨time, hstamp, hkeyed, hle, hexpires⟩ := h.slot v (hslot.symm.trans hv)
    exact ⟨time, hext.stamps _ hstamp, hext.keyed hkeyed, le_trans hle hext.clock, hexpires⟩
  · intro refusal hmem hkey
    rcases mem_refusals_stamp hmem with hmem | hnew
    · exact hext.pushedWithin (h.refused refusal hmem hkey)
    · exact absurd hkey (hrefusal refusal hnew)

/-- **One step** keeps the slot that of a push. -/
theorem held_step (h : Held key r) (hI : Integrity env r.state)
    (hr : recording (step env) stamp r a = some r') : Held key r' := by
  obtain ⟨s', hs, rfl⟩ := recording_eq_some hr
  have hext := extends_of_step hs
  cases callStep_of_step hI hs with
  | called hi hid => exact h.keep hs (by simp [refusal?]) rfl
  | produced hproduced =>
    cases hproduced with
    | saved hc hi => exact h.keep hs (by simp [refusal?, hi]) rfl
    | @claimed c key' hc hkey hi hslot =>
      by_cases hkeys : key' = key
      · subst hkeys
        constructor
        · -- the slot is that of the push just made
          have hclaimed : (r.state.store.idempotentEnqueue r.state.clock key'
              (.waitingList env.queueName c.job.priority) c.id idempotencyTtlSec).2.idempotency
                key' = some (.setEx r.state.clock idempotencyTtlSec c.id) := by
            simp [Store.idempotentEnqueue, hslot]
          intro v hv
          obtain rfl := Option.some.inj (hclaimed.symm.trans hv)
          refine ⟨r.state.clock, ?_, ⟨c, hc, rfl, hkey⟩, le_rfl, rfl⟩
          simp [stamp, Volatile.setEx]
        · intro refusal hmem hrefusal
          rcases mem_refusals_stamp hmem with hmem | hnew
          · exact hext.pushedWithin (h.refused refusal hmem hrefusal)
          · simp [refusal?, hi, List.getElem?_set] at hnew
      · refine h.keep hs (by simp [refusal?, hi, List.getElem?_set]) ?_
        simp [Store.idempotentEnqueue, hslot, Ne.symm hkeys]
    | @beaten c key' holder hc hkey hi hslot =>
      constructor
      · intro v hv
        obtain ⟨time, hstamp, hkeyed, hle, hexpires⟩ := h.slot v hv
        exact ⟨time, hext.stamps _ hstamp, hkeyed, hle, hexpires⟩
      · intro refusal hmem hrefusal
        rcases mem_refusals_stamp hmem with hmem | hnew
        · exact hext.pushedWithin (h.refused refusal hmem hrefusal)
        · obtain rfl := Option.some.inj ((refusal?_of_beaten hi).symm.trans hnew)
          obtain rfl : key' = key := hrefusal
          -- the slot that turned the call down has not expired
          obtain ⟨v, hv, rfl, hfresh⟩ := Volatile.exists_of_get? hslot
          obtain ⟨time, hstamp, hkeyed, hle, hexpires⟩ := h.slot v hv
          exact ⟨time, hext.stamps _ hstamp, hkeyed, hle, hexpires ▸ hfresh⟩
    | published hc hkey hi => exact h.keep hs (by simp [refusal?, hi]) rfl
    | discarded hc hi => exact h.keep hs (by simp [refusal?, hi]) rfl
  | died i => exact h.keep hs (by simp [refusal?]) rfl
  | consumed hproduce hconsumer =>
    refine h.keep hs ?_ (congrFun hconsumer.store.idempotency_eq key)
    simp [refusal?_eq_none hproduce]

/-- Nobody is turned down, and nobody returns another job's id. -/
theorem Recalled.keep (h : Recalled r) (hs : step env r.state a = some s)
    (hrefusal : refusal? r.state s a = none) {events : List Event}
    (hlog : s.log = r.state.log ++ events)
    (hevents : ∀ asked claimedId, .returnedId asked claimedId ∉ events)
    (hproducers : ∀ (i : Nat) asked claimedId, s.producers[i]? = some (.discard asked claimedId) →
      r.state.producers[i]? = some (.discard asked claimedId)) :
    Recalled ⟨s, stamp r.state a s r.history⟩ := by
  have hext := extends_of_step hs
  constructor
  · intro refusal hmem
    rcases mem_refusals_stamp hmem with hmem | hnew
    · exact hext.keyed (h.keyed refusal hmem)
    · rw [hrefusal] at hnew
      cases hnew
  · intro i asked claimedId hi
    exact hext.turnedDown (h.discarding i asked claimedId (hproducers i asked claimedId hi)) hext.clock
  · intro asked claimedId time hmem
    rcases mem_stamps_stamp hlog hmem with hmem | ⟨hevent, -⟩
    · exact hext.turnedDown (h.returned asked claimedId time hmem) le_rfl
    · exact absurd hevent (hevents asked claimedId)

/-- Where one producer goes on to something else than a discard, no discard is new. -/
theorem discard_of_set {producers : List (ProducerPc T)} {i : Nat} {pc : ProducerPc T}
    (hpc : ∀ asked claimedId, pc ≠ .discard asked claimedId) (j : Nat) (asked claimedId : JobId)
    (h : (producers.set i pc)[j]? = some (.discard asked claimedId)) :
    producers[j]? = some (.discard asked claimedId) := by
  rw [List.getElem?_set] at h
  split at h
  · split at h
    · exact absurd (Option.some.inj h) (hpc asked claimedId)
    · cases h
  · exact h

/-- **One step**: a call remembers what its script answered until it returns it. -/
theorem recalled_step (h : Recalled r) (hI : Integrity env r.state)
    (hr : recording (step env) stamp r a = some r') : Recalled r' := by
  obtain ⟨s', hs, rfl⟩ := recording_eq_some hr
  have hext := extends_of_step hs
  have hnone : ∀ asked claimedId, Event.returnedId asked claimedId ∉ ([] : List Event) := by simp
  cases callStep_of_step hI hs with
  | called hi hid =>
    exact h.keep hs rfl (List.append_nil _).symm hnone (discard_of_set (by simp))
  | @produced i _ hproduced =>
    cases hproduced with
    | @saved c hc hi =>
      refine h.keep hs (by simp [refusal?, hi]) (List.append_nil _).symm hnone (discard_of_set ?_)
      intro asked claimedId
      unfold Call.saved
      split <;> simp
    | claimed hc hkey hi hslot =>
      exact h.keep hs (by simp [refusal?, hi, List.getElem?_set]) rfl (by simp)
        (discard_of_set (by simp))
    | @beaten c key holder hc hkey hi hslot =>
      have hnew : refusal? r.state _ (.produce i) = some ⟨key, c.id, holder, r.state.clock⟩ :=
        refusal?_of_beaten hi
      have hdown := turnedDown_of_refusal hnew
      constructor
      · intro refusal hmem
        rcases mem_refusals_stamp hmem with hmem | hmem
        · exact hext.keyed (h.keyed refusal hmem)
        · obtain rfl := Option.some.inj (hnew.symm.trans hmem)
          exact ⟨c, hc, rfl, hkey⟩
      · intro j asked claimedId hj
        have hj : (r.state.producers.set i (.discard c.id holder))[j]? =
          some (.discard asked claimedId) := hj
        rw [List.getElem?_set] at hj
        split at hj
        · split at hj
          · cases hj
            exact hdown
          · cases hj
        · exact hext.turnedDown (h.discarding j asked claimedId hj) le_rfl
      · intro asked claimedId time hmem
        have hkept : ({ r.state with
            producers := r.state.producers.set i (.discard c.id holder) } : Config T).log =
              r.state.log ++ [] := (List.append_nil _).symm
        rcases mem_stamps_stamp hkept hmem with hmem | ⟨hevent, -⟩
        · exact hext.turnedDown (h.returned asked claimedId time hmem) le_rfl
        · exact absurd hevent (hnone asked claimedId)
    | published hc hkey hi =>
      exact h.keep hs (by simp [refusal?, hi]) rfl (by simp) (discard_of_set (by simp))
    | @discarded c holder hc hi =>
      have hdown := h.discarding i c.id holder hi
      constructor
      · intro refusal hmem
        rcases mem_refusals_stamp hmem with hmem | hmem
        · exact hext.keyed (h.keyed refusal hmem)
        · simp [refusal?, hi] at hmem
      · intro j asked claimedId hj
        exact hext.turnedDown (h.discarding j asked claimedId (discard_of_set (by simp) j _ _ hj))
          le_rfl
      · -- the event is that of the call that was waiting to return
        intro asked claimedId time hmem
        rcases mem_stamps_stamp rfl hmem with hmem | ⟨hevent, rfl⟩
        · exact hext.turnedDown (h.returned asked claimedId time hmem) le_rfl
        · cases List.mem_singleton.mp hevent
          exact hext.turnedDown hdown le_rfl
  | died i => exact h.keep hs rfl (List.append_nil _).symm hnone (discard_of_set (by simp))
  | consumed hproduce hconsumer =>
    obtain ⟨events, hquiet, hlog⟩ := hconsumer.log
    refine h.keep hs (refusal?_eq_none hproduce _ _) hlog (fun _ _ hmem => hquiet _ hmem) ?_
    intro i asked claimedId hi
    rwa [hconsumer.producers] at hi

end Answers

/-! ## Runs -/

/-- **A key is good for one push a day.** In every run, any two pushes under one idempotency key
are more than its lifetime apart. A call whose script finds the slot taken gets the id of a job
that was pushed under the key and whose lifetime has not passed, and if `enqueue` returns
another job's id, then it is the one the script answered. -/
theorem pushes_spaced {env : Env T} {topology : Topology} {r : Stamped T}
    (h : Reach (recording (step env) stamp) (fun _ _ => True) ⟨init topology, ⟨[], []⟩⟩ r)
    (key : String) :
    (pushTimes r key).Pairwise FarApart ∧
    (∀ refusal ∈ r.history.refusals, refusal.key = key →
      PushedWithin r key refusal.claimedId refusal.time) ∧
    ∀ c ∈ r.state.calls, c.key = some key → ∀ claimedId time,
      (.returnedId c.id claimedId, time) ∈ r.history.stamps →
        ∃ refusal ∈ r.history.refusals, refusal.key = key ∧ refusal.asked = c.id ∧
          refusal.claimedId = claimedId ∧ refusal.time ≤ time := by
  -- in the beginning no key is set and nobody has been turned down
  have hinit : Spaced key (⟨init topology, ⟨[], []⟩⟩ : Stamped T) ∧
      Held key (⟨init topology, ⟨[], []⟩⟩ : Stamped T) ∧
      Recalled (⟨init topology, ⟨[], []⟩⟩ : Stamped T) := by
    refine ⟨⟨by simp, .nil, fun time htime => absurd htime List.not_mem_nil⟩, ⟨?_, by simp⟩,
      ⟨by simp, ?_, by simp⟩⟩
    · intro v hv
      cases hv
    · intro i asked claimedId hi
      cases List.eq_of_mem_replicate (List.mem_of_getElem? hi)
  have hrun : ∀ r, Reach (recording (step env) stamp) (fun _ _ => True) ⟨init topology, ⟨[], []⟩⟩ r →
      Integrity env r.state := by
    intro r hr
    have hforget : Reach (step env) (fun _ _ => True) (init topology) r.state :=
      hr.forget fun _ _ _ => trivial
    exact integrity_run hforget
  obtain ⟨hspaced, hheld, hrecalled⟩ :=
    h.invariant' (I := fun r => Spaced key r ∧ Held key r ∧ Recalled r) hinit
      fun r a r' hr hall _ hs => ⟨spaced_step hall.1 (hrun r hr) hs,
        held_step hall.2.1 (hrun r hr) hs, recalled_step hall.2.2 (hrun r hr) hs⟩
  refine ⟨hspaced.apart, hheld.refused, ?_⟩
  intro c hc hkey claimedId time hmem
  obtain ⟨refusal, hrefusal, hasked, hclaimed, htime⟩ := hrecalled.returned _ _ _ hmem
  refine ⟨refusal, hrefusal, ?_, hasked, hclaimed, htime⟩
  -- the refusal was under the key its own call was made with
  have hkeyed := hrecalled.keyed refusal hrefusal
  rw [hasked, Keyed, called_iff (hrun r h).calls_nodup hc, hkey] at hkeyed
  exact (Option.some.inj hkeyed).symm

/-- A call on the day gets the id of the first; the key is claimed a second time a day and a
millisecond later. -/
theorem pushes_spaced_next_day : ∃ r : Stamped Unit,
    pushTimes r "k" = [5, 86400006] ∧ (pushTimes r "k").Pairwise FarApart ∧
      r.history.refusals = [⟨"k", "b", "a", 86400005⟩] ∧ PushedWithin r "k" "a" 86400005 := by
  obtain ⟨r, hr, htimes, hrefusals⟩ := exists_reach_of_run (recording (step mainQueue) stamp)
    (fun _ _ => True) ⟨init ⟨1, [["mail"]], 0, 0, 0⟩, ⟨[], []⟩⟩
    (fun r => pushTimes r "k" = [5, 86400006] ∧
      r.history.refusals = [⟨"k", "b", "a", 86400005⟩])
    [.tick 5, .enqueue 0 "a" (.core "mail" () (.options none none (some "k")) none),
      .produce 0, .produce 0, .tick 86400000,
      .enqueue 0 "b" (.core "mail" () (.options none none (some "k")) none), .produce 0, .produce 0,
      .produce 0, .tick 1,
      .enqueue 0 "c" (.core "mail" () (.options none none (some "k")) none), .produce 0, .produce 0]
    (by decide +kernel)
  obtain ⟨hapart, hwithin, -⟩ := pushes_spaced hr "k"
  exact ⟨r, htimes, hapart, hrefusals, hwithin _ (by rw [hrefusals]; exact List.mem_cons_self) rfl⟩

end DistriSys
