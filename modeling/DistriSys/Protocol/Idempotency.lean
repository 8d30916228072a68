import DistriSys.Protocol.Refinement
import Mathlib.Data.List.Infix

/-!
# Idempotent enqueue

Every call with a key saves its record first and then runs the script. The first
to run it while the slot is free claims the slot and pushes; the others find it
taken, delete the record they saved and answer with the holder's id.

- `Produced`: the commands of a producer, by cases; `CallStep`: any step, by what it is to the
  calls;
- `Returns`: what a call that has returned leaves behind, in every run;
- `Race`: the calls with one key since a moment at which its slot was free;
- **`idempotent_enqueue`**: one of them pushes and returns its job, the others
  return that job's id and leave nothing behind.

Everybody else may do anything in the meantime, workers dying included. What is
needed is that no producer dies in its call, and that the slot does not expire.
-/

namespace DistriSys

open Js Redis Transition

variable {T : Type}

/-! ## The commands of a producer -/

/-- The next command of a call after its record is saved. -/
def Call.saved (c : Call T) : ProducerPc T :=
  match c.key with
  | some key => .claim c.id c.job key
  | none => .push c.id c.job

/-- What a command of producer `i` does, by cases on its call. -/
inductive Produced (env : Env T) (s : Config T) (i : Nat) : Config T → Prop
  | saved {c : Call T} (hc : c ∈ s.calls) (hi : s.producers[i]? = some (.save c.id c.job c.key)) :
      Produced env s i
        { s with
          store := s.store.hmset c.id (serializeJob env.json c.job)
          producers := s.producers.set i c.saved }
  | claimed {c : Call T} {key : String} (hc : c ∈ s.calls) (hkey : c.key = some key)
      (hi : s.producers[i]? = some (.claim c.id c.job key))
      (hslot : Volatile.get? s.clock (s.store.idempotency key) = none) :
      Produced env s i
        { s with
          store := (s.store.idempotentEnqueue s.clock key
            (.waitingList env.queueName c.job.priority) c.id idempotencyTtlSec).2
          producers := s.producers.set i .idle
          log := s.log ++ [.pushed c.id, .returnedJob c.id] }
  | beaten {c : Call T} {key : String} {holder : JobId} (hc : c ∈ s.calls) (hkey : c.key = some key)
      (hi : s.producers[i]? = some (.claim c.id c.job key))
      (hslot : Volatile.get? s.clock (s.store.idempotency key) = some holder) :
      Produced env s i { s with producers := s.producers.set i (.discard c.id holder) }
  | published {c : Call T} (hc : c ∈ s.calls) (hkey : c.key = none)
      (hi : s.producers[i]? = some (.push c.id c.job)) :
      Produced env s i
        { s with
          store := s.store.lpush (.waitingList env.queueName c.job.priority) c.id
          producers := s.producers.set i .idle
          log := s.log ++ [.pushed c.id, .returnedJob c.id] }
  | discarded {c : Call T} {claimedId : JobId} (hc : c ∈ s.calls)
      (hi : s.producers[i]? = some (.discard c.id claimedId)) :
      Produced env s i
        { s with
          store := s.store.delJob c.id
          producers := s.producers.set i .idle
          log := s.log ++ [.returnedId c.id claimedId] }

section Steps

variable {env : Env T} {s s' : Config T}

theorem produced_of_step (hI : Integrity env s) {i : Nat} (hs : step env s (.produce i) = some s') :
    Produced env s i s' := by
  cases stepped hs with
  | @produce i pc e hi he =>
    have hfine := hI.producers pc (List.mem_of_getElem? hi)
    cases pc with
    | idle => cases he
    | save id job key =>
      obtain ⟨-, c, hc, rfl, rfl, rfl⟩ := hfine
      cases he
      rw [List.append_nil]
      exact .saved hc hi
    | claim id job key =>
      obtain ⟨hid, -, c, hc, rfl, rfl, hkey⟩ := hfine
      cases hslot : Volatile.get? s.clock (s.store.idempotency key) with
      | none =>
        rw [producerStep_claim_free hslot] at he
        cases he
        exact .claimed hc hkey hi hslot
      | some holder =>
        rw [producerStep_claim_held hslot (hI.holder_ne hid hslot)] at he
        cases he
        rw [List.append_nil]
        exact .beaten hc hkey hi hslot
    | push id job =>
      obtain ⟨-, -, c, hc, rfl, rfl, hkey⟩ := hfine
      cases he
      exact .published hc hkey hi
    | discard id claimedId =>
      obtain ⟨-, c, hc, rfl⟩ := hfine
      cases he
      exact .discarded hc hi

/-- What a step is to the calls: one of them starts, goes on, or dies with its producer, or the
step is a consumer's. -/
inductive CallStep (env : Env T) (s : Config T) : Action T → Config T → Prop
  | called {i : Nat} {id : JobId} {call : EnqueueCall T} (hi : s.producers[i]? = some .idle)
      (hid : id ∉ s.calls.map Call.id) :
      CallStep env s (.enqueue i id call)
        { s with
          producers := s.producers.set i (.save id (call.job id s.clock) call.idempotencyKey)
          calls := s.calls ++ [⟨id, call, s.clock⟩] }
  | produced {i : Nat} {s' : Config T} (h : Produced env s i s') : CallStep env s (.produce i) s'
  | died (i : Nat) :
      CallStep env s (.crash (.producer i)) { s with producers := s.producers.set i .idle }
  | consumed {a : Action T} {s' : Config T} (hproduce : ∀ i, a ≠ .produce i)
      (h : ConsumerStep s s') : CallStep env s a s'

/-- **Inversion of `step`** for whoever follows the calls. -/
theorem callStep_of_step {a : Action T} (hI : Integrity env s) (hs : step env s a = some s') :
    CallStep env s a s' := by
  cases a with
  | enqueue i id call =>
    cases stepped hs with
    | enqueue hi hid => exact .called hi hid
  | produce i => exact .produced (produced_of_step hI hs)
  | crash component =>
    cases component with
    | producer i =>
      cases stepped hs with
      | crashProducer hi => exact .died i
    | _ =>
      exact .consumed (by simp) (hI.consumerStep hs (by simp) (by simp) (by simp))
  | _ => exact .consumed (by simp) (hI.consumerStep hs (by simp) (by simp) (by simp))

end Steps

/-! ## Calls that have returned -/

/-- A call that has returned its job has pushed it; a call that has returned
another job's id has left nothing of its own, and no producer will bring it back. -/
structure Returns (s : Config T) : Prop where
  job : ∀ id, s.log.count (.returnedJob id) = s.log.count (.pushed id)
  single : ∀ id, s.log.count (.pushed id) ≤ 1
  called : ∀ id x, .returnedId id x ∈ s.log → id ∈ s.calls.map Call.id
  unpushed : ∀ id x, .returnedId id x ∈ s.log → .pushed id ∉ s.log
  erased : ∀ id x, .returnedId id x ∈ s.log → s.store.jobs id = .absent
  finished : ∀ id x, .returnedId id x ∈ s.log → ∀ pc ∈ s.producers, pc.jobId? ≠ some id
  once : ∀ id x y, .returnedId id x ∈ s.log → .returnedId id y ∈ s.log → x = y

theorem returns_init (topology : Topology) : Returns (init topology : Config T) where
  job _ := rfl
  single _ := Nat.zero_le 1
  called _ _ h := absurd h List.not_mem_nil
  unpushed _ _ h := absurd h List.not_mem_nil
  erased _ _ h := absurd h List.not_mem_nil
  finished _ _ h := absurd h List.not_mem_nil
  once _ _ _ h := absurd h List.not_mem_nil

section Returns

variable {env : Env T} {s s' : Config T} {a : Action T}

/-- Consumers return nothing, and touch pushed jobs only. -/
theorem Returns.consume (h : Returns s) (hstep : ConsumerStep s s') : Returns s' := by
  obtain ⟨hproducers, hcalls, hstore, events, hquiet, hlog⟩ := hstep
  have hreturned : ∀ id x, .returnedId id x ∈ s'.log ↔ .returnedId id x ∈ s.log := fun id x => by
    rw [hlog]
    exact hquiet.mem_append fun hquiet => hquiet
  have hpushed : ∀ id, .pushed id ∈ s'.log ↔ .pushed id ∈ s.log := fun id => by
    rw [hlog]
    exact hquiet.pushed_append
  have hnone : ∀ id, events.count (.pushed id) = 0 := fun id =>
    List.count_eq_zero.mpr fun hmem => hquiet (.pushed id) hmem
  refine
    { job := fun id => ?_
      single := fun id => ?_
      called := fun id x hx => hcalls ▸ h.called id x ((hreturned id x).mp hx)
      unpushed := fun id x hx hp => h.unpushed id x ((hreturned id x).mp hx) ((hpushed id).mp hp)
      erased := fun id x hx => ?_
      finished := fun id x hx => hproducers ▸ h.finished id x ((hreturned id x).mp hx)
      once := fun id x y hx hy => h.once id x y ((hreturned id x).mp hx) ((hreturned id y).mp hy) }
  · have hjob : events.count (.returnedJob id) = 0 :=
      List.count_eq_zero.mpr fun hmem => hquiet (.returnedJob id) hmem
    rw [hlog, List.count_append, List.count_append, hjob, hnone]
    exact h.job id
  · rw [hlog, List.count_append, hnone]
    exact h.single id
  · have hx := (hreturned id x).mp hx
    rw [hstore.jobs_eq (h.unpushed id x hx)]
    exact h.erased id x hx

/-- A producer's slot goes on with its call, or is done with it; records of other
jobs stay. -/
theorem Returns.advance (h : Returns s) {i : Nat} {pc : ProducerPc T} (pc' : ProducerPc T)
    {id : JobId} {st : Store} (hi : s.producers[i]? = some pc) (hid : pc.jobId? = some id)
    (hpc' : ∀ j, pc'.jobId? = some j → j = id)
    (hjobs : ∀ j, j ≠ id → st.jobs j = s.store.jobs j) :
    Returns { s with store := st, producers := s.producers.set i pc' } := by
  -- a call that has returned is another one
  have hne : ∀ j x, .returnedId j x ∈ s.log → j ≠ id := by
    rintro j x hx rfl
    exact h.finished _ x hx pc (List.mem_of_getElem? hi) hid
  refine { h with erased := fun j x hx => ?_, finished := fun j x hx qc hqc hj => ?_ }
  · show st.jobs j = .absent
    rw [hjobs j (hne j x hx)]
    exact h.erased j x hx
  · rcases List.mem_or_eq_of_mem_set hqc with hqc | rfl
    · exact h.finished j x hx qc hqc hj
    · exact hne j x hx (hpc' j hj)

/-- The call returns its job. -/
theorem Returns.publish (h : Returns s) {id : JobId} (hunpushed : .pushed id ∉ s.log)
    (hnew : ∀ x, .returnedId id x ∉ s.log) :
    Returns { s with log := s.log ++ [.pushed id, .returnedJob id] } := by
  have hreturned : ∀ {j x}, .returnedId j x ∈ s.log ++ [.pushed id, .returnedJob id] →
      .returnedId j x ∈ s.log := fun hmem => by simpa using hmem
  refine
    { job := fun j => ?_
      single := fun j => ?_
      called := fun j x hx => h.called j x (hreturned hx)
      unpushed := fun j x hx hp => ?_
      erased := fun j x hx => h.erased j x (hreturned hx)
      finished := fun j x hx => h.finished j x (hreturned hx)
      once := fun j x y hx hy => h.once j x y (hreturned hx) (hreturned hy) }
  · have := h.job j
    by_cases hj : id = j <;> simp [List.count_append, hj, this]
  · have := h.single j
    by_cases hj : id = j
    · subst hj
      simp [List.count_append, List.count_eq_zero.mpr hunpushed]
    · simp [List.count_append, hj, this]
  -- the call that publishes has not returned before
  · have hp : .pushed j ∈ s.log ∨ j = id := by simpa using hp
    rcases hp with hp | rfl
    · exact h.unpushed j x (hreturned hx) hp
    · exact hnew x (hreturned hx)

/-- The call returns another job's id. -/
theorem Returns.giveUp (h : Returns s) {id holder : JobId} (hcalled : id ∈ s.calls.map Call.id)
    (hunpushed : .pushed id ∉ s.log) (herased : s.store.jobs id = .absent)
    (hfinished : ∀ pc ∈ s.producers, pc.jobId? ≠ some id) (hnew : ∀ x, .returnedId id x ∉ s.log) :
    Returns { s with log := s.log ++ [.returnedId id holder] } := by
  have hreturned : ∀ {j x}, .returnedId j x ∈ s.log ++ [.returnedId id holder] →
      .returnedId j x ∈ s.log ∨ j = id ∧ x = holder := fun hmem => by simpa using hmem
  have hpushed : ∀ {j}, .pushed j ∈ s.log ++ [.returnedId id holder] → .pushed j ∈ s.log :=
    fun hmem => by simpa using hmem
  refine
    { job := fun j => by simpa [List.count_append] using h.job j
      single := fun j => by simpa [List.count_append] using h.single j
      called := fun j x hx => ?_
      unpushed := fun j x hx hp => ?_
      erased := fun j x hx => ?_
      finished := fun j x hx => ?_
      once := fun j x y hx hy => ?_ }
  · rcases hreturned hx with hx | ⟨rfl, -⟩
    · exact h.called j x hx
    · exact hcalled
  · rcases hreturned hx with hx | ⟨rfl, -⟩
    · exact h.unpushed j x hx (hpushed hp)
    · exact hunpushed (hpushed hp)
  · rcases hreturned hx with hx | ⟨rfl, -⟩
    · exact h.erased j x hx
    · exact herased
  · rcases hreturned hx with hx | ⟨rfl, -⟩
    · exact h.finished j x hx
    · exact hfinished
  · rcases hreturned hx with hx | ⟨rfl, rfl⟩ <;> rcases hreturned hy with hy | ⟨hj, hy⟩
    · exact h.once j x y hx hy
    · exact absurd (hj ▸ hx) (hnew x)
    · exact absurd hy (hnew y)
    · exact hy.symm

/-- A producer's command. -/
theorem Returns.produce (h : Returns s) (hI : Integrity env s) {i : Nat}
    (hstep : Produced env s i s') : Returns s' := by
  have hnew : ∀ {pc : ProducerPc T} {id : JobId}, s.producers[i]? = some pc →
      pc.jobId? = some id → ∀ x, .returnedId id x ∉ s.log := fun hi hid x hx =>
    h.finished _ x hx _ (List.mem_of_getElem? hi) hid
  have hunpushed : ∀ {pc : ProducerPc T} {id : JobId}, s.producers[i]? = some pc →
      pc.jobId? = some id → .pushed id ∉ s.log := fun hi hid =>
    (hI.producers _ (List.mem_of_getElem? hi)).not_pushed hid
  cases hstep with
  | @saved c hc hi =>
    refine h.advance c.saved hi rfl (fun id hid => ?_) fun id hne => by simp [hne]
    unfold Call.saved at hid
    split at hid <;> exact (Option.some.inj hid).symm
  | @claimed c key hc hkey hi hslot =>
    exact (h.advance .idle hi rfl (by rintro _ ⟨⟩) fun id _ => by
      rw [Store.jobs_idempotentEnqueue]).publish (hunpushed hi rfl) (hnew hi rfl)
  | @beaten c key holder hc hkey hi hslot =>
    exact h.advance (.discard c.id holder) hi rfl (fun id hid => (Option.some.inj hid).symm)
      fun _ _ => rfl
  | @published c hc hkey hi =>
    have hdone : Returns
        { s with
          store := s.store.lpush (.waitingList env.queueName c.job.priority) c.id
          producers := s.producers.set i .idle } :=
      h.advance .idle hi rfl (by rintro _ ⟨⟩) fun _ _ => rfl
    exact hdone.publish (hunpushed hi rfl) (hnew hi rfl)
  | @discarded c claimedId hc hi =>
    refine (h.advance .idle hi rfl (by rintro _ ⟨⟩) fun id hne => by simp [hne]).giveUp
      (List.mem_map_of_mem hc) (hunpushed hi rfl) (by simp) (fun qc hqc heq => ?_) (hnew hi rfl)
    -- the other producers work on other ids
    obtain ⟨j, hj⟩ := List.mem_iff_getElem?.mp hqc
    rw [List.getElem?_set] at hj
    split at hj
    · split at hj
      · cases hj
        cases heq
      · cases hj
    · next hij => exact hI.ne_of_distinct hi rfl (Ne.symm hij) hj heq rfl

theorem returns_step (h : Returns s) (hI : Integrity env s) (hs : step env s a = some s') :
    Returns s' := by
  cases callStep_of_step hI hs with
  | called hi hid =>
    refine { h with called := fun j x hx => ?_, finished := fun j x hx qc hqc hj => ?_ }
    · rw [List.map_append]
      exact List.mem_append_left _ (h.called j x hx)
    · rcases List.mem_or_eq_of_mem_set hqc with hqc | rfl
      · exact h.finished j x hx qc hqc hj
      · cases hj
        exact hid (h.called _ x hx)
  | produced hproduced => exact h.produce hI hproduced
  -- a dead producer returns nothing
  | died i =>
    refine { h with finished := fun j x hx qc hqc hj => ?_ }
    rcases List.mem_or_eq_of_mem_set hqc with hqc | rfl
    · exact h.finished j x hx qc hqc hj
    · cases hj
  | consumed _ hconsumer => exact h.consume hconsumer

theorem returns_run {topology : Topology} {ok : Config T → Action T → Prop}
    (h : Reach (step env) ok (init topology) s) : Returns s :=
  h.invariant' (returns_init topology) fun _ _ _ hr hI _ hs =>
    returns_step hI (integrity_run hr) hs

end Returns

/-! ## Calls racing for a key -/

/-- The calls with `key` made since `s₀`. -/
def callsSince (s₀ : Config T) (key : String) (s : Config T) : List (Call T) :=
  (s.calls.drop s₀.calls.length).filter fun c => c.key = some key

/-- The key a call has still to claim. -/
def ProducerPc.key? : ProducerPc T → Option String
  | save _ _ key => key
  | claim _ _ key => some key
  | _ => none

/-- The call has not run the script yet. -/
def Racing (key : String) (s : Config T) (c : Call T) : Prop :=
  ∃ pc ∈ s.producers, pc.key? = some key ∧ pc.jobId? = some c.id

/-- The script has told the call that job `winner` holds the slot. -/
def Beaten (winner : JobId) (s : Config T) (c : Call T) : Prop :=
  .discard c.id winner ∈ s.producers ∨ .returnedId c.id winner ∈ s.log

/-- The race before and after the first call runs the script. -/
inductive Outcome (s₀ : Config T) (key : String) (s : Config T) : Prop
  | undecided (hfree : ∀ v ∈ s.store.idempotency key, v.expiresAt < s₀.clock)
      (hracing : ∀ c ∈ callsSince s₀ key s, Racing key s c)
  | decided {w : Call T} (hw : w ∈ callsSince s₀ key s) {v : Volatile JobId}
      (hslot : s.store.idempotency key = some v) (hv : v.value = w.id)
      (hreturned : .returnedJob w.id ∈ s.log)
      (hothers : ∀ c ∈ callsSince s₀ key s, c ≠ w → Racing key s c ∨ Beaten w.id s c)

/-- The calls made with `key` since `s₀`, as far as they have got. -/
structure Race (s₀ : Config T) (key : String) (s : Config T) : Prop where
  clock : s₀.clock ≤ s.clock
  calls : s₀.calls.length ≤ s.calls.length
  entered : ∀ pc ∈ s.producers, pc.key? = some key →
    ∃ c ∈ callsSince s₀ key s, pc.jobId? = some c.id
  outcome : Outcome s₀ key s

/-- The producer that dies in the step. -/
def Action.producerDeath : Action T → Option Nat
  | .crash (.producer i) => some i
  | _ => none

/-- No producer dies in its call, and the slot of `key`, when one of the calls
made since `s₀` holds it, has not expired. -/
def WithinTtl (s₀ : Config T) (key : String) (s : Config T) (a : Action T) : Prop :=
  a.producerDeath = none ∧
    ∀ v ∈ s.store.idempotency key, v.value ∈ (callsSince s₀ key s).map Call.id →
      s.clock ≤ v.expiresAt

instance (s₀ : Config T) (key : String) (s : Config T) (a : Action T) :
    Decidable (WithinTtl s₀ key s a) :=
  inferInstanceAs (Decidable (_ ∧ _))

theorem mem_set_of_ne {α : Type} {l : List α} {i : Nat} {a b : α} (c : α) (h : b ∈ l)
    (hi : l[i]? = some a) (hne : b ≠ a) : b ∈ l.set i c := by
  obtain ⟨j, hj⟩ := List.mem_iff_getElem?.mp h
  refine List.mem_iff_getElem?.mpr ⟨j, ?_⟩
  rw [List.getElem?_set_ne, hj]
  rintro rfl
  exact hne (Option.some.inj (hj.symm.trans hi))

section Races

variable {env : Env T} {s₀ s s' : Config T} {a : Action T} {key : String}

theorem mem_calls_of_since {c : Call T} (h : c ∈ callsSince s₀ key s) : c ∈ s.calls :=
  List.mem_of_mem_drop (List.mem_filter.mp h).1

theorem since_subset (h : s.calls <+: s'.calls) : callsSince s₀ key s ⊆ callsSince s₀ key s' :=
  ((h.drop _).filter _).subset

/-- The calls have different ids. -/
theorem Integrity.id_ne (hI : Integrity env s) {c c' : Call T} (hc : c ∈ callsSince s₀ key s)
    (hc' : c' ∈ callsSince s₀ key s) (hne : c ≠ c') : c.id ≠ c'.id := fun hid =>
  hne (List.inj_on_of_nodup_map hI.calls_nodup (mem_calls_of_since hc) (mem_calls_of_since hc') hid)

/-- A step that does not run the script on the key. -/
theorem Race.keep (h : Race s₀ key s) (hs : step env s a = some s')
    (hslot : s'.store.idempotency key = s.store.idempotency key)
    (hcalls : ∀ c ∈ callsSince s₀ key s', c ∈ callsSince s₀ key s ∨ Racing key s' c)
    (hentered : ∀ pc' ∈ s'.producers, pc'.key? = some key →
      (∃ pc ∈ s.producers, pc.key? = some key ∧ pc.jobId? = pc'.jobId?) ∨
        ∃ c ∈ callsSince s₀ key s', pc'.jobId? = some c.id)
    (hracing : ∀ c, Racing key s c → Racing key s' c)
    (hbeaten : ∀ winner c, Beaten winner s c → Beaten winner s' c) : Race s₀ key s' := by
  have hsince : callsSince s₀ key s ⊆ callsSince s₀ key s' := since_subset (calls_step hs)
  refine ⟨h.clock.trans (clock_step hs), h.calls.trans (calls_step hs).length_le, ?_, ?_⟩
  · intro pc' hpc' hkey
    rcases hentered pc' hpc' hkey with ⟨pc, hpc, hkey', hid⟩ | hnew
    · obtain ⟨c, hc, hcid⟩ := h.entered pc hpc hkey'
      exact ⟨c, hsince hc, hid ▸ hcid⟩
    · exact hnew
  · cases h.outcome with
    | undecided hfree hall =>
      refine .undecided (hslot ▸ hfree) fun c hc => ?_
      exact (hcalls c hc).elim (fun hc => hracing c (hall c hc)) id
    | decided hw hv hvalue hreturned hothers =>
      refine .decided (hsince hw) (hslot.trans hv) hvalue ((log_step hs).subset hreturned)
        fun c hc hne => ?_
      rcases hcalls c hc with hc | hc
      · exact (hothers c hc hne).imp (hracing c) (hbeaten _ c)
      · exact .inl hc

/-- A command of a producer that does not run the script on the key. -/
theorem Race.advance (h : Race s₀ key s) (hs : step env s a = some s') {i : Nat}
    {pc pc' : ProducerPc T} (hi : s.producers[i]? = some pc)
    (hproducers : s'.producers = s.producers.set i pc') (hcalls : s'.calls = s.calls)
    (hslot : s'.store.idempotency key = s.store.idempotency key)
    (hkey : pc.key? = some key → pc'.key? = some key ∧ pc'.jobId? = pc.jobId?)
    (hkey' : pc'.key? = some key → pc.key? = some key ∧ pc.jobId? = pc'.jobId?)
    (hdiscard : ∀ id winner, pc = .discard id winner → .returnedId id winner ∈ s'.log) :
    Race s₀ key s' := by
  have hself : pc' ∈ s'.producers := by
    rw [hproducers]
    exact List.mem_set (List.getElem?_eq_some_iff.mp hi).1 pc'
  refine h.keep hs hslot (fun c hc => .inl (by simpa only [callsSince, hcalls] using hc)) ?_ ?_ ?_
  · intro qc hqc hq
    rw [hproducers] at hqc
    rcases List.mem_or_eq_of_mem_set hqc with hqc | rfl
    · exact .inl ⟨qc, hqc, hq, rfl⟩
    · exact .inl ⟨pc, List.mem_of_getElem? hi, hkey' hq⟩
  · rintro c ⟨qc, hqc, hq, hid⟩
    by_cases heq : qc = pc
    · subst heq
      obtain ⟨hq', hid'⟩ := hkey hq
      exact ⟨pc', hself, hq', hid'.trans hid⟩
    · exact ⟨qc, hproducers ▸ mem_set_of_ne pc' hqc hi heq, hq, hid⟩
  · rintro winner c (hqc | hreturned)
    · by_cases heq : .discard c.id winner = pc
      · exact .inr (hdiscard _ _ heq.symm)
      · exact .inl (hproducers ▸ mem_set_of_ne pc' hqc hi heq)
    · exact .inr ((log_step hs).subset hreturned)

/-- The first call to run the script on the key wins. -/
theorem Race.claim (h : Race s₀ key s) (hI : Integrity env s) {i : Nat} {c : Call T}
    {list : ListKey} (hok : WithinTtl s₀ key s a)
    (hi : s.producers[i]? = some (.claim c.id c.job key))
    (hslot : Volatile.get? s.clock (s.store.idempotency key) = none) :
    Race s₀ key
      { s with
        store := (s.store.idempotentEnqueue s.clock key list c.id idempotencyTtlSec).2
        producers := s.producers.set i .idle
        log := s.log ++ [.pushed c.id, .returnedJob c.id] } := by
  obtain ⟨w, hw, hid⟩ := h.entered _ (List.mem_of_getElem? hi) rfl
  have hid : c.id = w.id := Option.some.inj hid
  refine ⟨h.clock, h.calls, fun pc hpc hkey => ?_, ?_⟩
  · rcases List.mem_or_eq_of_mem_set hpc with hpc | rfl
    · exact h.entered pc hpc hkey
    · cases hkey
  · cases h.outcome with
    | @decided w' hw' v hv hvalue hreturned hothers =>
      -- the winner still holds the slot
      have hlive := hok.2 v hv (hvalue ▸ List.mem_map_of_mem hw')
      simp [hv, Volatile.get?, hlive] at hslot
    | undecided hfree hracing =>
      refine .decided (w := w) (v := .setEx s.clock idempotencyTtlSec c.id) hw ?_ hid (by simp [hid])
        fun c' hc' hne => ?_
      · simp [Store.idempotentEnqueue, hslot]
      · obtain ⟨pc, hpc, hkey, hcid⟩ := hracing c' hc'
        refine .inl ⟨pc, mem_set_of_ne .idle hpc hi ?_, hkey, hcid⟩
        rintro rfl
        exact hI.id_ne hc' hw hne ((Option.some.inj hcid).symm.trans hid)

/-- Every later call to run the script on the key hears of the winner. -/
theorem Race.lose (h : Race s₀ key s) {i : Nat} {c : Call T} {holder : JobId}
    (hi : s.producers[i]? = some (.claim c.id c.job key))
    (hslot : Volatile.get? s.clock (s.store.idempotency key) = some holder) :
    Race s₀ key { s with producers := s.producers.set i (.discard c.id holder) } := by
  refine ⟨h.clock, h.calls, fun pc hpc hkey => ?_, ?_⟩
  · rcases List.mem_or_eq_of_mem_set hpc with hpc | rfl
    · exact h.entered pc hpc hkey
    · cases hkey
  · cases h.outcome with
    | undecided hfree hracing =>
      cases hv : s.store.idempotency key with
      | none =>
        rw [hv] at hslot
        cases hslot
      | some v =>
        have hexpired := hfree v hv
        have hclock := h.clock
        rw [hv, Volatile.get?, if_neg (by omega)] at hslot
        cases hslot
    | @decided w hw v hv hvalue hreturned hothers =>
      -- the slot has been the winner's since its push
      obtain rfl : w.id = holder := by
        rw [hv, Volatile.get?] at hslot
        split at hslot <;> cases hslot
        exact hvalue.symm
      refine .decided hw hv hvalue hreturned fun c' hc' hne => ?_
      rcases hothers c' hc' hne with ⟨pc, hpc, hkey, hcid⟩ | hbeaten
      · -- the call that has just heard of the winner, or another one
        by_cases heq : pc = .claim c.id c.job key
        · subst heq
          obtain hid : c.id = c'.id := Option.some.inj hcid
          exact .inr (.inl (hid ▸ List.mem_set (List.getElem?_eq_some_iff.mp hi).1 _))
        · exact .inl ⟨pc, mem_set_of_ne _ hpc hi heq, hkey, hcid⟩
      · exact .inr (hbeaten.imp (fun hpc => mem_set_of_ne _ hpc hi (by simp)) id)

theorem since_append {c : Call T} (hcalls : s₀.calls.length ≤ s.calls.length)
    (h : s'.calls = s.calls ++ [c]) {c' : Call T} (hc' : c' ∈ callsSince s₀ key s') :
    c' ∈ callsSince s₀ key s ∨ c' = c ∧ c.key = some key := by
  rw [callsSince, h, List.drop_append_of_le_length hcalls, List.filter_append] at hc'
  rcases List.mem_append.mp hc' with hc' | hc'
  · exact .inl hc'
  · obtain ⟨hmem, hkey⟩ := List.mem_filter.mp hc'
    obtain rfl := List.mem_singleton.mp hmem
    exact .inr ⟨rfl, of_decide_eq_true hkey⟩

/-- A new call, with the key or not. -/
theorem Race.enqueue (h : Race s₀ key s) {i : Nat} {id : JobId} {call : EnqueueCall T}
    (hi : s.producers[i]? = some .idle) (hs : step env s (.enqueue i id call) = some s')
    (hproducers : s'.producers =
      s.producers.set i (.save id (call.job id s.clock) call.idempotencyKey))
    (hcalls : s'.calls = s.calls ++ [⟨id, call, s.clock⟩]) (hstore : s'.store = s.store)
    (hlog : s'.log = s.log) : Race s₀ key s' := by
  have hself : .save id (call.job id s.clock) call.idempotencyKey ∈ s'.producers := by
    rw [hproducers]
    exact List.mem_set (List.getElem?_eq_some_iff.mp hi).1 _
  refine h.keep hs (by rw [hstore]) (fun c hc => ?_) (fun pc hpc hkey => ?_) ?_ ?_
  · exact (since_append h.calls hcalls hc).imp_right fun ⟨hc, hkey⟩ => ⟨_, hself, hkey, hc ▸ rfl⟩
  · rw [hproducers] at hpc
    rcases List.mem_or_eq_of_mem_set hpc with hpc | rfl
    · exact .inl ⟨pc, hpc, hkey, rfl⟩
    · refine .inr ⟨⟨id, call, s.clock⟩, ?_, rfl⟩
      rw [callsSince, hcalls, List.drop_append_of_le_length h.calls, List.filter_append]
      refine List.mem_append_right _ (List.mem_filter.mpr ⟨List.mem_singleton_self _, ?_⟩)
      exact decide_eq_true hkey
  · rintro c ⟨pc, hpc, hkey, hid⟩
    refine ⟨pc, hproducers ▸ mem_set_of_ne _ hpc hi ?_, hkey, hid⟩
    rintro rfl
    cases hkey
  · rintro winner c (hpc | hreturned)
    · exact .inl (hproducers ▸ mem_set_of_ne _ hpc hi (by simp))
    · exact .inr (hlog ▸ hreturned)

theorem race_step (h : Race s₀ key s) (hI : Integrity env s) (hok : WithinTtl s₀ key s a)
    (hs : step env s a = some s') : Race s₀ key s' := by
  cases callStep_of_step hI hs with
  | called hi hid => exact h.enqueue hi hs rfl rfl rfl rfl
  | produced hproduced =>
    cases hproduced with
    | @saved c hc hi =>
      -- the call is still racing, one command further
      have hsaved : c.saved.key? = c.key ∧ c.saved.jobId? = some c.id := by
        unfold Call.saved
        split
        · next hkey => exact ⟨hkey.symm, rfl⟩
        · next hkey => exact ⟨hkey.symm, rfl⟩
      exact h.advance hs hi rfl rfl rfl (fun hkey => ⟨hsaved.1.trans hkey, hsaved.2⟩)
        (fun hkey => ⟨hsaved.1.symm.trans hkey, hsaved.2.symm⟩) (by rintro _ _ ⟨⟩)
    | @claimed c key' hc hkey hi hslot =>
      -- races for other keys leave the slot alone
      by_cases heq : key' = key
      · subst heq
        exact h.claim hI hok hi hslot
      · refine h.advance hs hi rfl rfl ?_ (fun hk => absurd (Option.some.inj hk) heq)
          (by rintro ⟨⟩) (by rintro _ _ ⟨⟩)
        simp [Store.idempotentEnqueue, hslot, Ne.symm heq]
    | @beaten c key' holder hc hkey hi hslot =>
      by_cases heq : key' = key
      · subst heq
        exact h.lose hi hslot
      · exact h.advance hs hi rfl rfl rfl (fun hk => absurd (Option.some.inj hk) heq)
          (by rintro ⟨⟩) (by rintro _ _ ⟨⟩)
    | @published c hc hkey hi =>
      exact h.advance hs hi rfl rfl rfl (by rintro ⟨⟩) (by rintro ⟨⟩) (by rintro _ _ ⟨⟩)
    | @discarded c claimedId hc hi =>
      refine h.advance hs hi rfl rfl rfl (by rintro ⟨⟩) (by rintro ⟨⟩) ?_
      rintro id winner ⟨⟩
      exact List.mem_append_right _ (List.mem_singleton_self _)
  -- no producer dies in the race
  | died i => cases hok.1
  | consumed _ hconsumer =>
    obtain ⟨hproducers, hcalls, hstore, events, -, hlog⟩ := hconsumer
    refine h.keep hs (by rw [hstore.idempotency_eq]) (fun c hc => .inl ?_)
      (fun pc hpc hkey => .inl ⟨pc, hproducers ▸ hpc, hkey, rfl⟩) (fun c hc => ?_)
      fun winner c hc => ?_
    · rwa [callsSince, hcalls] at hc
    · rwa [Racing, hproducers]
    · rw [Beaten, hproducers]
      exact hc.imp_right fun hmem => (log_step hs).subset hmem

end Races

/-! ## One winner -/

/-- The `LPUSH`es made for `calls`. -/
def pushes (s : Config T) (calls : List (Call T)) : Nat :=
  s.log.countP fun event => event ∈ calls.map fun c => Event.pushed c.id

section Winner

variable {env : Env T} {topology : Topology} {s₀ s : Config T} {key : String}

theorem Racing.not_pushed {c : Call T} (h : Racing key s c) (hI : Integrity env s) :
    .pushed c.id ∉ s.log := by
  obtain ⟨pc, hpc, -, hid⟩ := h
  exact (hI.producers pc hpc).not_pushed hid

theorem Beaten.not_pushed {c : Call T} {winner : JobId} (h : Beaten winner s c)
    (hI : Integrity env s) (hR : Returns s) : .pushed c.id ∉ s.log :=
  h.elim (fun hpc => (hI.producers _ hpc).not_pushed rfl) (hR.unpushed c.id winner)

theorem pushes_eq_zero {calls : List (Call T)} (h : ∀ c ∈ calls, .pushed c.id ∉ s.log) :
    pushes s calls = 0 := by
  refine List.countP_eq_zero.mpr fun event hevent hmem => ?_
  obtain ⟨c, hc, rfl⟩ := List.mem_map.mp (of_decide_eq_true hmem)
  exact h c hc hevent

/-- When one call only has pushed, its pushes are all there are. -/
theorem pushes_eq_count {calls : List (Call T)} {w : Call T} (hw : w ∈ calls)
    (h : ∀ c ∈ calls, c ≠ w → .pushed c.id ∉ s.log) : pushes s calls = s.log.count (.pushed w.id) := by
  refine List.countP_congr fun event hevent => ?_
  simp only [decide_eq_true_eq, beq_iff_eq, List.mem_map]
  constructor
  · rintro ⟨c, hc, rfl⟩
    by_cases hne : c = w
    · rw [hne]
    · exact absurd hevent (h c hc hne)
  · rintro rfl
    exact ⟨w, hw, rfl⟩

theorem race_run (h₀ : Reach (step env) (fun _ _ => True) (init topology) s₀)
    (hfree : Volatile.get? s₀.clock (s₀.store.idempotency key) = none)
    (hnone : ∀ pc ∈ s₀.producers, pc.key? ≠ some key)
    (h : Reach (step env) (WithinTtl s₀ key) s₀ s) : Race s₀ key s := by
  refine h.invariant' ⟨Nat.le_refl _, Nat.le_refl _, fun pc hpc hkey => absurd hkey (hnone pc hpc),
    .undecided (fun v hv => ?_) fun c hc => ?_⟩ ?_
  · rw [Option.mem_def.mp hv, Volatile.get?] at hfree
    split at hfree
    · cases hfree
    · omega
  · simp [callsSince] at hc
  · intro s a s' hr hrace hok hs
    exact race_step hrace (integrity_run (h₀.trans (hr.mono fun _ _ _ => trivial))) hok hs

/-- **Idempotent enqueue.** Of the calls with one key made while its slot was free,
at most one pushes its job. When they have all returned, one of them has
returned its job and the others have returned that job's id and left nothing. -/
theorem idempotent_enqueue (h₀ : Reach (step env) (fun _ _ => True) (init topology) s₀)
    (hfree : Volatile.get? s₀.clock (s₀.store.idempotency key) = none)
    (hnone : ∀ pc ∈ s₀.producers, pc.key? ≠ some key)
    (h : Reach (step env) (WithinTtl s₀ key) s₀ s) :
    pushes s (callsSince s₀ key s) ≤ 1 ∧
      (callsSince s₀ key s ≠ [] →
        (∀ c ∈ callsSince s₀ key s, ∀ pc ∈ s.producers, pc.jobId? ≠ some c.id) →
        pushes s (callsSince s₀ key s) = 1 ∧
        ∃ w ∈ callsSince s₀ key s,
          s.log.count (.returnedJob w.id) = 1 ∧ (∀ x, .returnedId w.id x ∉ s.log) ∧
          s.store.jobs w.id ≠ .absent ∧
          ∀ c ∈ callsSince s₀ key s, c ≠ w →
            .returnedJob c.id ∉ s.log ∧ (∀ x, .returnedId c.id x ∈ s.log ↔ x = w.id) ∧
            s.store.jobs c.id = .absent ∧ ¬ s.store.Mentions c.id) := by
  have hr := h₀.trans (h.mono fun _ _ _ => trivial)
  have hI := integrity_run hr
  have hR := returns_run hr
  cases (race_run h₀ hfree hnone h).outcome with
  | undecided hslot hracing =>
    have hzero := pushes_eq_zero fun c hc => (hracing c hc).not_pushed hI
    refine ⟨by omega, fun hcalls hdone => ?_⟩
    obtain ⟨c, hc⟩ := List.exists_mem_of_ne_nil _ hcalls
    obtain ⟨pc, hpc, -, hid⟩ := hracing c hc
    exact absurd hid (hdone c hc pc hpc)
  | @decided w hw v hslot hv hreturned hothers =>
    have hpushed : s.log.count (.pushed w.id) = 1 := by
      have hjob := hR.job w.id
      have hsingle := hR.single w.id
      have hpos := List.count_pos_iff.mpr hreturned
      omega
    have hunpushed : ∀ c ∈ callsSince s₀ key s, c ≠ w → .pushed c.id ∉ s.log := fun c hc hne =>
      (hothers c hc hne).elim (fun h => h.not_pushed hI) fun h => h.not_pushed hI hR
    have hone := (pushes_eq_count hw hunpushed).trans hpushed
    have hmem : .pushed w.id ∈ s.log := List.count_pos_iff.mp (by omega)
    refine ⟨hone.le, fun _ hdone => ⟨hone, w, hw, (hR.job w.id).trans hpushed,
      fun x hx => hR.unpushed w.id x hx hmem, hI.present w.id hmem, fun c hc hne => ?_⟩⟩
    -- nobody is still racing, or discarding its record
    have hbeaten : .returnedId c.id w.id ∈ s.log := by
      rcases hothers c hc hne with ⟨pc, hpc, -, hid⟩ | hpc | hreturned
      · exact absurd hid (hdone c hc pc hpc)
      · exact absurd rfl (hdone c hc _ hpc)
      · exact hreturned
    refine ⟨fun hjob => ?_, fun x => ⟨fun hx => hR.once c.id x w.id hx hbeaten, ?_⟩,
      hR.erased c.id w.id hbeaten, fun hm => hunpushed c hc hne (hI.mentioned c.id hm)⟩
    · have hpos := List.count_pos_iff.mpr hjob
      rw [hR.job c.id] at hpos
      exact hunpushed c hc hne (List.count_pos_iff.mp hpos)
    · rintro rfl
      exact hbeaten

end Winner

/-- Two calls race, and the one made second wins. -/
theorem idempotent_enqueue_race :
    ∃ s : Config Unit,
      (callsSince (init ⟨2, [["mail"]], 0, 0, 0⟩) "k" s).map Call.id = ["a", "b"] ∧
      pushes s (callsSince (init ⟨2, [["mail"]], 0, 0, 0⟩) "k" s) = 1 ∧
      s.store.lists (.waitingList "main_queue" "normal") = ["b"] := by
  obtain ⟨s, hs, hcalls, hdone, hlist⟩ :=
    exists_reach_of_run (step mainQueue) (WithinTtl (init ⟨2, [["mail"]], 0, 0, 0⟩) "k")
      (init ⟨2, [["mail"]], 0, 0, 0⟩)
      (fun s : Config Unit =>
        (callsSince (init ⟨2, [["mail"]], 0, 0, 0⟩) "k" s).map Call.id = ["a", "b"] ∧
        (∀ pc ∈ s.producers, pc.jobId? = none) ∧
        s.store.lists (.waitingList "main_queue" "normal") = ["b"])
      [.enqueue 0 "a" (.core "mail" () (.options none none (some "k")) none),
        .enqueue 1 "b" (.core "mail" () (.options none none (some "k")) none),
        .produce 0, .produce 1, .produce 1, .produce 0, .produce 0]
      (by decide +kernel)
  obtain ⟨-, hall⟩ := idempotent_enqueue .refl rfl (by decide) hs
  obtain ⟨hone, -⟩ := hall (fun hnil => by simp [hnil] at hcalls) fun c _ pc hpc => by
    rw [hdone pc hpc]
    nofun
  exact ⟨s, hcalls, hone, hlist⟩

end DistriSys
