import DistriSys.Core.Pool
import DistriSys.Transition.Reach
import Mathlib.Data.List.Basic

/-!
# The life cycle of a worker pool

A pool is meant to run no more than `concurrency` loops at a time, and none any more
when a `shutdown` has resolved (`Pool.Safe`). Both break when `start` is called while an
earlier `shutdown` is still waiting (`restart_overbooks`): the old loops see the flag set
again and go on beside the new ones. **`pool_safe`** says what a run has to keep to:
loops are booted only when no loop is left, and `shutdown` is called only while the array
holds the promises of all that are. Neither can be left out (`overbooked_of_start`,
`exists_run_of_unpromised`). A caller that lets every `shutdown` resolve before it calls
`start` keeps to both (**`patient_pool_safe`**).

- `Good` is the invariant of orderly runs: the loops are few, and every pending `shutdown`
  waits for all of them (`HaltCall.Covered`);
- `Settled` is that of patient callers.
-/

namespace DistriSys

open Js Transition

namespace Pool

/-- No more loops than allowed, and after a `shutdown` none at all. -/
structure Safe (concurrency : Nat) (pool : Pool) : Prop where
  bounded : (liveLoops pool.loops).length ≤ concurrency
  /-- In particular no loop holds a job. -/
  stopped : ∀ call ∈ pool.shutdowns, call.resolved = true → call.startedSince = false →
    liveLoops pool.loops = []

/-- The condition on a step: it boots loops only when no loop is left, and shuts down
only while every loop's promise is in the array. -/
def Orderly (pool : Pool) : PoolAction → Prop
  | .start => pool.isRunning = true ∨ liveLoops pool.loops = []
  | .shutdown => liveLoops pool.loops ⊆ pool.workerPromises
  | .resume _ _ => True
  | .settle _ => True

instance (pool : Pool) : DecidablePred pool.Orderly
  | .start => inferInstanceAs (Decidable (_ ∨ _))
  | .shutdown => inferInstanceAs (Decidable (∀ i ∈ liveLoops pool.loops, i ∈ pool.workerPromises))
  | .resume _ _ => isTrue trivial
  | .settle _ => isTrue trivial

/-! ## Loops -/

section Loops

variable {loops : List LoopPc} {i : Nat} {pc pc' : LoopPc}

theorem mem_liveLoops : i ∈ liveLoops loops ↔ ∃ pc, loops[i]? = some pc ∧ pc ≠ .exited := by
  simp only [liveLoops, List.mem_filter, List.mem_range, decide_eq_true_eq]
  constructor
  · rintro ⟨hi, hlive⟩
    exact ⟨loops[i], List.getElem?_eq_getElem hi, by simpa [hi] using hlive⟩
  · rintro ⟨pc, hpc, hlive⟩
    exact ⟨(List.getElem?_eq_some_iff.mp hpc).1, by simpa [hpc] using hlive⟩

/-- A loop that has ended awaits nothing. -/
theorem ne_exited_of_resume {isRunning : Bool} {awaited : Awaited}
    (h : pc.resume isRunning awaited = some pc') : pc ≠ .exited := by
  rintro rfl
  cases h

/-- What a live loop does makes no other loop live. -/
theorem liveLoops_set (hpc : loops[i]? = some pc) (hlive : pc ≠ .exited) :
    (liveLoops (loops.set i pc')).Sublist (liveLoops loops) := by
  simp only [liveLoops, List.length_set]
  apply List.monotone_filter_right
  intro j hj
  rw [decide_eq_true_eq] at hj ⊢
  by_cases hij : i = j
  · subst hij
    simpa [hpc] using hlive
  · rwa [List.getElem?_set_ne hij] at hj

/-- New loops are live. -/
theorem liveLoops_append (concurrency : Nat) (loops : List LoopPc) :
    liveLoops (loops ++ List.replicate concurrency (.next true)) =
      liveLoops loops ++ List.range' loops.length concurrency := by
  simp only [liveLoops, List.length_append, List.length_replicate, List.range_add,
    List.filter_append]
  congr 1
  · apply List.filter_congr
    intro i hi
    rw [List.getElem?_append_left (List.mem_range.mp hi)]
  · rw [← List.range'_eq_map_range, List.filter_eq_self]
    intro i hi
    rw [List.mem_range'_1] at hi
    rw [List.getElem?_append_right hi.1, List.getElem?_replicate_of_lt (by omega)]
    decide

/-- A loop that is not live is there and has ended, as far as it was ever booted. -/
theorem getElem?_set_of_exited {j : Nat} (hpc : loops[i]? = some pc) (hlive : pc ≠ .exited)
    (hj : loops[j]? = some .exited) : (loops.set i pc')[j]? = some .exited := by
  rwa [List.getElem?_set_ne]
  rintro rfl
  exact hlive (Option.some.inj (hpc.symm.trans hj))

end Loops

/-! ## Runs -/

section Runs

variable {concurrency : Nat} {pool pool' : Pool} {a : PoolAction}

/-- What every orderly run keeps. -/
structure Good (concurrency : Nat) (pool : Pool) : Prop where
  bounded : (liveLoops pool.loops).length ≤ concurrency
  covered : HaltCall.Covered pool.shutdowns (pool.isRunning = false) (· ∈ liveLoops pool.loops)
    (fun i => pool.loops[i]? = some .exited)

/-- No loop lives that has ended. -/
theorem not_mem_liveLoops {loops : List LoopPc} {i : Nat} (h : loops[i]? = some .exited) :
    i ∉ liveLoops loops := by
  intro hi
  obtain ⟨pc, hpc, hlive⟩ := mem_liveLoops.mp hi
  exact hlive (Option.some.inj (hpc.symm.trans h))

theorem Good.safe (h : Good concurrency pool) : Safe concurrency pool where
  bounded := h.bounded
  stopped := by
    intro call hcall hresolved hsince
    rw [List.eq_nil_iff_forall_not_mem]
    exact (h.covered.no_task_left (fun i => not_mem_liveLoops) hcall hresolved hsince).2

theorem good_new : Good concurrency new := ⟨Nat.zero_le _, HaltCall.covered_nil⟩

theorem good_step (h : Good concurrency pool) (ha : pool.Orderly a)
    (hs : pool.step concurrency a = some pool') : Good concurrency pool' := by
  cases a with
  | start =>
    simp only [step] at hs
    split at hs
    · cases hs
      exact ⟨h.bounded, h.covered.start fun _ => id⟩
    · next hstopped =>
      cases hs
      -- the caller starts a stopped pool only when no loop lives
      have hnone : liveLoops pool.loops = [] := ha.resolve_left hstopped
      constructor
      · rw [liveLoops_append, hnone, List.nil_append, List.length_range']
      · refine h.covered.start ?_
        intro i hi
        rwa [List.getElem?_append_left (List.getElem?_eq_some_iff.mp hi).1]
  | shutdown =>
    cases hs
    exact ⟨h.bounded, h.covered.halt rfl fun _ hi => ha hi⟩
  | resume i awaited =>
    obtain ⟨pc, hpc, hs⟩ := Option.bind_eq_some_iff.mp hs
    obtain ⟨pc', hresume, hs⟩ := Option.bind_eq_some_iff.mp hs
    cases hs
    have hlive := ne_exited_of_resume hresume
    -- a loop that resumes stays live or exits; none is born
    have hsub : (liveLoops (pool.loops.set i pc')).Sublist (liveLoops pool.loops) :=
      liveLoops_set hpc hlive
    constructor
    · exact hsub.length_le.trans h.bounded
    · exact h.covered.proceed (fun j hj => hsub.subset hj) fun j hj =>
        getElem?_set_of_exited hpc hlive hj
  | settle k =>
    simp only [step] at hs
    split at hs
    · next call hk =>
      split at hs
      · next hdone =>
        cases hs
        exact ⟨h.bounded, h.covered.settle hk hdone.2⟩
      · cases hs
    · cases hs

theorem good_run (h : Reach (step concurrency) Orderly new pool) : Good concurrency pool :=
  h.invariant good_new fun _ _ _ hgood ha hs => good_step hgood ha hs

/-- **When a pool is safe.** In a run that boots loops only when no loop is left, and
calls `shutdown` only while every loop's promise is in the array, there are never more
than `concurrency` loops, and none once a `shutdown` has resolved, until the next call of
`start`. -/
theorem pool_safe (h : Reach (step concurrency) Orderly new pool) : Safe concurrency pool :=
  (good_run h).safe

/-! ## The conditions are sharp -/

/-- Where the condition on `start` fails, there are too many loops at once. -/
theorem overbooked_of_start (h : ¬ pool.Orderly .start)
    (hs : pool.step concurrency .start = some pool') :
    concurrency < (liveLoops pool'.loops).length := by
  obtain ⟨hstopped, hsome⟩ := not_or.mp h
  simp only [step, if_neg hstopped] at hs
  cases hs
  rw [liveLoops_append, List.length_append, List.length_range']
  have hpositive := List.length_pos_iff.mpr hsome
  omega

/-- The promises in the array are those of loops. -/
theorem workerPromises_lt (h : Reach (step concurrency) (fun _ _ => True) new pool) :
    ∀ i ∈ pool.workerPromises, i < pool.loops.length := by
  refine h.invariant (I := fun pool => ∀ i ∈ pool.workerPromises, i < pool.loops.length) nofun ?_
  intro pool a pool' hlt _ hs
  cases a with
  | start =>
    simp only [step] at hs
    split at hs
    · cases hs
      exact hlt
    · cases hs
      intro i hi
      rw [List.length_append, List.length_replicate]
      -- a promise of an earlier boot, or of this one
      rcases List.mem_append.mp hi with hi | hi
      · have hi' := hlt i hi
        omega
      · rw [List.mem_range'_1] at hi
        exact hi.2
  | shutdown =>
    cases hs
    exact hlt
  | resume i awaited =>
    obtain ⟨pc, hpc, hs⟩ := Option.bind_eq_some_iff.mp hs
    obtain ⟨pc', hresume, hs⟩ := Option.bind_eq_some_iff.mp hs
    cases hs
    simpa using hlt
  | settle k =>
    simp only [step] at hs
    split at hs
    · split at hs <;> cases hs
      nofun
    · cases hs

/-- Once the flag is cleared, every loop can end at its next await. -/
theorem exists_resume_exited {pc : LoopPc} (h : pc ≠ .exited) :
    ∃ awaited, pc.resume false awaited = some .exited := by
  cases pc with
  | polling priority => exact ⟨.thrown, rfl⟩
  | sleeping => exact ⟨.timeout, rfl⟩
  | processing jobId => exact ⟨.processed, rfl⟩
  | backingOff => exact ⟨.timeout, rfl⟩
  | exited => exact absurd rfl h

/-- So the loops a `shutdown` waits for can all end while another goes on. -/
theorem exists_run_exited (concurrency : Nat) (pool : Pool) {i : Nat} {awaits : List Nat}
    (hstopped : pool.isRunning = false) (hlt : ∀ j ∈ awaits, j < pool.loops.length)
    (hi : i ∉ awaits) :
    ∃ loops, Reach (step concurrency) (fun _ a => a ≠ .start) pool { pool with loops := loops } ∧
      loops.length = pool.loops.length ∧ loops[i]? = pool.loops[i]? ∧
        ∀ j ∈ awaits, loops[j]? = some .exited := by
  induction awaits with
  | nil => exact ⟨pool.loops, .refl, rfl, rfl, nofun⟩
  | cons k awaits ih =>
    rw [List.mem_cons, not_or] at hi
    obtain ⟨loops, hrun, hlength, hkept, hexited⟩ :=
      ih (fun j hj => hlt j (List.mem_cons_of_mem k hj)) hi.2
    have hk : k < loops.length := hlength ▸ hlt k List.mem_cons_self
    -- the loop may have exited already
    by_cases hlive : loops[k] = .exited
    · refine ⟨loops, hrun, hlength, hkept, ?_⟩
      intro j hj
      rcases List.mem_cons.mp hj with rfl | hj
      · rw [List.getElem?_eq_getElem hk, hlive]
      · exact hexited j hj
    · obtain ⟨awaited, hresume⟩ := exists_resume_exited hlive
      have hstart : PoolAction.resume k awaited ≠ .start := by simp
      have hs : step concurrency { pool with loops := loops } (.resume k awaited) =
          some { pool with loops := loops.set k .exited } := by
        simp [step, hk, hstopped, hresume]
      refine ⟨loops.set k .exited, hrun.tail hstart hs, ?_, ?_, ?_⟩
      · rw [List.length_set, hlength]
      · rw [List.getElem?_set_ne (Ne.symm hi.1), hkept]
      · intro j hj
        by_cases hkj : k = j
        · subst hkj
          rw [List.getElem?_set_self hk]
        · rw [List.getElem?_set_ne hkj]
          exact hexited j ((List.mem_cons.mp hj).resolve_left (Ne.symm hkj))

/-- Where the condition on `shutdown` fails, some run breaks the promise before the next
start. -/
theorem exists_run_of_unpromised (h : Reach (step concurrency) (fun _ _ => True) new pool)
    (hnot : ¬ pool.Orderly .shutdown) :
    ∃ pool', Reach (step concurrency) (fun _ a => a ≠ .start) pool pool' ∧
      ¬ Safe concurrency pool' := by
  obtain ⟨i, hi, hunknown⟩ : ∃ i ∈ liveLoops pool.loops, i ∉ pool.workerPromises := by
    by_contra hall
    refine hnot fun i hi => ?_
    by_contra hunknown
    exact hall ⟨i, hi, hunknown⟩
  have hshutdown : PoolAction.shutdown ≠ .start := by simp
  have hbegun : Reach (step concurrency) (fun _ a => a ≠ .start) pool
      { pool with
        isRunning := false
        shutdowns := pool.shutdowns ++ [.begun pool.workerPromises] } :=
    Reach.refl.tail hshutdown rfl
  have hpromised := workerPromises_lt h
  obtain ⟨loops, hrun, -, hkept, hexited⟩ := exists_run_exited concurrency
    { pool with
      isRunning := false
      shutdowns := pool.shutdowns ++ [.begun pool.workerPromises] } rfl hpromised hunknown
  -- the call resolves, with loop `i` live
  have hsettle : PoolAction.settle pool.shutdowns.length ≠ .start := by simp
  have hresolves : step concurrency
      { pool with
        isRunning := false
        loops := loops
        shutdowns := pool.shutdowns ++ [.begun pool.workerPromises] }
      (.settle pool.shutdowns.length) = some
        { isRunning := false
          loops := loops
          workerPromises := []
          shutdowns := HaltCall.settle (pool.shutdowns ++ [.begun pool.workerPromises])
            pool.shutdowns.length (.begun pool.workerPromises) } := by
    simp only [step, List.getElem?_concat_length]
    exact if_pos ⟨rfl, hexited⟩
  refine ⟨_, (hbegun.trans hrun).tail hsettle hresolves, ?_⟩
  intro hsafe
  have hlt : pool.shutdowns.length <
      (pool.shutdowns ++ [HaltCall.begun pool.workerPromises]).length := by simp
  have hnone := hsafe.stopped { HaltCall.begun pool.workerPromises with resolved := true }
    (List.mem_set hlt _) rfl rfl
  obtain ⟨pc, hpc, hlive⟩ := mem_liveLoops.mp hi
  have hlive' : i ∈ liveLoops loops := mem_liveLoops.mpr ⟨pc, hkept.trans hpc, hlive⟩
  rw [hnone] at hlive'
  cases hlive'

/-! ## Callers that wait -/

/-- The caller lets every `shutdown` resolve before it starts the pool again. -/
def Patient (pool : Pool) (a : PoolAction) : Prop :=
  a = .start → pool.isRunning = true ∨ ∀ call ∈ pool.shutdowns, call.resolved = true

/-- With such a caller the array holds the promises of all loops, and so does what a
pending `shutdown` waits for. -/
structure Settled (pool : Pool) : Prop where
  promised : liveLoops pool.loops ⊆ pool.workerPromises
  pending : ∀ call ∈ pool.shutdowns, call.resolved = false →
    pool.isRunning = false ∧ liveLoops pool.loops ⊆ call.awaits
  stopped : pool.isRunning = false → (∀ call ∈ pool.shutdowns, call.resolved = true) →
    liveLoops pool.loops = []

theorem Settled.orderly (h : Settled pool) (ha : pool.Patient a) : pool.Orderly a := by
  cases a with
  | start =>
    show pool.isRunning = true ∨ liveLoops pool.loops = []
    cases hrunning : pool.isRunning with
    | true => exact .inl rfl
    | false => exact .inr (h.stopped hrunning ((ha rfl).resolve_left (by simp [hrunning])))
  | shutdown => exact h.promised
  | resume i awaited => trivial
  | settle k => trivial

theorem settled_step (h : Settled pool) (ha : pool.Patient a)
    (hs : pool.step concurrency a = some pool') : Settled pool' := by
  cases a with
  | start =>
    simp only [step] at hs
    split at hs
    · next hrunning =>
      cases hs
      constructor
      case promised => exact h.promised
      case pending =>
        intro call hcall hpending
        obtain ⟨call', hcall', rfl⟩ := List.mem_map.mp hcall
        exact h.pending call' hcall' hpending
      case stopped => exact fun hstopped => absurd (hstopped.symm.trans hrunning) Bool.false_ne_true
    · next hstopped =>
      cases hs
      have hresolved := (ha rfl).resolve_left hstopped
      have hnone := h.stopped (Bool.not_eq_true _ ▸ hstopped) hresolved
      constructor
      case promised =>
        rw [liveLoops_append, hnone, List.nil_append]
        exact List.subset_append_right _ _
      case pending =>
        intro call hcall hpending
        obtain ⟨call', hcall', rfl⟩ := List.mem_map.mp hcall
        exact absurd (hpending.symm.trans (hresolved call' hcall')) Bool.false_ne_true
      case stopped => nofun
  | shutdown =>
    cases hs
    constructor
    case promised => exact h.promised
    case pending =>
      intro call hcall hpending
      refine ⟨rfl, ?_⟩
      rcases List.mem_append.mp hcall with hcall | hcall
      · exact (h.pending call hcall hpending).2
      · obtain rfl := List.mem_singleton.mp hcall
        exact h.promised
    case stopped =>
      intro _ hresolved
      exact absurd (hresolved _ (List.mem_append_right _ List.mem_cons_self)) Bool.false_ne_true
  | resume i awaited =>
    obtain ⟨pc, hpc, hs⟩ := Option.bind_eq_some_iff.mp hs
    obtain ⟨pc', hresume, hs⟩ := Option.bind_eq_some_iff.mp hs
    cases hs
    have hsub : (liveLoops (pool.loops.set i pc')).Sublist (liveLoops pool.loops) :=
      liveLoops_set hpc (ne_exited_of_resume hresume)
    constructor
    case promised => exact fun j hj => h.promised (hsub.subset hj)
    case pending =>
      intro call hcall hpending
      obtain ⟨hstopped, hawaits⟩ := h.pending call hcall hpending
      exact ⟨hstopped, fun j hj => hawaits (hsub.subset hj)⟩
    case stopped =>
      intro hstopped hresolved
      have hnone := h.stopped hstopped hresolved
      exact List.sublist_nil.mp (hnone ▸ hsub)
  | settle k =>
    simp only [step] at hs
    split at hs
    · next call hk =>
      split at hs
      · next hdone =>
        cases hs
        have hcall : call ∈ pool.shutdowns := List.mem_of_getElem? hk
        -- all loops that are left were waited for, so there are none
        have hnone : liveLoops pool.loops = [] := by
          rw [List.eq_nil_iff_forall_not_mem]
          intro i hi
          exact not_mem_liveLoops (hdone.2 i ((h.pending call hcall hdone.1).2 hi)) hi
        constructor
        case promised => simp [hnone]
        case pending =>
          intro call' hcall' hpending
          rcases List.mem_or_eq_of_mem_set hcall' with hcall' | rfl
          · exact h.pending call' hcall' hpending
          · cases hpending
        case stopped => exact fun _ _ => hnone
      · cases hs
    · cases hs

/-- A pool whose caller lets every `shutdown` resolve before it calls `start` is safe. -/
theorem patient_pool_safe (h : Reach (step concurrency) Patient new pool) :
    Safe concurrency pool := by
  have hsettled : ∀ pool, Reach (step concurrency) Patient new pool → Settled pool := by
    intro pool hreach
    exact hreach.invariant ⟨by simp [liveLoops, new], nofun, fun _ _ => rfl⟩
      fun _ _ _ hI ha hs => settled_step hI ha hs
  have horderly : Reach (step concurrency) Orderly new pool :=
    h.mono' fun pool a hreach ha => (hsettled pool hreach).orderly ha
  exact (good_run horderly).safe

end Runs

/-! ## Concrete runs -/

/-- Two loops, one of them in the middle of a job when the pool is shut down. -/
theorem pool_safe_after_shutdown :
    ∃ pool, Reach (step 2) Orderly new pool ∧
      (∃ call ∈ pool.shutdowns, call.resolved = true ∧ call.startedSince = false) ∧
        Safe 2 pool := by
  obtain ⟨pool, hreach, hcall⟩ := exists_reach_of_run (step 2) Orderly new
    (fun pool => ∃ call ∈ pool.shutdowns, call.resolved = true ∧ call.startedSince = false)
    [.start, .resume 0 (.popped (some "a")), .shutdown, .resume 1 .thrown, .resume 0 .processed,
      .settle 0] (by decide)
  exact ⟨pool, hreach, hcall, pool_safe hreach⟩

/-- **A restart overbooks the pool**: `start` is called while `shutdown` waits for the
only loop to finish its job, and then there are two loops. -/
theorem restart_overbooks :
    ¬ ∀ pool, Reach (step 1) (fun _ _ => True) new pool → Safe 1 pool := by
  intro h
  obtain ⟨pool, hreach, hlive⟩ := exists_reach_of_run (step 1) (fun _ _ => True) new
    (fun pool => 1 < (liveLoops pool.loops).length)
    [.start, .resume 0 (.popped (some "a")), .shutdown, .start] (by decide)
  exact absurd (h pool hreach).bounded (Nat.not_le.mpr hlive)

/-- After a restart a `shutdown` may even resolve while a loop still holds a job: an
earlier one has dropped the promise of that loop. -/
example :
    ∃ pool, Reach (step 1) (fun _ _ => True) new pool ∧ ∃ call ∈ pool.shutdowns,
      call.resolved = true ∧ call.startedSince = false ∧ .processing "b" ∈ pool.loops :=
  exists_reach_of_run (step 1) (fun _ _ => True) new
    (fun pool => ∃ call ∈ pool.shutdowns,
      call.resolved = true ∧ call.startedSince = false ∧ .processing "b" ∈ pool.loops)
    [.start, .resume 0 (.popped (some "a")), .shutdown, .start, .resume 1 (.popped (some "b")),
      .shutdown, .resume 0 .processed, .settle 0, .shutdown, .settle 2] (by decide)

end Pool

end DistriSys
