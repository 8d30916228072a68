import DistriSys.Protocol.Exclusive

/-!
# The backoff of a failed job

A failure branch draws a delay, reads the clock and files the job under the sum; the
scheduler goes by that score. The history variable `notBefore` is the clock of the failure
plus what `calculateBackoff` gives at least. **`backoff_respected`**: until that moment the
job lies in the delayed set, or is about to, and nowhere else; it is on no waiting list
and no worker loads or runs it.

The argument is about one job at a time: by `Ledger.Single` a delayed job has no other
copy somebody could take up, so the only way out of the delayed set is a release, and
releases are due (`due_orderly`).

- `noteRetry` records the moments, `Waits` is what every state keeps about them;
- `patient_step`: a worker on its way to the delayed set carries the moment it noted;
- `entries_patient`: what is in the delayed set is filed under it;
- `waits_step`: one step; a job whose moment has not come stays delayed.
-/

namespace DistriSys

open Js Redis Transition

variable {T : Type}

/-! ## `calculateBackoff` -/

/-- The delay before an attempt, without jitter. -/
def backoffFloor (config : QueueConfig) (attempt : Nat) : Nat :=
  min config.maxDelayMs (1000 * 2 ^ attempt)

theorem calculateBackoff_bounds (config : QueueConfig) (attempt draw : Nat) :
    backoffFloor config attempt ≤ calculateBackoff config attempt draw ∧
      calculateBackoff config attempt draw ≤ backoffFloor config attempt + config.jitterMs := by
  have hjitter : draw % (config.jitterMs + 1) < config.jitterMs + 1 :=
    Nat.mod_lt _ (Nat.succ_pos _)
  unfold calculateBackoff backoffFloor
  omega

/-! ## The history of failures -/

/-- For each job the moment before which it should not be run again: noted when a failure
branch writes the status `delayed`. -/
def noteRetry (env : Env T) (s : Config T) (a : Action T) (_ : Config T)
    (notBefore : JobId → Nat) : JobId → Nat :=
  match a with
  | .work w _ =>
    match s.workers[w]? with
    | some ⟨_, .writeDelayed jobId nextAttempt _⟩ =>
      Function.update notBefore jobId (s.clock + backoffFloor env.config nextAttempt.toNat)
    | _ => notBefore
  | _ => notBefore

/-- A run with the moments noted so far. -/
abbrev Retrying (T : Type) := Recorded (Config T) (JobId → Nat)

/-- The delay a worker has drawn keeps to the bounds of `calculateBackoff`, the score it is
about to write to the moment noted. -/
def WorkerPc.Patient (env : Env T) (notBefore : JobId → Nat) : WorkerPc T → Prop
  | writeDelayed _ nextAttempt delay =>
    backoffFloor env.config nextAttempt.toNat ≤ delay ∧
      delay ≤ backoffFloor env.config nextAttempt.toNat + env.config.jitterMs
  | zaddDelayed jobId score =>
    notBefore jobId ≤ score ∧ score ≤ notBefore jobId + env.config.jitterMs
  | _ => True

/-- What is on its way into the delayed set, and in it, is filed under the moment noted, give
or take the jitter; a job whose moment has not come is one of these. -/
structure Waits (env : Env T) (r : Retrying T) : Prop where
  workers : ∀ wk ∈ r.state.workers, wk.pc.Patient env r.history
  entries : ∀ id score, (id, score) ∈ (r.state.store.delayed env.queueName).entries →
    r.history id ≤ score ∧ score ≤ r.history id + env.config.jitterMs
  early : ∀ id, r.state.clock < r.history id →
    1 ≤ held r.state.workers id .delaying +
      (r.state.store.delayed env.queueName).members.count id

section Steps

variable {env : Env T} {topology : Topology} {s s' : Config T} {a : Action T} {r r' : Retrying T}

/-- Under one scheduler, the jobs a pass has still to move stay in the delayed set with the
scores it has read: nobody files them anew. -/
theorem due_orderly (hsole : topology.schedulers ≤ 1)
    (h : Reach (step env) (Orderly env) (init topology) s) : Pending Due env s := by
  refine h.invariant' (pending_init _ env topology) fun s a s' hr hI _ hs => ?_
  refine pending_step tracked_due hI
    (releasesAlone_of_length ((components_run hr).1.symm ▸ hsole)) ?_ hs
  intro id score hw pc hpc j hj
  obtain ⟨due, hdue, hentry⟩ := hI.tracked pc hpc j hj
  have hne : j ≠ id := by
    rintro rfl
    -- a job in the delayed set is in no worker's hands
    have hL := single_run hsole (fun _ _ h => h) hr j
    have hdelayed : 1 ≤ (ledger env s j).delayed :=
      List.count_pos_iff.mpr (ZSet.mem_members.mpr ⟨due, hentry⟩)
    obtain ⟨w, draw, wk, -, hw, hpc⟩ := hw
    have hdelaying : 1 ≤ (ledger env s j).delaying := held_pos hw (by rw [hpc]; rfl)
    have := (hL.alone (by omega)).2.2.2.1
    omega
  exact ⟨due, hdue, ZSet.mem_entries_zadd.mpr (.inr ⟨hentry, hne⟩)⟩

/-- A release is due. -/
theorem release_due (hsole : topology.schedulers ≤ 1)
    (h : Reach (step env) (Orderly env) (init topology) s) {id : JobId}
    (hrelease : s.schedulerTransaction a = some id) :
    Due (s.store.delayed env.queueName) s.clock id := by
  obtain ⟨pc, hpc, hid⟩ := pending_of_schedulerTransaction hrelease
  exact (due_orderly hsole h).tracked pc hpc id hid

/-- The moment noted changes for the job whose failure the step writes. -/
theorem noteRetry_cases (env : Env T) (s : Config T) (a : Action T) (s' : Config T)
    (notBefore : JobId → Nat) :
    noteRetry env s a s' notBefore = notBefore ∨
      ∃ id nextAttempt delay, s.Works a (.writeDelayed id nextAttempt delay) ∧
        noteRetry env s a s' notBefore =
          Function.update notBefore id (s.clock + backoffFloor env.config nextAttempt.toNat) := by
  unfold noteRetry
  split
  · next w draw =>
    split
    · next handlers id nextAttempt delay hw =>
      exact .inr ⟨id, nextAttempt, delay, ⟨w, draw, _, rfl, hw, rfl⟩, rfl⟩
    · exact .inl rfl
  · exact .inl rfl

/-- The moment of a job in the delayed set, or on its way there, is not noted anew. -/
theorem noteRetry_of_delayed {id : JobId} (hsingle : (ledger env s id).Single)
    (hdelayed : 1 ≤ (ledger env s id).delaying + (ledger env s id).delayed)
    (notBefore : JobId → Nat) : noteRetry env s a s' notBefore id = notBefore id := by
  rcases noteRetry_cases env s a s' notBefore with hsame | ⟨j, next, delay, hw, hnote⟩
  · rw [hsame]
  · have hne : id ≠ j := by
      rintro rfl
      obtain ⟨w, draw, wk, -, hw, hpc⟩ := hw
      have hfailing : 1 ≤ (ledger env s id).failing := held_pos hw (by rw [hpc]; rfl)
      have := hsingle.alone (by omega)
      omega
    rw [hnote, Function.update_of_ne hne]

/-- A worker that files a job for another attempt has noted when. -/
theorem patient_step {wk' : Worker T} (hs : step env s a = some s') {notBefore : JobId → Nat}
    (hworkers : ∀ wk ∈ s.workers, wk.pc.Patient env notBefore)
    (hsingle : ∀ id, (ledger env s id).Single) (hwk' : wk' ∈ s'.workers) :
    wk'.pc.Patient env (noteRetry env s a s' notBefore) := by
  -- a worker that does not move, or whose command is another
  have hkeep : ∀ wk ∈ s.workers, wk.pc.Patient env (noteRetry env s a s' notBefore) := by
    intro wk hwk
    have hpatient := hworkers wk hwk
    obtain ⟨w, hw⟩ := List.mem_iff_getElem?.mp hwk
    obtain ⟨handlers, pc⟩ := wk
    cases pc with
    | zaddDelayed id score =>
      have hdelaying : 1 ≤ (ledger env s id).delaying := held_pos hw rfl
      have hnote : noteRetry env s a s' notBefore id = notBefore id :=
        noteRetry_of_delayed (hsingle id) (by omega) notBefore
      simp only [WorkerPc.Patient] at hpatient ⊢
      rwa [hnote]
    | _ => exact hpatient
  cases workerMoved_of_mem hs hwk' with
  | other h => exact hkeep wk' (Config.mem_workers_of_mem_others h)
  | died h =>
    rw [h]
    trivial
  | registered ha hw h =>
    rw [h]
    exact hkeep _ (List.mem_of_getElem? hw)
  | @worked w draw wk e ha hw he h =>
    rw [h]
    obtain ⟨handlers, pc⟩ := wk
    have hpatient := hworkers _ (List.mem_of_getElem? hw)
    cases pc with
    | poll p =>
      simp only [workerStep] at he
      split at he <;> cases he <;> trivial
    | fetch jobId =>
      simp only [workerStep] at he
      split at he
      · cases he
        trivial
      · split at he <;> cases he <;> trivial
    | markActive jobId job =>
      cases he
      dsimp only
      split <;> trivial
    | countFailure jobId job =>
      cases he
      dsimp only [retryOrBury]
      split
      · exact calculateBackoff_bounds _ _ _
      · trivial
    | writeDelayed jobId nextAttempt delay =>
      cases he
      have hnote : noteRetry env s a s' notBefore jobId =
          s.clock + backoffFloor env.config nextAttempt.toNat := by
        rw [ha]
        simp [noteRetry, hw]
      simp only [WorkerPc.Patient] at hpatient ⊢
      omega
    | running => cases he
    | crashed => cases he
    | _ =>
      cases he
      trivial
  | @settled w outcome wk pc events ha hw he h =>
    rw [h]
    obtain ⟨handlers, pc₀⟩ := wk
    cases pc₀ with
    | running => cases outcome <;> cases he <;> trivial
    | _ => cases he

/-- What is in the delayed set is there under the moment noted. -/
theorem entries_patient (hs : step env s a = some s') {notBefore : JobId → Nat}
    (hworkers : ∀ wk ∈ s.workers, wk.pc.Patient env notBefore)
    (hentries : ∀ id score, (id, score) ∈ (s.store.delayed env.queueName).entries →
      notBefore id ≤ score ∧ score ≤ notBefore id + env.config.jitterMs)
    (hsingle : ∀ id, (ledger env s id).Single) {id : JobId} {score : Nat}
    (hentry : (id, score) ∈ (s'.store.delayed env.queueName).entries) :
    noteRetry env s a s' notBefore id ≤ score ∧
      score ≤ noteRetry env s a s' notBefore id + env.config.jitterMs := by
  have hold : (id, score) ∈ (s.store.delayed env.queueName).entries →
      noteRetry env s a s' notBefore id ≤ score ∧
        score ≤ noteRetry env s a s' notBefore id + env.config.jitterMs := by
    intro hentry
    have hdelayed : 1 ≤ (ledger env s id).delayed :=
      List.count_pos_iff.mpr (ZSet.mem_members.mpr ⟨score, hentry⟩)
    rw [noteRetry_of_delayed (hsingle id) (by omega)]
    exact hentries id score hentry
  -- the delayed set changes by a worker's `ZADD` and by a release
  rcases delayed_step hs with hsame | ⟨j, due, hw, hset⟩ | ⟨j, -, hset⟩
  · rw [hsame] at hentry
    exact hold hentry
  · rw [hset, ZSet.mem_entries_zadd] at hentry
    rcases hentry with heq | ⟨hentry, -⟩
    · cases heq
      obtain ⟨w, draw, wk, -, hw, hpc⟩ := hw
      have hdelaying : 1 ≤ (ledger env s id).delaying := held_pos hw (by rw [hpc]; rfl)
      have hpatient := hworkers wk (List.mem_of_getElem? hw)
      rw [hpc] at hpatient
      rw [noteRetry_of_delayed (hsingle id) (by omega)]
      exact hpatient
    · exact hold hentry
  · rw [hset, ZSet.mem_entries_zrem] at hentry
    exact hold hentry.1

/-- A delayed job stays delayed, unless it is released or its worker dies. -/
theorem delayed_of_steps {L L' : Ledger} {m : Move} (hL : 1 ≤ L.delaying + L.delayed)
    (hm : L.Orderly m) (hrelease : m ≠ .release) (hs : L.Steps m L') :
    1 ≤ L'.delaying + L'.delayed := by
  obtain ⟨hen, rfl⟩ := hs
  cases m with
  | die phase => exact hm.elim
  | release => exact absurd rfl hrelease
  | _ =>
    simp only [Ledger.enabled, Ledger.apply] at hen ⊢
    omega

/-- **One step.** -/
theorem waits_step (hsole : topology.schedulers ≤ 1)
    (h : Reach (step env) (Orderly env) (init topology) r.state) (hwaits : Waits env r)
    (hok : Orderly env r.state a) (hr : recording (step env) (noteRetry env) r a = some r') :
    Waits env r' := by
  obtain ⟨s', hs, rfl⟩ := recording_eq_some hr
  have hsingle := single_run hsole (fun _ _ h => h) h
  refine ⟨fun wk hwk => patient_step hs hwaits.workers hsingle hwk,
    fun id score hentry => entries_patient hs hwaits.workers hwaits.entries hsingle hentry,
    fun id hearly => ?_⟩
  dsimp only at hearly ⊢
  have hclock := clock_step hs
  rcases noteRetry_cases env r.state a s' r.history with hsame | ⟨j, next, delay, hw, hnote⟩
  · rw [hsame] at hearly
    obtain ⟨m, hm, hL⟩ := step_refines (integrity_run h) hs id
    refine delayed_of_steps (hwaits.early id (by omega)) (orderly_licensed hsole h hok hm) ?_ hL
    rintro rfl
    -- a release would be due, that is, not before the moment noted
    obtain ⟨due, hdue, hentry⟩ := release_due hsole h hm.schedulerTransaction
    have := (hwaits.entries id due hentry).1
    omega
  · by_cases hid : id = j
    · subst hid
      obtain ⟨w, draw, ⟨handlers, pc⟩, rfl, hw, rfl⟩ := hw
      cases stepped hs with
      | work hw' he =>
        obtain rfl := Option.some.inj (hw.symm.trans hw')
        cases he
        have hlt := (List.getElem?_eq_some_iff.mp hw).1
        have hpos : 1 ≤ held (r.state.workers.set w ⟨handlers, .zaddDelayed id
            (r.state.clock + delay)⟩) id .delaying :=
          held_pos (List.getElem?_set_self hlt) rfl
        exact Nat.le_add_right_of_le hpos
    · rw [hnote, Function.update_of_ne hid] at hearly
      obtain ⟨m, hm, hL⟩ := step_refines (integrity_run h) hs id
      refine delayed_of_steps (hwaits.early id (by omega)) (orderly_licensed hsole h hok hm) ?_ hL
      rintro rfl
      obtain ⟨due, hdue, hentry⟩ := release_due hsole h hm.schedulerTransaction
      have := (hwaits.entries id due hentry).1
      omega

end Steps

/-! ## Runs -/

/-- **The backoff is respected.** In every orderly run with one scheduler, a job whose
attempt has failed is on no waiting list and in no handler's hands until the delay that
`calculateBackoff` gives at least is over, and its score is that moment, give or take
the jitter. -/
theorem backoff_respected {env : Env T} {topology : Topology} {r : Retrying T}
    (h : Reach (recording (step env) (noteRetry env)) (fun r a => Orderly env r.state a)
      ⟨init topology, fun _ => 0⟩ r)
    (hsole : topology.schedulers ≤ 1) (id : JobId) :
    (r.state.clock < r.history id →
      (∀ p : JobPriority, id ∉ r.state.store.lists (.waitingList env.queueName p.name)) ∧
        held r.state.workers id .loading = 0 ∧ held r.state.workers id .running = 0) ∧
    ∀ score, (id, score) ∈ (r.state.store.delayed env.queueName).entries →
      r.history id ≤ score ∧ score ≤ r.history id + env.config.jitterMs := by
  have hrun : ∀ {t : Retrying T}, Reach (recording (step env) (noteRetry env))
      (fun r a => Orderly env r.state a) ⟨init topology, fun _ => 0⟩ t →
        Reach (step env) (Orderly env) (init topology) t.state :=
    fun ht => ht.forget fun _ _ h => h
  have hwaits : Waits env r := by
    refine h.invariant' ⟨?_, nofun, nofun⟩ fun t a t' ht hwaits hok hs =>
      waits_step hsole (hrun ht) hwaits hok hs
    intro wk hwk
    obtain ⟨handlers, -, rfl⟩ := List.mem_map.mp hwk
    trivial
  refine ⟨fun hearly => ?_, hwaits.entries id⟩
  obtain ⟨-, hcovered, hsingle, -⟩ := single_run hsole (fun _ _ h => h) (hrun h) id
  have hdelayed : 1 ≤ (ledger env r.state id).delaying + (ledger env r.state id).delayed :=
    hwaits.early id hearly
  -- the delayed copy is the only open one
  simp only [Ledger.holders, Ledger.openCopies] at hcovered hsingle
  refine ⟨fun p hp => ?_, ?_, ?_⟩
  · have hwaiting : 1 ≤ (ledger env r.state id).waiting :=
      List.count_pos_iff.mpr (List.mem_flatMap.mpr ⟨p, by cases p <;> decide, hp⟩)
    omega
  · show (ledger env r.state id).loading = 0
    omega
  · show (ledger env r.state id).running = 0
    omega

/-- A scheduler pass one millisecond too early. -/
theorem backoff_respected_early : ∃ r : Retrying Unit,
    r.state.clock = 1999 ∧ r.history "a" = 2000 ∧
      "a" ∉ r.state.store.lists (.waitingList "main_queue" "normal") := by
  obtain ⟨r, hr, hclock, hnote⟩ :=
    exists_reach_of_run (recording (step mainQueue) (noteRetry mainQueue))
      (fun r a => Orderly mainQueue r.state a) ⟨init ⟨1, [["mail"]], 1, 0, 0⟩, fun _ => 0⟩
      (fun r => r.state.clock = 1999 ∧ r.history "a" = 2000)
      (failOnce.dropLast ++ [.tick 1999, .schedule 0, .work 0 0, .work 0 0])
      (by decide +kernel)
  have hearly : r.state.clock < r.history "a" := by omega
  exact ⟨r, hclock, hnote,
    ((backoff_respected hr (Nat.le_refl 1) "a").1 hearly).1 .normal⟩

end DistriSys
