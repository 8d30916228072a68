import DistriSys.Protocol.Refinement

/-!
# Releases of delayed jobs

A scheduler pass reads the due ids once and then moves them one by one; its
transactions push whether or not the id is still in the delayed set. The pass is
right as long as nobody else touches the entries it has read:

- `delayed_step`: only a worker's `ZADD` and a scheduler's transaction change
  the delayed set;
- `pending_step`: what a pass has still to move keeps every property `Tracked`
  of its entry (being there; being there and due) while passes and `ZADD`s keep
  off each other's ids;
- `sole_pass_pending`: with a single scheduler that is so without any further
  assumption, so its transactions always find their job in the delayed set;
- **`released_once_due`**: with any number of passes, every release is of a job
  that is in the delayed set and due, and each `ZADD` is released at most once,
  as long as `DelayedWritesAlone` holds of the steps;
- `overlapping_passes_release_twice`: without it, two passes release one entry.
-/

namespace DistriSys

open Js Redis Transition

variable {T : Type}

section Steps

variable {env : Env T} {s s' : Config T} {a : Action T}

/-- **Who changes the delayed set**: a worker's `ZADD` and a scheduler's transaction. -/
theorem delayed_step (hs : step env s a = some s') :
    s'.store.delayed env.queueName = s.store.delayed env.queueName ∨
      (∃ id score, s.Works a (.zaddDelayed id score) ∧
        s'.store.delayed env.queueName = (s.store.delayed env.queueName).zadd score id) ∨
      ∃ id, s.schedulerTransaction a = some id ∧
        s'.store.delayed env.queueName = (s.store.delayed env.queueName).zrem id := by
  cases stepped hs with
  | @produce i pc e hi he =>
    left
    cases pc with
    | idle => cases he
    | claim id job key =>
      show e.store.delayed _ = _
      rw [store_of_claim he, Store.delayed_idempotentEnqueue]
    | _ => cases he; rfl
  | @work w draw wk e hw he =>
    obtain ⟨handlers, pc⟩ := wk
    cases pc with
    | poll p =>
      left
      simp only [workerStep] at he
      split at he
      · next jobId st' hpop =>
        cases he
        exact congrFun (Store.delayed_rpoplpush hpop) _
      · cases he
        rfl
    | fetch jobId =>
      left
      simp only [workerStep] at he
      split at he
      · cases he
        rfl
      · split at he <;> cases he <;> rfl
    | zaddDelayed jobId score =>
      cases he
      -- the only command of a worker on the delayed set
      exact .inr (.inl ⟨jobId, score, ⟨w, draw, _, rfl, hw, rfl⟩, by simp⟩)
    | running => cases he
    | crashed => cases he
    | _ => cases he; exact .inl rfl
  | @schedule i pc hi =>
    cases pc with
    | idle => exact .inl rfl
    | lookup jobId rest => exact .inl rfl
    | move jobId priority rest =>
      exact .inr (.inr ⟨jobId, by simp [Config.schedulerTransaction, hi], by simp [schedulerStep]⟩)
  | @watch i pc hi =>
    left
    cases pc with
    | requeue jobId jobHash rest =>
      show (requeueTransaction env s.store jobId jobHash).delayed _ = _
      unfold requeueTransaction
      split <;> rfl
    | _ => rfl
  | @respond i pc e hi he =>
    left
    cases pc with
    | idle => cases he
    | requeue => cases he; rfl
  | _ => exact .inl rfl

end Steps

/-! ## What a pass has still to move -/

/-- A property of an id in a sorted set that the pass's read establishes, that
time does not spoil, and that the removal of another id leaves alone. -/
structure Tracked (D : ZSet JobId → Nat → JobId → Prop) : Prop where
  read : ∀ {z now id}, id ∈ z.zrangebyscore now → D z now id
  later : ∀ {z now now' id}, D z now id → now ≤ now' → D z now' id
  zrem : ∀ {z now id j}, D z now id → id ≠ j → D (z.zrem j) now id

/-- Being in the set. -/
theorem tracked_mem : Tracked fun z _ id => id ∈ z.members where
  read h :=
    have ⟨score, hentry, _⟩ := ZSet.mem_zrangebyscore.mp h
    ZSet.mem_members.mpr ⟨score, hentry⟩
  later h _ := h
  zrem h hne := ZSet.mem_zrem.mpr ⟨h, hne⟩

/-- Being in the set and due. -/
def Due (z : ZSet JobId) (now : Nat) (id : JobId) : Prop := ∃ score ≤ now, (id, score) ∈ z.entries

theorem tracked_due : Tracked Due where
  read h :=
    have ⟨score, hentry, hscore⟩ := ZSet.mem_zrangebyscore.mp h
    ⟨score, hscore, hentry⟩
  later h hle :=
    have ⟨score, hscore, hentry⟩ := h
    ⟨score, hscore.trans hle, hentry⟩
  zrem h hne :=
    have ⟨score, hscore, hentry⟩ := h
    ⟨score, hscore, ZSet.mem_entries_zrem.mpr ⟨hentry, hne⟩⟩

/-- Every id a pass has still to move has the property, and none is listed twice. -/
structure Pending (D : ZSet JobId → Nat → JobId → Prop) (env : Env T) (s : Config T) : Prop where
  tracked : ∀ pc ∈ s.schedulers, ∀ id ∈ pc.pending,
    D (s.store.delayed env.queueName) s.clock id
  nodup : ∀ pc ∈ s.schedulers, pc.pending.Nodup

/-- The job whose entry in the delayed set the step adds or removes. -/
def Config.delayedWrite (s : Config T) (a : Action T) : Option JobId :=
  match a with
  | .work w _ =>
    match s.workers[w]? with
    | some ⟨_, .zaddDelayed jobId _⟩ => some jobId
    | _ => none
  | _ => s.schedulerTransaction a

/-- A release transaction runs only when no other pass has its job still to move. -/
def ReleasesAlone (s : Config T) (a : Action T) : Prop :=
  ∀ id ∈ s.schedulerTransaction a, ∀ pc ∈ s.otherSchedulers a, id ∉ pc.pending

/-- Neither a release transaction nor a `ZADD` runs while another pass has its
job still to move. -/
def DelayedWritesAlone (s : Config T) (a : Action T) : Prop :=
  ∀ id ∈ s.delayedWrite a, ∀ pc ∈ s.otherSchedulers a, id ∉ pc.pending

instance (s : Config T) (a : Action T) : Decidable (DelayedWritesAlone s a) :=
  inferInstanceAs (Decidable (∀ id ∈ s.delayedWrite a, ∀ pc ∈ s.otherSchedulers a, id ∉ pc.pending))

theorem DelayedWritesAlone.releasesAlone {s : Config T} {a : Action T}
    (h : DelayedWritesAlone s a) : ReleasesAlone s a := by
  intro id hid
  cases a with
  | schedule i => exact h id hid
  | _ => cases hid

theorem Config.Works.delayedWrite {s : Config T} {a : Action T} {id : JobId} {score : Nat}
    (h : s.Works a (.zaddDelayed id score)) : s.delayedWrite a = some id := by
  obtain ⟨w, draw, ⟨handlers, pc⟩, rfl, hw, rfl⟩ := h
  simp [Config.delayedWrite, hw]

section Pending

variable {env : Env T} {s s' : Config T} {a : Action T} {D : ZSet JobId → Nat → JobId → Prop}

/-- **One step**: the entries a pass relies on survive the steps of everybody
else, if `ZADD`s do not spoil them and releases are alone with their job. -/
theorem pending_step (hD : Tracked D) (h : Pending D env s) (halone : ReleasesAlone s a)
    (hzadd : ∀ id score, s.Works a (.zaddDelayed id score) → ∀ pc ∈ s.schedulers,
      ∀ j ∈ pc.pending, D ((s.store.delayed env.queueName).zadd score id) s.clock j)
    (hs : step env s a = some s') : Pending D env s' := by
  -- an entry survives unless the step releases its job
  have hkeep : ∀ pc ∈ s.schedulers, ∀ j ∈ pc.pending, s.schedulerTransaction a ≠ some j →
      D (s'.store.delayed env.queueName) s'.clock j := by
    intro pc hpc j hj hne
    refine hD.later ?_ (clock_step hs)
    rcases delayed_step hs with hsame | ⟨id, score, hw, hset⟩ | ⟨id, hid, hset⟩
    · rw [hsame]
      exact h.tracked pc hpc j hj
    · rw [hset]
      exact hzadd id score hw pc hpc j hj
    · rw [hset]
      exact hD.zrem (h.tracked pc hpc j hj) fun heq => hne (heq ▸ hid)
  refine ⟨fun pc' hpc' j hj => ?_, fun pc' hpc' => ?_⟩
  · rcases mem_schedulers_step hs hpc' with hpc' | rfl | ⟨i, pc, rfl, hi, rfl⟩
    · exact hkeep pc' (Config.mem_schedulers_of_mem_others hpc') j hj fun hid => halone j hid pc' hpc' hj
    · cases hj
    · have hpc := List.mem_of_getElem? hi
      cases pc with
      | idle =>
        -- the read: the store is as it was
        cases stepped hs with
        | schedule hi' =>
          obtain rfl := Option.some.inj (hi.symm.trans hi')
          rw [schedulerStep, SchedulerPc.pending_next] at hj
          exact hD.read hj
      | lookup jobId rest =>
        exact hkeep _ hpc j hj (by simp [Config.schedulerTransaction, hi])
      | move jobId priority rest =>
        -- what is left of the pass is about other ids
        rw [schedulerStep, SchedulerPc.pending_next] at hj
        have hne : jobId ≠ j := fun heq => (List.nodup_cons.mp (h.nodup _ hpc)).1 (heq ▸ hj)
        exact hkeep _ hpc j (List.mem_cons_of_mem _ hj) (by simp [Config.schedulerTransaction, hi, hne])
  · rcases mem_schedulers_step hs hpc' with hpc' | rfl | ⟨i, pc, rfl, hi, rfl⟩
    · exact h.nodup pc' (Config.mem_schedulers_of_mem_others hpc')
    · exact List.nodup_nil
    · have hnodup := h.nodup pc (List.mem_of_getElem? hi)
      cases pc with
      | idle =>
        rw [schedulerStep, SchedulerPc.pending_next]
        exact ZSet.nodup_zrangebyscore _ _
      | lookup jobId rest => exact hnodup
      | move jobId priority rest =>
        rw [schedulerStep, SchedulerPc.pending_next]
        exact (List.nodup_cons.mp hnodup).2

theorem pending_init (D : ZSet JobId → Nat → JobId → Prop) (env : Env T) (topology : Topology) :
    Pending D env (init topology : Config T) where
  tracked pc hpc id hid := by
    obtain rfl := List.eq_of_mem_replicate hpc
    cases hid
  nodup pc hpc := by
    obtain rfl := List.eq_of_mem_replicate hpc
    exact List.nodup_nil

end Pending

/-! ## One scheduler -/

section Sole

variable {env : Env T} {s s' : Config T} {a : Action T}

/-- A single pass is alone with every job. -/
theorem otherSchedulers_eq_nil {i : Nat} {pc : SchedulerPc} (hlength : s.schedulers.length ≤ 1)
    (hi : s.schedulers[i]? = some pc) : s.otherSchedulers (.schedule i) = [] := by
  have hlt := (List.getElem?_eq_some_iff.mp hi).1
  refine List.eq_nil_of_length_eq_zero ?_
  rw [Config.otherSchedulers, List.length_eraseIdx_of_lt hlt]
  omega

theorem releasesAlone_of_length (hlength : s.schedulers.length ≤ 1) : ReleasesAlone s a := by
  intro id hid pc hpc
  cases a with
  | schedule i =>
    rw [Option.mem_def, Config.schedulerTransaction] at hid
    split at hid
    · next hi =>
      rw [otherSchedulers_eq_nil hlength hi] at hpc
      cases hpc
    · cases hid
  | _ => cases hid

/-- With one scheduler, the jobs a pass has still to move are in the delayed set. -/
theorem sole_pass_pending {topology : Topology} {ok : Config T → Action T → Prop}
    (hsole : topology.schedulers ≤ 1) (h : Reach (step env) ok (init topology) s) :
    Pending (fun z _ id => id ∈ z.members) env s :=
  h.invariant' (pending_init _ env topology) fun _ _ _ hr hI _ hs =>
    pending_step tracked_mem hI
      (releasesAlone_of_length ((components_run hr).1.symm ▸ hsole))
      (fun _ _ _ pc hpc j hj => ZSet.mem_zadd.mpr (.inr (hI.tracked pc hpc j hj))) hs

end Sole

/-! ## Any number of passes -/

/-- Each `ZADD` accounts for one release or for the entry that is still there. -/
structure Ledger.Filed (L : Ledger) : Prop where
  filed : L.released + L.delayed ≤ L.filed
  delayed : L.delayed ≤ 1

theorem filed_step {L L' : Ledger} {m : Move} (h : L.Filed)
    (hrelease : m = .release → 1 ≤ L.delayed) (hs : L.Steps m L') : L'.Filed := by
  obtain ⟨-, rfl⟩ := hs
  obtain ⟨hfiled, hdelayed⟩ := h
  cases m with
  | die phase => cases phase <;> exact ⟨hfiled, hdelayed⟩
  | delay =>
    refine ⟨?_, Nat.le_refl 1⟩
    simp only [Ledger.apply]
    omega
  | release =>
    have := hrelease rfl
    refine ⟨?_, Nat.zero_le 1⟩
    simp only [Ledger.apply]
    omega
  | _ => exact ⟨hfiled, hdelayed⟩

section Runs

variable {env : Env T} {topology : Topology} {s : Config T}

theorem due_run (h : Reach (step env) DelayedWritesAlone (init topology) s) : Pending Due env s :=
  h.invariant (pending_init _ env topology) fun s a s' hI hok hs => by
    refine pending_step tracked_due hI hok.releasesAlone (fun id score hw pc hpc j hj => ?_) hs
    obtain ⟨due, hdue, hentry⟩ := hI.tracked pc hpc j hj
    -- a `ZADD` for the same id could move the score past the clock
    have hne : j ≠ id := by
      rintro rfl
      have hd := hw.delayedWrite
      obtain ⟨w, draw, wk, rfl, -, -⟩ := hw
      exact hok j hd pc hpc hj
    exact ⟨due, hdue, ZSet.mem_entries_zadd.mpr (.inr ⟨hentry, hne⟩)⟩

/-- The job of a release transaction is one its pass has still to move. -/
theorem pending_of_schedulerTransaction {a : Action T} {id : JobId}
    (h : s.schedulerTransaction a = some id) : ∃ pc ∈ s.schedulers, id ∈ pc.pending := by
  cases a with
  | schedule i =>
    rw [Config.schedulerTransaction] at h
    split at h
    · next jobId priority rest hi =>
      cases h
      exact ⟨_, List.mem_of_getElem? hi, List.mem_cons_self⟩
    · cases h
  | _ => cases h

/-- **Released once, never early.** In every run in which no release transaction
and no `ZADD` hits a job that another pass has still to move, every release
transaction finds its job in the delayed set with a score the clock has reached,
and every `ZADD` is followed by at most one release. -/
theorem released_once_due (h : Reach (step env) DelayedWritesAlone (init topology) s) :
    (∀ a id, s.schedulerTransaction a = some id →
      Due (s.store.delayed env.queueName) s.clock id) ∧
    ∀ id, s.log.count (.released id) + (s.store.delayed env.queueName).members.count id ≤
      s.log.count (.delayed id) := by
  have hdue : ∀ {t : Config T}, Reach (step env) DelayedWritesAlone (init topology) t →
      ∀ a id, t.schedulerTransaction a = some id →
        Due (t.store.delayed env.queueName) t.clock id := by
    intro t ht a id hid
    obtain ⟨pc, hpc, hmem⟩ := pending_of_schedulerTransaction hid
    exact (due_run ht).tracked pc hpc id hmem
  refine ⟨hdue h, fun id => ?_⟩
  refine (ledger_run h id (fun L m => m = .release → 1 ≤ L.delayed) Ledger.Filed ?_
    ⟨Nat.le_refl 0, Nat.zero_le 1⟩ fun L L' m hL hm hs => filed_step hL hm hs).filed
  rintro t a m ht - hlic rfl
  obtain ⟨score, -, hentry⟩ := hdue ht a id hlic.schedulerTransaction
  exact List.count_pos_iff.mpr (ZSet.mem_members.mpr ⟨score, hentry⟩)

end Runs

/-- A run to the failure of the first attempt, and past its backoff. -/
def failOnce : List (Action Unit) :=
  [.enqueue 0 "a" (.core "mail" () .absent none), .produce 0, .produce 0,
    .work 0 0, .work 0 0, .work 0 0, .work 0 0, .work 0 0, .work 0 0, .settle 0 .reject,
    .work 0 0, .work 0 0, .work 0 0, .work 0 0, .tick 2000]

/-- Two passes that follow one another release the job once, when it is due. -/
theorem released_once_due_two_passes :
    ∃ s : Config Unit, .released "a" ∈ s.log ∧
      s.log.count (.released "a") + (s.store.delayed "main_queue").members.count "a" ≤
        s.log.count (.delayed "a") := by
  obtain ⟨s, hs, hreleased⟩ :=
    exists_reach_of_run (step mainQueue) DelayedWritesAlone
      (init ⟨1, [["mail"]], 2, 0, 0⟩) (fun s => .released "a" ∈ s.log)
      (failOnce ++ [.schedule 0, .schedule 0, .schedule 0, .schedule 1])
      (by decide +kernel)
  exact ⟨s, hreleased, (released_once_due hs).2 "a"⟩

/-- **Overlapping passes release twice.** Both have read the entry before the
first one moves it; the second pushes the job although it has left the delayed
set, and this is the second push after one `ZADD`: neither half of
`released_once_due` holds. -/
theorem overlapping_passes_release_twice :
    ¬ ∀ s s' : Config Unit, ∀ a id,
      Reach (step mainQueue) (fun _ _ => True) (init ⟨1, [["mail"]], 2, 0, 0⟩) s →
        s.schedulerTransaction a = some id → step mainQueue s a = some s' →
          Due (s.store.delayed "main_queue") s.clock id ∨
            s'.log.count (.released id) ≤ s'.log.count (.delayed id) := by
  intro h
  obtain ⟨s, hs, htx, hgone, hstep⟩ :=
    exists_reach_of_run (step mainQueue) (fun _ _ => True)
      (init ⟨1, [["mail"]], 2, 0, 0⟩)
      (fun s => s.schedulerTransaction (.schedule 1) = some "a" ∧
        "a" ∉ (s.store.delayed "main_queue").members ∧
        ((step mainQueue s (.schedule 1)).any fun s' =>
          decide (s'.log.count (.delayed "a") < s'.log.count (.released "a"))) = true)
      (failOnce ++ [.schedule 0, .schedule 1, .schedule 0, .schedule 0, .schedule 1])
      (by decide +kernel)
  obtain ⟨s', hs', hcount⟩ := (Option.any_eq_true _ _).mp hstep
  rcases h s s' _ _ hs htx hs' with ⟨score, -, hentry⟩ | hle
  · exact hgone (ZSet.mem_members.mpr ⟨score, hentry⟩)
  · exact absurd hle (Nat.not_le.mpr (of_decide_eq_true hcount))

end DistriSys
