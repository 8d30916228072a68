import DistriSys.Protocol.Refinement

/-!
# Recovery of stalled dispatches

A dispatch leaves an entry on the processing list and one in the active-jobs
hash. A watchdog pass collects ids from both, and its transaction pushes
whether or not an entry is still there. It finds one as long as nobody removes
the last entry of a job that another pass has listed:

- `entries_step`: who adds and who removes entries;
- `listing_run`: under `EntryLeft`, every job a pass has listed has an entry;
- **`stalled_dispatch_recovered_once`**: then every requeue removes an entry, and
  requeues and entries together never exceed the entries that were made;
- `second_watchdog_requeues_again`: without it, two passes requeue one dispatch.

How many entries there are is a sum over both collections (`Store.entries`), so that a dispatch
that has not registered yet counts as well. `EntryLeft` is a condition on the state before the
step: whoever removes the entry of a job that another component's pass has listed leaves a copy
on the processing list. With one watchdog it concerns the clean-ups of workers alone.
-/

namespace DistriSys

open Js Redis Transition

variable {T : Type}

/-- The entries of a job: its copies on the processing list, and its field in
the active-jobs hash. -/
def Store.entries (st : Store) (queue : QueueName) (id : JobId) : Nat :=
  (st.lists (.processingList queue)).count id + if id ∈ (st.activeJobs queue).keys then 1 else 0

theorem Store.entries_pos {st : Store} {queue : QueueName} {id : JobId} :
    1 ≤ st.entries queue id ↔
      id ∈ st.lists (.processingList queue) ∨ id ∈ (st.activeJobs queue).keys := by
  rw [← List.count_pos_iff, entries]
  split
  · next h => exact ⟨fun _ => .inr h, fun _ => Nat.le_add_left 1 _⟩
  · next h => exact ⟨fun hpos => .inl hpos, fun hpos => hpos.resolve_right h⟩

/-- The job of which the step removes entries: a clean-up or a watchdog's transaction. -/
def Config.entryRemoval (s : Config T) (a : Action T) : Option JobId :=
  match a with
  | .work w _ =>
    match s.workers[w]? with
    | some ⟨_, .cleanup jobId⟩ => some jobId
    | _ => none
  | _ => s.watchdogTransaction a

/-! ## Who changes the entries -/

/-- What a step does to the entries of a queue. -/
inductive EntriesMoved (env : Env T) (s : Config T) (a : Action T) (s' : Config T) : Prop
  | none (hremoval : s.entryRemoval a = none)
      (hprocessing : s'.store.lists (.processingList env.queueName) =
        s.store.lists (.processingList env.queueName))
      (hactive : s'.store.activeJobs env.queueName = s.store.activeJobs env.queueName)
  | dequeued (hremoval : s.entryRemoval a = none) (id : JobId)
      (hprocessing : s'.store.lists (.processingList env.queueName) =
        id :: s.store.lists (.processingList env.queueName))
      (hactive : s'.store.activeJobs env.queueName = s.store.activeJobs env.queueName)
      (hlog : s'.log = s.log ++ [.dequeued id])
  | registered (hremoval : s.entryRemoval a = none) (id : JobId) (entry : ActiveJobEntry)
      (hprocessing : s'.store.lists (.processingList env.queueName) =
        s.store.lists (.processingList env.queueName))
      (hactive : s'.store.activeJobs env.queueName =
        (s.store.activeJobs env.queueName).hset id entry)
      (hlog : s'.log = s.log ++ [.registered id])
  | removed (id : JobId) (hremoval : s.entryRemoval a = some id)
      (hprocessing : s'.store.lists (.processingList env.queueName) =
        lrem 1 id (s.store.lists (.processingList env.queueName)))
      (hactive : s'.store.activeJobs env.queueName = (s.store.activeJobs env.queueName).hdel id)

section Steps

variable {env : Env T} {s s' : Config T} {a : Action T}

theorem entries_rpoplpush {st st' : Store} {queue : QueueName} {priority : String} {id : JobId}
    (h : st.rpoplpush (.waitingList queue priority) (.processingList queue) = some (id, st')) :
    st'.lists (.processingList queue) = id :: st.lists (.processingList queue) ∧
      st'.activeJobs queue = st.activeJobs queue := by
  obtain ⟨rest, -, rfl⟩ := Store.rpoplpush_eq_some h
  exact ⟨by simp, rfl⟩

theorem entries_step (hs : step env s a = some s') : EntriesMoved env s a s' := by
  cases stepped hs with
  | @produce i pc e hi he =>
    cases pc with
    | idle => cases he
    | claim id job key =>
      have hstore := store_of_claim he
      unfold Store.idempotentEnqueue at hstore
      split at hstore <;> refine .none rfl ?_ ?_ <;> simp [hstore]
    | save => cases he; exact .none rfl rfl rfl
    -- pushes are to other lists
    | push => cases he; exact .none rfl (by simp) rfl
    | discard => cases he; exact .none rfl rfl rfl
  | @work w draw wk e hw he =>
    obtain ⟨handlers, pc⟩ := wk
    -- of a worker's commands only the clean-up removes an entry
    have hnot : ∀ {pc'}, s.workers[w]? = some ⟨handlers, pc'⟩ → (∀ id, pc' ≠ .cleanup id) →
        s.entryRemoval (.work w draw) = none := by
      intro pc' hw' hne
      simp only [Config.entryRemoval, hw']
      split
      · next heq =>
        cases heq
        exact absurd rfl (hne _)
      · rfl
    cases pc with
    | poll p =>
      simp only [workerStep] at he
      split at he
      · next jobId st' hpop =>
        cases he
        obtain ⟨hprocessing, hactive⟩ := entries_rpoplpush hpop
        exact .dequeued (hnot hw (by rintro _ ⟨⟩)) jobId hprocessing hactive rfl
      · cases he
        exact .none (hnot hw (by rintro _ ⟨⟩)) rfl rfl
    | fetch jobId =>
      simp only [workerStep] at he
      split at he
      · cases he
        exact .none (hnot hw (by rintro _ ⟨⟩)) rfl rfl
      · split at he <;> cases he <;> exact .none (hnot hw (by rintro _ ⟨⟩)) rfl rfl
    | register jobId job startedAt =>
      cases he
      exact .registered (hnot hw (by rintro _ ⟨⟩)) jobId ⟨w + 1, startedAt, env.config.maxDelayMs⟩ rfl
        (by simp) rfl
    | lpushDead jobId =>
      cases he
      exact .none (hnot hw (by rintro _ ⟨⟩)) (by simp) rfl
    | cleanup jobId =>
      cases he
      exact .removed jobId (by simp [Config.entryRemoval, hw]) (by simp) (by simp)
    | running => cases he
    | crashed => cases he
    | _ =>
      cases he
      exact .none (hnot hw (by rintro _ ⟨⟩)) rfl rfl
  | @schedule i pc hi =>
    cases pc with
    | idle => exact .none rfl rfl rfl
    | lookup => exact .none rfl rfl rfl
    | move => exact .none rfl (by simp [schedulerStep]) rfl
  | @watch i pc hi =>
    cases pc with
    | requeue jobId jobHash rest =>
      obtain ⟨hprocessing, hactive⟩ := entries_requeueTransaction env s.store jobId jobHash
      exact .removed jobId (by simp [Config.entryRemoval, Config.watchdogTransaction, hi])
        hprocessing hactive
    | _ =>
      exact .none (by simp [Config.entryRemoval, Config.watchdogTransaction, hi]) rfl rfl
  | @respond i pc e hi he =>
    cases pc with
    | idle => cases he
    | requeue => cases he; exact .none rfl (by simp) rfl
  | _ => exact .none rfl rfl rfl

/-- An entry is left unless the step removes the job's entries and finds one copy at most. -/
theorem entries_kept (hs : step env s a = some s') {id : JobId}
    (hid : 1 ≤ s.store.entries env.queueName id)
    (hleft : s.entryRemoval a = some id →
      2 ≤ (s.store.lists (.processingList env.queueName)).count id) :
    1 ≤ s'.store.entries env.queueName id := by
  cases entries_step hs with
  | none hremoval hprocessing hactive =>
    rwa [Store.entries, hprocessing, hactive]
  | dequeued hremoval j hprocessing hactive hlog =>
    rw [Store.entries, hprocessing, hactive, List.count_cons]
    rw [Store.entries] at hid
    omega
  | registered hremoval j entry hprocessing hactive hlog =>
    rw [Store.entries_pos] at hid ⊢
    rw [hprocessing, hactive]
    exact hid.imp_right fun h => Hash.mem_keys_hset.mpr (.inr h)
  | removed j hremoval hprocessing hactive =>
    rw [Store.entries_pos] at hid ⊢
    rw [hprocessing, hactive, ← List.count_pos_iff, count_lrem_one, Hash.mem_keys_hdel]
    by_cases hj : j = id
    · -- the hash entry goes, and one copy of two
      subst hj
      have := hleft hremoval
      left
      rw [if_pos rfl]
      omega
    · rw [if_neg hj]
      exact hid.imp List.count_pos_iff.mpr fun h => ⟨h, Ne.symm hj⟩

/-- A removal takes one entry at least, if there is one. -/
theorem entries_removed (hs : step env s a = some s') {id : JobId}
    (hremoval : s.entryRemoval a = some id) (hid : 1 ≤ s.store.entries env.queueName id) :
    (s'.store.lists (.processingList env.queueName)).count id <
        (s.store.lists (.processingList env.queueName)).count id ∨
      id ∈ (s.store.activeJobs env.queueName).keys ∧
        id ∉ (s'.store.activeJobs env.queueName).keys := by
  cases entries_step hs with
  | removed j hremoval' hprocessing hactive =>
    obtain rfl := Option.some.inj (hremoval.symm.trans hremoval')
    rw [hprocessing, hactive, count_lrem_one, if_pos rfl]
    rcases Store.entries_pos.mp hid with hlisted | hkey
    · have := List.count_pos_iff.mpr hlisted
      omega
    · exact .inr ⟨hkey, fun h => (Hash.mem_keys_hdel.mp h).2 rfl⟩
  | none hnone => cases hnone.symm.trans hremoval
  | dequeued hnone => cases hnone.symm.trans hremoval
  | registered hnone => cases hnone.symm.trans hremoval

end Steps

/-! ## What the passes have listed -/

/-- A step removes entries of a job that another pass has listed only if one is left. -/
def EntryLeft (env : Env T) (s : Config T) (a : Action T) : Prop :=
  ∀ id ∈ s.entryRemoval a, ∀ pc ∈ s.otherWatchdogs a, id ∈ pc.pending →
    2 ≤ (s.store.lists (.processingList env.queueName)).count id

instance (env : Env T) (s : Config T) (a : Action T) : Decidable (EntryLeft env s a) :=
  inferInstanceAs (Decidable (∀ id ∈ s.entryRemoval a, ∀ pc ∈ s.otherWatchdogs a,
    id ∈ pc.pending → 2 ≤ (s.store.lists (.processingList env.queueName)).count id))

/-- Every job a pass has still to deal with has an entry, and is listed once. -/
structure Listing (env : Env T) (s : Config T) : Prop where
  listed : ∀ pc ∈ s.watchdogs, ∀ id ∈ pc.pending, 1 ≤ s.store.entries env.queueName id
  nodup : ∀ pc ∈ s.watchdogs, pc.pending.Nodup

section Runs

variable {env : Env T} {topology : Topology} {s s' : Config T} {a : Action T} {id : JobId}

theorem Config.watchdogTransaction_entryRemoval (h : s.watchdogTransaction a = some id) :
    s.entryRemoval a = some id := by
  cases a with
  | watch i => exact h
  | _ => cases h

theorem listing_init (env : Env T) (topology : Topology) :
    Listing env (init topology : Config T) where
  listed pc hpc id hid := by
    obtain rfl := List.eq_of_mem_replicate hpc
    cases hid
  nodup pc hpc := by
    obtain rfl := List.eq_of_mem_replicate hpc
    exact List.nodup_nil

theorem listing_step (h : Listing env s) (hok : EntryLeft env s a) (hs : step env s a = some s') :
    Listing env s' := by
  refine ⟨fun pc' hpc' id hid => ?_, fun pc' hpc' => ?_⟩
  · rcases mem_watchdogs_step hs hpc' with hother | rfl | ⟨i, pc, rfl, hi, rfl⟩
    · exact entries_kept hs (h.listed pc' (Config.mem_watchdogs_of_mem_others hother) id hid)
        fun hremoval => hok id hremoval pc' hother hid
    · cases hid
    · have hpc := List.mem_of_getElem? hi
      -- a read removes nothing
      have hread : s.watchdogTransaction (.watch i) = none →
          1 ≤ s.store.entries env.queueName id → 1 ≤ s'.store.entries env.queueName id :=
        fun htx hid => entries_kept hs hid fun hremoval => by
          cases htx.symm.trans hremoval
      cases pc with
      | idle =>
        exact hread (by simp [Config.watchdogTransaction, hi]) (Store.entries_pos.mpr (.inr hid))
      | readProcessing activeIds =>
        refine hread (by simp [Config.watchdogTransaction, hi]) ?_
        simp only [watchdogStep] at hid
        split at hid
        · cases hid
        · rcases List.mem_append.mp (mem_distinct.mp hid) with hid | hid
          · exact h.listed _ hpc id hid
          · exact Store.entries_pos.mpr (.inl hid)
      | readHeartbeats jobIds =>
        refine hread (by simp [Config.watchdogTransaction, hi]) (h.listed _ hpc id ?_)
        rw [watchdogStep, WatchdogPc.pending_next] at hid
        exact (List.mem_filter.mp hid).1
      | inspect jobId rest =>
        exact hread (by simp [Config.watchdogTransaction, hi]) (h.listed _ hpc id hid)
      | requeue jobId jobHash rest =>
        rw [watchdogStep, WatchdogPc.pending_next] at hid
        refine entries_kept hs (h.listed _ hpc id (List.mem_cons_of_mem _ hid)) fun hremoval => ?_
        -- the ids of a pass are distinct
        have hjob : s.watchdogTransaction (.watch i) = some jobId := by
          simp [Config.watchdogTransaction, hi]
        obtain rfl : jobId = id := Option.some.inj (hjob.symm.trans hremoval)
        exact absurd hid (List.nodup_cons.mp (h.nodup _ hpc)).1
  · rcases mem_watchdogs_step hs hpc' with hother | rfl | ⟨i, pc, rfl, hi, rfl⟩
    · exact h.nodup pc' (Config.mem_watchdogs_of_mem_others hother)
    · exact List.nodup_nil
    · have hnodup := h.nodup pc (List.mem_of_getElem? hi)
      cases pc with
      | idle => exact Hash.nodup_keys _
      | readProcessing activeIds =>
        simp only [watchdogStep]
        split
        · exact List.nodup_nil
        · exact nodup_distinct _
      | readHeartbeats jobIds =>
        rw [watchdogStep, WatchdogPc.pending_next]
        exact List.Nodup.filter _ hnodup
      | inspect jobId rest => exact hnodup
      | requeue jobId jobHash rest =>
        rw [watchdogStep, WatchdogPc.pending_next]
        exact (List.nodup_cons.mp hnodup).2

theorem listing_run (h : Reach (step env) (EntryLeft env) (init topology) s) : Listing env s :=
  h.invariant (listing_init env topology) fun _ _ _ hI hok hs => listing_step hI hok hs

/-- The transaction of a pass is about a job the pass has listed. -/
theorem Listing.transaction (h : Listing env s) (hid : s.watchdogTransaction a = some id) :
    1 ≤ s.store.entries env.queueName id := by
  cases a with
  | watch i =>
    rw [Config.watchdogTransaction] at hid
    split at hid
    · next jobId jobHash rest hi =>
      cases hid
      exact h.listed _ (List.mem_of_getElem? hi) _ List.mem_cons_self
    · cases hid
  | _ => cases hid

/-- Requeues and entries, against the entries that were ever made. -/
def Spent (env : Env T) (s : Config T) (id : JobId) : Prop :=
  s.log.count (.requeued id) + s.store.entries env.queueName id ≤
    s.log.count (.dequeued id) + s.log.count (.registered id)

theorem spent_init (topology : Topology) : Spent env (init topology : Config T) id := by
  show _ + Store.entries .empty env.queueName id ≤ _
  simp [Store.entries, Store.empty, init]

/-- Only a watchdog's transaction requeues. -/
theorem requeued_step (hI : Integrity env s) (hs : step env s a = some s') (id : JobId) :
    s'.log.count (.requeued id) = s.log.count (.requeued id) ∨
      s.watchdogTransaction a = some id ∧
        s'.log.count (.requeued id) = s.log.count (.requeued id) + 1 := by
  obtain ⟨mv, hlic, -, hL⟩ := step_refines hI hs id
  show (ledger env s' id).requeued = (ledger env s id).requeued ∨
    _ ∧ (ledger env s' id).requeued = (ledger env s id).requeued + 1
  rw [hL]
  cases mv with
  | requeue attempts => exact .inr ⟨hlic.watchdogTransaction, rfl⟩
  | die phase => cases phase <;> exact .inl rfl
  | _ => exact .inl rfl

theorem spent_step (hI : Integrity env s) (hlisting : Listing env s) (h : Spent env s id)
    (hs : step env s a = some s') : Spent env s' id := by
  have hgrows : ∀ event : Event, s.log.count event ≤ s'.log.count event :=
    fun event => (log_step hs).sublist.count_le event
  have hdequeued := hgrows (.dequeued id)
  have hregistered := hgrows (.registered id)
  have hrequeued := requeued_step hI hs id
  -- a requeue is a removal
  have hfree : s.entryRemoval a = none →
      s'.log.count (.requeued id) = s.log.count (.requeued id) := fun hnone =>
    hrequeued.resolve_right fun ⟨htx, _⟩ => by
      cases hnone.symm.trans (Config.watchdogTransaction_entryRemoval htx)
  simp only [Spent] at h ⊢
  cases entries_step hs with
  | none hremoval hprocessing hactive =>
    have hsame : s'.store.entries env.queueName id = s.store.entries env.queueName id := by
      rw [Store.entries, hprocessing, hactive, ← Store.entries]
    have := hfree hremoval
    omega
  | dequeued hremoval j hprocessing hactive hlog =>
    have hmore : s'.store.entries env.queueName id =
        s.store.entries env.queueName id + if j = id then 1 else 0 := by
      rw [Store.entries, hprocessing, hactive, List.count_cons, Store.entries]
      simp only [beq_iff_eq]
      omega
    have hcount : s'.log.count (.dequeued id) =
        s.log.count (.dequeued id) + if j = id then 1 else 0 := by
      rw [hlog, List.count_append, List.count_singleton]
      simp
    have := hfree hremoval
    omega
  | registered hremoval j entry hprocessing hactive hlog =>
    have hmore : s'.store.entries env.queueName id ≤
        s.store.entries env.queueName id + if j = id then 1 else 0 := by
      rw [Store.entries, hprocessing, hactive, Store.entries]
      simp only [Hash.mem_keys_hset]
      split_ifs <;> first | omega | (exfalso; tauto)
    have hcount : s'.log.count (.registered id) =
        s.log.count (.registered id) + if j = id then 1 else 0 := by
      rw [hlog, List.count_append, List.count_singleton]
      simp
    have := hfree hremoval
    omega
  | removed j hremoval hprocessing hactive =>
    have hless : s'.store.entries env.queueName id ≤ s.store.entries env.queueName id := by
      rw [Store.entries, hprocessing, hactive, count_lrem_one, Store.entries]
      simp only [Hash.mem_keys_hdel]
      split_ifs <;> first | omega | (exfalso; tauto)
    rcases hrequeued with hsame | ⟨htx, hone⟩
    · omega
    · -- the pass has listed the job, so the removal finds an entry
      have hstrict : s'.store.entries env.queueName id < s.store.entries env.queueName id := by
        have hid := Config.watchdogTransaction_entryRemoval htx
        obtain rfl := Option.some.inj (hremoval.symm.trans hid)
        have hgone : j ∉ ((s.store.activeJobs env.queueName).hdel j).keys :=
          fun h => (Hash.mem_keys_hdel.mp h).2 rfl
        have hpos := hlisting.transaction htx
        rw [Store.entries] at hpos ⊢
        rw [Store.entries, hprocessing, hactive, count_lrem_one, if_pos rfl, if_neg hgone]
        omega
      omega

/-- **A stalled dispatch is recovered once.** In every run in which no step
removes the last entry of a job that another pass has listed, every watchdog
transaction takes its job off the processing list or out of the active-jobs
hash, and a job is requeued at most as often as entries of it were made. -/
theorem stalled_dispatch_recovered_once (h : Reach (step env) (EntryLeft env) (init topology) s) :
    (∀ a s' id, s.watchdogTransaction a = some id → step env s a = some s' →
      (s'.store.lists (.processingList env.queueName)).count id <
          (s.store.lists (.processingList env.queueName)).count id ∨
        id ∈ (s.store.activeJobs env.queueName).keys ∧
          id ∉ (s'.store.activeJobs env.queueName).keys) ∧
    ∀ id, s.log.count (.requeued id) + s.store.entries env.queueName id ≤
      s.log.count (.dequeued id) + s.log.count (.registered id) := by
  refine ⟨fun a s' id hid hs => ?_, fun id => ?_⟩
  · exact entries_removed hs (Config.watchdogTransaction_entryRemoval hid)
      ((listing_run h).transaction hid)
  · exact h.invariant' (I := fun s => Spent env s id) (spent_init topology)
      fun _ _ _ hr hI _ hs => spent_step (integrity_run hr) (listing_run hr) hI hs

end Runs

/-- A worker dies right after taking a job. -/
def dieOnce : List (Action Unit) :=
  [.enqueue 0 "a" (.core "mail" () .absent none), .produce 0, .produce 0,
    .work 0 0, .work 0 0, .crash (.worker 0)]

/-- Of two passes that follow one another, the first recovers the dispatch. -/
theorem stalled_dispatch_recovered_once_two_passes :
    ∃ s : Config Unit, .requeued "a" ∈ s.log ∧
      s.log.count (.requeued "a") + s.store.entries "main_queue" "a" ≤
        s.log.count (.dequeued "a") + s.log.count (.registered "a") := by
  obtain ⟨s, hs, hrequeued⟩ :=
    exists_reach_of_run (step mainQueue) (EntryLeft mainQueue) (init ⟨1, [["mail"]], 0, 2, 0⟩)
      (fun s => .requeued "a" ∈ s.log)
      (dieOnce ++ [.watch 0, .watch 0, .watch 0, .watch 0, .watch 0, .watch 1, .watch 1])
      (by decide +kernel)
  exact ⟨s, hrequeued, (stalled_dispatch_recovered_once hs).2 "a"⟩

/-- **Overlapping passes requeue twice.** Both have listed the dispatch of a dead
worker before the first one requeues it; the transaction of the second removes
nothing, and makes a second copy of one entry: neither half of
`stalled_dispatch_recovered_once` holds. -/
theorem second_watchdog_requeues_again :
    ¬ ∀ s s' : Config Unit, ∀ a id,
      Reach (step mainQueue) (fun _ _ => True) (init ⟨1, [["mail"]], 0, 2, 0⟩) s →
        s.watchdogTransaction a = some id → step mainQueue s a = some s' →
          id ∈ s.store.lists (.processingList "main_queue") ∨
            id ∈ (s.store.activeJobs "main_queue").keys ∨
            s'.log.count (.requeued id) ≤
              s'.log.count (.dequeued id) + s'.log.count (.registered id) := by
  intro h
  obtain ⟨s, hs, htx, hprocessing, hactive, hstep⟩ :=
    exists_reach_of_run (step mainQueue) (fun _ _ => True) (init ⟨1, [["mail"]], 0, 2, 0⟩)
      (fun s => s.watchdogTransaction (.watch 1) = some "a" ∧
        "a" ∉ s.store.lists (.processingList "main_queue") ∧
        "a" ∉ (s.store.activeJobs "main_queue").keys ∧
        ((step mainQueue s (.watch 1)).any fun s' =>
          decide (s'.log.count (.dequeued "a") + s'.log.count (.registered "a") <
            s'.log.count (.requeued "a"))) = true)
      (dieOnce ++ [.watch 0, .watch 0, .watch 0, .watch 0, .watch 1, .watch 1, .watch 1, .watch 1,
        .watch 0])
      (by decide +kernel)
  obtain ⟨s', hs', hcount⟩ := (Option.any_eq_true _ _).mp hstep
  rcases h s s' _ _ hs htx hs' with hlisted | hkey | hle
  · exact hprocessing hlisted
  · exact hactive hkey
  · exact absurd hle (Nat.not_le.mpr (of_decide_eq_true hcount))

end DistriSys
