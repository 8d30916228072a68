import DistriSys.Core.Keys
import Mathlib.Data.String.Basic

/-!
# Redis keys never collide

A key starts with one of eight words, and none of them is the beginning of another
(`prefixFree_families`); the four kinds of keys that start with `queue:` end in one of
six words, none of which is the end of another (`suffixFree_suffixes`). So the name
of a key gives back its builder and the arguments, whatever characters these hold:
**`redis_keys_injective`**.

The argument is about strings put together from a fixed word and an arbitrary rest: if no
known word is the beginning of another (`PrefixFree`), the word and the rest are determined by
the whole (`PrefixFree.append_inj`), and so for known words at the end (`SuffixFree`). Both
properties of a list of words are decidable.

That is what lets `Store` keep its keys apart by construction. A waiting list there
is addressed by any string as its priority, since some callers take it from a
record; `ListKey.name_inj` is the statement for the three priorities there are.
-/

/-! ## Strings put together from a fixed word and an arbitrary rest -/

namespace DistriSys.Text

/-- No word is a proper beginning of another. -/
def PrefixFree (words : List String) : Prop :=
  ∀ p ∈ words, ∀ q ∈ words, p.toList <+: q.toList → p = q

/-- No word is a proper end of another. -/
def SuffixFree (words : List String) : Prop :=
  ∀ p ∈ words, ∀ q ∈ words, p.toList <:+ q.toList → p = q

instance (words : List String) : Decidable (PrefixFree words) := by
  unfold PrefixFree
  infer_instance

instance (words : List String) : Decidable (SuffixFree words) := by
  unfold SuffixFree
  infer_instance

variable {words : List String} {p q s t : String}

/-- The word in front and the rest are determined by the whole. -/
theorem PrefixFree.append_inj (hwords : PrefixFree words) (hp : p ∈ words) (hq : q ∈ words)
    (h : p ++ s = q ++ t) : p = q ∧ s = t := by
  have hlist : p.toList ++ s.toList = q.toList ++ t.toList := by
    rw [← String.toList_append, ← String.toList_append, h]
  have hpre : p.toList <+: q.toList ++ t.toList := hlist ▸ List.prefix_append _ _
  have hpq : p = q := by
    rcases List.prefix_or_prefix_of_prefix hpre (List.prefix_append _ _) with hle | hle
    · exact hwords p hp q hq hle
    · exact (hwords q hq p hp hle).symm
  subst hpq
  exact ⟨rfl, String.toList_inj.mp (List.append_cancel_left hlist)⟩

/-- The word at the end and what comes before it are determined by the whole. -/
theorem SuffixFree.append_inj (hwords : SuffixFree words) (hp : p ∈ words) (hq : q ∈ words)
    (h : s ++ p = t ++ q) : s = t ∧ p = q := by
  have hlist : s.toList ++ p.toList = t.toList ++ q.toList := by
    rw [← String.toList_append, ← String.toList_append, h]
  have hsuf : p.toList <:+ t.toList ++ q.toList := hlist ▸ List.suffix_append _ _
  have hpq : p = q := by
    rcases List.suffix_or_suffix_of_suffix hsuf (List.suffix_append _ _) with hle | hle
    · exact hwords p hp q hq hle
    · exact (hwords q hq p hp hle).symm
  subst hpq
  exact ⟨String.toList_inj.mp (List.append_cancel_right hlist), rfl⟩

end DistriSys.Text

/-! ## Keys -/

namespace DistriSys

open Text

namespace RedisKey

/-- The word a key starts with. The counters have no arguments. -/
def family : RedisKey → String
  | jobHash _ => "job:"
  | waitingList _ _ => "queue:"
  | processingList _ => "queue:"
  | delayedSet _ => "queue:"
  | deadList _ => "queue:"
  | activeJobsHash _ => "active_jobs:"
  | heartbeat _ => "heartbeat:"
  | idempotency _ => "idempotency:"
  | jobsProcessedTotal => "jobs_processed_total"
  | jobsFailedTotal => "jobs_failed_total"
  | processingTimeSum => "processing_time_sum_ms"

/-- The argument that stands as it is in the middle of a key. -/
def argument : RedisKey → String
  | jobHash id => id
  | waitingList queue _ => queue
  | processingList queue => queue
  | delayedSet queue => queue
  | deadList queue => queue
  | activeJobsHash queue => queue
  | heartbeat id => id
  | idempotency key => key
  | _ => ""

/-- The word a key of a queue ends in. -/
def suffix : RedisKey → String
  | waitingList _ priority => ":waiting:" ++ priority.name
  | processingList _ => ":processing"
  | delayedSet _ => ":delayed"
  | deadList _ => ":dead"
  | _ => ""

/-- Every key is made of a family, an argument and a suffix. -/
theorem name_eq (k : RedisKey) : k.name = k.family ++ (k.argument ++ k.suffix) := by
  cases k with
  | waitingList queue priority =>
    show "queue:" ++ queue ++ ":waiting:" ++ priority.name = _
    rw [String.append_assoc, String.append_assoc]
    rfl
  | processingList queue => exact String.append_assoc
  | delayedSet queue => exact String.append_assoc
  | deadList queue => exact String.append_assoc
  | _ => simp [name, family, argument, suffix, RedisKeys.jobHash, RedisKeys.activeJobsHash,
      RedisKeys.heartbeat, idempotencyRedisKey, RedisKeys.jobsProcessedTotal,
      RedisKeys.jobsFailedTotal, RedisKeys.processingTimeSum]

/-- What the keys of each kind begin with. -/
def families : List String :=
  ["job:", "queue:", "active_jobs:", "heartbeat:", "idempotency:", "jobs_processed_total",
    "jobs_failed_total", "processing_time_sum_ms"]

/-- What the keys of a queue end with. -/
def suffixes : List String :=
  [":waiting:high", ":waiting:normal", ":waiting:low", ":processing", ":delayed", ":dead"]

/-- No family is the beginning of another. -/
theorem prefixFree_families : PrefixFree families := by
  decide

/-- No suffix is the end of another. -/
theorem suffixFree_suffixes : SuffixFree suffixes := by
  decide

theorem family_mem (k : RedisKey) : k.family ∈ families := by
  cases k <;> simp [family, families]

theorem suffix_mem {k : RedisKey} (h : k.family = "queue:") : k.suffix ∈ suffixes := by
  cases k with
  | waitingList queue priority =>
    show ":waiting:" ++ priority.name ∈ suffixes
    cases priority <;> decide
  | _ => simp_all [family, suffix, suffixes]

theorem suffix_eq_empty {k : RedisKey} (h : k.family ≠ "queue:") : k.suffix = "" := by
  cases k <;> first | rfl | exact absurd rfl h

/-- The key with these parts. -/
def ofParts (family argument suffix : String) : Option RedisKey :=
  if family = "job:" then some (.jobHash argument)
  else if family = "queue:" then
    if suffix = ":waiting:high" then some (.waitingList argument .high)
    else if suffix = ":waiting:normal" then some (.waitingList argument .normal)
    else if suffix = ":waiting:low" then some (.waitingList argument .low)
    else if suffix = ":processing" then some (.processingList argument)
    else if suffix = ":delayed" then some (.delayedSet argument)
    else if suffix = ":dead" then some (.deadList argument)
    else none
  else if family = "active_jobs:" then some (.activeJobsHash argument)
  else if family = "heartbeat:" then some (.heartbeat argument)
  else if family = "idempotency:" then some (.idempotency argument)
  else if family = "jobs_processed_total" then some .jobsProcessedTotal
  else if family = "jobs_failed_total" then some .jobsFailedTotal
  else if family = "processing_time_sum_ms" then some .processingTimeSum
  else none

/-- The three parts tell the builder and its arguments. -/
theorem ofParts_parts (k : RedisKey) : ofParts k.family k.argument k.suffix = some k := by
  cases k with
  | waitingList queue priority => cases priority <;> rfl
  | _ => rfl

/-- Keys of one family end alike, or in words that can be told apart. -/
theorem argument_inj {a b : RedisKey} (hfamily : a.family = b.family)
    (h : a.argument ++ a.suffix = b.argument ++ b.suffix) :
    a.argument = b.argument ∧ a.suffix = b.suffix := by
  by_cases hk : a.family = "queue:"
  · exact suffixFree_suffixes.append_inj (suffix_mem hk) (suffix_mem (hfamily ▸ hk)) h
  · rw [suffix_eq_empty hk, suffix_eq_empty (hfamily ▸ hk)] at h ⊢
    exact ⟨by simpa using h, rfl⟩

/-- So the name tells them, whatever strings the arguments are. -/
theorem name_injective : Function.Injective name := by
  intro a b h
  rw [name_eq, name_eq] at h
  obtain ⟨hfamily, hrest⟩ := prefixFree_families.append_inj a.family_mem b.family_mem h
  obtain ⟨hargument, hsuffix⟩ := argument_inj hfamily hrest
  have hparts : some a = some b := by
    rw [← ofParts_parts a, ← ofParts_parts b, hfamily, hargument, hsuffix]
  exact Option.some.inj hparts

end RedisKey

/-- **Redis keys never collide.** Two builders return the same string only if they
are the same builder with the same arguments, and the SDK's builders return what
those of the core return. -/
theorem redis_keys_injective :
    (∀ a b : RedisKey, a.name = b.name → a = b) ∧
      (∀ id, Sdk.RedisKeys.jobHash id = RedisKeys.jobHash id) ∧
      (∀ queue priority,
        Sdk.RedisKeys.waitingList queue priority = RedisKeys.waitingList queue priority) ∧
      (∀ queue, Sdk.RedisKeys.delayedSet queue = RedisKeys.delayedSet queue) ∧
      (∀ queue, Sdk.RedisKeys.deadList queue = RedisKeys.deadList queue) := by
  constructor
  · intro a b h
    exact RedisKey.name_injective h
  · exact ⟨fun _ => rfl, fun _ _ => rfl, fun _ => rfl, fun _ => rfl⟩

/-! ## The lists of the store -/

/-- The string a list of the store is addressed by. -/
def ListKey.name : ListKey → String
  | waitingList queue priority => RedisKeys.waitingList queue priority
  | processingList queue => RedisKeys.processingList queue
  | deadList queue => RedisKeys.deadList queue

/-- A list key whose priority, if it has one, is one of the three. -/
def ListKey.Proper : ListKey → Prop
  | waitingList _ priority => ∃ p : JobPriority, priority = p.name
  | _ => True

/-- The list of the store a key stands for. -/
def RedisKey.list? : RedisKey → Option ListKey
  | waitingList queue priority => some (.waitingList queue priority.name)
  | processingList queue => some (.processingList queue)
  | deadList queue => some (.deadList queue)
  | _ => none

theorem ListKey.Proper.exists_redisKey {l : ListKey} (h : l.Proper) :
    ∃ k : RedisKey, k.name = l.name ∧ k.list? = some l := by
  cases l with
  | waitingList queue priority =>
    obtain ⟨p, rfl⟩ := h
    exact ⟨.waitingList queue p, rfl, rfl⟩
  | processingList queue => exact ⟨.processingList queue, rfl, rfl⟩
  | deadList queue => exact ⟨.deadList queue, rfl, rfl⟩

/-- Different lists of the store are different keys in Redis. -/
theorem ListKey.name_inj {a b : ListKey} (ha : a.Proper) (hb : b.Proper) (h : a.name = b.name) :
    a = b := by
  obtain ⟨k, hk, hlist⟩ := ha.exists_redisKey
  obtain ⟨k', hk', hlist'⟩ := hb.exists_redisKey
  obtain rfl : k = k' := RedisKey.name_injective (hk.trans (h.trans hk'.symm))
  exact Option.some.inj (hlist.symm.trans hlist')

/-- A priority of one's own does not keep the lists apart. -/
example : (ListKey.waitingList "q" "x:dead").name = (ListKey.deadList "q:waiting:x").name := by
  decide

end DistriSys
