import Mathlib.Algebra.Group.Int.Defs
import Mathlib.Data.List.Sort
import Mathlib.Data.Prod.Lex

/-!
# Redis value types

The value types a Redis key can hold, as pure data with the commands on them:

- **lists** are plain lists whose head is the left end: `LPUSH` is `::`,
  `rpop` the right half of `RPOPLPUSH`, `lrem` is `LREM` with a non-negative count;
- **sorted sets** (`ZSet`): members with a score, kept in the order Redis ranges
  over them (by score, ties by member), no member twice;
- **hashes** (`Hash`) with arbitrary field names, no field twice;
- **volatile strings** (`Volatile`): a value with the expiry time `SET … EX` gives it.

The well-formedness of sorted sets and hashes is a field, so no command result
has to be re-proved well formed.
-/

namespace DistriSys.Redis

universe u v

/-! ## Lists -/

section Lists

variable {α : Type u}

/-- Take the right-most element off a list (`RPOP`). -/
def rpop (l : List α) : Option (α × List α) :=
  match l.getLast? with
  | some a => some (a, l.dropLast)
  | none => none

/-- `RPOP` takes the last element of the list. -/
theorem rpop_eq_some {l l' : List α} {a : α} : rpop l = some (a, l') ↔ l = l' ++ [a] := by
  constructor
  · intro h
    unfold rpop at h
    split at h
    · next b hb =>
      obtain ⟨rfl, rfl⟩ := Prod.mk.inj (Option.some.inj h)
      obtain ⟨ys, rfl⟩ := List.getLast?_eq_some_iff.mp hb
      simp
    · cases h
  · rintro rfl
    simp [rpop]

theorem rpop_eq_none {l : List α} : rpop l = none ↔ l = [] := by
  rw [rpop, ← List.getLast?_eq_none_iff]
  cases l.getLast? <;> simp

/-- The position a bound of a range means: a negative one counts from the right end. -/
def index (l : List α) (bound : Int) : Int := if bound < 0 then l.length + bound else bound

theorem index_of_nonneg {l : List α} {bound : Int} (h : 0 ≤ bound) : index l bound = bound :=
  if_neg (by omega)

/-- The elements from one position to another, both included. -/
def slice (l : List α) (start stop : Int) : List α :=
  let start := max (index l start) 0
  let stop := index l stop
  if stop < start ∨ l.length ≤ start then []
  else (l.drop start.toNat).take (min stop (l.length - 1) - start + 1).toNat

/-- Redis reads the bounds of a range as signed 64-bit integers. -/
def IsInt64 (bound : Int) : Prop := -2 ^ 63 ≤ bound ∧ bound < 2 ^ 63

instance (bound : Int) : Decidable (IsInt64 bound) := inferInstanceAs (Decidable (_ ∧ _))

/-- `LRANGE key start stop`, and `ZRANGE` for the members of a sorted set. A bound is the
integer its text denotes, `none` for a text that is no integer. Without a result the answer is
the error "value is not an integer or out of range". -/
def lrange (l : List α) : Option Int → Option Int → Option (List α)
  | some start, some stop =>
    if IsInt64 start ∧ IsInt64 stop then some (slice l start stop) else none
  | _, _ => none

/-- Empty ranges and ranges beyond the end need no case of their own. -/
theorem slice_eq (l : List α) (start stop : Int) :
    slice l start stop =
      (l.drop (max (index l start) 0).toNat).take
        (index l stop + 1 - max (index l start) 0).toNat := by
  unfold slice
  dsimp only
  split
  · next h =>
    rcases h with h | h
    · rw [show (index l stop + 1 - max (index l start) 0).toNat = 0 by omega, List.take_zero]
    · rw [List.drop_of_length_le (by omega), List.take_nil]
  · next h =>
    rw [List.take_eq_take_iff, List.length_drop]
    omega

/-- A slice is part of the list. -/
theorem mem_of_mem_slice {l : List α} {start stop : Int} {a : α} (h : a ∈ slice l start stop) :
    a ∈ l := by
  rw [slice_eq] at h
  exact List.mem_of_mem_drop (List.mem_of_mem_take h)

/-- How long a slice is, for whichever bounds, in range or not. -/
theorem length_slice (l : List α) (start stop : Int) :
    (slice l start stop).length =
      (min (index l stop + 1) l.length - max (index l start) 0).toNat := by
  rw [slice_eq, List.length_take, List.length_drop]
  omega

/-- From the first to the last position, that is the whole list. -/
theorem lrange_all (l : List α) : lrange l (some 0) (some (-1)) = some l := by
  have hlast : index l (-1) + 1 = l.length := by
    rw [index, if_pos (by decide)]
    omega
  rw [lrange, if_pos (by decide), slice_eq, index_of_nonneg (le_refl 0), hlast]
  simp

variable [DecidableEq α]

/-- Remove the first `n` occurrences of `a`, counted from the left end. -/
def lremFirst : Nat → α → List α → List α
  | 0, _, l => l
  | n + 1, a, l => lremFirst n a (l.erase a)

/-- `LREM key n a` for `0 ≤ n`: a positive `n` removes that many occurrences from
the left, zero removes all of them. -/
def lrem (n : Nat) (a : α) (l : List α) : List α :=
  if n = 0 then l.filter (· ≠ a) else lremFirst n a l

/-- `LREM` with count 1 takes the first copy, if there is one. -/
theorem lrem_one (a : α) (l : List α) : lrem 1 a l = l.erase a := rfl

/-- One copy of the element goes. -/
theorem count_rpop {l l' : List α} {a : α} (h : rpop l = some (a, l')) (b : α) :
    l.count b = l'.count b + if a = b then 1 else 0 := by
  rw [rpop_eq_some.mp h, List.count_append, List.count_singleton]
  simp

@[simp] theorem count_lrem_one (a b : α) (l : List α) :
    (lrem 1 a l).count b = l.count b - if a = b then 1 else 0 := by
  rw [lrem_one, List.count_erase]
  by_cases hab : a = b <;> simp [hab]

@[simp] theorem count_lrem_zero (a b : α) (l : List α) :
    (lrem 0 a l).count b = if a = b then 0 else l.count b := by
  by_cases hab : a = b
  · subst hab
    simp [lrem, List.count_eq_zero]
  · rw [if_neg hab, lrem, if_pos rfl, List.count_filter]
    simpa using fun h => hab h.symm

/-- `LREM` adds nothing. -/
theorem mem_of_mem_lrem {n : Nat} {a b : α} {l : List α} (h : b ∈ lrem n a l) : b ∈ l := by
  unfold lrem at h
  split at h
  · exact (List.mem_filter.mp h).1
  · clear * - h
    induction n generalizing l with
    | zero => exact h
    | succ n ih => exact List.mem_of_mem_erase (ih h)

end Lists

/-! ## Sorted sets -/

section SortedSets

variable {α : Type u} [LinearOrder α]

/-- The order in which Redis ranges over a sorted set: by score, ties by member. -/
def Before (x y : α × Nat) : Prop := toLex (x.2, x.1) ≤ toLex (y.2, y.1)

instance : DecidableRel (Before (α := α)) := fun x y =>
  inferInstanceAs (Decidable (toLex (x.2, x.1) ≤ toLex (y.2, y.1)))

instance : Std.Total (Before (α := α)) := ⟨fun x y => le_total (toLex (x.2, x.1)) (toLex (y.2, y.1))⟩

instance : IsTrans (α × Nat) Before := ⟨fun x _ _ => le_trans (a := toLex (x.2, x.1))⟩

variable (α) in
/-- A Redis sorted set with integer scores. -/
structure ZSet where
  entries : List (α × Nat)
  /-- No member occurs twice. -/
  nodup : (entries.map Prod.fst).Nodup
  /-- Entries are stored in range order. -/
  sorted : entries.Pairwise Before

namespace ZSet

def empty : ZSet α := ⟨[], .nil, .nil⟩

/-- The members, in range order. -/
def members (z : ZSet α) : List α := z.entries.map Prod.fst

/-- `ZREM`. -/
def zrem (z : ZSet α) (a : α) : ZSet α where
  entries := z.entries.filter (·.1 ≠ a)
  nodup := z.nodup.sublist (List.filter_sublist.map _)
  sorted := z.sorted.filter _

/-- `ZADD`: a member that is already there gets the new score. -/
def zadd (z : ZSet α) (score : Nat) (a : α) : ZSet α where
  entries := (z.zrem a).entries.orderedInsert Before (a, score)
  nodup := by
    have hperm := List.perm_orderedInsert Before (a, score) (z.zrem a).entries
    rw [(hperm.map Prod.fst).nodup_iff, List.map_cons, List.nodup_cons]
    exact ⟨by simp [zrem], (z.zrem a).nodup⟩
  sorted := (z.zrem a).sorted.orderedInsert (a, score)

/-- `ZRANGEBYSCORE key -inf max`. -/
def zrangebyscore (z : ZSet α) (max : Nat) : List α :=
  (z.entries.filter (·.2 ≤ max)).map Prod.fst

theorem mem_members {z : ZSet α} {a : α} : a ∈ z.members ↔ ∃ score, (a, score) ∈ z.entries := by
  simp [members]

@[simp] theorem mem_empty {a : α} : a ∈ (empty : ZSet α).members ↔ False := by
  simp [members, empty]

theorem mem_entries_zrem {z : ZSet α} {a : α} {e : α × Nat} :
    e ∈ (z.zrem a).entries ↔ e ∈ z.entries ∧ e.1 ≠ a := by
  simp [zrem]

/-- `ZADD` of a member that is there moves it: it has one score. -/
theorem mem_entries_zadd {z : ZSet α} {score : Nat} {a : α} {e : α × Nat} :
    e ∈ (z.zadd score a).entries ↔ e = (a, score) ∨ e ∈ z.entries ∧ e.1 ≠ a := by
  rw [zadd, List.mem_orderedInsert, mem_entries_zrem]

@[simp] theorem mem_zrem {z : ZSet α} {a b : α} :
    b ∈ (z.zrem a).members ↔ b ∈ z.members ∧ b ≠ a := by
  simp only [mem_members, mem_entries_zrem, exists_and_right]

@[simp] theorem mem_zadd {z : ZSet α} {score : Nat} {a b : α} :
    b ∈ (z.zadd score a).members ↔ b = a ∨ b ∈ z.members := by
  simp only [mem_members, mem_entries_zadd, Prod.mk.injEq]
  constructor
  · rintro ⟨s, ⟨rfl, -⟩ | ⟨h, -⟩⟩
    · exact .inl rfl
    · exact .inr ⟨s, h⟩
  · rintro (rfl | ⟨s, h⟩)
    · exact ⟨score, .inl ⟨rfl, rfl⟩⟩
    · by_cases hb : b = a
      · exact ⟨score, .inl ⟨hb, rfl⟩⟩
      · exact ⟨s, .inr ⟨h, hb⟩⟩

theorem nodup_members (z : ZSet α) : z.members.Nodup := z.nodup

@[simp] theorem count_zrem {z : ZSet α} {a b : α} :
    (z.zrem a).members.count b = if a = b then 0 else z.members.count b := by
  split
  · next h => exact List.count_eq_zero.mpr (by simp [h])
  · next h =>
    rw [(z.zrem a).nodup_members.count, z.nodup_members.count]
    simp [Ne.symm h]

/-- However often a member is added, it is there once. -/
@[simp] theorem count_zadd {z : ZSet α} {score : Nat} {a b : α} :
    (z.zadd score a).members.count b = if a = b then 1 else z.members.count b := by
  split
  · next h => exact List.count_eq_one_of_mem (z.zadd score a).nodup_members (by simp [h])
  · next h =>
    rw [(z.zadd score a).nodup_members.count, z.nodup_members.count]
    simp [Ne.symm h]

/-- The range is by score, the bound included. -/
theorem mem_zrangebyscore {z : ZSet α} {max : Nat} {a : α} :
    a ∈ z.zrangebyscore max ↔ ∃ score, (a, score) ∈ z.entries ∧ score ≤ max := by
  simp [zrangebyscore]

theorem nodup_zrangebyscore (z : ZSet α) (max : Nat) : (z.zrangebyscore max).Nodup :=
  z.nodup.sublist (List.filter_sublist.map _)

/-- A member has one score. -/
theorem score_unique {z : ZSet α} {a : α} {score score' : Nat} (h : (a, score) ∈ z.entries)
    (h' : (a, score') ∈ z.entries) : score = score' :=
  congrArg Prod.snd (List.inj_on_of_nodup_map z.nodup h h' rfl)

/-- The members come in ascending order of their scores, ties in the order of the
members. -/
theorem pairwise_zrangebyscore (z : ZSet α) (max : Nat) :
    (z.zrangebyscore max).Pairwise fun a b =>
      ∀ score score', (a, score) ∈ z.entries → (b, score') ∈ z.entries →
        Before (a, score) (b, score') := by
  rw [zrangebyscore, List.pairwise_map]
  have hsorted := z.sorted.filter (·.2 ≤ max)
  refine hsorted.imp_of_mem ?_
  rintro ⟨a, s⟩ ⟨b, s'⟩ ha hb hbefore score score' hscore hscore'
  rw [score_unique hscore (List.mem_of_mem_filter ha),
    score_unique hscore' (List.mem_of_mem_filter hb)]
  exact hbefore

end ZSet

end SortedSets

/-! ## Hashes -/

section Hashes

/-- A Redis hash with fields `κ` and values `β`. -/
structure Hash (κ : Type u) (β : Type v) where
  entries : List (κ × β)
  /-- No field occurs twice. -/
  nodup : (entries.map Prod.fst).Nodup

namespace Hash

variable {κ : Type u} {β : Type v}

def empty : Hash κ β := ⟨[], .nil⟩

/-- The fields, in storage order (`HKEYS`). -/
def keys (h : Hash κ β) : List κ := h.entries.map Prod.fst

theorem nodup_keys (h : Hash κ β) : h.keys.Nodup := h.nodup

@[simp] theorem mem_keys_empty {k : κ} : k ∈ (empty : Hash κ β).keys ↔ False := by
  simp [keys, empty]

variable [DecidableEq κ]

/-- `HSET`: an existing field keeps its place and takes the new value. -/
def hset (h : Hash κ β) (k : κ) (v : β) : Hash κ β :=
  if hk : k ∈ h.keys then
    { entries := h.entries.map fun e => (e.1, if e.1 = k then v else e.2)
      nodup := by simpa [Function.comp_def] using h.nodup }
  else
    { entries := h.entries ++ [(k, v)]
      nodup := by
        rw [List.map_append]
        exact List.Nodup.append h.nodup (List.nodup_singleton k)
          (List.disjoint_singleton.mpr hk) }

/-- `HDEL`. -/
def hdel (h : Hash κ β) (k : κ) : Hash κ β where
  entries := h.entries.filter (·.1 ≠ k)
  nodup := h.nodup.sublist (List.filter_sublist.map _)

/-- A field keeps its place when it is written again. -/
theorem keys_hset (h : Hash κ β) (k : κ) (v : β) :
    (h.hset k v).keys = if k ∈ h.keys then h.keys else h.keys ++ [k] := by
  unfold hset
  split
  · simp [keys, Function.comp_def]
  · simp [keys]

@[simp] theorem mem_keys_hset {h : Hash κ β} {k k' : κ} {v : β} :
    k' ∈ (h.hset k v).keys ↔ k' = k ∨ k' ∈ h.keys := by
  rw [keys_hset]
  split
  · next hk => exact ⟨.inr, fun h' => h'.elim (fun e => e ▸ hk) id⟩
  · simp [or_comm]

@[simp] theorem mem_keys_hdel {h : Hash κ β} {k k' : κ} :
    k' ∈ (h.hdel k).keys ↔ k' ∈ h.keys ∧ k' ≠ k := by
  simp only [keys, hdel, List.mem_map, List.mem_filter]
  constructor
  · rintro ⟨e, ⟨he, hne⟩, rfl⟩
    exact ⟨⟨e, he, rfl⟩, by simpa using hne⟩
  · rintro ⟨⟨e, he, rfl⟩, hne⟩
    exact ⟨e, ⟨he, by simpa using hne⟩, rfl⟩

end Hash

end Hashes

/-! ## Strings with an expiry -/

/-- A string value set with `EX`: Redis drops it once the clock has passed `expiresAt`. -/
structure Volatile (β : Type u) where
  value : β
  expiresAt : Nat
deriving DecidableEq

/-- What a read at time `now` returns for a key that may hold a volatile value. -/
def Volatile.get? {β : Type u} (now : Nat) : Option (Volatile β) → Option β
  | some v => if now ≤ v.expiresAt then some v.value else none
  | none => none

/-- `SET key value EX ttlSec` at time `now` (milliseconds). -/
def Volatile.setEx {β : Type u} (now ttlSec : Nat) (value : β) : Volatile β :=
  ⟨value, now + ttlSec * 1000⟩

section Volatiles

variable {β : Type u} {slot : Option (Volatile β)} {now now' : Nat}

/-- A key that has expired stays expired until it is set again. -/
theorem Volatile.get?_eq_none_mono (hle : now ≤ now') (h : Volatile.get? now slot = none) :
    Volatile.get? now' slot = none := by
  cases slot with
  | none => rfl
  | some v =>
    simp only [Volatile.get?, ite_eq_right_iff, reduceCtorEq, imp_false, not_le] at h ⊢
    omega

/-- What a read returns is there, and has not expired. -/
theorem Volatile.exists_of_get? {b : β} (h : Volatile.get? now slot = some b) :
    ∃ v, slot = some v ∧ v.value = b ∧ now ≤ v.expiresAt := by
  cases slot with
  | none => cases h
  | some v =>
    simp only [Volatile.get?] at h
    split at h
    · next hfresh =>
      cases h
      exact ⟨v, rfl, rfl, hfresh⟩
    · cases h

end Volatiles

end DistriSys.Redis
