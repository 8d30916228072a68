import DistriSys.Redis.Collections
import Mathlib

/-!
# A Redis database

One flat space of keys (`Database`). What a key holds has a type (`Value`), and a command on
a key that holds another type is answered by an error.

- `Collection`: lists, sorted sets and hashes. A missing key is an empty collection, and a
  collection that becomes empty takes its key with it.
- `Request`: commands one after the other with nobody in between, that is a single command, a
  `MULTI` transaction or a script. A request with an error among its answers has no result.
- `Request.Completes`: pre- and postconditions of requests. `bind` and `mapM` compose them,
  `view` and `alter` are the rules for the commands on collections.
- `Request.ReadOnly`: the requests that leave the database alone.

Expiry times are those of strings; `INCRBY` is not bounded to 64 bits.
-/

namespace DistriSys.Redis

/-! ## Fields of a hash -/

namespace Hash

variable {κ β γ : Type} {h : Hash κ β} {k : κ} {v : β}

/-- The hash with other values. -/
def mapValues (f : β → γ) (h : Hash κ β) : Hash κ γ where
  entries := h.entries.map fun e => (e.1, f e.2)
  nodup := by simpa [Function.comp_def] using h.nodup

/-- A hash is its entries. -/
theorem ext_entries {h h' : Hash κ β} (he : h.entries = h'.entries) : h = h' := by
  cases h
  cases h'
  cases he
  rfl

@[simp] theorem keys_mapValues (f : β → γ) : (h.mapValues f).keys = h.keys := by
  simp [mapValues, keys, Function.comp_def]

variable [DecidableEq κ]

/-- `HGET`. -/
def hget (h : Hash κ β) (k : κ) : Option β := h.entries.lookup k

/-- `HMSET`: the fields are set one after the other. -/
def hmset (h : Hash κ β) (fields : List (κ × β)) : Hash κ β :=
  fields.foldl (fun h e => h.hset e.1 e.2) h

theorem entries_hset (h : Hash κ β) (k : κ) (v : β) :
    (h.hset k v).entries =
      if k ∈ h.keys then h.entries.map fun e => (e.1, if e.1 = k then v else e.2)
      else h.entries ++ [(k, v)] := by
  unfold hset
  split <;> rfl

/-- Writing a field touches no other. -/
theorem mem_entries_hset {k' : κ} {v' : β} :
    (k', v') ∈ (h.hset k v).entries ↔ k' = k ∧ v' = v ∨ k' ≠ k ∧ (k', v') ∈ h.entries := by
  rw [entries_hset]
  split
  · next hk =>
    obtain ⟨⟨key, old⟩, hold, hkey⟩ := List.mem_map.mp hk
    obtain rfl : key = k := hkey
    simp only [List.mem_map, Prod.mk.injEq]
    constructor
    · rintro ⟨⟨key', old'⟩, he, rfl, rfl⟩
      by_cases hsame : key' = key
      · exact .inl ⟨hsame, if_pos hsame⟩
      · exact .inr ⟨hsame, by rwa [if_neg hsame]⟩
    · rintro (⟨rfl, rfl⟩ | ⟨hne, he⟩)
      · exact ⟨_, hold, rfl, if_pos rfl⟩
      · exact ⟨_, he, rfl, if_neg hne⟩
  · next hk =>
    simp only [List.mem_append, List.mem_singleton, Prod.mk.injEq]
    constructor
    · rintro (he | heq)
      · refine .inr ⟨?_, he⟩
        rintro rfl
        exact hk (List.mem_map.mpr ⟨_, he, rfl⟩)
      · exact .inl heq
    · rintro (heq | ⟨-, he⟩)
      · exact .inr heq
      · exact .inl he

/-- `HGET` reads the one entry of the field. -/
theorem hget_eq_some : h.hget k = some v ↔ (k, v) ∈ h.entries := by
  constructor
  · intro hv
    obtain ⟨front, back, he, -⟩ := List.lookup_eq_some_iff.mp hv
    simp [he]
  · intro hv
    obtain ⟨front, back, he⟩ := List.append_of_mem hv
    refine List.lookup_eq_some_iff.mpr ⟨front, back, he, ?_⟩
    rintro e hfront
    have hnodup := h.nodup
    rw [he, List.map_append, List.nodup_append] at hnodup
    simpa using (hnodup.2.2 e.1 (List.mem_map_of_mem hfront) k (by simp)).symm

/-- What `HMSET` writes stays there with what it does not name. -/
theorem mem_entries_hmset {fields : List (κ × β)} (hnodup : (fields.map Prod.fst).Nodup) :
    (k, v) ∈ (h.hmset fields).entries ↔
      (k, v) ∈ fields ∨ k ∉ fields.map Prod.fst ∧ (k, v) ∈ h.entries := by
  induction fields generalizing h with
  | nil => simp [hmset]
  | cons e rest ih =>
    obtain ⟨k', v'⟩ := e
    rw [List.map_cons, List.nodup_cons] at hnodup
    show (k, v) ∈ ((h.hset k' v').hmset rest).entries ↔ _
    rw [ih hnodup.2, mem_entries_hset]
    by_cases hk : k = k'
    · subst hk
      have hrest : (k, v) ∉ rest := fun hv => hnodup.1 (List.mem_map.mpr ⟨_, hv, rfl⟩)
      simp [hrest, hnodup.1]
    · simp [hk]

theorem mapValues_hset (f : β → γ) : (h.hset k v).mapValues f = (h.mapValues f).hset k (f v) := by
  apply ext_entries
  rw [entries_hset, keys_mapValues]
  show (h.hset k v).entries.map (fun e => (e.1, f e.2)) = _
  rw [entries_hset]
  split
  · simp only [mapValues, List.map_map]
    refine List.map_congr_left fun e _ => ?_
    simp only [Function.comp]
    split <;> rfl
  · simp [mapValues]

theorem mapValues_hdel (f : β → γ) : (h.hdel k).mapValues f = (h.mapValues f).hdel k := by
  apply ext_entries
  simp only [mapValues, hdel, List.filter_map]
  rfl

end Hash

/-! ## Values -/

/-- What a key holds. -/
inductive Value where
  | string (value : String) (expiresAt : Option Nat)
  | list (elements : List String)
  | zset (members : ZSet String)
  | hash (fields : Hash String String)

/-- The value has not expired. -/
def Value.fresh (now : Nat) : Value → Bool
  | string _ (some expiresAt) => now ≤ expiresAt
  | _ => true

/-- A Redis database: what each key holds. -/
abbrev Database := String → Option Value

/-- What a command finds. -/
def Database.find (db : Database) (now : Nat) (key : String) : Option Value :=
  (db key).filter (Value.fresh now)

/-- A key without an expiry time is there at any time. -/
theorem Database.find_lasting {db : Database} {key value : String} (now : Nat)
    (h : db key = some (.string value none)) : db.find now key = some (.string value none) := by
  rw [find, h]
  rfl

/-- A string with an expiry time is found as long as it has not passed. -/
theorem Database.find_volatile {β : Type} {db : Database} {key : String}
    {slot : Option (Volatile β)} (now : Nat) (text : β → String)
    (h : db key = slot.map fun v => .string (text v.value) (some v.expiresAt)) :
    db.find now key = none ∧ Volatile.get? now slot = none ∨
      ∃ v expiresAt, db.find now key = some (.string (text v) (some expiresAt)) ∧
        Volatile.get? now slot = some v := by
  rw [Database.find, h]
  cases slot with
  | none => exact .inl ⟨rfl, rfl⟩
  | some v =>
    by_cases hfresh : now ≤ v.expiresAt
    · exact .inr ⟨v.value, v.expiresAt, by simp [Value.fresh, hfresh],
        by simp [Volatile.get?, hfresh]⟩
    · exact .inl ⟨by simp [Value.fresh, hfresh], by simp [Volatile.get?, hfresh]⟩

/-- A type of values that are empty where there is no key. -/
structure Collection (α : Type) where
  /-- What a command works on; it fails on a value of another type. -/
  read : Option Value → Option α
  /-- What the command leaves. -/
  write : α → Option Value
  read_write (now : Nat) (a : α) : read ((write a).filter (Value.fresh now)) = some a

namespace Collection

def lists : Collection (List String) where
  read
    | none => some []
    | some (.list l) => some l
    | some _ => none
  write l := if l = [] then none else some (.list l)
  read_write now l := by
    cases l <;> rfl

def zsets : Collection (ZSet String) where
  read
    | none => some .empty
    | some (.zset z) => some z
    | some _ => none
  write z := if z.entries = [] then none else some (.zset z)
  read_write now z := by
    obtain ⟨entries, hnodup, hsorted⟩ := z
    cases entries <;> rfl

def hashes : Collection (Hash String String) where
  read
    | none => some .empty
    | some (.hash h) => some h
    | some _ => none
  write h := if h.entries = [] then none else some (.hash h)
  read_write now h := by
    obtain ⟨entries, hnodup⟩ := h
    cases entries <;> rfl

variable {v : Value} {l : List String} {z : ZSet String} {h : Hash String String}

/-- Redis keeps no empty list. -/
theorem lists_write_eq_some : lists.write l = some v ↔ l ≠ [] ∧ v = .list l := by
  simp [lists, eq_comm]

/-- Redis keeps no empty sorted set. -/
theorem zsets_write_eq_some : zsets.write z = some v ↔ z.entries ≠ [] ∧ v = .zset z := by
  simp [zsets, eq_comm]

/-- Redis keeps no empty hash. -/
theorem hashes_write_eq_some : hashes.write h = some v ↔ h.entries ≠ [] ∧ v = .hash h := by
  simp [hashes, eq_comm]

end Collection

/-! ## Requests -/

/-- Commands that are carried out at one time, one after the other. -/
abbrev Request (α : Type) := ReaderT Nat (StateT Database Option) α

namespace Request

variable {α β ι : Type}

/-- A command that reads a collection. -/
def view (κ : Collection α) (key : String) (f : α → β) : Request β := fun now db => do
  let a ← κ.read (db.find now key)
  some (f a, db)

/-- A command that reads a collection and may refuse its arguments. -/
def viewOrError (κ : Collection α) (key : String) (f : α → Option β) : Request β := fun now db => do
  let a ← κ.read (db.find now key)
  let b ← f a
  some (b, db)

/-- A command that changes a collection. -/
def alter (κ : Collection α) (key : String) (f : α → β × α) : Request β := fun now db => do
  let a ← κ.read (db.find now key)
  some ((f a).1, Function.update db key (κ.write (f a).2))

def update (κ : Collection α) (key : String) (f : α → α) : Request Unit :=
  alter κ key fun a => ((), f a)

/-- `DEL`. -/
def del (key : String) : Request Unit := fun _ db => some ((), Function.update db key none)

/-- `LPUSH`. -/
def lpush (key element : String) : Request Unit := update .lists key (element :: ·)

/-- `LREM`. -/
def lrem (key : String) (count : Nat) (element : String) : Request Unit :=
  update .lists key (Redis.lrem count element)

/-- `LRANGE`. -/
def lrange (key : String) (start stop : Option Int) : Request (List String) :=
  viewOrError .lists key (Redis.lrange · start stop)

/-- `LLEN`. -/
def llen (key : String) : Request Nat := view .lists key List.length

/-- The right end of a list, taken off. -/
def rpop (key : String) : Request (Option String) :=
  alter .lists key fun l =>
    match Redis.rpop l with
    | some (element, rest) => (some element, rest)
    | none => (none, l)

/-- `RPOPLPUSH`. -/
def rpoplpush (source destination : String) : Request (Option String) := do
  match ← rpop source with
  | some element =>
    lpush destination element
    return some element
  | none => return none

/-- `ZADD`. -/
def zadd (key : String) (score : Nat) (element : String) : Request Unit :=
  update .zsets key (·.zadd score element)

/-- `ZREM`. -/
def zrem (key element : String) : Request Unit := update .zsets key (·.zrem element)

/-- `ZRANGEBYSCORE key -inf max`. -/
def zrangebyscore (key : String) (max : Nat) : Request (List String) :=
  view .zsets key (·.zrangebyscore max)

/-- `ZRANGE`. -/
def zrange (key : String) (start stop : Option Int) : Request (List String) :=
  viewOrError .zsets key fun z => Redis.lrange z.members start stop

/-- `ZCARD`. -/
def zcard (key : String) : Request Nat := view .zsets key fun z => z.members.length

/-- `HGET`. -/
def hget (key field : String) : Request (Option String) := view .hashes key (·.hget field)

/-- `HGETALL`. -/
def hgetall (key : String) : Request (Hash String String) := view .hashes key id

/-- `HSET` with one field. -/
def hset (key field value : String) : Request Unit := update .hashes key (·.hset field value)

/-- `HMSET`. -/
def hmset (key : String) (fields : List (String × String)) : Request Unit :=
  update .hashes key (·.hmset fields)

/-- `HDEL`. -/
def hdel (key field : String) : Request Unit := update .hashes key (·.hdel field)

/-- `GET`. -/
def get (key : String) : Request (Option String) := fun now db =>
  match db.find now key with
  | none => some (none, db)
  | some (.string value _) => some (some value, db)
  | some _ => none

/-- `MGET`: a key that holds another type counts as missing. -/
def mget (keys : List String) : Request (List (Option String)) := fun now db =>
  some (keys.map fun key =>
    match db.find now key with
    | some (.string value _) => some value
    | _ => none, db)

/-- `SET key value EX ttlSec`, whatever the key holds. -/
def setEx (key value : String) (ttlSec : Nat) : Request Unit := fun now db =>
  some ((), Function.update db key (some (.string value (some (now + ttlSec * 1000)))))

/-- `SET key value NX EX ttlSec`: whether the key was free. -/
def setNxEx (key value : String) (ttlSec : Nat) : Request Bool := fun now db =>
  match db.find now key with
  | none =>
    some (true, Function.update db key (some (.string value (some (now + ttlSec * 1000)))))
  | some _ => some (false, db)

/-- The integer a string holds: only the way Redis itself writes it counts. -/
def parseInteger (s : String) : Option Int := s.toInt?.filter fun n => n.repr = s

/-- `INCRBY`; an expiry time stays. -/
def incrby (key : String) (increment : Int) : Request Unit := fun now db =>
  match db.find now key with
  | none => some ((), Function.update db key (some (.string increment.repr none)))
  | some (.string value expiresAt) => do
    let n ← parseInteger value
    some ((), Function.update db key (some (.string (n + increment).repr expiresAt)))
  | some _ => none

/-- `INCR`. -/
def incr (key : String) : Request Unit := incrby key 1

/-! ## Pre- and postconditions -/

/-- From every database in `P`, the request ends without an error, in `Q`. -/
def Completes (now : Nat) (P : Database → Prop) (x : Request α) (Q : α → Database → Prop) : Prop :=
  ∀ db, P db → ∃ a db', x now db = some (a, db') ∧ Q a db'

section Rules

variable {now : Nat} {P P' : Database → Prop} {x : Request α} {Q : α → Database → Prop}
  {key : String} {κ : Collection α}

/-- A request completes from fewer databases just as well. -/
theorem Completes.strengthen (h : Completes now P x Q) (hP : ∀ db, P' db → P db) :
    Completes now P' x Q :=
  fun db hdb => h db (hP db hdb)

/-- What is known of one database. -/
theorem Completes.of_eq {db db' : Database} {a : α} (h : x now db = some (a, db')) :
    Completes now (· = db) x fun b d => b = a ∧ d = db' := by
  rintro _ rfl
  exact ⟨a, db', h, rfl, rfl⟩

/-- No command at all. -/
theorem Completes.pure {a : α} (h : ∀ db, P db → Q a db) : Completes now P (pure a) Q :=
  fun db hdb => ⟨a, db, rfl, h db hdb⟩

/-- What the rest of a request starts from is what the first part leaves. -/
theorem Completes.bind {f : α → Request β} {R : β → Database → Prop} (hx : Completes now P x Q)
    (hf : ∀ a, Completes now (Q a) (f a) R) : Completes now P (x >>= f) R := by
  intro db hdb
  obtain ⟨a, db', hx, ha⟩ := hx db hdb
  obtain ⟨b, db'', hfa, hb⟩ := hf a db' ha
  refine ⟨b, db'', ?_, hb⟩
  show (x now db).bind (fun r => f r.1 now r.2) = _
  rw [hx]
  exact hfa

/-- One request after the other, each with its own answer. -/
theorem Completes.mapM {f : ι → Request β} {R : ι → β → Prop} {l : List ι}
    (h : ∀ i ∈ l, Completes now P (f i) fun b db => P db ∧ R i b) :
    Completes now P (l.mapM f) fun bs db => P db ∧ List.Forall₂ R l bs := by
  induction l with
  | nil => exact .pure fun db hdb => ⟨hdb, .nil⟩
  | cons i rest ih =>
    rw [List.mapM_cons]
    refine (h i List.mem_cons_self).bind fun b => ?_
    have hrest := ih fun j hj => h j (List.mem_cons_of_mem i hj)
    intro db ⟨hdb, hb⟩
    refine ((hrest.strengthen fun _ => id).bind fun bs => ?_) db hdb
    exact .pure fun db' ⟨hdb', hbs⟩ => ⟨hdb', .cons hb hbs⟩

/-- What was written as a value of a type is read back as one, and an absent key as the empty
one. -/
theorem find_eq_of_write {db : Database} {a : α} (h : db key = κ.write a) :
    κ.read (db.find now key) = some a := by
  rw [Database.find, h]
  exact κ.read_write now a

/-- A command that reads a key finds a value of its type there. -/
theorem Completes.view {f : α → β} {Q : β → Database → Prop}
    (h : ∀ db, P db → ∃ a, db key = κ.write a ∧ Q (f a) db) :
    Completes now P (view κ key f) Q := by
  intro db hdb
  obtain ⟨a, ha, hQ⟩ := h db hdb
  exact ⟨f a, db, by simp [Request.view, find_eq_of_write ha], hQ⟩

/-- A command that may refuse its arguments does nothing else. -/
theorem viewOrError_eq {db : Database} {a : α} (h : db key = κ.write a) (f : α → Option β) :
    viewOrError κ key f now db = (f a).map fun b => (b, db) := by
  simp only [Request.viewOrError, find_eq_of_write h]
  show (f a).bind (fun b => some (b, db)) = _
  cases f a with
  | none => rfl
  | some b => rfl

/-- So does one that Redis may refuse, as long as it does not. -/
theorem Completes.viewOrError {f : α → Option β} {Q : β → Database → Prop}
    (h : ∀ db, P db → ∃ a b, db key = κ.write a ∧ f a = some b ∧ Q b db) :
    Completes now P (viewOrError κ key f) Q := by
  intro db hdb
  obtain ⟨a, b, ha, hb, hQ⟩ := h db hdb
  exact ⟨b, db, by rw [viewOrError_eq ha, hb]; rfl, hQ⟩

/-- A command that changes a key and answers. -/
theorem Completes.alter {f : α → β × α} {Q : β → Database → Prop}
    (h : ∀ db, P db → ∃ a, db key = κ.write a ∧
      Q (f a).1 (Function.update db key (κ.write (f a).2))) :
    Completes now P (alter κ key f) Q := by
  intro db hdb
  obtain ⟨a, ha, hQ⟩ := h db hdb
  exact ⟨(f a).1, _, by simp [Request.alter, find_eq_of_write ha], hQ⟩

/-- A command that changes a key. -/
theorem Completes.update {f : α → α} {Q : Unit → Database → Prop}
    (h : ∀ db, P db → ∃ a, db key = κ.write a ∧
      Q () (Function.update db key (κ.write (f a)))) :
    Completes now P (update κ key f) Q :=
  .alter h

end Rules

/-! ## Requests that only read -/

/-- Whatever the request answers, the database stays as it is. -/
def ReadOnly (x : Request α) : Prop := ∀ now db a db', x now db = some (a, db') → db' = db

section ReadOnly

theorem ReadOnly.pure (a : α) : ReadOnly (pure a : Request α) := by
  rintro now db _ _ ⟨⟩
  rfl

/-- Requests that write nothing, one after the other, write nothing. -/
theorem ReadOnly.bind {x : Request α} {f : α → Request β} (hx : ReadOnly x)
    (hf : ∀ a, ReadOnly (f a)) : ReadOnly (x >>= f) := by
  intro now db b db' h
  obtain ⟨⟨a, mid⟩, ha, hb⟩ := Option.bind_eq_some_iff.mp h
  obtain rfl : mid = db := hx now db a mid ha
  exact hf a now mid b db' hb

/-- One read-only request for each element. -/
theorem ReadOnly.mapM {f : ι → Request β} (hf : ∀ i, ReadOnly (f i)) (l : List ι) :
    ReadOnly (l.mapM f) := by
  induction l with
  | nil => exact .pure []
  | cons i rest ih =>
    rw [List.mapM_cons]
    exact (hf i).bind fun b => ih.bind fun bs => .pure _

theorem ReadOnly.view (κ : Collection α) (key : String) (f : α → β) : ReadOnly (view κ key f) := by
  intro now db b db' h
  obtain ⟨a, -, hb⟩ := Option.bind_eq_some_iff.mp h
  cases hb
  rfl

/-- An error of Redis writes nothing either. -/
theorem ReadOnly.viewOrError (κ : Collection α) (key : String) (f : α → Option β) :
    ReadOnly (viewOrError κ key f) := by
  intro now db b db' h
  obtain ⟨a, -, h⟩ := Option.bind_eq_some_iff.mp h
  obtain ⟨b', -, hb⟩ := Option.bind_eq_some_iff.mp h
  cases hb
  rfl

theorem ReadOnly.get (key : String) : ReadOnly (get key) := by
  intro now db answer db' h
  unfold Request.get at h
  split at h
  · cases h
    rfl
  · cases h
    rfl
  · cases h

/-- A request that only reads and ends has an answer. -/
theorem ReadOnly.eq_of_completes {now : Nat} {x : Request α} {P : Database → Prop}
    {Q : α → Database → Prop} {db : Database} (hx : ReadOnly x) (h : Completes now P x Q)
    (hdb : P db) : ∃ a, x now db = some (a, db) ∧ Q a db := by
  obtain ⟨a, db', ha, hQ⟩ := h db hdb
  obtain rfl : db' = db := hx now db a db' ha
  exact ⟨a, ha, hQ⟩

end ReadOnly

@[simp] theorem parseInteger_repr (n : Int) : parseInteger n.repr = some n := by
  simp [parseInteger, Int.toInt?_repr]

end Request

end DistriSys.Redis
