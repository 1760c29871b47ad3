import Mathlib
import Fibers.Pool.Basic
/-!
# Conservation of the pool's stacks

The users of a stack pool call it one call at a time, from any number of threads: a thread
allocates and keeps what it gets, a thread frees a stack some user holds, a thread ends and
its cache goes to its shard, or the runtime records the fiber that runs on a stack it holds
(`PoolCall`, `Pool.serve`). Starting from a new pool, every carved stack is then, after every
call, in exactly one place: held by a user, in one thread's cache, or in one shard
(`Pool.placed`, a permutation of `Pool.inUse`). A carved slot whose guard page the system did
not protect is counted but left unused, and is nowhere; the results hold whatever the system
answers (`Kernel`). The pool counts exactly the stacks its
users hold, never carves more than its limit, keeps every cache at 64 stacks at most, and hands
out only stamped stacks (the marker and no owner). A thread gets back the stack it freed last,
and the pool carves, or falls back to a dedicated mapping, only when the caller's cache and
every shard are empty.

## Contents
1. Keyed lists: lookups, and the stacks a keyed list of caches holds.
2. The pool's parts: caches, shards, shard hints, headers.
3. One call: refilling a cache, allocating, freeing, a thread's end.
4. The invariant, kept by every call.
5. What the users see.
-/

namespace Fibers

/-! ## 1. Keyed lists -/

namespace Keyed

open scoped List

variable {α β : Type} {k k' : Nat} {v : α} {l : List (Nat × α)}

/-- Keys strictly ascending, as `set` and `erase` keep them. -/
def Ascending (l : List (Nat × α)) : Prop := l.Pairwise (fun a b => a.1 < b.1)

theorem lookup_cons_eq {k₁ : Nat} {v₁ : α} {rest : List (Nat × α)} :
    ((k₁, v₁) :: rest).lookup k = if k = k₁ then some v₁ else rest.lookup k := by
  by_cases h : k = k₁
  · simp [h]
  · have hb : (k == k₁) = false := by simpa using h
    simp [List.lookup_cons, hb, h]

@[simp] theorem lookup_set_self : (set k v l).lookup k = some v := by
  induction l with
  | nil => simp [set]
  | cons e rest ih =>
    obtain ⟨k₁, v₁⟩ := e
    unfold set
    split_ifs with h₁ h₂ <;> simp_all [lookup_cons_eq]

theorem lookup_set_ne (h : k' ≠ k) : (set k v l).lookup k' = l.lookup k' := by
  induction l with
  | nil => simp [set, lookup_cons_eq, h]
  | cons e rest ih =>
    obtain ⟨k₁, v₁⟩ := e
    unfold set
    split_ifs with h₁ h₂
    · subst h₁; simp [lookup_cons_eq, h]
    · simp [lookup_cons_eq, h]
    · simp only [lookup_cons_eq, ih]

theorem lookup_erase_ne (h : k' ≠ k) : (erase k l).lookup k' = l.lookup k' := by
  induction l with
  | nil => rfl
  | cons e rest ih =>
    obtain ⟨k₁, v₁⟩ := e
    unfold erase
    split_ifs with h₁
    · subst h₁; simp [lookup_cons_eq, h]
    · simp only [lookup_cons_eq, ih]

theorem mem_of_lookup {c : α} (h : l.lookup k = some c) : (k, c) ∈ l := by
  obtain ⟨l₁, l₂, rfl, -⟩ := List.lookup_eq_some_iff.1 h
  simp

theorem mem_set {e : Nat × α} (h : e ∈ set k v l) : e ∈ l ∨ e = (k, v) := by
  induction l with
  | nil => simp_all [set]
  | cons e' rest ih =>
    unfold set at h
    split_ifs at h <;> simp only [List.mem_cons] at h ⊢ <;> grind

theorem mem_erase {e : Nat × α} (h : e ∈ erase k l) : e ∈ l := by
  induction l with
  | nil => simp_all [erase]
  | cons e' rest ih =>
    unfold erase at h
    split_ifs at h <;> simp only [List.mem_cons] at h ⊢ <;> grind

theorem Ascending.set (hs : Ascending l) : Ascending (set k v l) := by
  induction l with
  | nil => simp [Keyed.set, Ascending]
  | cons e rest ih =>
    obtain ⟨k₁, v₁⟩ := e
    rw [Ascending, List.pairwise_cons] at hs
    unfold Keyed.set
    split_ifs with h₁ h₂
    · subst h₁
      exact List.pairwise_cons.2 hs
    · refine List.pairwise_cons.2 ⟨?_, List.pairwise_cons.2 hs⟩
      rintro a (_ | ⟨_, ha⟩)
      · exact h₂
      · exact h₂.trans (hs.1 a ha)
    · refine List.pairwise_cons.2 ⟨fun a ha => ?_, ih hs.2⟩
      rcases mem_set ha with ha | rfl
      · exact hs.1 a ha
      · simp only; omega

theorem Ascending.erase (hs : Ascending l) : Ascending (erase k l) := by
  refine List.Pairwise.sublist ?_ hs
  induction l with
  | nil => exact .slnil
  | cons e rest ih =>
    unfold Keyed.erase
    split_ifs
    · exact .cons _ (List.Sublist.refl _)
    · exact .cons_cons _ (ih (List.pairwise_cons.1 hs).2)

/-- Setting a key that is there keeps the keys. -/
theorem keys_set (hs : Ascending l) (hk : k ∈ l.map Prod.fst) :
    (set k v l).map Prod.fst = l.map Prod.fst := by
  induction l with
  | nil => simp at hk
  | cons e rest ih =>
    obtain ⟨k₁, v₁⟩ := e
    rw [Ascending, List.pairwise_cons] at hs
    simp only [List.map_cons, List.mem_cons, List.mem_map] at hk
    unfold set
    split_ifs with h₁ h₂
    · simp [h₁]
    · rcases hk with rfl | ⟨x, hx, rfl⟩
      · exact absurd rfl h₁
      · exact absurd (hs.1 x hx) (by omega)
    · rcases hk with rfl | ⟨x, hx, rfl⟩
      · exact absurd rfl h₁
      · simp [ih hs.2 (List.mem_map_of_mem hx)]

/-- The values of a keyed list of lists, all together. -/
def values (l : List (Nat × List β)) : List β := l.flatMap Prod.snd

/-- Setting a key's list swaps its old list for the new one in the values. -/
theorem values_set {l : List (Nat × List β)} {c : List β} (hs : Ascending l) :
    values (set k c l) ++ (l.lookup k).getD [] ~ c ++ values l := by
  induction l with
  | nil => simp [set, values]
  | cons e rest ih =>
    obtain ⟨k₁, v₁⟩ := e
    rw [Ascending, List.pairwise_cons] at hs
    unfold set
    split_ifs with h₁ h₂
    · subst h₁
      simp only [values, List.flatMap_cons, List.lookup_cons_self, Option.getD_some,
        List.append_assoc]
      exact (List.perm_append_left_iff _).2 List.perm_append_comm
    · have hnone : rest.lookup k = none := by
        rw [List.lookup_eq_none_iff]
        intro x hx
        have := hs.1 x hx
        simp only [bne_iff_ne, ne_eq]
        omega
      simp [values, lookup_cons_eq, h₁, hnone]
    · simp only [values, List.flatMap_cons, lookup_cons_eq, h₁, if_false] at ih ⊢
      calc v₁ ++ (set k c rest).flatMap Prod.snd ++ (rest.lookup k).getD []
          = v₁ ++ ((set k c rest).flatMap Prod.snd ++ (rest.lookup k).getD []) := by
            rw [List.append_assoc]
        _ ~ v₁ ++ (c ++ rest.flatMap Prod.snd) := (ih hs.2).append_left v₁
        _ ~ c ++ (v₁ ++ rest.flatMap Prod.snd) := by
            rw [← List.append_assoc, ← List.append_assoc]
            exact List.perm_append_comm.append_right _

/-- Erasing a key takes its list out of the values. -/
theorem values_erase {l : List (Nat × List β)} {c : List β} (h : l.lookup k = some c) :
    values (erase k l) ++ c ~ values l := by
  induction l with
  | nil => simp at h
  | cons e rest ih =>
    obtain ⟨k₁, v₁⟩ := e
    unfold erase
    by_cases hk : k = k₁
    · subst hk
      simp only [List.lookup_cons_self, Option.some.injEq] at h
      subst h
      simpa [values] using List.perm_append_comm
    · simp only [lookup_cons_eq, hk, if_false] at h
      simp only [hk, if_false, values, List.flatMap_cons, List.append_assoc]
      exact (ih h).append_left v₁

end Keyed

/-! ## 2. The pool's parts -/

open scoped List

namespace Pool

variable {p : Pool} {t t' i j : Nat}

/-- Replacing one list of a list of lists swaps it in the concatenation. -/
theorem flatten_set_perm {α : Type} {l : List (List α)} {i : Nat} (h : i < l.length)
    (c : List α) : (l.set i c).flatten ++ l.getD i [] ~ c ++ l.flatten := by
  induction l generalizing i with
  | nil => simp at h
  | cons a rest ih =>
    cases i with
    | zero =>
      simp only [List.set_cons_zero, List.flatten_cons, List.getD_cons_zero, List.append_assoc]
      exact (List.perm_append_left_iff _).2 List.perm_append_comm
    | succ i =>
      simp only [List.set_cons_succ, List.flatten_cons, List.getD_cons_succ, List.append_assoc]
      calc a ++ ((rest.set i c).flatten ++ rest.getD i [])
          ~ a ++ (c ++ rest.flatten) := (ih (by simpa using h)).append_left a
        _ ~ c ++ (a ++ rest.flatten) := by
          rw [← List.append_assoc, ← List.append_assoc]
          exact List.perm_append_comm.append_right _

/-- The free carved stacks: those in the threads' caches and those in the shards. -/
def spare (p : Pool) : List Nat := Keyed.values p.caches ++ p.shards.flatten

@[simp] theorem setCache_shards (c : List Nat) : (p.setCache t c).shards = p.shards := rfl
@[simp] theorem setCache_headers (c : List Nat) : (p.setCache t c).headers = p.headers := rfl
@[simp] theorem setCache_created (c : List Nat) : (p.setCache t c).created = p.created := rfl
@[simp] theorem setCache_limit (c : List Nat) : (p.setCache t c).limit = p.limit := rfl
@[simp] theorem setCache_hints (c : List Nat) : (p.setCache t c).hints = p.hints := rfl
@[simp] theorem setCache_outstanding (c : List Nat) :
    (p.setCache t c).outstanding = p.outstanding := rfl
@[simp] theorem setCache_usable (c : List Nat) : (p.setCache t c).usable = p.usable := rfl
@[simp] theorem shard_setCache (c : List Nat) : (p.setCache t c).shard i = p.shard i := rfl
@[simp] theorem setCache_guard (c : List Nat) : (p.setCache t c).guard = p.guard := rfl

@[simp] theorem setShard_caches (c : List Nat) : (p.setShard i c).caches = p.caches := rfl
@[simp] theorem setShard_headers (c : List Nat) : (p.setShard i c).headers = p.headers := rfl
@[simp] theorem setShard_created (c : List Nat) : (p.setShard i c).created = p.created := rfl
@[simp] theorem setShard_limit (c : List Nat) : (p.setShard i c).limit = p.limit := rfl
@[simp] theorem setShard_hints (c : List Nat) : (p.setShard i c).hints = p.hints := rfl
@[simp] theorem setShard_outstanding (c : List Nat) :
    (p.setShard i c).outstanding = p.outstanding := rfl
@[simp] theorem setShard_length (c : List Nat) :
    (p.setShard i c).shards.length = p.shards.length := by simp [setShard]

@[simp] theorem cacheOf_setCache_self (c : List Nat) : (p.setCache t c).cacheOf t = c := by
  simp [cacheOf, setCache]

theorem cacheOf_setCache_ne (h : t' ≠ t) (c : List Nat) :
    (p.setCache t c).cacheOf t' = p.cacheOf t' := by
  simp [cacheOf, setCache, Keyed.lookup_set_ne h]

@[simp] theorem cacheOf_setShard (c : List Nat) : (p.setShard i c).cacheOf t = p.cacheOf t := rfl

/-! Choosing a thread's shard touches only the hints. -/

@[simp] theorem shardOf_caches : (p.shardOf t).1.caches = p.caches := by
  unfold shardOf; split <;> rfl
@[simp] theorem shardOf_shards : (p.shardOf t).1.shards = p.shards := by
  unfold shardOf; split <;> rfl
@[simp] theorem shardOf_headers : (p.shardOf t).1.headers = p.headers := by
  unfold shardOf; split <;> rfl
@[simp] theorem shardOf_created : (p.shardOf t).1.created = p.created := by
  unfold shardOf; split <;> rfl
@[simp] theorem shardOf_limit : (p.shardOf t).1.limit = p.limit := by
  unfold shardOf; split <;> rfl
@[simp] theorem shardOf_outstanding : (p.shardOf t).1.outstanding = p.outstanding := by
  unfold shardOf; split <;> rfl
@[simp] theorem shardOf_usable : (p.shardOf t).1.usable = p.usable := by
  unfold shardOf; split <;> rfl
@[simp] theorem shardOf_guard : (p.shardOf t).1.guard = p.guard := by
  unfold shardOf; split <;> rfl
@[simp] theorem shardOf_bases : (p.shardOf t).1.bases = p.bases := by
  unfold shardOf; split <;> rfl
@[simp] theorem cacheOf_shardOf : (p.shardOf t).1.cacheOf t' = p.cacheOf t' := by
  simp [cacheOf]
@[simp] theorem shard_shardOf : (p.shardOf t).1.shard i = p.shard i := by
  simp [shard]

/-- Every shard hint names a shard. -/
def HintsValid (p : Pool) : Prop := ∀ e ∈ p.hints, e.2 < shardCount

theorem HintsValid.shardOf (h : p.HintsValid) :
    (p.shardOf t).1.HintsValid ∧ (p.shardOf t).2 < shardCount := by
  unfold Pool.shardOf
  split
  next i hi => exact ⟨h, h _ (Keyed.mem_of_lookup hi)⟩
  next =>
    refine ⟨fun e he => ?_, Nat.mod_lt _ (by decide)⟩
    rcases Keyed.mem_set he with he | rfl
    · exact h e he
    · exact Nat.mod_lt _ (by decide)

theorem spare_setCache (hs : Keyed.Ascending p.caches) (c : List Nat) :
    (p.setCache t c).spare ++ p.cacheOf t ~ c ++ p.spare := by
  have h := (Keyed.values_set (k := t) (c := c) hs).append_right p.shards.flatten
  simp only [spare, setCache, cacheOf, List.append_assoc] at h ⊢
  refine List.Perm.trans ?_ h
  rw [List.perm_append_left_iff]
  exact List.perm_append_comm

theorem spare_setShard (h : i < p.shards.length) (c : List Nat) :
    (p.setShard i c).spare ++ p.shard i ~ c ++ p.spare := by
  have hp := (flatten_set_perm h c).append_left (Keyed.values p.caches)
  simp only [spare, setShard, shard, List.append_assoc] at hp ⊢
  refine hp.trans ?_
  rw [← List.append_assoc, ← List.append_assoc]
  exact List.perm_append_comm.append_right _

@[simp] theorem spare_shardOf : (p.shardOf t).1.spare = p.spare := by simp [spare]

/-! The slots put to use. -/

/-- The carved slots put to use: what carving kept of every carved slot, a slot whose guard
page the system did not protect being left out. -/
def inUse (p : Pool) : List Nat := p.carve (List.range p.created)

theorem lt_of_mem_inUse (h : i ∈ p.inUse) : i < p.created :=
  List.mem_range.1 (List.mem_of_mem_filter h)

theorem nodup_inUse : p.inUse.Nodup := List.nodup_range.filter _

/-! Caches, shards, hints and headers leave alone where a slot lies and whether the system
protected its guard page. -/

@[simp] theorem inUse_setCache (c : List Nat) : (p.setCache t c).inUse = p.inUse := rfl
@[simp] theorem inUse_setShard (c : List Nat) : (p.setShard i c).inUse = p.inUse := rfl
@[simp] theorem inUse_shardOf : (p.shardOf t).1.inUse = p.inUse := by
  unfold shardOf; split <;> rfl

/-! Headers. -/

theorem header_setOwner_slot (o : Option Nat) :
    (p.setOwner (.slot i) o).1.header j =
      if j = i then { p.header i with owner := o } else p.header j := by
  split_ifs with h
  · subst h; simp [setOwner, header]
  · simp [setOwner, header, Keyed.lookup_set_ne h]

@[simp] theorem setOwner_slot_snd (o : Option Nat) : (p.setOwner (.slot i) o).2 = .slot i := rfl

/-! Recording an owner touches only headers. -/

@[simp] theorem setOwner_created (s : PoolStack) (o : Option Nat) :
    (p.setOwner s o).1.created = p.created := by cases s <;> rfl
@[simp] theorem setOwner_outstanding (s : PoolStack) (o : Option Nat) :
    (p.setOwner s o).1.outstanding = p.outstanding := by cases s <;> rfl
@[simp] theorem setOwner_caches (s : PoolStack) (o : Option Nat) :
    (p.setOwner s o).1.caches = p.caches := by cases s <;> rfl
@[simp] theorem setOwner_spare (s : PoolStack) (o : Option Nat) :
    (p.setOwner s o).1.spare = p.spare := by cases s <;> rfl
@[simp] theorem setOwner_inUse (s : PoolStack) (o : Option Nat) :
    (p.setOwner s o).1.inUse = p.inUse := by cases s <;> rfl

end Pool

/-! ## 3. One call -/

theorem except_ok_bind {ε α β : Type} (a : α) (f : α → Except ε β) :
    (Except.ok a >>= f) = f a := rfl

theorem except_error_bind {ε α β : Type} (e : ε) (f : α → Except ε β) :
    (Except.error e >>= f) = .error e := rfl

namespace Pool

variable {p q r : Pool} {t t' i home : Nat} {fresh batch : List Nat} {held : List PoolStack}

/-- A growth carves nothing, or maps a chunk of the next `min 32 (limit - created)` slots on a
4 MiB boundary and puts to use the slots that carving keeps. -/
theorem grow_cases (h : p.grow = .ok (q, fresh)) :
    (q = p ∧ fresh = []) ∨
    (0 < min transferBatch (p.limit - p.created) ∧ ∃ raw,
      q = p.addChunk (min transferBatch (p.limit - p.created)) (alignUp raw chunkAlignment) ∧
      fresh = q.carve (List.range' p.created (min transferBatch (p.limit - p.created)))) := by
  rw [grow] at h
  generalize min transferBatch (p.limit - p.created) = n at h ⊢
  split_ifs at h with h0
  · cases h
    exact .inl ⟨rfl, rfl⟩
  -- each word computation either panics, which is no `ok`, or feeds the next
  cases ha : Stack.addWord p.usable p.guard with
  | error e => rw [ha, except_error_bind] at h; cases h
  | ok slot =>
  rw [ha, except_ok_bind] at h
  cases hm : Stack.mulWord slot n with
  | error e => rw [hm, except_error_bind] at h; cases h
  | ok len =>
  rw [hm, except_ok_bind] at h
  cases hr : Stack.addWord len chunkAlignment with
  | error e => rw [hr, except_error_bind] at h; cases h
  | ok reserve =>
  rw [hr, except_ok_bind] at h
  cases hm : p.kernel.map reserve with
  | none =>
    rw [hm] at h
    cases h
    exact .inl ⟨rfl, rfl⟩
  | some raw =>
    rw [hm] at h
    cases h
    exact .inr ⟨Nat.pos_of_ne_zero h0, raw, rfl, rfl⟩

/-- Every shard is reached from any home: shard `i` is `(home + off) % 8` for some offset. -/
theorem mem_shardOrder (home : Nat) (hi : i < shardCount) :
    i ∈ (List.range shardCount).map (fun off => (home + off) % shardCount) := by
  refine List.mem_map.2 ⟨(i + shardCount - home % shardCount) % shardCount, ?_, ?_⟩
  · simp only [List.mem_range]
    exact Nat.mod_lt _ (by decide)
  · simp only [shardCount] at hi ⊢
    omega

theorem firstStocked_some (h : p.firstStocked home = some i) :
    i < shardCount ∧ p.shard i ≠ [] := by
  unfold firstStocked at h
  have hi := List.mem_of_find?_eq_some h
  have hs := List.find?_some h
  obtain ⟨off, -, rfl⟩ := List.mem_map.1 hi
  refine ⟨Nat.mod_lt _ (by decide), ?_⟩
  simpa using hs

theorem firstStocked_none (h : p.firstStocked home = none) (hi : i < shardCount) :
    p.shard i = [] := by
  unfold firstStocked at h
  have := List.find?_eq_none.1 h i (mem_shardOrder home hi)
  simpa using this

/-- A refill takes the top (at most 32) of the first stocked shard from home, or grows when
every shard is empty. -/
theorem refill_cases (h : p.refill home = .ok (q, batch)) :
    (∃ i, i < shardCount ∧ p.shard i ≠ [] ∧
      q = p.setShard i ((p.shard i).take ((p.shard i).length - transferBatch)) ∧
      batch = (p.shard i).drop ((p.shard i).length - transferBatch)) ∨
    ((∀ i < shardCount, p.shard i = []) ∧ p.grow = .ok (q, batch)) := by
  unfold refill at h
  split at h
  next i hi =>
    cases h
    exact .inl ⟨i, (firstStocked_some hi).1, (firstStocked_some hi).2, rfl, rfl⟩
  next hn => exact .inr ⟨fun i hi => firstStocked_none hn hi, h⟩

/-- Filling a cache: a thread with stacks keeps its cache; an empty one takes a refill,
its shard chosen first. -/
theorem fillCache_cases (h : (p.fillCache t).2 = .ok q) :
    (p.cacheOf t ≠ [] ∧ q = p.setCache t (p.cacheOf t)) ∨
    (p.cacheOf t = [] ∧ ∃ r batch,
      ((p.setCache t []).shardOf t).1.refill ((p.setCache t []).shardOf t).2 = .ok (r, batch) ∧
      q = r.setCache t batch) := by
  unfold fillCache at h
  by_cases hc : p.cacheOf t = []
  · rw [hc] at h
    simp only [cacheOf_setCache_self, List.isEmpty_nil, if_true] at h
    refine .inr ⟨hc, ?_⟩
    cases hr : ((p.setCache t []).shardOf t).1.refill ((p.setCache t []).shardOf t).2 with
    | error e => simp [hr] at h
    | ok res =>
      rw [hr] at h
      cases h
      exact ⟨res.1, res.2, rfl, rfl⟩
  · have : (p.cacheOf t).isEmpty = false := by simpa using hc
    simp only [cacheOf_setCache_self, this] at h
    cases h
    exact .inl ⟨hc, rfl⟩

/-- The pool after a fill that panicked: the thread's cache made (empty) and its shard
chosen. -/
theorem fillCache_error {a : Abort} (h : (p.fillCache t).2 = .error a) :
    p.cacheOf t = [] ∧ (p.fillCache t).1 = ((p.setCache t []).shardOf t).1 := by
  unfold fillCache at h ⊢
  by_cases hc : p.cacheOf t = []
  · rw [hc] at h ⊢
    simp
  · have : (p.cacheOf t).isEmpty = false := by simpa using hc
    simp only [cacheOf_setCache_self, this] at h
    cases h

/-- What an allocation does: the fill panics; or the top of the filled cache is handed out;
or, the filled cache being empty, a dedicated mapping is tried. -/
theorem allocate_cases {p' : Pool} {res : Except Abort (Option PoolStack)}
    (h : p.allocate t = (p', res)) :
    (∃ a, (p.fillCache t).2 = .error a ∧ res = .error a ∧ p' = (p.fillCache t).1) ∨
    (∃ q, (p.fillCache t).2 = .ok q ∧
      ((∃ c s, q.cacheOf t = c ++ [s] ∧
          p' = { q.setCache t c with outstanding := q.outstanding + 1 } ∧
          res = .ok (some (.slot s))) ∨
       (q.cacheOf t = [] ∧
          ((∃ a, res = .error a ∧ p' = q) ∨ (res = .ok none ∧ p' = q) ∨
           (∃ st, Stack.allocateSystem q.kernel q.usable (q.guard ≠ 0) = .ok (some st) ∧
              res = .ok (some (.system st)) ∧ p' = { q with outstanding := q.outstanding + 1 }))))) := by
  unfold allocate at h
  cases hf : p.fillCache t with
  | mk p₁ e =>
  rw [hf] at h
  cases e with
  | error a => cases h; exact .inl ⟨a, rfl, rfl, rfl⟩
  | ok q =>
  refine .inr ⟨q, rfl, ?_⟩
  simp only at h
  cases hl : (q.cacheOf t).getLast? with
  | some s =>
    rw [hl] at h
    cases h
    refine .inl ⟨(q.cacheOf t).dropLast, s, ?_, rfl, rfl⟩
    exact (List.dropLast_append_getLast? _ hl).symm
  | none =>
    rw [hl] at h
    refine .inr ⟨List.getLast?_eq_none_iff.1 hl, ?_⟩
    cases hs : Stack.allocateSystem q.kernel q.usable (q.guard ≠ 0) with
    | error a => rw [hs] at h; cases h; exact .inl ⟨a, rfl, rfl⟩
    | ok o =>
      rw [hs] at h
      cases o with
      | none => cases h; exact .inr (.inl ⟨rfl, rfl⟩)
      | some st => cases h; exact .inr (.inr ⟨st, rfl, rfl, rfl⟩)

end Pool

/-! ## 4. The invariant -/

namespace PoolStack

/-- The carve number of a carved stack. -/
def slot? : PoolStack → Option Nat
  | .slot i => some i
  | .system _ => none

end PoolStack

/-- A call on a pool by one of its users. -/
inductive PoolCall where
  /-- Thread `t` allocates, and its user keeps the stack it gets. -/
  | alloc (t : Nat)
  /-- Thread `t` frees a stack that a user holds. -/
  | free (t : Nat) (s : PoolStack)
  /-- Thread `t` ends. -/
  | exit (t : Nat)
  /-- The runtime records `owner` in the header of a stack that a user holds. -/
  | own (s : PoolStack) (owner : Option Nat)
  deriving Inhabited, Repr

namespace PoolCall

/-- The thread whose cache a call may touch. -/
def thread? : PoolCall → Option Nat
  | .alloc t | .free t _ | .exit t => some t
  | .own _ _ => none

end PoolCall

namespace Pool

variable {p q r : Pool} {t t' i home n b : Nat} {c : List Nat} {held : List PoolStack}

/-- The pool, and the stacks its users hold, after one call. A call about a stack that no
user holds is not made. -/
def serve (p : Pool) (held : List PoolStack) : PoolCall → Pool × List PoolStack
  | .alloc t =>
    match p.allocate t with
    | (p, .ok (some s)) => (p, s :: held)
    | (p, _) => (p, held)
  | .free t s => if s ∈ held then (p.deallocate t s, held.erase s) else (p, held)
  | .exit t => (p.exitThread t, held)
  | .own s o =>
    if s ∈ held then
      let (p, s') := p.setOwner s o
      (p, s' :: held.erase s)
    else (p, held)

theorem serve_alloc : p.serve held (.alloc t) =
    match p.allocate t with
    | (p, .ok (some s)) => (p, s :: held)
    | (p, _) => (p, held) := rfl

theorem serve_free (s : PoolStack) :
    p.serve held (.free t s) = if s ∈ held then (p.deallocate t s, held.erase s) else (p, held) :=
  rfl

theorem serve_exit : p.serve held (.exit t) = (p.exitThread t, held) := rfl

theorem serve_own (s : PoolStack) (o : Option Nat) :
    p.serve held (.own s o) =
      if s ∈ held then ((p.setOwner s o).1, (p.setOwner s o).2 :: held.erase s) else (p, held) :=
  rfl

/-- Calls one after the other. -/
def serveAll (p : Pool) (held : List PoolStack) (calls : List PoolCall) :
    Pool × List PoolStack :=
  calls.foldl (fun st c => st.1.serve st.2 c) (p, held)

/-- The pools, with the stacks their users hold, that calls on a new pool reach. -/
inductive Reachable : Pool → List PoolStack → Prop
  | create {k : Kernel} {stackSize : Nat} {guardPage : Bool} {limit : Nat} {p : Pool} :
      Pool.create k stackSize guardPage limit = .ok p → Reachable p []
  | serve {p : Pool} {held : List PoolStack} (c : PoolCall) :
      Reachable p held → Reachable (p.serve held c).1 (p.serve held c).2

/-- Every carved stack by its place: held by a user, or spare. -/
def placed (p : Pool) (held : List PoolStack) : List Nat :=
  held.filterMap PoolStack.slot? ++ p.spare

/-- How a pool is laid out, whoever holds its stacks. -/
structure Shape (p : Pool) : Prop where
  shards_length : p.shards.length = shardCount
  hints : p.HintsValid
  ascending : Keyed.Ascending p.caches
  caches_le : ∀ e ∈ p.caches, e.2.length ≤ highWater
  created_le : p.created ≤ p.limit
  keys : p.headers.map Prod.fst = List.range p.created
  marked : ∀ e ∈ p.headers, e.2.magic = Stack.magic
  /-- Every slot starts a whole number of slots above a 4 MiB boundary. -/
  based : ∀ e ∈ p.bases, ∃ c j, e.2 = c * chunkAlignment + j * (p.usable + p.guard)

/-- The invariant: every carved stack put to use is in exactly one place, the spare ones have
no owner, and the pool counts the stacks its users hold. -/
structure Sound (p : Pool) (held : List PoolStack) : Prop extends p.Shape where
  placed_perm : p.placed held ~ p.inUse
  unowned : ∀ i ∈ p.spare, (p.header i).owner = none
  outstanding_eq : p.outstanding = held.length

/-! ### The layout -/

theorem Shape.setCache (hp : p.Shape) (hc : c.length ≤ highWater) : (p.setCache t c).Shape where
  shards_length := hp.shards_length
  hints := hp.hints
  ascending := hp.ascending.set
  caches_le e he := by
    rcases Keyed.mem_set he with he | rfl
    · exact hp.caches_le e he
    · exact hc
  created_le := hp.created_le
  keys := hp.keys
  marked := hp.marked
  based := hp.based

theorem Shape.setShard (hp : p.Shape) (c : List Nat) : (p.setShard i c).Shape where
  shards_length := by simpa using hp.shards_length
  hints := hp.hints
  ascending := hp.ascending
  caches_le := hp.caches_le
  created_le := hp.created_le
  keys := hp.keys
  marked := hp.marked
  based := hp.based

theorem Shape.shardOf (hp : p.Shape) : (p.shardOf t).1.Shape where
  shards_length := by simpa using hp.shards_length
  hints := hp.hints.shardOf.1
  ascending := by simpa using hp.ascending
  caches_le := by simpa using hp.caches_le
  created_le := by simpa using hp.created_le
  keys := by simpa using hp.keys
  marked := by simpa using hp.marked
  based := by simpa using hp.based

theorem Shape.outstanding (hp : p.Shape) (n : Nat) : { p with outstanding := n }.Shape :=
  ⟨hp.1, hp.2, hp.3, hp.4, hp.5, hp.6, hp.7, hp.8⟩

theorem Shape.cacheOf_le (hp : p.Shape) (t : Nat) : (p.cacheOf t).length ≤ highWater := by
  unfold cacheOf
  cases h : p.caches.lookup t with
  | none => simp [highWater]
  | some c => exact hp.caches_le _ (Keyed.mem_of_lookup h)

theorem Shape.shard_lt (hp : p.Shape) (h : i < shardCount) : i < p.shards.length := by
  rw [hp.shards_length]; exact h

/-- A carved stack's header holds the marker. -/
theorem Shape.magic (hp : p.Shape) (hi : i < p.created) : (p.header i).magic = Stack.magic := by
  have hk : i ∈ p.headers.map Prod.fst := by rw [hp.keys]; exact List.mem_range.2 hi
  obtain ⟨⟨k, h⟩, he, rfl⟩ := List.mem_map.1 hk
  have hl : (p.headers.lookup k).isSome := List.lookup_isSome_iff.2 ⟨_, he, by simp⟩
  obtain ⟨h', hh'⟩ := Option.isSome_iff_exists.1 hl
  simp only [header, hh', Option.getD_some]
  exact hp.marked _ (Keyed.mem_of_lookup hh')

/-! ### Moving spare stacks around -/

theorem Sound.nodup (hp : p.Sound held) : (p.placed held).Nodup :=
  hp.placed_perm.nodup_iff.2 nodup_inUse

/-- A pool whose spare stacks only moved, with the same slots in use, headers and counts. -/
theorem Sound.of_perm (hp : p.Sound held) (hq : q.Shape) (hu : q.inUse = p.inUse)
    (hh : q.headers = p.headers) (ho : q.outstanding = p.outstanding) (hs : q.spare ~ p.spare) :
    q.Sound held where
  toShape := hq
  placed_perm := by
    rw [hu]
    exact ((List.perm_append_left_iff _).2 hs).trans hp.placed_perm
  unowned i hi := by
    simpa [header, hh] using hp.unowned i (hs.subset hi)
  outstanding_eq := by rw [ho, hp.outstanding_eq]

theorem spare_setCache_self (hs : Keyed.Ascending p.caches) :
    (p.setCache t (p.cacheOf t)).spare ~ p.spare :=
  (List.perm_append_right_iff _).1 ((spare_setCache hs _).trans List.perm_append_comm)

/-- Making a thread's (empty) cache and choosing its shard moves nothing. -/
theorem Sound.prepare (hp : p.Sound held) (hc : p.cacheOf t = []) :
    ((p.setCache t []).shardOf t).1.Sound held := by
  have hs := spare_setCache_self (t := t) hp.ascending
  rw [hc] at hs
  exact hp.of_perm ((hp.setCache (by simp)).shardOf) (by simp) (by simp) (by simp)
    (by simpa using hs)

/-! ### A new chunk -/

@[simp] theorem addChunk_created : (p.addChunk n b).created = p.created + n := rfl
@[simp] theorem addChunk_usable : (p.addChunk n b).usable = p.usable := rfl
@[simp] theorem addChunk_guard : (p.addChunk n b).guard = p.guard := rfl
@[simp] theorem addChunk_limit : (p.addChunk n b).limit = p.limit := rfl
@[simp] theorem cacheOf_addChunk : (p.addChunk n b).cacheOf t = p.cacheOf t := rfl

theorem dvd_alignUp (a align : Nat) : align ∣ alignUp a align := Nat.dvd_mul_left _ _

/-- A chunk's slots are keyed from the carved count up, so a lookup of a slot carved before
misses them. -/
theorem lookup_range'_of_lt {α : Type} {c : Nat} (f : Nat → α) (hi : i < c) :
    ((List.range' c n).map (fun j => (j, f j))).lookup i = none := by
  rw [List.lookup_eq_none_iff]
  intro e he
  obtain ⟨j, hj, rfl⟩ := List.mem_map.1 he
  have := (List.mem_range'_1.1 hj).1
  simp only [bne_iff_ne, ne_eq]
  omega

theorem lookup_map_const {α : Type} {l : List Nat} {v : α} (hi : i ∈ l) :
    (l.map (·, v)).lookup i = some v := by
  induction l with
  | nil => simp at hi
  | cons j l ih =>
    simp only [List.map_cons, Keyed.lookup_cons_eq]
    split_ifs with h
    · rfl
    · exact ih (by simpa [h] using hi)

theorem header_addChunk_of_lt (hi : i < p.created) : (p.addChunk n b).header i = p.header i := by
  simp only [header, addChunk, List.lookup_append, lookup_range'_of_lt _ hi, Option.or_none]

theorem baseOf_addChunk_of_lt (hi : i < p.created) : (p.addChunk n b).baseOf i = p.baseOf i := by
  simp only [baseOf, addChunk, List.lookup_append, lookup_range'_of_lt _ hi, Option.or_none]

/-- The slot's header of a new chunk is stamped, none being recorded for it before. -/
theorem header_addChunk_fresh (hk : p.headers.lookup i = none) (hi : i ∈ List.range' p.created n) :
    (p.addChunk n b).header i = Stack.stamped := by
  simp only [header, addChunk, List.lookup_append, hk, lookup_map_const hi, Option.none_or,
    Option.getD_some]

/-- The slots carved before a new chunk keep where they lie, so carving keeps them as before. -/
theorem carve_addChunk_inUse : (p.addChunk n b).carve (List.range p.created) = p.inUse := by
  refine List.filter_congr fun i hi => ?_
  show ((p.addChunk n b).guard == 0 ||
      (p.addChunk n b).kernel.protect ((p.addChunk n b).baseOf i)) =
    (p.guard == 0 || p.kernel.protect (p.baseOf i))
  rw [baseOf_addChunk_of_lt (List.mem_range.1 hi)]
  rfl

/-- A new chunk puts to use the slots carving keeps of it, besides those in use before. -/
theorem inUse_addChunk :
    (p.addChunk n b).inUse = p.inUse ++ (p.addChunk n b).carve (List.range' p.created n) := by
  have hr : List.range (p.created + n) = List.range p.created ++ List.range' p.created n := by
    rw [List.range_eq_range', List.range_eq_range', ← List.range'_append_1, Nat.zero_add]
  rw [← carve_addChunk_inUse (p := p) (n := n) (b := b)]
  show List.filter _ (List.range (p.created + n)) = _
  rw [hr, List.filter_append]
  rfl

/-- A header past the carved count is not recorded. -/
theorem Shape.lookup_eq_none (hp : p.Shape) (hi : p.created ≤ i) : p.headers.lookup i = none := by
  rw [List.lookup_eq_none_iff]
  intro e he
  have : e.1 ∈ List.range p.created := by rw [← hp.keys]; exact List.mem_map_of_mem he
  have := List.mem_range.1 this
  simp only [bne_iff_ne, ne_eq]
  omega

/-- A new chunk keeps the layout: its slots are keyed after the carved ones, stamped, and start
whole slots above the chunk's 4 MiB boundary. -/
theorem Shape.addChunk (hp : p.Shape) (hlim : p.created + n ≤ p.limit) (hb : chunkAlignment ∣ b) :
    (p.addChunk n b).Shape where
  shards_length := hp.shards_length
  hints := hp.hints
  ascending := hp.ascending
  caches_le := hp.caches_le
  created_le := hlim
  keys := by
    simp only [Pool.addChunk, List.map_append, List.map_map, hp.keys]
    rw [List.range_eq_range', List.range_eq_range', ← List.range'_append_1]
    simp [Function.comp_def]
  marked e he := by
    rcases List.mem_append.1 he with he | he
    · exact hp.marked e he
    · obtain ⟨i, -, rfl⟩ := List.mem_map.1 he
      rfl
  based e he := by
    rcases List.mem_append.1 he with he | he
    · exact hp.based e he
    · -- a fresh slot lies `i - created` slots above the chunk's boundary
      obtain ⟨i, -, rfl⟩ := List.mem_map.1 he
      obtain ⟨c, rfl⟩ := hb
      exact ⟨c, i - p.created, by rw [Nat.mul_comm c]; rfl⟩

/-- A new chunk of `n` slots on a 4 MiB boundary: the slots carving keeps go to the empty cache
of thread `t`, and the others count as carved and stay unused. -/
theorem Sound.carve (hp : p.Sound held) (hc : p.cacheOf t = []) (hn : n ≤ transferBatch)
    (hlim : p.created + n ≤ p.limit) (hbase : chunkAlignment ∣ b) :
    ((p.addChunk n b).setCache t
        ((p.addChunk n b).carve (List.range' p.created n))).Sound held := by
  set fresh := List.range' p.created n
  set g := p.addChunk n b
  have hkept : g.carve fresh ⊆ fresh := List.filter_subset_self _
  have hshape : g.Shape := hp.addChunk hlim hbase
  have hspare : (g.setCache t (g.carve fresh)).spare ~ p.spare ++ g.carve fresh := by
    have h := spare_setCache (t := t) hshape.ascending (g.carve fresh)
    have hg : g.cacheOf t = [] := hc
    rw [hg, List.append_nil] at h
    exact h.trans List.perm_append_comm
  have hlen : (g.carve fresh).length ≤ highWater := by
    have := List.length_filter_le (fun i => (g.slotStack i).protectGuard g.kernel) fresh
    simp only [fresh, List.length_range', highWater, transferBatch] at this hn ⊢
    exact le_trans this (by omega)
  refine ⟨hshape.setCache hlen, ?_, ?_, ?_⟩
  · show _ ~ g.inUse
    rw [inUse_addChunk]
    refine List.Perm.trans ?_ (hp.placed_perm.append_right (g.carve fresh))
    simp only [placed, List.append_assoc]
    exact (List.perm_append_left_iff _).2 hspare
  · -- a slot carved before keeps its header; a fresh one is stamped
    intro i hi
    rcases List.mem_append.1 (hspare.subset hi) with hi | hi
    · have hlt : i < p.created :=
        lt_of_mem_inUse (hp.placed_perm.subset (List.mem_append_right _ hi))
      have hh : (g.setCache t (g.carve fresh)).header i = p.header i :=
        header_addChunk_of_lt (n := n) (b := b) hlt
      rw [hh]
      exact hp.unowned i hi
    · have hf := hkept hi
      have hh : (g.setCache t (g.carve fresh)).header i = Stack.stamped :=
        header_addChunk_fresh (b := b) (hp.lookup_eq_none (List.mem_range'_1.1 hf).1) hf
      rw [hh]
      rfl
  · exact hp.outstanding_eq

end Pool

namespace Pool

variable {p q : Pool} {t i j : Nat} {c : List Nat} {s : PoolStack} {held : List PoolStack}

theorem Shape.headers_ascending (hp : p.Shape) : Keyed.Ascending p.headers := by
  unfold Keyed.Ascending
  rw [← List.pairwise_map (R := (· < ·)), hp.keys]
  exact List.pairwise_lt_range

theorem Sound.lt_created (hp : p.Sound held) (hi : i ∈ held.filterMap PoolStack.slot?) :
    i < p.created :=
  lt_of_mem_inUse (hp.placed_perm.subset (List.mem_append_left _ hi))

/-- A stack a user holds is not spare. -/
theorem Sound.not_spare (hp : p.Sound held) (hi : i ∈ held.filterMap PoolStack.slot?) :
    i ∉ p.spare := fun hs =>
  List.disjoint_of_nodup_append hp.nodup hi hs

theorem slot_mem_filterMap (hs : PoolStack.slot i ∈ held) :
    i ∈ held.filterMap PoolStack.slot? :=
  List.mem_filterMap.2 ⟨_, hs, rfl⟩

/-- The slots held after a user gives up a held stack. -/
theorem filterMap_erase_perm (hs : s ∈ held) :
    held.filterMap PoolStack.slot? ~ (s.slot?).toList ++ (held.erase s).filterMap PoolStack.slot? := by
  have := (List.perm_cons_erase hs).filterMap PoolStack.slot?
  cases s <;> simpa [PoolStack.slot?, List.filterMap_cons] using this

/-- A refill only moves spare stacks into the cache, or carves new ones into it. -/
theorem Sound.fillCache (hp : p.Sound held) (h : (p.fillCache t).2 = .ok q) : q.Sound held := by
  rcases fillCache_cases h with ⟨-, rfl⟩ | ⟨hc, r, batch, hr, rfl⟩
  · exact hp.of_perm (hp.setCache (hp.cacheOf_le t)) rfl rfl rfl
      (spare_setCache_self hp.ascending)
  set p₁ := ((p.setCache t []).shardOf t).1
  have h₁ : p₁.Sound held := hp.prepare hc
  have hc₁ : p₁.cacheOf t = [] := by simp [p₁]
  rcases refill_cases hr with ⟨i, hi, -, rfl, rfl⟩ | ⟨-, hg⟩
  · -- the top (at most 32) of shard `i` becomes the cache
    set sh := p₁.shard i
    set keep := sh.length - transferBatch
    have hs₁ : (p₁.setShard i (sh.take keep)).spare ++ sh.take keep ++ sh.drop keep ~
        sh.take keep ++ p₁.spare := by
      rw [List.append_assoc, List.take_append_drop]
      exact spare_setShard (h₁.shard_lt hi) (sh.take keep)
    have hs₂ := spare_setCache (t := t) (h₁.setShard (i := i) (sh.take keep)).ascending
      (sh.drop keep)
    rw [cacheOf_setShard, hc₁, List.append_nil] at hs₂
    refine h₁.of_perm ((h₁.setShard _).setCache ?_) rfl rfl rfl ?_
    · simp only [List.length_drop, keep, highWater, transferBatch]; omega
    have h₃ : (p₁.setShard i (sh.take keep)).spare ++ sh.drop keep ~ p₁.spare := by
      refine (List.perm_append_left_iff (sh.take keep)).1 (List.Perm.trans ?_ hs₁)
      rw [← List.append_assoc]
      exact List.perm_append_comm.append_right _
    exact hs₂.trans (List.perm_append_comm.trans h₃)
  · rcases grow_cases hg with ⟨rfl, rfl⟩ | ⟨-, raw, rfl, rfl⟩
    · have hs := spare_setCache (t := t) h₁.ascending []
      rw [hc₁] at hs
      exact h₁.of_perm (h₁.setCache (by simp)) rfl rfl rfl (by simpa using hs)
    · have hle : p₁.created ≤ p₁.limit := h₁.created_le
      exact h₁.carve hc₁ (Nat.min_le_left _ _) (by omega) (dvd_alignUp raw chunkAlignment)

/-- A fill that panicked leaves the cache made and the shard chosen. -/
theorem Sound.fillCache_error {a : Abort} (hp : p.Sound held)
    (h : (p.fillCache t).2 = .error a) : (p.fillCache t).1.Sound held := by
  obtain ⟨hc, he⟩ := Pool.fillCache_error h
  rw [he]
  exact hp.prepare hc

/-- Handing out the top of a cache. -/
theorem Sound.take {st : Nat} (hp : q.Sound held) (hc : q.cacheOf t = c ++ [st]) :
    { q.setCache t c with outstanding := q.outstanding + 1 }.Sound (.slot st :: held) := by
  have hlen : c.length ≤ highWater := by
    have := hp.cacheOf_le t
    rw [hc, List.length_append] at this
    omega
  have h := spare_setCache (t := t) hp.ascending c
  rw [hc] at h
  -- the cache lost its top: the rest of the spare stacks are the old ones but `st`
  have hrest : (q.setCache t c).spare ++ [st] ~ q.spare := by
    refine (List.perm_append_left_iff c).1 (List.Perm.trans ?_ h)
    rw [← List.append_assoc, ← List.append_assoc]
    exact List.perm_append_comm.append_right _
  refine ⟨(hp.setCache hlen).outstanding _, ?_, ?_, ?_⟩
  · show (PoolStack.slot st :: held).filterMap PoolStack.slot? ++ (q.setCache t c).spare ~ _
    refine List.Perm.trans ?_ hp.placed_perm
    simp only [List.filterMap_cons, PoolStack.slot?, placed]
    refine List.Perm.trans ?_ ((List.perm_append_left_iff _).2 hrest)
    rw [← List.append_assoc]
    exact (List.perm_append_singleton _ _).symm.trans (by simp)
  · intro i hi
    exact hp.unowned i (hrest.subset (List.mem_append_left _ hi))
  · simp [hp.outstanding_eq]

/-- Handing out a dedicated mapping. -/
theorem Sound.system (hp : q.Sound held) (st : Stack) :
    { q with outstanding := q.outstanding + 1 }.Sound (.system st :: held) where
  toShape := hp.outstanding _
  placed_perm := by
    show (PoolStack.system st :: held).filterMap PoolStack.slot? ++ q.spare ~ q.inUse
    simpa [placed, PoolStack.slot?, List.filterMap_cons] using hp.placed_perm
  unowned := hp.unowned
  outstanding_eq := by simp [hp.outstanding_eq]

theorem Sound.alloc (hp : p.Sound held) :
    (p.serve held (.alloc t)).1.Sound (p.serve held (.alloc t)).2 := by
  rw [serve_alloc]
  generalize hA : p.allocate t = x
  obtain ⟨p', res⟩ := x
  rcases allocate_cases hA with ⟨a, ha, rfl, rfl⟩ | ⟨q, hq, hcases⟩
  · exact hp.fillCache_error ha
  have hq' := hp.fillCache hq
  rcases hcases with ⟨c, st, hc, rfl, rfl⟩ | ⟨-, ⟨a, rfl, rfl⟩ | ⟨rfl, rfl⟩ | ⟨st, -, rfl, rfl⟩⟩
  · exact hq'.take hc
  · exact hq'
  · exact hq'
  · exact hq'.system st

end Pool

namespace Pool

variable {p q : Pool} {t t' i j : Nat} {c : List Nat} {s : PoolStack} {held : List PoolStack}

/-- Recording an owner in a carved stack's header keeps the layout. -/
theorem Shape.setOwner (hp : p.Shape) (hi : i < p.created) (o : Option Nat) :
    (p.setOwner (.slot i) o).1.Shape where
  shards_length := hp.shards_length
  hints := hp.hints
  ascending := hp.ascending
  caches_le := hp.caches_le
  created_le := hp.created_le
  keys := by
    show (Keyed.set i { p.header i with owner := o } p.headers).map Prod.fst = _
    rw [Keyed.keys_set hp.headers_ascending (by rw [hp.keys]; exact List.mem_range.2 hi)]
    exact hp.keys
  marked e he := by
    change e ∈ Keyed.set i { p.header i with owner := o } p.headers at he
    rcases Keyed.mem_set he with he | rfl
    · exact hp.marked e he
    · exact hp.magic hi
  based := hp.based

/-- Freeing carved stack `i` on thread `t`: its owner is cleared and it goes on top of the
thread's cache; a cache past 64 sends its 32 most recent stacks to the thread's shard. -/
theorem deallocate_slot_spec (hp : p.Shape) (hi : i < p.created) :
    (p.deallocate t (.slot i)).Shape ∧ (p.deallocate t (.slot i)).spare ~ i :: p.spare ∧
      (p.deallocate t (.slot i)).inUse = p.inUse ∧
      (p.deallocate t (.slot i)).outstanding = p.outstanding - 1 ∧
      ∀ j, (p.deallocate t (.slot i)).header j =
        if j = i then { p.header i with owner := none } else p.header j := by
  unfold deallocate
  dsimp only
  generalize hp₁ : ({ p with outstanding := p.outstanding - 1 }.setOwner (.slot i) none).1 = p₁
  have hhd : ∀ j, p₁.header j = if j = i then { p.header i with owner := none } else p.header j := by
    intro j; rw [← hp₁]; exact header_setOwner_slot none
  have hs₁ : p₁.Shape := by
    rw [← hp₁]
    exact (hp.outstanding (p.outstanding - 1)).setOwner hi none
  have hsp : p₁.spare = p.spare := by subst hp₁; rfl
  have hin : p₁.inUse = p.inUse := by subst hp₁; rfl
  have hout : p₁.outstanding = p.outstanding - 1 := by subst hp₁; rfl
  have hhs : ∀ q : Pool, q.headers = p₁.headers → q.header = p₁.header := by
    intro q hq; funext j; simp [header, hq]
  split_ifs with hbig
  · -- the cache spills its 32 most recent stacks into the thread's shard
    set cache := p₁.cacheOf t ++ [i]
    set keep := cache.length - transferBatch
    have hq₀ := hs₁.setCache (t := t) (c := cache.take keep) (by
      have := hs₁.cacheOf_le t
      simp only [List.length_take, cache, List.length_append, List.length_singleton, keep,
        transferBatch, highWater] at this ⊢
      omega)
    set Q := (p₁.setCache t (cache.take keep)).shardOf t
    have hhome : Q.2 < Q.1.shards.length := by
      rw [hq₀.shardOf.shards_length]; exact hq₀.hints.shardOf.2
    refine ⟨hq₀.shardOf.setShard _, ?_, by simp [Q, hin], by simp [Q, hout], ?_⟩
    · have h₁ := spare_setShard hhome (Q.1.shard Q.2 ++ cache.drop keep)
      have h₂ := spare_setCache (t := t) hs₁.ascending (cache.take keep)
      have h₃ := List.take_append_drop keep cache
      rw [spare_shardOf] at h₁
      rw [← hsp]
      rw [List.perm_iff_count] at h₁ h₂ ⊢
      intro a
      have e₁ := h₁ a
      have e₂ := h₂ a
      have e₃ := congrArg (List.count a) h₃
      simp only [List.count_append, List.count_cons, List.count_nil, cache] at e₁ e₂ e₃ ⊢
      omega
    · intro j
      rw [← hhd j]
      exact congrFun (hhs _ (by simp [Q])) j
  · refine ⟨hs₁.setCache (by simpa using Nat.le_of_not_lt hbig), ?_, by simp [hin],
      by simp [hout], ?_⟩
    · have h₂ := spare_setCache (t := t) hs₁.ascending (p₁.cacheOf t ++ [i])
      rw [← hsp]
      rw [List.perm_iff_count] at h₂ ⊢
      intro a
      have e₂ := h₂ a
      simp only [List.count_append, List.count_cons, List.count_nil] at e₂ ⊢
      omega
    · intro j
      rw [← hhd j]
      exact congrFun (hhs _ (by simp)) j

end Pool

namespace Pool

variable {p q : Pool} {t i j : Nat} {s : PoolStack} {held : List PoolStack}

/-- Freeing a held stack: a carved one becomes spare, a dedicated mapping is unmapped. -/
theorem Sound.free (hp : p.Sound held) (hs : s ∈ held) : (p.deallocate t s).Sound (held.erase s) := by
  have hperm := filterMap_erase_perm hs
  cases s with
  | system st =>
    refine ⟨hp.outstanding _, ?_, hp.unowned, ?_⟩
    · show (held.erase _).filterMap PoolStack.slot? ++ p.spare ~ _
      simp only [PoolStack.slot?, Option.toList_none, List.nil_append] at hperm
      exact ((List.perm_append_right_iff _).2 hperm.symm).trans hp.placed_perm
    · show p.outstanding - 1 = _
      rw [List.length_erase_of_mem hs, hp.outstanding_eq]
  | slot i =>
    have hi : i < p.created := hp.lt_created (slot_mem_filterMap hs)
    have hns : i ∉ p.spare := hp.not_spare (slot_mem_filterMap hs)
    obtain ⟨hshape, hspare, hin, hout, hhd⟩ := deallocate_slot_spec (t := t) hp.toShape hi
    refine ⟨hshape, ?_, ?_, ?_⟩
    · rw [hin]
      refine List.Perm.trans ?_ hp.placed_perm
      simp only [placed]
      refine ((List.perm_append_left_iff _).2 hspare).trans ?_
      simp only [PoolStack.slot?, Option.toList_some, List.singleton_append] at hperm
      exact List.perm_middle.trans (hperm.symm.append_right _)
    · intro j hj
      rw [hhd j]
      rcases List.mem_cons.1 (hspare.subset hj) with rfl | hj
      · simp
      · have hne : j ≠ i := fun h => hns (h ▸ hj)
        simpa [hne] using hp.unowned j hj
    · rw [hout, List.length_erase_of_mem hs, hp.outstanding_eq]

/-- A thread's end sends its cache to its shard. -/
theorem Sound.exit (hp : p.Sound held) : (p.exitThread t).Sound held := by
  unfold exitThread
  split
  next hl =>
    refine hp.of_perm ?_ rfl rfl rfl (List.Perm.refl _)
    exact { hp.toShape with
      hints := fun e he => hp.hints e (Keyed.mem_erase he) }
  next cache hl =>
    have hQ := hp.toShape.shardOf (t := t)
    have hhome : (p.shardOf t).2 < (p.shardOf t).1.shards.length := by
      rw [hQ.shards_length]; exact hp.hints.shardOf.2
    have hq₁ := hQ.setShard (i := (p.shardOf t).2) ((p.shardOf t).1.shard (p.shardOf t).2 ++ cache)
    refine hp.of_perm ?_ ((inUse_setShard (p := (p.shardOf t).1) (i := (p.shardOf t).2)
      ((p.shardOf t).1.shard (p.shardOf t).2 ++ cache)).trans inUse_shardOf)
      (by simp) (by simp) ?_
    · exact
        { shards_length := hq₁.shards_length
          hints := fun e he => hq₁.hints e (Keyed.mem_erase he)
          ascending := by simpa using hp.ascending.erase (k := t)
          caches_le := fun e he => hp.caches_le e (Keyed.mem_erase (by simpa using he))
          created_le := hq₁.created_le
          keys := hq₁.keys
          marked := hq₁.marked
          based := hq₁.based }
    · have h₁ := spare_setShard hhome ((p.shardOf t).1.shard (p.shardOf t).2 ++ cache)
      have h₂ := Keyed.values_erase hl
      rw [spare_shardOf] at h₁
      simp only [spare, setShard_caches, shardOf_caches] at h₁ ⊢
      rw [List.perm_iff_count] at h₁ h₂ ⊢
      intro a
      have e₁ := h₁ a
      have e₂ := h₂ a
      simp only [List.count_append] at e₁ e₂ ⊢
      omega

/-- The runtime recording an owner in a held stack. -/
theorem Sound.own (hp : p.Sound held) (hs : s ∈ held) (o : Option Nat) :
    (p.setOwner s o).1.Sound ((p.setOwner s o).2 :: held.erase s) := by
  have hperm := filterMap_erase_perm hs
  cases s with
  | system st =>
    refine ⟨hp.toShape, ?_, hp.unowned, ?_⟩
    · show (PoolStack.system _ :: held.erase _).filterMap PoolStack.slot? ++ p.spare ~ _
      simp only [PoolStack.slot?, Option.toList_none, List.nil_append] at hperm
      simpa [PoolStack.slot?, List.filterMap_cons, placed] using
        ((List.perm_append_right_iff _).2 hperm.symm).trans hp.placed_perm
    · have := List.length_pos_of_mem hs
      simp only [setOwner_outstanding, List.length_cons, List.length_erase_of_mem hs,
        hp.outstanding_eq]
      omega
  | slot i =>
    have hi : i < p.created := hp.lt_created (slot_mem_filterMap hs)
    have hns : i ∉ p.spare := hp.not_spare (slot_mem_filterMap hs)
    refine ⟨hp.toShape.setOwner hi o, ?_, ?_, ?_⟩
    · show (PoolStack.slot i :: held.erase _).filterMap PoolStack.slot? ++ p.spare ~ _
      simp only [PoolStack.slot?, Option.toList_some, List.singleton_append] at hperm
      simpa [PoolStack.slot?, List.filterMap_cons, placed] using
        ((List.perm_append_right_iff _).2 hperm.symm).trans hp.placed_perm
    · intro j hj
      have hne : j ≠ i := fun h => hns (h ▸ hj)
      rw [header_setOwner_slot, if_neg hne]
      exact hp.unowned j hj
    · show p.outstanding = (held.erase _).length + 1
      rw [List.length_erase_of_mem hs, hp.outstanding_eq]
      have := List.length_pos_of_mem hs
      omega

/-- Every call keeps the invariant. -/
theorem Sound.serve (hp : p.Sound held) (c : PoolCall) :
    (p.serve held c).1.Sound (p.serve held c).2 := by
  cases c with
  | alloc t => exact hp.alloc
  | free t s =>
    rw [serve_free]
    split_ifs with hs
    · exact hp.free hs
    · exact hp
  | exit t => exact hp.exit
  | own s o =>
    rw [serve_own]
    split_ifs with hs
    · exact hp.own hs o
    · exact hp

/-- A new pool holds nothing. -/
theorem sound_create {k : Kernel} {stackSize limit : Nat} {guardPage : Bool}
    (h : Pool.create k stackSize guardPage limit = .ok p) : p.Sound [] := by
  unfold Pool.create at h
  cases hr : Stack.roundUp stackSize k.pageSize with
  | error a => rw [hr, except_error_bind] at h; cases h
  | ok usable =>
    rw [hr, except_ok_bind] at h
    cases h
    refine ⟨⟨by simp [shardCount], fun e he => by simp at he, by simp [Keyed.Ascending],
      fun e he => by simp at he, Nat.zero_le _, rfl, fun e he => by simp at he,
      fun e he => by simp at he⟩, ?_, ?_, rfl⟩
    · simp [placed, spare, Keyed.values, shardCount, inUse, carve]
    · intro i hi
      simp [spare, Keyed.values, shardCount] at hi

theorem Reachable.sound (h : Reachable p held) : p.Sound held := by
  induction h with
  | create h => exact sound_create h
  | serve c _ ih => exact ih.serve c

end Pool

/-! ## 5. What the users see -/

namespace Pool

variable {p q p' : Pool} {t t' i : Nat} {c : List Nat} {held : List PoolStack}

/-! ### When the pool carves -/

/-- A fill changes the carved count only by carving, for the empty cache of a thread that
found every shard empty; a fill that leaves the cache empty found the same and put no new
slot to use. -/
theorem fillCache_carves (h : (p.fillCache t).2 = .ok q) :
    (q.created = p.created ∧ q.cacheOf t ≠ []) ∨
    (p.cacheOf t = [] ∧ (∀ i < shardCount, p.shard i = []) ∧ p.created ≤ q.created ∧
      (q.cacheOf t = [] → q.inUse = p.inUse)) := by
  rcases fillCache_cases h with ⟨hc, rfl⟩ | ⟨hc, r, batch, hr, rfl⟩
  · exact .inl ⟨rfl, by simpa using hc⟩
  rcases refill_cases hr with ⟨i, -, hne, rfl, rfl⟩ | ⟨hall, hg⟩
  · refine .inl ⟨by simp, ?_⟩
    have hpos := List.length_pos_of_ne_nil hne
    rw [cacheOf_setCache_self, Ne, List.drop_eq_nil_iff, transferBatch]
    omega
  · have hall' : ∀ i < shardCount, p.shard i = [] := fun i hi => by simpa using hall i hi
    refine .inr ⟨hc, hall', ?_⟩
    rcases grow_cases hg with ⟨rfl, rfl⟩ | ⟨-, raw, rfl, rfl⟩
    · exact ⟨by simp, fun _ => by simp⟩
    · -- the chunk's slots count as carved; those carving kept make the cache
      refine ⟨by simp, fun hempty => ?_⟩
      rw [cacheOf_setCache_self] at hempty
      rw [inUse_setCache, inUse_addChunk, hempty, List.append_nil]
      simp

theorem fillCache_fst_created : (p.fillCache t).1.created = p.created := by
  unfold fillCache
  dsimp only
  split_ifs <;> simp

/-- An allocation carves only for a thread whose cache and every shard are empty. -/
theorem allocate_created {res : Except Abort (Option PoolStack)} (h : p.allocate t = (p', res)) :
    p.created ≤ p'.created ∧
      (p'.created ≠ p.created → p.cacheOf t = [] ∧ ∀ i < shardCount, p.shard i = []) := by
  rcases allocate_cases h with ⟨a, -, -, rfl⟩ | ⟨q, hq, hrest⟩
  · rw [fillCache_fst_created]
    exact ⟨le_rfl, fun h => absurd rfl h⟩
  have hc : p'.created = q.created := by
    rcases hrest with ⟨c, s, -, rfl, -⟩ | ⟨-, ⟨a, -, rfl⟩ | ⟨-, rfl⟩ | ⟨st, -, -, rfl⟩⟩ <;> rfl
  rw [hc]
  rcases fillCache_carves hq with ⟨he, -⟩ | ⟨hct, hsh, hle, -⟩
  · exact ⟨he.ge, fun h => absurd he h⟩
  · exact ⟨hle, fun _ => ⟨hct, hsh⟩⟩

/-- A dedicated mapping is handed out only to a thread whose cache and every shard are
empty, when no new slot could be put to use. -/
theorem allocate_system {st : Stack} (h : p.allocate t = (p', .ok (some (.system st)))) :
    p.cacheOf t = [] ∧ (∀ i < shardCount, p.shard i = []) ∧ p'.inUse = p.inUse := by
  rcases allocate_cases h with ⟨a, -, he, -⟩ | ⟨q, hq, hrest⟩
  · cases he
  rcases hrest with ⟨c, s, -, -, he⟩ | ⟨hempty, ⟨a, he, -⟩ | ⟨he, -⟩ | ⟨st', -, -, rfl⟩⟩
  · cases he
  · cases he
  · cases he
  rcases fillCache_carves hq with ⟨-, hne⟩ | ⟨hct, hsh, -, hin⟩
  · exact absurd hempty hne
  · exact ⟨hct, hsh, hin hempty⟩

theorem mem_spare_of_cacheOf (h : i ∈ p.cacheOf t) : i ∈ p.spare := by
  unfold cacheOf at h
  cases hl : p.caches.lookup t with
  | none => simp [hl] at h
  | some v =>
    rw [hl, Option.getD_some] at h
    exact List.mem_append_left _ (List.mem_flatMap.2 ⟨(t, v), Keyed.mem_of_lookup hl, h⟩)

theorem eq_stamped {h : StackHeader} (hm : h.magic = Stack.magic) (ho : h.owner = none) :
    h = Stack.stamped := by
  cases h
  simp_all [Stack.stamped]

/-- A dedicated mapping is stamped when it is made. -/
theorem allocateSystem_header {k : Kernel} {size : Nat} {guardPage : Bool} {st : Stack}
    (h : Stack.allocateSystem k size guardPage = .ok (some st)) : st.header = Stack.stamped := by
  unfold Stack.allocateSystem at h
  dsimp only at h
  cases hr : Stack.roundUp size k.pageSize with
  | error a => rw [hr, except_error_bind] at h; cases h
  | ok usable =>
  rw [hr, except_ok_bind] at h
  cases ha : Stack.addWord usable (if guardPage = true then k.pageSize else 0) with
  | error a => rw [ha, except_error_bind] at h; cases h
  | ok len =>
  rw [ha, except_ok_bind] at h
  cases hm : k.map len with
  | none => rw [hm] at h; cases h
  | some base =>
    rw [hm] at h
    dsimp only at h
    split_ifs at h <;> cases h <;> rfl

/-- Every stack handed out carries the marker and no owner. -/
theorem Sound.allocate_stamped {s : PoolStack} (hp : p.Sound held)
    (h : p.allocate t = (p', .ok (some s))) : p'.headerOf s = Stack.stamped := by
  rcases allocate_cases h with ⟨a, -, he, -⟩ | ⟨q, hq, hrest⟩
  · cases he
  have hq' := hp.fillCache hq
  rcases hrest with ⟨c, i, hc, rfl, he⟩ | ⟨-, ⟨a, he, -⟩ | ⟨he, -⟩ | ⟨st, hst, he, rfl⟩⟩
  · cases he
    have hs : i ∈ q.spare := mem_spare_of_cacheOf (by rw [hc]; simp)
    have hlt : i < q.created :=
      lt_of_mem_inUse (hq'.placed_perm.subset (List.mem_append_right _ hs))
    exact eq_stamped (hq'.magic hlt) (hq'.unowned i hs)
  · cases he
  · cases he
  · cases he
    exact allocateSystem_header hst

/-! ### A thread gets back what it freed last -/

theorem fillCache_cacheOf_ne (h : t' ≠ t) :
    (p.fillCache t).1.cacheOf t' = p.cacheOf t' ∧
      ∀ q, (p.fillCache t).2 = .ok q → q.cacheOf t' = p.cacheOf t' := by
  refine ⟨?_, fun q hq => ?_⟩
  · unfold fillCache
    dsimp only
    split_ifs <;> simp [cacheOf_setCache_ne h]
  rcases fillCache_cases hq with ⟨-, rfl⟩ | ⟨-, r, batch, hr, rfl⟩
  · exact cacheOf_setCache_ne h _
  rw [cacheOf_setCache_ne h]
  rcases refill_cases hr with ⟨i, -, -, rfl, -⟩ | ⟨-, hg⟩
  · simp [cacheOf_setCache_ne h]
  · rcases grow_cases hg with ⟨rfl, -⟩ | ⟨-, -, rfl, -⟩
    · simp [cacheOf_setCache_ne h]
    · show ((p.setCache t []).shardOf t).1.cacheOf t' = _
      rw [cacheOf_shardOf, cacheOf_setCache_ne h]

theorem allocate_cacheOf_ne {res : Except Abort (Option PoolStack)} (h : t' ≠ t)
    (hA : p.allocate t = (p', res)) : p'.cacheOf t' = p.cacheOf t' := by
  have hf := fillCache_cacheOf_ne (p := p) h
  rcases allocate_cases hA with ⟨a, -, -, rfl⟩ | ⟨q, hq, hrest⟩
  · exact hf.1
  have hq' := hf.2 q hq
  rcases hrest with ⟨c, s, -, rfl, -⟩ | ⟨-, ⟨a, -, rfl⟩ | ⟨-, rfl⟩ | ⟨st, -, -, rfl⟩⟩
  · show (q.setCache t c).cacheOf t' = _
    rw [cacheOf_setCache_ne h, hq']
  · exact hq'
  · exact hq'
  · exact hq'

theorem deallocate_cacheOf_ne (h : t' ≠ t) (s : PoolStack) :
    (p.deallocate t s).cacheOf t' = p.cacheOf t' := by
  cases s with
  | system st => rfl
  | slot i =>
    unfold deallocate
    dsimp only
    split_ifs
    · simp only [cacheOf_setShard, cacheOf_shardOf, cacheOf_setCache_ne h]
      rfl
    · rw [cacheOf_setCache_ne h]
      rfl

/-- Freeing a carved stack on a thread whose cache holds fewer than 64 puts it on top. -/
theorem deallocate_cacheOf_self (h : (p.cacheOf t).length < highWater) :
    (p.deallocate t (.slot i)).cacheOf t = p.cacheOf t ++ [i] := by
  unfold deallocate
  dsimp only
  have hsame : ({ p with outstanding := p.outstanding - 1 }.setOwner (.slot i) none).1.cacheOf t =
      p.cacheOf t := rfl
  rw [if_neg (by rw [hsame, List.length_append]; simp only [List.length_singleton]; omega)]
  rw [cacheOf_setCache_self, hsame]

theorem exitThread_cacheOf_ne (h : t' ≠ t) : (p.exitThread t).cacheOf t' = p.cacheOf t' := by
  unfold exitThread
  split
  · rfl
  · simp only [cacheOf]
    rw [Keyed.lookup_erase_ne h]
    simp

/-- A call that does not run on thread `t` leaves its cache alone. -/
theorem serve_cacheOf_ne {call : PoolCall} (h : call.thread? ≠ some t) :
    (p.serve held call).1.cacheOf t = p.cacheOf t := by
  cases call with
  | alloc t₁ =>
    have hne : t ≠ t₁ := fun he => h (by simp [PoolCall.thread?, he])
    rw [serve_alloc]
    generalize hA : p.allocate t₁ = x
    obtain ⟨p', res⟩ := x
    have := allocate_cacheOf_ne hne hA
    rcases res with a | _ | s <;> exact this
  | free t₁ s =>
    have hne : t ≠ t₁ := fun he => h (by simp [PoolCall.thread?, he])
    rw [serve_free]
    split_ifs
    · exact deallocate_cacheOf_ne hne s
    · rfl
  | exit t₁ =>
    have hne : t ≠ t₁ := fun he => h (by simp [PoolCall.thread?, he])
    exact exitThread_cacheOf_ne hne
  | own s o =>
    rw [serve_own]
    split_ifs
    · simp [cacheOf]
    · rfl

theorem serveAll_cons (c : PoolCall) (calls : List PoolCall) :
    p.serveAll held (c :: calls) = (p.serve held c).1.serveAll (p.serve held c).2 calls := rfl

theorem serveAll_cacheOf_ne {calls : List PoolCall} (h : ∀ c ∈ calls, c.thread? ≠ some t) :
    (p.serveAll held calls).1.cacheOf t = p.cacheOf t := by
  induction calls generalizing p held with
  | nil => rfl
  | cons c calls ih =>
    rw [serveAll_cons, ih (fun c' hc' => h c' (List.mem_cons_of_mem _ hc')),
      serve_cacheOf_ne (h c List.mem_cons_self)]

/-- A thread with stacks in its cache gets the top one. -/
theorem allocate_top (h : p.cacheOf t = c ++ [i]) : (p.allocate t).2 = .ok (some (.slot i)) := by
  have hne : p.cacheOf t ≠ [] := by simp [h]
  have hf : (p.fillCache t).2 = .ok (p.setCache t (p.cacheOf t)) := by
    unfold fillCache
    have : (p.cacheOf t).isEmpty = false := by simpa using hne
    simp [this]
  unfold allocate
  cases hfc : p.fillCache t with
  | mk p₁ e =>
    rw [hfc] at hf
    cases hf
    simp [h]

end Pool

/-- A system of 4 KiB pages that grants every mapping, on a 4 MiB boundary, and protects every
guard page. -/
def Kernel.granting : Kernel where
  pageSize := 4096
  map _ := some 0x7f0000000000
  protect _ := true

namespace Pool

variable {p p' : Pool} {t : Nat} {held : List PoolStack}

theorem deallocate_created (s : PoolStack) : (p.deallocate t s).created = p.created := by
  cases s with
  | system st => rfl
  | slot i =>
    unfold deallocate
    dsimp only
    split_ifs <;> simp

theorem exitThread_created : (p.exitThread t).created = p.created := by
  unfold exitThread
  split <;> simp

/-- No call lowers the carved count; a call raises it only as an allocation whose thread
found its cache and every shard empty. -/
theorem serve_created (c : PoolCall) :
    p.created ≤ (p.serve held c).1.created ∧
      ((p.serve held c).1.created ≠ p.created →
        ∃ t, c = .alloc t ∧ p.cacheOf t = [] ∧ ∀ i < shardCount, p.shard i = []) := by
  cases c with
  | alloc t =>
    rw [serve_alloc]
    generalize hA : p.allocate t = x
    obtain ⟨p', res⟩ := x
    have h := allocate_created hA
    rcases res with a | _ | s <;> exact ⟨h.1, fun hne => ⟨t, rfl, h.2 hne⟩⟩
  | free t s =>
    rw [serve_free]
    split_ifs <;> simp [deallocate_created]
  | exit t => simp [serve_exit, exitThread_created]
  | own s o =>
    rw [serve_own]
    split_ifs <;> simp

/-- What the users of a pool can count on, at every state that calls on a new pool reach. -/
structure Conserving (p : Pool) (held : List PoolStack) : Prop where
  /-- Every carved stack put to use is in exactly one place: held by a user, in one thread's
  cache, or in one shard. -/
  placed_perm : p.placed held ~ p.inUse
  /-- No two held stacks share a slot. -/
  held_nodup : (held.filterMap PoolStack.slot?).Nodup
  created_le : p.created ≤ p.limit
  caches_le : ∀ e ∈ p.caches, e.2.length ≤ highWater
  outstanding_eq : p.outstanding = held.length
  /-- No call lowers the carved count, and a call raises it only as an allocation whose
  thread found its cache and every shard empty. -/
  created_step : ∀ c, p.created ≤ (p.serve held c).1.created ∧
    ((p.serve held c).1.created ≠ p.created →
      ∃ t, c = .alloc t ∧ p.cacheOf t = [] ∧ ∀ i < shardCount, p.shard i = [])
  /-- Every stack handed out carries the marker and no owner. -/
  stamped : ∀ t p' s, p.allocate t = (p', .ok (some s)) → p'.headerOf s = Stack.stamped
  /-- A dedicated mapping is handed out only when the thread's cache and every shard are
  empty and no new slot could be put to use. -/
  system_when_empty : ∀ t p' st, p.allocate t = (p', .ok (some (.system st))) →
    p.cacheOf t = [] ∧ (∀ i < shardCount, p.shard i = []) ∧ p'.inUse = p.inUse
  /-- A carved stack freed on a thread whose cache holds fewer than 64 stacks is the next
  stack that thread allocates, whatever the other threads do in between. -/
  lifo : ∀ t i, PoolStack.slot i ∈ held → (p.cacheOf t).length < highWater →
    ∀ calls : List PoolCall, (∀ c ∈ calls, c.thread? ≠ some t) →
      (((p.serve held (.free t (.slot i))).1.serveAll
          (p.serve held (.free t (.slot i))).2 calls).1.allocate t).2 = .ok (some (.slot i))

/-- Stack conservation: at every state that calls on a new pool reach, each carved stack is
in exactly one place, the counts are right, every stack handed out is stamped, the pool
carves or maps only when the caller's cache and every shard are empty, and a thread gets
back the stack it freed last. -/
theorem stacks_conserved (h : Reachable p held) : Conserving p held := by
  have hp := h.sound
  refine ⟨hp.placed_perm, ?_, hp.created_le, hp.caches_le, hp.outstanding_eq, serve_created,
    fun t p' s hA => hp.allocate_stamped hA, fun t p' st hA => allocate_system hA, ?_⟩
  · exact (List.nodup_append.1 hp.nodup).1
  · intro t i hs hlen calls hcalls
    rw [serve_free, if_pos hs]
    apply allocate_top (c := p.cacheOf t)
    rw [serveAll_cacheOf_ne hcalls, deallocate_cacheOf_self hlen]

/-- A new pool of 64 guarded stacks of 16 KiB, after thread 0's first allocation. -/
theorem stacks_conserved_first_alloc :
    Reachable ((⟨Kernel.granting, 16384, 4096, 64, 0, 0, List.replicate 8 [], [], [], 0, [], []⟩ :
        Pool).serve [] (.alloc 0)).1
      ((⟨Kernel.granting, 16384, 4096, 64, 0, 0, List.replicate 8 [], [], [], 0, [], []⟩ :
        Pool).serve [] (.alloc 0)).2 ∧
    Conserving ((⟨Kernel.granting, 16384, 4096, 64, 0, 0, List.replicate 8 [], [], [], 0, [], []⟩ :
        Pool).serve [] (.alloc 0)).1
      ((⟨Kernel.granting, 16384, 4096, 64, 0, 0, List.replicate 8 [], [], [], 0, [], []⟩ :
        Pool).serve [] (.alloc 0)).2 :=
  have h : Reachable _ _ :=
    .serve (.alloc 0) (@Reachable.create Kernel.granting 16384 true 64 _ rfl)
  ⟨h, stacks_conserved h⟩

end Pool

end Fibers
