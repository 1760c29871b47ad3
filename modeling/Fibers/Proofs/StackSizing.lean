import Mathlib
import Fibers.Config.Basic
import Fibers.Proofs.StackConservation
/-!
# Sizing stacks

A stack of `s` usable bytes takes `s` rounded up to whole pages of the system, with a guard
page below it when asked. Sizes are machine words, so the arithmetic that lays a stack out
panics past `2^64`, and `usableSize` takes the header's 64 bytes off the span. This module says
exactly where each of those steps fails, and what a stack looks like when none does, on every
system whose pages hold a header, whose mappings start on a page, and whose page divides the
4 MiB boundary pool chunks start on (`Kernel.Paged`).

* A dedicated mapping panics exactly when the page-rounded size, or that with the guard page,
  passes the word (`allocateSystem_eq_error_iff`). A stack it gives is `LaidOut`: its bottom on
  a page, exactly the rounded size from its bottom to its top, a stamped header, and a usable
  size of the span less 64 exactly when the size asked is not 0 (`allocateSystem_laidOut`). A
  size of 0 with a guard page gives a stack with an empty span, whose usable size underflows.
* A pool panics at its creation exactly when the rounded size passes the word
  (`create_eq_error_iff`). Its system and sizes never change (`sizes_serveAll`), and no
  allocation from it ever panics, whatever calls came before, exactly when the first allocation
  from the new pool does not: when the bytes that allocation reserves (`firstReserve`), counted
  exactly, stay below the word (`allocate_never_panics_iff`). Every stack it hands out, a carved
  slot or a dedicated mapping, is laid out for its rounded size (`Sound.allocate_laidOut`): a
  slot starts a whole number of slots above a chunk boundary.
* `Config.validate` bounds the stack size only from below, so a valid configuration may still
  ask for a pool that cannot be made (`stack_sizing_boundaries`).
-/

namespace Fibers

/-- What sizing asks of the system: a page holds a stack header, every mapping starts on a
page, and a page divides the 4 MiB boundary that pool chunks start on. -/
structure Kernel.Paged (k : Kernel) : Prop where
  header_le : Stack.headerReserve ≤ k.pageSize
  map_dvd : ∀ len a, k.map len = some a → k.pageSize ∣ a
  dvd_chunk : k.pageSize ∣ Pool.chunkAlignment

theorem Kernel.Paged.pos {k : Kernel} (hk : k.Paged) : 0 < k.pageSize :=
  lt_of_lt_of_le (by decide) hk.header_le

namespace Stack

variable {k : Kernel}

/-! ## 1. Rounding to pages -/

/-- A size rounded up to whole pages, as an exact number. -/
def pageCeil (k : Kernel) (s : Nat) : Nat := (s + k.pageSize - 1) / k.pageSize * k.pageSize

/-- The bytes of the guard page a flag asks for. -/
def guardBytes (k : Kernel) (g : Bool) : Nat := if g then k.pageSize else 0

theorem dvd_pageCeil (s : Nat) : k.pageSize ∣ pageCeil k s := Nat.dvd_mul_left _ _

theorem le_pageCeil (hP : 0 < k.pageSize) (s : Nat) : s ≤ pageCeil k s := by
  have h₁ := Nat.div_add_mod' (s + k.pageSize - 1) k.pageSize
  have h₂ := Nat.mod_lt (s + k.pageSize - 1) hP
  unfold pageCeil
  omega

/-- A whole number of pages is its own rounding. -/
theorem pageCeil_of_dvd (hP : 0 < k.pageSize) {s : Nat} (h : k.pageSize ∣ s) : pageCeil k s = s := by
  obtain ⟨m, rfl⟩ := h
  have h₁ : k.pageSize * m + k.pageSize - 1 = (k.pageSize - 1) + k.pageSize * m := by omega
  unfold pageCeil
  rw [h₁, Nat.add_mul_div_left _ _ hP, Nat.div_eq_of_lt (by omega), Nat.zero_add, Nat.mul_comm]

/-- A size that is not zero takes at least a page. -/
theorem pageSize_le_pageCeil (hP : 0 < k.pageSize) {s : Nat} (h : 0 < s) :
    k.pageSize ≤ pageCeil k s := by
  obtain ⟨m, hm⟩ := dvd_pageCeil (k := k) s
  have hle := le_pageCeil hP s
  rw [hm] at hle ⊢
  have hm₀ : m ≠ 0 := by
    rintro rfl
    omega
  exact Nat.le_mul_of_pos_right _ (Nat.pos_of_ne_zero hm₀)

@[simp] theorem pageCeil_zero : pageCeil k 0 = 0 := by
  unfold pageCeil
  rcases Nat.eq_zero_or_pos k.pageSize with h | h
  · simp [h]
  · rw [Nat.div_eq_of_lt (by omega), Nat.zero_mul]

theorem dvd_guardBytes (g : Bool) : k.pageSize ∣ guardBytes k g := by
  cases g <;> simp [guardBytes]

theorem guardBytes_ne_zero (hP : 0 < k.pageSize) (g : Bool) : decide (guardBytes k g ≠ 0) = g := by
  cases g <;> simp [guardBytes, hP.ne']

theorem roundUp_page (hP : 0 < k.pageSize) (s : Nat) :
    roundUp s k.pageSize =
      if pageCeil k s < wordLimit then .ok (pageCeil k s) else .error Abort.multiplyOverflow := by
  unfold roundUp pageCeil
  rw [if_neg hP.ne']

/-! ## 2. Dedicated mappings -/

/-- A dedicated mapping, step by step: the rounding panics past the word, then adding the
guard does; otherwise the system grants the mapping or refuses it, and a mapping whose guard
page it does not protect gives nothing. -/
theorem allocateSystem_eq (hP : 0 < k.pageSize) (s : Nat) (g : Bool) :
    allocateSystem k s g =
      if wordLimit ≤ pageCeil k s then .error Abort.multiplyOverflow
      else if wordLimit ≤ pageCeil k s + guardBytes k g then .error Abort.addOverflow
      else match k.map (pageCeil k s + guardBytes k g) with
        | none => .ok none
        | some base =>
          if protectGuard k ⟨.system, base, pageCeil k s + guardBytes k g, guardBytes k g, stamped⟩
          then .ok (some ⟨.system, base, pageCeil k s + guardBytes k g, guardBytes k g, stamped⟩)
          else .ok none := by
  unfold allocateSystem
  rw [roundUp_page hP]
  by_cases h₁ : wordLimit ≤ pageCeil k s
  · rw [if_neg (Nat.not_lt.2 h₁), if_pos h₁]
    rfl
  · rw [if_pos (Nat.not_le.1 h₁), if_neg h₁, except_ok_bind]
    show (addWord (pageCeil k s) (guardBytes k g) >>= _) = _
    unfold addWord
    by_cases h₂ : pageCeil k s + guardBytes k g < wordLimit
    · rw [if_pos h₂, if_neg (Nat.not_le.2 h₂), except_ok_bind]
      rfl
    · rw [if_neg h₂, if_pos (Nat.not_lt.1 h₂)]
      rfl

/-- A dedicated mapping panics exactly when its rounded size with the guard page passes the
word: in the rounding when the size alone does, else in adding the guard. -/
theorem allocateSystem_eq_error_iff (hP : 0 < k.pageSize) {s : Nat} {g : Bool} {a : Abort} :
    allocateSystem k s g = .error a ↔
      wordLimit ≤ pageCeil k s + guardBytes k g ∧
        a = if wordLimit ≤ pageCeil k s then Abort.multiplyOverflow else Abort.addOverflow := by
  rw [allocateSystem_eq hP]
  by_cases h₁ : wordLimit ≤ pageCeil k s
  · simp only [if_pos h₁, Except.error.injEq]
    constructor
    · rintro rfl
      exact ⟨by omega, rfl⟩
    · rintro ⟨-, rfl⟩
      rfl
  by_cases h₂ : wordLimit ≤ pageCeil k s + guardBytes k g
  · simp only [if_neg h₁, if_pos h₂, Except.error.injEq]
    constructor
    · rintro rfl
      exact ⟨h₂, rfl⟩
    · rintro ⟨-, rfl⟩
      rfl
  · simp only [if_neg h₁, if_neg h₂]
    constructor
    · intro h
      split at h
      · cases h
      · split_ifs at h
    · rintro ⟨h, -⟩
      exact absurd h h₂

/-- A stack a dedicated mapping gives lies where the system mapped it, its mapping the rounded
size and the guard page. -/
theorem allocateSystem_some (hP : 0 < k.pageSize) {s : Nat} {g : Bool} {st : Stack}
    (h : allocateSystem k s g = .ok (some st)) :
    ∃ base, k.map (pageCeil k s + guardBytes k g) = some base ∧
      st = ⟨.system, base, pageCeil k s + guardBytes k g, guardBytes k g, stamped⟩ := by
  rw [allocateSystem_eq hP] at h
  split_ifs at h
  split at h
  · cases h
  · next base hm =>
    split_ifs at h
    · cases h
      exact ⟨base, hm, rfl⟩
    · cases h

/-- How a stack of `s` usable bytes, with a guard page when `g`, is laid out on system `k`: its
bottom and its mapping on whole pages, the guard asked, exactly the rounded size from its bottom
to its top, a stamped header, and the header's 64 bytes at the top inside the usable part
exactly when the usable size has no underflow. -/
structure LaidOut (k : Kernel) (s : Nat) (g : Bool) (st : Stack) : Prop where
  bottom_aligned : k.pageSize ∣ st.bottom
  len_aligned : k.pageSize ∣ st.len
  guard_eq : st.guard = guardBytes k g
  span_eq : st.top - st.bottom = pageCeil k s
  stamped : st.header = stamped
  usable : st.usableSize =
    if s = 0 then .error Abort.subtractOverflow else .ok (pageCeil k s - headerReserve)

/-- The usable size, exactly: the span less the header, or an underflow when the span has no
room for the header. -/
theorem usableSize_eq {st : Stack} (h : st.guard ≤ st.len) :
    st.usableSize =
      if st.span < headerReserve then .error Abort.subtractOverflow
      else .ok (st.span - headerReserve) := by
  unfold usableSize span
  rw [if_neg (Nat.not_lt.2 h)]

/-- The usable size of a stack spanning `s` rounded to pages: an underflow for `s = 0`, the
span less the header otherwise, a page holding the header. -/
theorem usableSize_of_span (hk : k.Paged) {st : Stack} {s : Nat} (h : st.guard ≤ st.len)
    (hs : st.span = pageCeil k s) :
    st.usableSize =
      if s = 0 then .error Abort.subtractOverflow else .ok (pageCeil k s - headerReserve) := by
  rw [usableSize_eq h, hs]
  by_cases h₀ : s = 0
  · subst h₀
    rw [pageCeil_zero, if_pos (by decide), if_pos rfl]
  · have h₁ := pageSize_le_pageCeil hk.pos (Nat.pos_of_ne_zero h₀)
    have h₂ := hk.header_le
    rw [if_neg (by omega), if_neg h₀]

/-- A stack is laid out once it starts on a page, spans the rounded size above the guard page
asked, and is stamped. -/
theorem laidOut_of (hk : k.Paged) {st : Stack} {s : Nat} {g : Bool} (hb : k.pageSize ∣ st.base)
    (hg : st.guard = guardBytes k g) (hl : st.len = pageCeil k s + guardBytes k g)
    (hh : st.header = stamped) : LaidOut k s g st where
  bottom_aligned := Nat.dvd_add hb (hg ▸ dvd_guardBytes g)
  len_aligned := hl ▸ Nat.dvd_add (dvd_pageCeil s) (dvd_guardBytes g)
  guard_eq := hg
  span_eq := by
    unfold top bottom
    omega
  stamped := hh
  usable := usableSize_of_span hk (by omega) (by unfold span; omega)

/-- Every stack a dedicated mapping gives is one and is laid out for the size asked. -/
theorem allocateSystem_laidOut (hk : k.Paged) {s : Nat} {g : Bool} {st : Stack}
    (h : allocateSystem k s g = .ok (some st)) : st.origin = .system ∧ LaidOut k s g st := by
  obtain ⟨base, hm, rfl⟩ := allocateSystem_some hk.pos h
  exact ⟨rfl, laidOut_of hk (hk.map_dvd _ _ hm) rfl rfl rfl⟩

end Stack

/-! ## 3. Pools -/

namespace Pool

open Stack

variable {k : Kernel} {p q : Pool} {t home : Nat} {a : Abort} {batch : List Nat}

/-- The bytes the first allocation from a new pool reserves, as an exact number: a chunk of up
to 32 stacks with its alignment slack, or a dedicated mapping when the pool may carve none. -/
def firstReserve (usable guard limit : Nat) : Nat :=
  if limit = 0 then usable + guard
  else (usable + guard) * min transferBatch limit + chunkAlignment

/-- The system a pool asks, the sizes of its stacks and how many it may carve. -/
def sizes (p : Pool) : Kernel × Nat × Nat × Nat := (p.kernel, p.usable, p.guard, p.limit)

/-- A pool panics at its creation exactly when its rounded stack size passes the word. -/
theorem create_eq_error_iff (hP : 0 < k.pageSize) {s : Nat} {g : Bool} {L : Nat} :
    Pool.create k s g L = .error a ↔ a = Abort.multiplyOverflow ∧ wordLimit ≤ pageCeil k s := by
  unfold Pool.create
  rw [roundUp_page hP]
  by_cases h : pageCeil k s < wordLimit
  · rw [if_pos h, except_ok_bind]
    exact ⟨nofun, fun ⟨_, h'⟩ => absurd h (Nat.not_lt.2 h')⟩
  · rw [if_neg h, except_error_bind, Except.error.injEq]
    constructor
    · rintro rfl
      exact ⟨rfl, Nat.not_lt.1 h⟩
    · rintro ⟨rfl, -⟩
      rfl

/-- A new pool: its system, the rounded size and guard, nothing carved, no caches, and empty
shards. -/
theorem create_ok (hP : 0 < k.pageSize) {s : Nat} {g : Bool} {L : Nat}
    (h : Pool.create k s g L = .ok p) :
    p.sizes = (k, pageCeil k s, guardBytes k g, L) ∧ p.created = 0 ∧ p.caches = [] ∧
      p.shards = List.replicate shardCount [] := by
  unfold Pool.create at h
  rw [roundUp_page hP] at h
  by_cases hs : pageCeil k s < wordLimit
  · rw [if_pos hs, except_ok_bind] at h
    cases h
    exact ⟨rfl, rfl, rfl, rfl⟩
  · rw [if_neg hs, except_error_bind] at h
    cases h

/-! ### The sizes never change -/

@[simp] theorem sizes_setCache (c : List Nat) : (p.setCache t c).sizes = p.sizes := rfl

@[simp] theorem sizes_setShard (i : Nat) (c : List Nat) : (p.setShard i c).sizes = p.sizes := rfl

@[simp] theorem sizes_shardOf : (p.shardOf t).1.sizes = p.sizes := by
  unfold shardOf
  split <;> rfl

@[simp] theorem sizes_setOwner (s : PoolStack) (o : Option Nat) :
    (p.setOwner s o).1.sizes = p.sizes := by
  cases s <;> rfl

theorem sizes_grow (h : p.grow = .ok (q, batch)) : q.sizes = p.sizes := by
  rcases grow_cases h with ⟨rfl, -⟩ | ⟨-, -, rfl, -⟩ <;> rfl

theorem sizes_refill (h : p.refill home = .ok (q, batch)) : q.sizes = p.sizes := by
  rcases refill_cases h with ⟨i, -, -, rfl, -⟩ | ⟨-, hg⟩
  · rfl
  · exact sizes_grow hg

theorem sizes_fillCache (h : (p.fillCache t).2 = .ok q) : q.sizes = p.sizes := by
  rcases fillCache_cases h with ⟨-, rfl⟩ | ⟨-, r, batch, hr, rfl⟩
  · rfl
  · rw [sizes_setCache, sizes_refill hr, sizes_shardOf, sizes_setCache]

@[simp] theorem sizes_fillCache_fst : (p.fillCache t).1.sizes = p.sizes := by
  unfold fillCache
  dsimp only
  split
  · exact sizes_shardOf.trans (sizes_setCache _)
  · rfl

@[simp] theorem sizes_allocate : (p.allocate t).1.sizes = p.sizes := by
  have h₁ : (p.fillCache t).1.sizes = p.sizes := sizes_fillCache_fst
  unfold allocate
  rcases hf : p.fillCache t with ⟨p₁, a | q⟩
  · rw [hf] at h₁
    exact h₁
  · have h₂ : q.sizes = p.sizes := sizes_fillCache (by rw [hf])
    simp only
    split
    · exact h₂
    · split <;> exact h₂

@[simp] theorem sizes_deallocate (s : PoolStack) : (p.deallocate t s).sizes = p.sizes := by
  unfold deallocate
  cases s with
  | system st => rfl
  | slot i =>
    dsimp only
    split
    · exact (sizes_setShard _ _).trans (sizes_shardOf.trans (sizes_setCache _))
    · rfl

@[simp] theorem sizes_exitThread : (p.exitThread t).sizes = p.sizes := by
  unfold exitThread
  split
  · rfl
  next cache _ =>
    -- the erased cache and hint leave the sizes of the shard's update
    let home := (p.shardOf t).2
    exact (sizes_setShard home ((p.shardOf t).1.shard home ++ cache)).trans sizes_shardOf

/-- One call keeps the sizes. -/
@[simp] theorem sizes_serve (held : List PoolStack) (c : PoolCall) :
    (p.serve held c).1.sizes = p.sizes := by
  cases c with
  | alloc t =>
    have h := @sizes_allocate p t
    rw [serve_alloc]
    split <;> simp_all
  | free t s =>
    rw [serve_free]
    split <;> simp
  | exit t => simp [serve_exit]
  | own s o =>
    rw [serve_own]
    split <;> simp

/-- Any run of calls keeps the sizes: induction on the calls, each by `sizes_serve`. -/
theorem sizes_serveAll (held : List PoolStack) (calls : List PoolCall) :
    (p.serveAll held calls).1.sizes = p.sizes := by
  induction calls generalizing p held with
  | nil => rfl
  | cons c rest ih =>
    unfold serveAll at ih ⊢
    rw [List.foldl_cons, ih, sizes_serve]

/-- After any calls, a pool made on system `k` for stacks of `s` bytes, guard `g` and limit `L`
still has that system and those sizes, rounded. -/
theorem serveAll_create (hP : 0 < k.pageSize) {s : Nat} {g : Bool} {L : Nat}
    (h : Pool.create k s g L = .ok p) (calls : List PoolCall) :
    (p.serveAll [] calls).1.kernel = k ∧ (p.serveAll [] calls).1.usable = pageCeil k s ∧
      (p.serveAll [] calls).1.guard = guardBytes k g ∧ (p.serveAll [] calls).1.limit = L := by
  have hq := (sizes_serveAll [] calls).trans (create_ok hP h).1
  simpa only [sizes, Prod.mk.injEq] using hq

/-! ### When an allocation panics -/

/-- A growth panics exactly when it has stacks to carve and the chunk it reserves for them,
counted exactly, passes the word: every partial sum and product is at most the whole. -/
theorem grow_error_iff :
    (∃ a, p.grow = .error a) ↔
      0 < min transferBatch (p.limit - p.created) ∧
        wordLimit ≤ (p.usable + p.guard) * min transferBatch (p.limit - p.created) +
          chunkAlignment := by
  unfold grow
  generalize min transferBatch (p.limit - p.created) = n
  by_cases h₀ : n = 0
  · simp only [h₀, ↓reduceIte]
    constructor
    · rintro ⟨_, h⟩
      cases h
    · rintro ⟨h, -⟩
      exact absurd h (Nat.lt_irrefl 0)
  have hn : 0 < n := Nat.pos_of_ne_zero h₀
  have hle : p.usable + p.guard ≤ (p.usable + p.guard) * n := Nat.le_mul_of_pos_right _ hn
  simp only [h₀, ↓reduceIte, addWord, mulWord]
  -- each sum and product either panics, and then the whole passes the word, or feeds the next
  by_cases h₁ : p.usable + p.guard < wordLimit
  · rw [if_pos h₁, except_ok_bind]
    by_cases h₂ : (p.usable + p.guard) * n < wordLimit
    · rw [if_pos h₂, except_ok_bind]
      by_cases h₃ : (p.usable + p.guard) * n + chunkAlignment < wordLimit
      · rw [if_pos h₃, except_ok_bind]
        refine ⟨fun ⟨_, h⟩ => ?_, fun ⟨_, h⟩ => absurd h₃ (Nat.not_lt.2 h)⟩
        split at h <;> cases h
      · rw [if_neg h₃, except_error_bind]
        exact ⟨fun _ => ⟨hn, Nat.not_lt.1 h₃⟩, fun _ => ⟨_, rfl⟩⟩
    · rw [if_neg h₂, except_error_bind]
      exact ⟨fun _ => ⟨hn, by omega⟩, fun _ => ⟨_, rfl⟩⟩
  · rw [if_neg h₁, except_error_bind]
    exact ⟨fun _ => ⟨hn, by omega⟩, fun _ => ⟨_, rfl⟩⟩

theorem refill_error (h : p.refill home = .error a) : p.grow = .error a := by
  unfold refill at h
  split at h
  · cases h
  · exact h

/-- With every shard empty a refill grows. -/
theorem refill_of_empty (hs : ∀ i, p.shard i = []) : p.refill home = p.grow := by
  have : p.firstStocked home = none := by
    unfold firstStocked
    exact List.find?_eq_none.2 (by simp [hs])
  unfold refill
  rw [this]

/-- A thread with no cache, in a pool with every shard empty, fills its cache by growing. -/
theorem fillCache_of_empty (hc : p.cacheOf t = []) (hs : ∀ i, p.shard i = []) :
    (p.fillCache t).2 =
      (fun r => r.1.setCache t r.2) <$> ((p.setCache t []).shardOf t).1.grow := by
  unfold fillCache
  rw [hc]
  simp only [cacheOf_setCache_self, List.isEmpty_nil, if_true]
  rw [refill_of_empty (by simpa using hs)]

/-- A fill panics only in a growth of the pool with the thread's shard chosen. -/
theorem fillCache_error_grow (h : (p.fillCache t).2 = .error a) :
    ((p.setCache t []).shardOf t).1.grow = .error a := by
  obtain ⟨hc, -⟩ := fillCache_error h
  unfold fillCache at h
  rw [hc] at h
  simp only [cacheOf_setCache_self, List.isEmpty_nil, if_true] at h
  apply refill_error
  cases hr : ((p.setCache t []).shardOf t).1.refill ((p.setCache t []).shardOf t).2 with
  | error e => rw [hr] at h; cases h; rfl
  | ok r => rw [hr] at h; cases h

/-- An allocation panics only in its fill or in the dedicated mapping after it. -/
theorem allocate_error (h : (p.allocate t).2 = .error a) :
    (p.fillCache t).2 = .error a ∨
      ∃ q, (p.fillCache t).2 = .ok q ∧ allocateSystem q.kernel q.usable (q.guard ≠ 0) = .error a := by
  unfold allocate at h
  rcases hf : p.fillCache t with ⟨p₁, a' | q⟩
  · rw [hf] at h
    simp only [Except.error.injEq] at h
    subst h
    exact .inl rfl
  · rw [hf] at h
    refine .inr ⟨q, rfl, ?_⟩
    simp only at h
    split at h
    · cases h
    · split at h
      next a' hs => cases h; exact hs
      all_goals cases h

/-- An allocation whose fill leaves the thread's cache empty is a dedicated mapping. -/
theorem allocate_of_empty (hf : (p.fillCache t).2 = .ok q) (hq : q.cacheOf t = []) :
    (p.allocate t).2 =
      Option.map PoolStack.system <$> allocateSystem q.kernel q.usable (q.guard ≠ 0) := by
  unfold allocate
  rcases h : p.fillCache t with ⟨p₁, e⟩
  rw [h] at hf
  cases hf
  simp only [hq, List.getLast?_nil]
  cases allocateSystem q.kernel q.usable (q.guard ≠ 0) with
  | error a => rfl
  | ok o => cases o <;> rfl


/-- An allocation from a pool whose first allocation fits the word never panics, whatever the
pool's caches and shards hold. A growth carves at most `min 32 limit` stacks, so its chunk is
at most the first one; a dedicated mapping is one stack, less again. -/
theorem allocate_ne_error {g : Bool} (hP : 0 < p.kernel.pageSize) (hu : p.kernel.pageSize ∣ p.usable)
    (hg : p.guard = guardBytes p.kernel g)
    (hfit : firstReserve p.usable p.guard p.limit < wordLimit) :
    (p.allocate t).2 ≠ .error a := by
  -- one stack alone fits: it is at most the first reserve
  have hone : p.usable + p.guard < wordLimit := by
    unfold firstReserve at hfit
    split_ifs at hfit with hL
    · exact hfit
    · have : p.usable + p.guard ≤ (p.usable + p.guard) * min transferBatch p.limit :=
        Nat.le_mul_of_pos_right _ (by simp only [transferBatch]; omega)
      omega
  intro h
  rcases allocate_error h with he | ⟨q, hq, he⟩
  · -- the fill panicked in a growth of at most the first chunk
    obtain ⟨hpos, hover⟩ := grow_error_iff.1 ⟨a, fillCache_error_grow he⟩
    simp only [shardOf_usable, shardOf_guard, shardOf_limit, shardOf_created, setCache_usable,
      setCache_guard, setCache_limit, setCache_created] at hpos hover
    have hmin : min transferBatch (p.limit - p.created) ≤ min transferBatch p.limit := by omega
    have := Nat.mul_le_mul_left (p.usable + p.guard) hmin
    unfold firstReserve at hfit
    split_ifs at hfit with hL <;> omega
  · -- the dedicated mapping panicked, though one stack fits the word
    have hs : q.sizes = p.sizes := sizes_fillCache hq
    simp only [sizes, Prod.mk.injEq] at hs
    obtain ⟨hqk, hqu, hqg, -⟩ := hs
    rw [hqk, hqu, hqg, hg, guardBytes_ne_zero hP, allocateSystem_eq_error_iff hP,
      pageCeil_of_dvd hP hu, ← hg] at he
    omega

/-- The first allocation from a new pool panics when the bytes it reserves pass the word: a new
pool has no cache and no stocked shard, so it grows, or maps one stack when it may carve none. -/
theorem allocate_create_error (hP : 0 < k.pageSize) {s : Nat} {g : Bool} {L : Nat}
    (h : Pool.create k s g L = .ok p)
    (hover : wordLimit ≤ firstReserve (pageCeil k s) (guardBytes k g) L) :
    ∃ a, (p.allocate t).2 = .error a := by
  obtain ⟨hsz, hc, hcaches, hshards⟩ := create_ok hP h
  simp only [sizes, Prod.mk.injEq] at hsz
  obtain ⟨hk, hu, hg, hL⟩ := hsz
  have hfill : (p.fillCache t).2 = _ :=
    fillCache_of_empty (by simp [cacheOf, hcaches]) (fun i => by simp [shard, hshards])
  by_cases hL0 : L = 0
  · -- a pool that may carve none maps one stack of its sizes
    have hgrow :
        ((p.setCache t []).shardOf t).1.grow = .ok (((p.setCache t []).shardOf t).1, []) := by
      unfold grow
      simp only [shardOf_limit, setCache_limit, shardOf_created, setCache_created, hL, hc, hL0,
        Nat.sub_zero, Nat.min_zero, ↓reduceIte]
      rfl
    have hf : (p.fillCache t).2 = .ok (((p.setCache t []).shardOf t).1.setCache t []) := by
      rw [hfill, hgrow]
      rfl
    rw [allocate_of_empty hf (cacheOf_setCache_self _)]
    have hkq : (((p.setCache t []).shardOf t).1.setCache t []).kernel = k := by
      rw [← hk]
      show ((p.setCache t []).shardOf t).1.sizes.1 = p.sizes.1
      rw [sizes_shardOf]
      rfl
    simp only [hkq, setCache_usable, setCache_guard, shardOf_usable, shardOf_guard, hu, hg,
      guardBytes_ne_zero hP]
    have he : wordLimit ≤ pageCeil k (pageCeil k s) + guardBytes k g := by
      rw [pageCeil_of_dvd hP (dvd_pageCeil s)]
      unfold firstReserve at hover
      rwa [if_pos hL0] at hover
    exact ⟨_, by rw [(allocateSystem_eq_error_iff hP).2 ⟨he, rfl⟩]; rfl⟩
  · -- a pool that may carve some grows first, and its first chunk passes the word
    have hgrow : ∃ a, ((p.setCache t []).shardOf t).1.grow = .error a := by
      refine grow_error_iff.2 ⟨?_, ?_⟩ <;>
        simp only [shardOf_usable, shardOf_guard, shardOf_limit, shardOf_created, setCache_usable,
          setCache_guard, setCache_limit, setCache_created, hu, hg, hL, hc, Nat.sub_zero]
      · simp only [transferBatch]
        omega
      · unfold firstReserve at hover
        rwa [if_neg hL0] at hover
    obtain ⟨a, ha⟩ := hgrow
    have hf : (p.fillCache t).2 = .error a := by
      rw [hfill, ha]
      rfl
    rcases hres : p.allocate t with ⟨p', res⟩
    rcases allocate_cases hres with ⟨a', -, rfl, -⟩ | ⟨q, hq, -⟩
    · exact ⟨a', rfl⟩
    · rw [hf] at hq
      cases hq

/-- A pool that can be made never panics in an allocation, after any calls on it, exactly when
its first allocation's reserve fits the word. -/
theorem allocate_never_panics_iff (hP : 0 < k.pageSize) {s : Nat} {g : Bool} {L : Nat}
    (h : Pool.create k s g L = .ok p) :
    (∀ calls t a, ((p.serveAll [] calls).1.allocate t).2 ≠ .error a) ↔
      firstReserve (pageCeil k s) (guardBytes k g) L < wordLimit := by
  constructor
  · intro hnever
    refine Nat.lt_of_not_le fun hover => ?_
    obtain ⟨a, ha⟩ := (allocate_create_error hP h hover : ∃ a, (p.allocate 0).2 = .error a)
    exact hnever [] 0 a ha
  · intro hfit calls t a
    obtain ⟨hk, hu, hg, hL⟩ := serveAll_create hP h calls
    exact allocate_ne_error (by rw [hk]; exact hP) (by rw [hk, hu]; exact dvd_pageCeil s)
      (by rw [hg, hk]) (by rw [hu, hg, hL]; exact hfit)

/-! ### Where a handed-out stack lies -/

/-- Every carved slot starts on a page when the chunk boundary and a whole slot are whole
pages: a chunk boundary plus whole slots. A slot with no recorded start counts from 0. -/
theorem Shape.page_dvd_baseOf {P : Nat} (hp : p.Shape) (hc : P ∣ chunkAlignment)
    (hs : P ∣ p.usable + p.guard) (i : Nat) : P ∣ p.baseOf i := by
  unfold baseOf
  cases hb : p.bases.lookup i with
  | none => exact Nat.dvd_zero P
  | some b =>
    obtain ⟨c, j, hcj⟩ := hp.based _ (Keyed.mem_of_lookup hb)
    rw [Option.getD_some, show b = c * chunkAlignment + j * (p.usable + p.guard) from hcj]
    exact Nat.dvd_add (Dvd.dvd.mul_left hc c) (Dvd.dvd.mul_left hs j)

/-- A carved slot of a pool on whole pages is laid out for the pool's stack size. -/
theorem Shape.slotStack_laidOut {g : Bool} {i : Nat} (hp : p.Shape) (hk : p.kernel.Paged)
    (hu : p.kernel.pageSize ∣ p.usable) (hg : p.guard = guardBytes p.kernel g)
    (hh : p.header i = stamped) : LaidOut p.kernel p.usable g (p.slotStack i) := by
  have hslot : p.kernel.pageSize ∣ p.usable + p.guard := Nat.dvd_add hu (hg ▸ dvd_guardBytes g)
  refine laidOut_of hk (hp.page_dvd_baseOf hk.dvd_chunk hslot i) hg ?_ hh
  show p.usable + p.guard = _
  rw [pageCeil_of_dvd hk.pos hu, hg]

/-- Every stack a sound pool on whole pages hands out is laid out for the pool's stack size: a
carved slot, or a dedicated mapping of the same size; and it is a dedicated mapping exactly
when its origin says so. -/
theorem Sound.allocate_laidOut {g : Bool} {p' : Pool} {held : List PoolStack} {s : PoolStack}
    (hp : p.Sound held) (hk : p.kernel.Paged) (hu : p.kernel.pageSize ∣ p.usable)
    (hg : p.guard = guardBytes p.kernel g) (h : p.allocate t = (p', .ok (some s))) :
    ((p'.stackOf s).origin = .system ↔ ∃ st, s = .system st) ∧
      LaidOut p.kernel p.usable g (p'.stackOf s) := by
  have hsz : p'.sizes = p.sizes := by rw [← sizes_allocate (p := p) (t := t), h]
  simp only [sizes, Prod.mk.injEq] at hsz
  obtain ⟨hkk, huu, hgg, -⟩ := hsz
  cases s with
  | slot i =>
    -- the slot lies in the pool after the allocation, which is sound again
    have hp' : p'.Sound (.slot i :: held) := by
      have := hp.serve (.alloc t)
      rwa [serve_alloc, h] at this
    refine ⟨by simp [stackOf, slotStack], ?_⟩
    have hl := hp'.slotStack_laidOut (hkk ▸ hk) (by rw [hkk, huu]; exact hu)
      (by rw [hgg, hkk]; exact hg) (hp.allocate_stamped h)
    rwa [hkk, huu] at hl
  | system st =>
    -- the dedicated mapping is one of the pool's stack size, on the pool's system
    rcases allocate_cases h with
      ⟨a, -, he, -⟩ |
        ⟨q, hq, ⟨c, i, -, -, he⟩ | ⟨-, ⟨a, he, -⟩ | ⟨he, -⟩ | ⟨st', hs, he, -⟩⟩⟩
    all_goals
      simp only [reduceCtorEq, Except.ok.injEq, Option.some.injEq, PoolStack.system.injEq] at he
    subst he
    have hqs : q.sizes = p.sizes := sizes_fillCache hq
    simp only [sizes, Prod.mk.injEq] at hqs
    rw [hqs.1, hqs.2.1, hqs.2.2.1, hg, guardBytes_ne_zero hk.pos] at hs
    obtain ⟨horigin, hl⟩ := allocateSystem_laidOut hk hs
    exact ⟨⟨fun _ => ⟨st, rfl⟩, fun _ => horigin⟩, hl⟩

/-- Calls on a pool that calls on a new pool reach reach a pool that calls on a new pool reach. -/
theorem Reachable.serveAll {held : List PoolStack} (h : Reachable p held)
    (calls : List PoolCall) : Reachable (p.serveAll held calls).1 (p.serveAll held calls).2 := by
  induction calls generalizing p held with
  | nil => exact h
  | cons c rest ih => exact ih (h.serve c)

end Pool

/-! ## 4. The sizing laws -/

open Stack

/-- The sizing laws for stacks of `s` bytes, with a guard page when `g`, and pools of at most
`L` stacks, on system `k`. -/
structure SizingLaws (k : Kernel) (s : Nat) (g : Bool) (L : Nat) : Prop where
  /-- A dedicated mapping panics exactly when its rounded size with the guard passes the word:
  in the rounding when the size alone does, else in adding the guard. -/
  system_error : ∀ a, allocateSystem k s g = .error a ↔
    wordLimit ≤ pageCeil k s + guardBytes k g ∧
      a = if wordLimit ≤ pageCeil k s then Abort.multiplyOverflow else Abort.addOverflow
  /-- Every stack a dedicated mapping gives is one, laid out for the size asked, where a size
  of 0 leaves no room for the header. -/
  system_laidOut : ∀ st, allocateSystem k s g = .ok (some st) →
    st.origin = .system ∧ LaidOut k s g st
  /-- A pool panics at its creation exactly when its rounded size passes the word. -/
  create_error : ∀ a, Pool.create k s g L = .error a ↔
    a = Abort.multiplyOverflow ∧ wordLimit ≤ pageCeil k s
  /-- A pool never panics in an allocation, whatever calls came before, exactly when its first
  allocation's reserve fits the word. -/
  never_panics : ∀ p, Pool.create k s g L = .ok p →
    ((∀ calls t a, ((p.serveAll [] calls).1.allocate t).2 ≠ .error a) ↔
      Pool.firstReserve (pageCeil k s) (guardBytes k g) L < wordLimit)
  /-- Every stack a pool hands out, whatever calls came before, is laid out for its rounded
  size: a carved slot, or a dedicated mapping, which its origin tells apart. -/
  pool_laidOut : ∀ p, Pool.create k s g L = .ok p →
    ∀ calls t p' h, (p.serveAll [] calls).1.allocate t = (p', .ok (some h)) →
      ((p'.stackOf h).origin = .system ↔ ∃ st, h = .system st) ∧
        LaidOut k (pageCeil k s) g (p'.stackOf h)

/-- Sizing stacks, exactly, on every system of whole pages: where a dedicated mapping and a pool
panic, and how every stack either hands out is laid out. -/
theorem stack_sizing_laws {k : Kernel} (hk : k.Paged) (s : Nat) (g : Bool) (L : Nat) :
    SizingLaws k s g L where
  system_error _ := allocateSystem_eq_error_iff hk.pos
  system_laidOut _ := allocateSystem_laidOut hk
  create_error _ := Pool.create_eq_error_iff hk.pos
  never_panics _ h := Pool.allocate_never_panics_iff hk.pos h
  pool_laidOut p h calls t p' st hst := by
    -- the pool after the calls has the new pool's system and sizes, and is sound
    obtain ⟨hkq, huq, hgq, -⟩ := Pool.serveAll_create hk.pos h calls
    have hr := (Pool.Reachable.create h).serveAll calls
    have hl := hr.sound.allocate_laidOut (hkq ▸ hk) (by rw [hkq, huq]; exact dvd_pageCeil s)
      (by rw [hgq, hkq]) hst
    rwa [hkq, huq] at hl

/-- The sizing laws on a system of 4 KiB pages, for guarded stacks of 16 KiB and pools of 64. -/
theorem stack_sizing_laws_granting :
    Kernel.granting.Paged ∧ SizingLaws Kernel.granting 16384 true 64 :=
  have hk : Kernel.granting.Paged := ⟨by decide, fun _ _ h => by cases h; decide, by decide⟩
  ⟨hk, stack_sizing_laws hk 16384 true 64⟩

/-- The two ends of the size range. A size of 0 with a guard page maps a stack with no room for
its header, whose usable size underflows; and a stack size within a page of the word passes
validation but makes no pool. -/
theorem stack_sizing_boundaries :
    (∃ st, Stack.allocateSystem Kernel.granting 0 true = .ok (some st) ∧
      st.usableSize = .error Abort.subtractOverflow) ∧
    ({ stackSize := Stack.wordLimit - 1 } : Config).validate = .ok () ∧
      Pool.create Kernel.granting (Stack.wordLimit - 1) true 16384 = .error Abort.multiplyOverflow :=
  ⟨⟨_, rfl, rfl⟩, rfl, rfl⟩

end Fibers
