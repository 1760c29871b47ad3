import Mathlib
import Fibers.Timer.Script
import Fibers.Proofs.TimerSteps
import Fibers.Proofs.StackConservation
/-!
# Timer arithmetic

A timer's instants are 64-bit counts of nanoseconds since the timer epoch. Its expiry and its
period (at least 1 ns) are recorded when it is created, and the timer thread fires it the
`k`-th time once its recorded expiry plus `k` recorded periods is due. The thread adds exact
periods to the exact expiry and never reads the clock into them, so a periodic timer does not
drift however late its callbacks run. This module proves that, and says exactly where the
words cut in:

* A period is recorded as its nanoseconds exactly when they are a non-zero word
  (`periodNanos_eq_iff`); past the word it wraps, and may come out tiny. An expiry at or after
  the start is recorded exactly when its nanoseconds are a word (`expiryOf_eq_ok_iff`), and
  one before the epoch as the epoch (`expiryOf_neg`).
* A re-arm panics the timer thread exactly when the next expiry passes the word
  (`rearm_eq_error_iff`), and nothing fires after it.
* `ExactHeap`: every timer pending at most once, due at its recorded expiry plus one period
  for each firing so far, within the word. The heap the timer thread collects once a batch is
  set up is exact (`Recorded.collect_exact`); every loop of the thread at a clock reading
  keeps it exact and fires the `k`-th time of a timer only when its `k`-th instant is due by
  that reading (`fireAll_exact`).

## Contents
1. Recorded expiries and periods.
2. Due instants, re-arming and popping.
3. Exact heaps.
4. One loop of the timer thread.
5. Setting a batch up.
6. The arithmetic, exactly.
-/

namespace Fibers

/-! ## 1. Recorded expiries and periods -/

theorem pow_two_64_eq : Nat.pow 2 64 = 18446744073709551616 := rfl

/-- A period is recorded as its nanoseconds exactly when they are a non-zero word. -/
theorem periodNanos_eq_iff (ms : Nat) :
    periodNanos ms = ms * nanosPerMilli ↔ 0 < ms ∧ ms * nanosPerMilli < Nat.pow 2 64 := by
  have hword : 1 < Nat.pow 2 64 := by rw [pow_two_64_eq]; decide
  have hmod := Nat.mod_lt (ms * nanosPerMilli) (Nat.zero_lt_of_lt hword)
  unfold periodNanos
  constructor
  · intro h
    -- the recorded period is a remainder or 1, both below the word, and never 0
    have hlt : ms * nanosPerMilli < Nat.pow 2 64 := h ▸ max_lt hmod hword
    have hpos : 0 < ms * nanosPerMilli := h ▸ Nat.lt_of_lt_of_le Nat.one_pos (le_max_right _ _)
    exact ⟨Nat.pos_of_mul_pos_right hpos, hlt⟩
  · rintro ⟨hpos, hlt⟩
    rw [Nat.mod_eq_of_lt hlt]
    exact max_eq_left (Nat.mul_pos hpos (by decide))

namespace TimerBatch

/-- An expiry at or after the start is recorded exactly when its nanoseconds since the epoch
are a word. -/
theorem expiryOf_eq_ok_iff {atMs : Int} (h : 0 ≤ atMs) :
    expiryOf atMs = .ok (atMs.toNat * nanosPerMilli + epochLead) ↔
      atMs.toNat * nanosPerMilli + epochLead < Nat.pow 2 64 := by
  have hneg : int64Min < 0 := by decide
  unfold expiryOf
  rw [if_neg (by omega), if_neg (Int.not_lt.2 h), Except.ok.injEq, pow_two_64_eq]
  omega

/-- An instant before the start is before the epoch too, and counts as the epoch. -/
theorem expiryOf_neg {atMs : Int} (h : atMs < 0) (hmin : atMs ≠ int64Min) :
    expiryOf atMs = .ok 0 := by
  unfold expiryOf
  rw [if_neg hmin, if_pos h]

theorem lt_of_expiryOf {atMs : Int} {e : Nat} (h : expiryOf atMs = .ok e) : e < Nat.pow 2 64 := by
  unfold expiryOf at h
  rw [pow_two_64_eq]
  split_ifs at h
  · rw [← Except.ok.inj h]
    omega
  · rw [← Except.ok.inj h, pow_two_64_eq]
    omega

end TimerBatch

/-! ## 2. Due instants, re-arming and popping -/

/-- The `k`-th instant a timer is due at: its recorded expiry plus `k` periods; a one-shot
timer has no period. -/
def TimerEntry.dueAt (e : TimerEntry) (k : Nat) : Nat := e.expiresAt + k * e.interval.getD 0

theorem TimerEntry.dueAt_succ {e : TimerEntry} {i k : Nat} (h : e.interval = some i) :
    e.dueAt (k + 1) = e.dueAt k + i := by
  simp only [dueAt, h, Option.getD_some, Nat.succ_mul]
  omega

@[simp] theorem TimerTable.dueAt_cancel {t : TimerTable} {i j : Nat} :
    ((t.cancel i).get j).dueAt = (t.get j).dueAt := by
  funext k
  simp [TimerEntry.dueAt]

namespace TimerThread

variable {w w' : TimerThread} {t : TimerTable} {p : Pending} {now : Nat}

/-- A re-arm panics exactly when it puts back a periodic timer, not removed, whose next expiry
passes the word. -/
theorem rearm_eq_error_iff {a : Abort} :
    w.rearm t p = .error a ↔
      a = Abort.addOverflow ∧ t.isCancelled p.timer = false ∧
        ∃ i, (t.get p.timer).interval = some i ∧ Nat.pow 2 64 ≤ p.expiresAt + i := by
  unfold rearm
  split
  next i hi =>
    by_cases hc : t.isCancelled p.timer = true
    · simp [hc]
    by_cases hw : p.expiresAt + i < Nat.pow 2 64
    · simp only [hc, hw, Bool.false_eq_true, ↓reduceIte, reduceCtorEq, false_iff]
      rintro ⟨-, -, i', hi', hle⟩
      rw [hi, Option.some.injEq] at hi'
      subst hi'
      omega
    · simp only [hc, hw, Bool.false_eq_true, ↓reduceIte, Except.error.injEq]
      constructor
      · rintro rfl
        exact ⟨rfl, trivial, i, hi, Nat.not_lt.1 hw⟩
      · rintro ⟨rfl, -⟩
        rfl
  next hi =>
    simp [hi]

/-- A re-arm that goes through leaves the heap, or puts the timer back one period later,
within the word. -/
theorem rearm_ok (h : w.rearm t p = .ok w') :
    w'.heap = w.heap ∨
      ∃ i, (t.get p.timer).interval = some i ∧ p.expiresAt + i < Nat.pow 2 64 ∧
        w'.heap = Pending.insert { p with expiresAt := p.expiresAt + i } w.heap := by
  unfold rearm at h
  split at h
  next i hi =>
    split_ifs at h with hc hw
    · cases h
      exact .inl rfl
    · cases h
      exact .inr ⟨i, hi, hw, rfl⟩
  next =>
    cases h
    exact .inl rfl

/-- Popping passes over removed timers at the front and takes the first due one. -/
theorem popDue_go_some {l rest : List Pending} (h : popDue.go t now l = (rest, some p)) :
    ∃ pre, l = pre ++ p :: rest ∧ p.expiresAt ≤ now ∧ t.isCancelled p.timer = false := by
  induction l with
  | nil => simp [popDue.go] at h
  | cons q l ih =>
    simp only [popDue.go] at h
    split_ifs at h with h₁ h₂
    · cases h
    · obtain ⟨pre, rfl, hle, hc⟩ := ih h
      exact ⟨q :: pre, rfl, hle, hc⟩
    · cases h
      exact ⟨[], rfl, Nat.le_of_not_lt h₁, by simpa using h₂⟩

theorem popDue_go_none {l rest : List Pending} (h : popDue.go t now l = (rest, none)) :
    ∃ pre, l = pre ++ rest := by
  induction l with
  | nil =>
    simp only [popDue.go, Prod.mk.injEq] at h
    exact ⟨[], h.1 ▸ rfl⟩
  | cons q l ih =>
    simp only [popDue.go] at h
    split_ifs at h
    · cases h
      exact ⟨[], rfl⟩
    · obtain ⟨pre, rfl⟩ := ih h
      exact ⟨q :: pre, rfl⟩
    · cases h

/-- A popped timer was due and not removed; the heap left is what followed it. -/
theorem popDue_some (h : w.popDue t now = (w', some p)) :
    ∃ pre, w.heap = pre ++ p :: w'.heap ∧ p.expiresAt ≤ now ∧
      t.isCancelled p.timer = false := by
  unfold popDue at h
  rcases hg : popDue.go t now w.heap with ⟨heap, o⟩
  rw [hg] at h
  simp only [Prod.mk.injEq] at h
  obtain ⟨rfl, rfl⟩ := h
  exact popDue_go_some hg

/-- Popping nothing leaves a tail of the heap. -/
theorem popDue_none (h : w.popDue t now = (w', none)) : ∃ pre, w.heap = pre ++ w'.heap := by
  unfold popDue at h
  rcases hg : popDue.go t now w.heap with ⟨heap, o⟩
  rw [hg] at h
  simp only [Prod.mk.injEq] at h
  obtain ⟨rfl, rfl⟩ := h
  exact popDue_go_none hg

end TimerThread

/-! ## 3. Exact heaps -/

/-- A heap of a timer thread that has fired the timers in `fired` keeps exact expiries: at
most one pending for each timer, due at the `k`-th instant of its timer after `k` firings,
within the word. -/
structure ExactHeap (t : TimerTable) (heap : List Pending) (fired : List Nat) : Prop where
  nodup : (heap.map Pending.timer).Nodup
  due : ∀ p ∈ heap, p.expiresAt = (t.get p.timer).dueAt (fired.count p.timer)
  word : ∀ p ∈ heap, p.expiresAt < Nat.pow 2 64

namespace ExactHeap

variable {t : TimerTable} {heap pre rest : List Pending} {fired : List Nat} {p : Pending}

theorem of_append (h : ExactHeap t (pre ++ heap) fired) : ExactHeap t heap fired where
  nodup := by
    have := h.nodup
    rw [List.map_append] at this
    exact (List.nodup_append.1 this).2.1
  due q hq := h.due q (List.mem_append_right _ hq)
  word q hq := h.word q (List.mem_append_right _ hq)

theorem cancel (h : ExactHeap t heap fired) (i : Nat) : ExactHeap (t.cancel i) heap fired where
  nodup := h.nodup
  due q hq := by rw [TimerTable.dueAt_cancel]; exact h.due q hq
  word := h.word

/-- A callback that may remove its own timer keeps the heap exact. -/
theorem cancel_if (h : ExactHeap t heap fired) (c : Prop) [Decidable c] (i : Nat) :
    ExactHeap (if c then t.cancel i else t) heap fired := by
  split
  · exact h.cancel i
  · exact h

/-- Firing the popped timer: the pendings left keep their firing counts. -/
theorem fire (h : ExactHeap t (pre ++ p :: rest) fired) :
    ExactHeap t rest (fired ++ [p.timer]) := by
  have hrest : ExactHeap t rest fired :=
    of_append (show ExactHeap t ([p] ++ rest) fired from of_append h)
  have hp : p.timer ∉ rest.map Pending.timer := by
    have := (of_append h).nodup
    simp only [List.map_cons, List.nodup_cons] at this
    exact this.1
  refine ⟨hrest.nodup, fun q hq => ?_, hrest.word⟩
  have hne : p.timer ≠ q.timer := fun he => hp (he ▸ List.mem_map_of_mem hq)
  have hcount : (fired ++ [p.timer]).count q.timer = fired.count q.timer := by
    simp [List.count_append, hne]
  rw [hcount]
  exact hrest.due q hq

/-- Re-arming the popped timer puts it back due at its next instant. -/
theorem rearm {w w' : TimerThread} (h : ExactHeap t (pre ++ p :: rest) fired) (hw : w.heap = rest)
    (hr : w.rearm t p = .ok w') : ExactHeap t w'.heap (fired ++ [p.timer]) := by
  have hf := fire h
  rcases TimerThread.rearm_ok hr with hh | ⟨i, hi, hlt, hh⟩
  · rwa [hh, hw]
  rw [hh, hw]
  have hp : p.timer ∉ rest.map Pending.timer := by
    have := (of_append h).nodup
    simp only [List.map_cons, List.nodup_cons] at this
    exact this.1
  have hdue : p.expiresAt = (t.get p.timer).dueAt (fired.count p.timer) :=
    (of_append h).due p List.mem_cons_self
  refine ⟨?_, fun q hq => ?_, fun q hq => ?_⟩
  · rw [((Pending.insert_perm _ rest).map Pending.timer).nodup_iff]
    exact List.nodup_cons.2 ⟨hp, hf.nodup⟩
  · rcases Pending.mem_insert.1 hq with rfl | hq
    · have hcount : (fired ++ [p.timer]).count p.timer = fired.count p.timer + 1 := by simp
      rw [hcount, TimerEntry.dueAt_succ hi, ← hdue]
    · exact hf.due q hq
  · rcases Pending.mem_insert.1 hq with rfl | hq
    · exact hlt
    · exact hf.word q hq

end ExactHeap

/-! ## 4. One loop of the timer thread -/

namespace TimerBatch

/-- The firings made between the firing lists `before` and `after`, the `k`-th of each timer
due by the clock reading `now`. -/
def DueBy (t : TimerTable) (now : Nat) (before after : List Nat) : Prop :=
  ∀ j k, before.count j ≤ k → k < after.count j → (t.get j).dueAt k ≤ now

namespace DueBy

variable {t : TimerTable} {now : Nat} {a b c : List Nat}

theorem refl : DueBy t now a a := fun _ _ h₁ h₂ => absurd h₂ (Nat.not_lt.2 h₁)

theorem trans (h₁ : DueBy t now a b) (h₂ : DueBy t now b c) : DueBy t now a c := by
  intro j k ha hc
  by_cases hb : k < b.count j
  · exact h₁ j k ha hb
  · exact h₂ j k (Nat.le_of_not_lt hb) hc

/-- Firing a timer whose next instant is due by `now`. -/
theorem fire {p : Nat} (h : (t.get p).dueAt (a.count p) ≤ now) : DueBy t now a (a ++ [p]) := by
  intro j k ha hk
  rw [List.count_append, List.count_singleton] at hk
  by_cases hj : p = j
  · subst hj
    have : k = a.count p := by simp at hk; omega
    rwa [this]
  · simp [hj] at hk
    omega

theorem of_cancel_if (cond : Prop) [Decidable cond] {i : Nat}
    (h : DueBy (if cond then t.cancel i else t) now a b) : DueBy t now a b := by
  intro j k ha hb
  have := h j k ha hb
  split at this
  · rwa [TimerTable.dueAt_cancel] at this
  · exact this

end DueBy

/-- One loop of the timer thread at the clock reading `now`, from an exact heap: it keeps the
heap exact, only appends firings, and fires the `k`-th time of a timer only when its `k`-th
instant is due by `now`. Induction on the fuel, one firing a step; a re-arm that panics ends
the loop with its firing made. -/
theorem fireAll_exact (specs : List TimerSpec) (now : Nat) :
    ∀ (fuel : Nat) (t : TimerTable) (w : TimerThread) (fired calls : List Nat)
      {t' : TimerTable} {w' : TimerThread} {fired' : List Nat},
      ExactHeap t w.heap fired →
      fireAll specs now fuel (t, w, fired) calls = (t', w', fired') →
      ExactHeap t' w'.heap fired' ∧ fired <+: fired' ∧ DueBy t now fired fired'
  | 0, t, w, fired, calls, _, _, _, hx, h => by
    simp only [fireAll, Prod.mk.injEq] at h
    obtain ⟨rfl, rfl, rfl⟩ := h
    exact ⟨hx, List.prefix_refl _, DueBy.refl⟩
  | fuel + 1, t, w, fired, calls, t', w', fired', hx, h => by
    unfold fireAll at h
    rcases hp : w.popDue t now with ⟨w₁, _ | p⟩
    · rw [hp] at h
      simp only [Prod.mk.injEq] at h
      obtain ⟨rfl, rfl, rfl⟩ := h
      obtain ⟨pre, hpre⟩ := TimerThread.popDue_none hp
      exact ⟨(hpre ▸ hx).of_append, List.prefix_refl _, DueBy.refl⟩
    · rw [hp] at h
      simp only at h
      obtain ⟨pre, hpre, hle, -⟩ := TimerThread.popDue_some hp
      rw [hpre] at hx
      -- the popped timer was due by the clock reading at its next instant
      have hdue : (t.get p.timer).dueAt (fired.count p.timer) ≤ now :=
        hx.due p (List.mem_append_right _ List.mem_cons_self) ▸ hle
      split at h
      next w₂ hr =>
        -- re-armed: the rest of the loop runs on
        obtain ⟨hx', hfix, hby⟩ :=
          fireAll_exact specs now fuel _ w₂ _ _ ((hx.cancel_if _ _).rearm rfl hr) h
        exact ⟨hx', (List.prefix_append _ _).trans hfix,
          (DueBy.fire hdue).trans (DueBy.of_cancel_if _ hby)⟩
      next a hr =>
        -- the re-arm panicked: the loop ends with the firing made
        simp only [Prod.mk.injEq] at h
        obtain ⟨rfl, rfl, rfl⟩ := h
        exact ⟨(hx.cancel_if _ _).fire, List.prefix_append _ _, DueBy.fire hdue⟩

end TimerBatch

/-! ## 5. Setting a batch up -/

theorem except_bind_eq_ok {ε α β : Type} {x : Except ε α} {f : α → Except ε β} {b : β}
    (h : (x >>= f) = .ok b) : ∃ a, x = .ok a ∧ f a = .ok b := by
  cases x with
  | error e => cases h
  | ok a => exact ⟨a, rfl, h⟩

@[simp] theorem mapError_eq_ok {ε ε' α : Type} {f : ε → ε'} {x : Except ε α} {a : α} :
    x.mapError f = .ok a ↔ x = .ok a := by
  cases x <;> simp [Except.mapError]

/-- A property that every step of a fold keeps holds after a fold that succeeds. -/
theorem foldlM_except_inv {ε α β : Type} (P : α → Prop) {f : α → β → Except ε α}
    (hf : ∀ a b a', P a → f a b = .ok a' → P a') :
    ∀ (l : List β) (a a' : α), P a → l.foldlM f a = .ok a' → P a'
  | [], a, a', ha, h => by
    simp only [List.foldlM_nil] at h
    cases h
    exact ha
  | b :: l, a, a', ha, h => by
    rw [List.foldlM_cons] at h
    rcases hb : f a b with e | a₁
    · rw [hb] at h
      cases h
    · rw [hb, except_ok_bind] at h
      exact foldlM_except_inv P hf l a₁ a' (hf a b a₁ ha hb) h

namespace TimerTable

variable {t : TimerTable} {j worker e : Nat} {iv : Option Nat}

@[simp] theorem length_create : (t.create worker e iv).1.entries.length = t.entries.length + 1 := by
  simp [create]

theorem get_create_lt (h : j < t.entries.length) : (t.create worker e iv).1.get j = t.get j := by
  simp [create, get, List.getD_eq_getElem?_getD, List.getElem?_append_left h]

theorem get_create_self :
    (t.create worker e iv).1.get t.entries.length = { worker, expiresAt := e, interval := iv } := by
  simp [create, get, List.getD_eq_getElem?_getD]

/-- An enabled timer is one that was created. -/
theorem lt_of_enabled (h : (t.get j).enabled = true) : j < t.entries.length :=
  Nat.lt_of_not_le fun hl => by rw [enabled_of_length_le hl] at h; cases h

end TimerTable

namespace TimerThread

/-- The timers queued on a thread. -/
def queued (w : TimerThread) : List Nat := (w.producers.map Prod.snd).flatten

/-- A thread being set up by one producer: at most one queue, of enabled timers, each once,
and nothing collected yet. -/
structure SetUp (t : TimerTable) (w : TimerThread) : Prop where
  single : w.producers = [] ∨ ∃ q, w.producers = [(0, q)]
  nodup : w.queued.Nodup
  enabled : ∀ i ∈ w.queued, (t.get i).enabled = true
  heap : w.heap = []

variable {w w' : TimerThread} {t t' : TimerTable} {producer i : Nat}

/-- What an enable that goes through does: the timer was not enabled, is marked enabled, and
joins its producer's queue. -/
theorem enable_ok (h : w.enable t producer i = .ok (w', t')) :
    (t.get i).enabled = false ∧ t' = t.markEnabled i ∧ w'.heap = w.heap ∧
      w'.producers = match w.producers.lookup producer with
        | some q => w.producers.map (fun (p, q') => if p = producer then (p, q ++ [i]) else (p, q'))
        | none => w.producers ++ [(producer, [i])] := by
  unfold enable at h
  dsimp only at h
  split_ifs at h with h₁ h₂
  cases h
  exact ⟨by simpa using h₂, rfl, rfl, rfl⟩

namespace SetUp

theorem markEnabled (hs : SetUp t w) (i : Nat) : SetUp (t.markEnabled i) w where
  single := hs.single
  nodup := hs.nodup
  enabled j hj := by simp [TimerTable.enabled_markEnabled, hs.enabled j hj]
  heap := hs.heap

theorem cancel (hs : SetUp t w) (i : Nat) : SetUp (t.cancel i) w where
  single := hs.single
  nodup := hs.nodup
  enabled j hj := by simp [hs.enabled j hj]
  heap := hs.heap

theorem create (hs : SetUp t w) {worker e : Nat} {iv : Option Nat} :
    SetUp (t.create worker e iv).1 w where
  single := hs.single
  nodup := hs.nodup
  enabled j hj := by
    have := hs.enabled j hj
    rwa [TimerTable.get_create_lt (TimerTable.lt_of_enabled this)]
  heap := hs.heap

/-- The one producer enables a created timer: it joins the end of the queue. -/
theorem enable (hs : SetUp t w) (hi : i < t.entries.length) (h : w.enable t 0 i = .ok (w', t')) :
    SetUp t' w' ∧ t' = t.markEnabled i := by
  obtain ⟨hen, rfl, hheap, hprod⟩ := enable_ok h
  refine ⟨?_, rfl⟩
  -- the queue after: the old one with the timer appended
  obtain ⟨q, hq, hq'⟩ : ∃ q, w.queued = q ∧ w'.producers = [(0, q ++ [i])] := by
    rcases hs.single with h₀ | ⟨q, h₀⟩
    · exact ⟨[], by simp [queued, h₀], by simp [hprod, h₀]⟩
    · exact ⟨q, by simp [queued, h₀], by simp [hprod, h₀]⟩
  have hnot : i ∉ q := fun hm => by
    have := hs.enabled i (hq ▸ hm)
    rw [hen] at this
    cases this
  have hqueued : w'.queued = q ++ [i] := by simp [queued, hq']
  refine ⟨.inr ⟨_, hq'⟩, ?_, fun j hj => ?_, hheap.trans hs.heap⟩
  · rw [hqueued]
    exact List.nodup_append.2 ⟨hq ▸ hs.nodup, List.nodup_singleton i,
      fun a ha b hb => by rw [List.mem_singleton] at hb; exact hb ▸ fun he => hnot (he ▸ ha)⟩
  · rw [hqueued, List.mem_append, List.mem_singleton] at hj
    rw [TimerTable.enabled_markEnabled]
    rcases hj with hj | rfl
    · simp [hs.enabled j (hq ▸ hj)]
    · simp [hi]

end SetUp

end TimerThread

namespace TimerBatch

open TimerThread

/-- The table and home thread while a timer is enabled: the home thread set up, and the
expiries and periods as the new timer's creation left them. -/
def Enabling (t₁ : TimerTable) (x : TimerTable × TimerThread × TimerThread) : Prop :=
  SetUp x.1 x.2.1 ∧ x.1.entries.length = t₁.entries.length ∧
    ∀ j, (x.1.get j).expiresAt = (t₁.get j).expiresAt ∧
      (x.1.get j).interval = (t₁.get j).interval

theorem Enabling.markEnabled {t₁ : TimerTable} {x : TimerTable × TimerThread × TimerThread}
    (hx : Enabling t₁ x) (i : Nat) : Enabling t₁ (x.1.markEnabled i, x.2.1, x.2.2) :=
  ⟨hx.1.markEnabled i, by simpa using hx.2.1, fun j => by simpa using hx.2.2 j⟩

/-- Setting a timer up records a new timer at the end of the table, with the spec's expiry
and period, leaves the timers before it as they were, and keeps the home thread set up. -/
theorem setUp_ok {s : TimerSpec} {t t' : TimerTable} {home home' other other' : TimerThread}
    (hs : SetUp t home) (h : setUp (t, home, other) s = .ok (t', home', other')) :
    ∃ e, expiryOf s.atMs = .ok e ∧ t'.entries.length = t.entries.length + 1 ∧
      (∀ j,
        (t'.get j).expiresAt =
          ((t.create home.id e (s.intervalMs.map periodNanos)).1.get j).expiresAt ∧
        (t'.get j).interval =
          ((t.create home.id e (s.intervalMs.map periodNanos)).1.get j).interval) ∧
      SetUp t' home' := by
  unfold setUp at h
  simp only at h
  rcases he : expiryOf s.atMs with a | e
  · rw [he] at h
    cases h
  rw [he, except_ok_bind] at h
  refine ⟨e, rfl, ?_⟩
  rcases hc : t.create home.id e (s.intervalMs.map periodNanos) with ⟨t₁, id⟩
  have hid : id < t₁.entries.length := by
    simp only [TimerTable.create, Prod.mk.injEq] at hc
    obtain ⟨rfl, rfl⟩ := hc
    simp
  rw [hc] at h
  simp only at h
  obtain ⟨⟨t₂, home₂, other₂⟩, hf, h⟩ := except_bind_eq_ok h
  -- every enable keeps the home thread set up and the expiries and periods recorded
  have ht₁ : t₁ = (t.create home.id e (s.intervalMs.map periodNanos)).1 := by rw [hc]
  have hstart : Enabling t₁ (t₁, home, other) := by
    refine ⟨?_, rfl, fun _ => ⟨rfl, rfl⟩⟩
    rw [ht₁]
    exact hs.create
  have henabling := foldlM_except_inv (Enabling t₁) (fun x _ y hx hy => by
    split_ifs at hy
    · obtain ⟨⟨o, ta⟩, hen, hy⟩ := except_bind_eq_ok hy
      cases hy
      obtain ⟨-, rfl, -⟩ := enable_ok hen
      exact hx.markEnabled id
    · obtain ⟨⟨w, ta⟩, hen, hy⟩ := except_bind_eq_ok hy
      cases hy
      obtain ⟨hsw, rfl⟩ := hx.1.enable (hx.2.1 ▸ hid) hen
      exact ⟨hsw, by simpa using hx.2.1, fun j => by simpa using hx.2.2 j⟩) _ _ _ hstart hf
  obtain ⟨hsu, hlen, hget⟩ := henabling
  have hlen₁ : t₁.entries.length = t.entries.length + 1 := by
    simp only [TimerTable.create, Prod.mk.injEq] at hc
    obtain ⟨rfl, rfl⟩ := hc
    simp
  -- the release: a removal marks the new timer removed, a dropped handle aborts
  split at h
  · cases h
    exact ⟨by simpa [hlen] using hlen₁, fun j => by simpa using hget j, hsu.cancel id⟩
  · cases h
  · cases h
    exact ⟨hlen.trans hlen₁, hget, hsu⟩

end TimerBatch

namespace TimerThread

open scoped List

/-- Collecting timers one after another: each goes into the heap at its recorded expiry. -/
theorem foldl_collect (t : TimerTable) : ∀ (l : List Nat) (x : List Pending × Nat),
    ((l.foldl (fun x i => (Pending.insert ⟨(t.get i).expiresAt, x.2 + 1, i⟩ x.1, x.2 + 1))
        x).1.map Pending.timer).Perm (x.1.map Pending.timer ++ l) ∧
      ∀ q ∈
        (l.foldl (fun x i => (Pending.insert ⟨(t.get i).expiresAt, x.2 + 1, i⟩ x.1, x.2 + 1)) x).1,
        q ∈ x.1 ∨ (q.timer ∈ l ∧ q.expiresAt = (t.get q.timer).expiresAt)
  | [], x => by simp
  | i :: l, x => by
    obtain ⟨hperm, hmem⟩ :=
      foldl_collect t l (Pending.insert ⟨(t.get i).expiresAt, x.2 + 1, i⟩ x.1, x.2 + 1)
    simp only [List.foldl_cons]
    refine ⟨?_, fun q hq => ?_⟩
    · calc _ ~ (Pending.insert ⟨(t.get i).expiresAt, x.2 + 1, i⟩ x.1).map Pending.timer ++ l :=
            hperm
        _ ~ (i :: x.1.map Pending.timer) ++ l :=
          (((Pending.insert_perm _ x.1).map Pending.timer).append_right l)
        _ ~ x.1.map Pending.timer ++ i :: l := List.perm_middle.symm
    · rcases hmem q hq with hq | ⟨hl, he⟩
      · rcases Pending.mem_insert.1 hq with rfl | hq
        · exact .inr ⟨List.mem_cons_self, rfl⟩
        · exact .inl hq
      · exact .inr ⟨List.mem_cons_of_mem i hl, he⟩

/-- The heap a set-up thread collects is exact: each queued timer not removed, once, at its
recorded expiry, before any firing. -/
theorem SetUp.collect_exact {t : TimerTable} {w : TimerThread} (hs : SetUp t w)
    (hword : ∀ i ∈ w.queued, (t.get i).expiresAt < Nat.pow 2 64) :
    ExactHeap t (w.collect t).heap [] := by
  obtain ⟨hperm, hmem⟩ :=
    foldl_collect t (w.queued.filter (fun i => !t.isCancelled i)) (w.heap, w.seq)
  have hcol : (w.collect t).heap =
      ((w.queued.filter (fun i => !t.isCancelled i)).foldl
        (fun x i => (Pending.insert ⟨(t.get i).expiresAt, x.2 + 1, i⟩ x.1, x.2 + 1))
        (w.heap, w.seq)).1 := rfl
  rw [hs.heap] at hperm hmem
  rw [hcol, hs.heap]
  refine ⟨?_, fun q hq => ?_, fun q hq => ?_⟩
  · rw [hperm.nodup_iff]
    exact hs.nodup.filter _
  · rcases hmem q hq with hq | ⟨-, he⟩
    · cases hq
    · simp [he, TimerEntry.dueAt]
  · rcases hmem q hq with hq | ⟨hl, he⟩
    · cases hq
    · rw [he]
      exact hword _ (List.mem_of_mem_filter hl)

end TimerThread

namespace TimerBatch

open TimerThread

/-- What the set-up of a batch has recorded: one timer for each spec taken, with the expiry
and period of its spec, and the home thread set up. -/
structure Recorded (p : Progress) : Prop where
  length : p.table.entries.length = p.specs.length
  expiry : ∀ j < p.specs.length,
    expiryOf (p.specs.getD j default).atMs = .ok (p.table.get j).expiresAt
  period : ∀ j < p.specs.length,
    (p.table.get j).interval = (p.specs.getD j default).intervalMs.map periodNanos
  home : SetUp p.table p.home

/-- Nothing is recorded before the first spec. -/
theorem recorded_start : Recorded {} where
  length := rfl
  expiry j hj := absurd hj (Nat.not_lt_zero j)
  period j hj := absurd hj (Nat.not_lt_zero j)
  home := ⟨.inl rfl, List.nodup_nil, fun _ h => by simp [queued] at h, rfl⟩

/-- Taking a spec records its timer after the others. -/
theorem Recorded.take {p p' : Progress} {r : Except String TimerSpec} (hp : Recorded p)
    (h : TimerBatch.take p r = .ok p') : Recorded p' := by
  cases r with
  | error reason => cases h
  | ok s =>
  obtain ⟨last, -, h⟩ := except_bind_eq_ok h
  obtain ⟨⟨t', home', other'⟩, hs, h⟩ := except_bind_eq_ok h
  cases h
  obtain ⟨e, he, hlen, hget, hsu⟩ := setUp_ok hp.home (mapError_eq_ok.1 hs)
  have hn := hp.length
  refine ⟨by simp [hlen, hn], fun j hj => ?_, fun j hj => ?_, hsu⟩
  all_goals
    simp only [List.length_append, List.length_singleton] at hj
    obtain ⟨hx, hi⟩ := hget j
    rcases Nat.lt_succ_iff_lt_or_eq.1 hj with hj | rfl
  -- the specs before keep their timers; the new one is the last
  · rw [List.getD_append _ _ _ _ hj, hx, TimerTable.get_create_lt (hn ▸ hj)]
    exact hp.expiry j hj
  · rw [List.getD_append_right _ _ _ _ le_rfl, Nat.sub_self, hx, ← hn,
      TimerTable.get_create_self]
    exact he
  · rw [List.getD_append _ _ _ _ hj, hi, TimerTable.get_create_lt (hn ▸ hj)]
    exact hp.period j hj
  · rw [List.getD_append_right _ _ _ _ le_rfl, Nat.sub_self, hi, ← hn,
      TimerTable.get_create_self]
    rfl

/-- Every set-up of a batch records its specs. -/
theorem recorded_of_setUp {requests : List (Except String TimerSpec)} {p : Progress}
    (h : requests.foldlM TimerBatch.take {} = .ok p) : Recorded p :=
  foldlM_except_inv Recorded (fun _ _ _ hp h => hp.take h) requests {} p recorded_start h

/-- The heap the timer thread collects at the start of a batch is exact. -/
theorem Recorded.collect_exact {p : Progress} (hp : Recorded p) :
    ExactHeap p.table (p.home.collect p.table).heap [] :=
  hp.home.collect_exact fun i hi => by
    have hlt := hp.length ▸ TimerTable.lt_of_enabled (hp.home.enabled i hi)
    exact lt_of_expiryOf (hp.expiry i hlt)

end TimerBatch

/-! ## 6. The arithmetic, exactly -/

/-- Timer arithmetic, exactly. A period is recorded as its nanoseconds exactly when they are a
non-zero word, and an expiry at or after the start exactly when its nanoseconds since the
epoch are a word; one before the epoch is the epoch. A re-arm panics the timer thread exactly
when the next expiry passes the word. Setting a batch up records every timer from its spec,
and the heap the timer thread then collects is exact. From an exact heap, the loop of the timer
thread at any clock reading `now` keeps the heap exact, only appends firings, and makes
the `k`-th firing of a timer only when its recorded expiry plus `k` recorded periods is due by
`now`: the instants are fixed when the timer is made, whenever the callbacks run. -/
theorem timer_arithmetic_exact (specs : List TimerSpec) (now fuel : Nat) (t : TimerTable)
    (w : TimerThread) (fired calls : List Nat) :
    (∀ ms, periodNanos ms = ms * nanosPerMilli ↔
      0 < ms ∧ ms * nanosPerMilli < Nat.pow 2 64) ∧
    (∀ atMs : Int, 0 ≤ atMs →
      (TimerBatch.expiryOf atMs = .ok (atMs.toNat * nanosPerMilli + TimerBatch.epochLead) ↔
        atMs.toNat * nanosPerMilli + TimerBatch.epochLead < Nat.pow 2 64)) ∧
    (∀ atMs : Int, atMs < 0 → atMs ≠ TimerBatch.int64Min →
      TimerBatch.expiryOf atMs = .ok 0) ∧
    (∀ (w : TimerThread) t p a, w.rearm t p = .error a ↔
      a = Abort.addOverflow ∧ t.isCancelled p.timer = false ∧
        ∃ i, (t.get p.timer).interval = some i ∧ Nat.pow 2 64 ≤ p.expiresAt + i) ∧
    (∀ (requests : List (Except String TimerSpec)) (p : TimerBatch.Progress),
      requests.foldlM TimerBatch.take {} = .ok p →
      TimerBatch.Recorded p ∧ ExactHeap p.table (p.home.collect p.table).heap []) ∧
    (ExactHeap t w.heap fired → ∀ t' (w' : TimerThread) fired',
      TimerBatch.fireAll specs now fuel (t, w, fired) calls = (t', w', fired') →
      ExactHeap t' w'.heap fired' ∧ fired <+: fired' ∧ TimerBatch.DueBy t now fired fired') :=
  ⟨periodNanos_eq_iff, fun _ h => TimerBatch.expiryOf_eq_ok_iff h,
    fun _ h hmin => TimerBatch.expiryOf_neg h hmin,
    fun _ _ _ _ => TimerThread.rearm_eq_error_iff,
    fun _ _ h =>
      ⟨TimerBatch.recorded_of_setUp h, (TimerBatch.recorded_of_setUp h).collect_exact⟩,
    fun hx _ _ _ h => TimerBatch.fireAll_exact specs now fuel t w fired calls hx h⟩

/-- A period of 13911538256211763513 ms is 64 ns as a word, so a timer kept for two firings
fires twice within the first milliseconds of a batch, where its exact period would put the
second firing far past the batch. -/
theorem period_wraps_to_64ns :
    periodNanos 13911538256211763513 = 64 ∧
    runTimerBatch
        [.ok ({ atMs := 0, intervalMs := some 13911538256211763513, fireLimit := some 2,
                release := .keep } : TimerSpec)] =
      .ok ⟨[0, 0], 2⟩ := by
  constructor
  · rfl
  · rfl

end Fibers
