import Mathlib
import Fibers.Proofs.QueueClasses
/-!
# The reactor queue is polled every 61st acquisition

A work-stealing worker counts its acquisitions in a 32-bit tick count that its thread's slot
keeps from the moment the thread enters. An acquisition first looks at the reactor queue
when the count it reaches is a multiple of `reactorInterval` = 61, and otherwise goes
straight to the pinned queue, its deque and the global queue, which hold no reactor entity.

This module follows one thread through every sequence of calls on the group after it enters
(`Stealing.reactor_polled_every_61`). Number its acquisitions 1, 2, ... The `n`-th takes the
front of the reactor queue when `n mod 2^32` is a multiple of 61 and the queue is not empty,
and otherwise hands out no reactor entity. As `2^32` is not a multiple of 61 the multiples
shift where the count wraps, but the gap between two of them never exceeds 61: among any 61
acquisitions in a row made while the reactor queue is not empty, one takes a reactor entity.

## Contents
1. One acquisition.
2. The calls of other threads.
3. Counting around the wrap.
4. Runs.
-/

namespace Fibers

namespace Stealing

variable {s s' : Stealing} {t i : Nat} {e : Entity}

/-! ## 1. One acquisition -/

/-- What an acquisition does once the reactor queue gave nothing: the pinned queue, the own
deque, then the global queue. -/
def takeQueued (s : Stealing) (t i : Nat) : Stealing × Option Entity :=
  match s.popPinned i with
  | (s, some e) => (s, some e)
  | (s, none) =>
    match s.popLocal t with
    | (s, some e) => (s, some e)
    | (s, none) => s.stealGlobal t

theorem acquire_eq_takeQueued (s : Stealing) (t i : Nat) :
    s.acquire t i =
      match (if (s.tick t).2 then (s.tick t).1.acquireReactor else ((s.tick t).1, none)) with
      | (s, some e) => (s, some e)
      | (s, none) => s.takeQueued t i :=
  rfl

theorem popPinned_mem {j : Nat} (h : s.popPinned j = (s', some e)) : e ∈ s.pinned.getD j [] := by
  unfold popPinned at h
  split at h
  · simp at h
  · rename_i x rest hd
    simp only [Prod.mk.injEq, Option.some.injEq] at h
    rw [hd, h.2]
    exact List.mem_cons_self

theorem Classes.plain_not_reactor (hc : s.Classes) (h : s.PlainQueued e) : e.reactor = false := by
  have he := hc.plain e h
  simp only [Place.admits, Bool.and_eq_true, Bool.not_eq_true'] at he
  exact he.2

theorem Classes.pinned_not_reactor (hc : s.Classes) (h : s.PinnedQueued e) : e.reactor = false := by
  have he := hc.pinned e h
  simp only [Place.admits, Bool.and_eq_true, Bool.not_eq_true'] at he
  exact he.2

/-- Past the reactor queue an acquisition finds no reactor entity. -/
theorem takeQueued_not_reactor (hc : s.Classes) : (s.takeQueued t i).2.any Entity.reactor = false := by
  unfold takeQueued
  rcases hp : s.popPinned i with ⟨s₁, _ | e₁⟩
  · obtain rfl := popPinned_none hp rfl
    dsimp only
    rcases hl : s₁.popLocal t with ⟨s₂, _ | e₂⟩
    · obtain rfl := popLocal_none hl rfl
      dsimp only
      rcases hg : s₂.stealGlobal t with ⟨s₃, _ | e₃⟩
      · rfl
      · simp [hc.plain_not_reactor (stealGlobal_plain hg)]
    · have hd : e₂ ∈ s₁.deque ((s₁.localIndex t).getD 0) := by
        unfold popLocal at hl
        split at hl
        · rename_i j hj
          rw [hj]
          exact popDeque_mem hl
        · simp at hl
      simp [hc.plain_not_reactor (.inr (mem_getD_of_mem hd))]
  · simp [hc.pinned_not_reactor (mem_getD_of_mem (popPinned_mem hp))]

/-- Ticking changes the thread's own count and nothing else. -/
theorem lookup_map_ticks (t u : Nat) (k : UInt32) : ∀ ps : List (Nat × WorkerSlot),
    (ps.map (fun x => if x.1 = t then (x.1, { x.2 with ticks := k }) else x)).lookup u =
      if u = t then (ps.lookup u).map (fun sl => { sl with ticks := k }) else ps.lookup u
  | [] => by simp
  | (v, sl) :: ps => by
    have ih := lookup_map_ticks t u k ps
    by_cases hu : u = v
    · subst hu
      by_cases hv : u = t <;> simp [List.lookup, hv]
    · have hb : (u == v) = false := by simpa using hu
      by_cases hv : v = t
      · subst hv
        simpa [List.lookup, hb] using ih
      · simpa [List.lookup, hb, hv] using ih

theorem slotOf_tick (hs : s.slotOf t = some slot) (u : Nat) :
    (s.tick t).1.slotOf u = if u = t then some { slot with ticks := slot.ticks + 1 } else s.slotOf u := by
  have hl : s.threads.lookup t = some slot := hs
  unfold tick
  rw [hs]
  simp only [slotOf, lookup_map_ticks]
  by_cases hu : u = t
  · subst hu
    simp [hl]
  · simp [hu]

theorem tick_due (hs : s.slotOf t = some slot) :
    (s.tick t).2 = ((slot.ticks + 1) % reactorInterval == 0) := by
  unfold tick
  rw [hs]

theorem reactor_tick (t : Nat) : (s.tick t).1.reactor = s.reactor := by
  unfold tick
  split <;> rfl

theorem acquireReactor_snd (s : Stealing) : s.acquireReactor.2 = s.reactor.items.head? := by
  simp only [acquireReactor, Injector.steal]
  split <;> simp_all

/-- An acquisition hands out a reactor entity exactly when its count is due and the reactor
queue holds one. -/
theorem acquire_reactor_iff (hc : s.Classes) (hs : s.slotOf t = some slot) :
    (s.acquire t i).2.any Entity.reactor =
      ((slot.ticks + 1) % reactorInterval == 0 && !s.reactor.isEmpty) := by
  rw [acquire_eq_takeQueued, tick_due hs]
  have hc₁ : (s.tick t).1.Classes := hc.drawn (tick_drawn t)
  rcases hd : ((slot.ticks + 1) % reactorInterval == 0) with _ | _
  · exact takeQueued_not_reactor hc₁
  · rcases ha : (s.tick t).1.acquireReactor with ⟨s₂, o₂⟩
    have ho : o₂ = s.reactor.items.head? := by
      rw [← reactor_tick t, ← acquireReactor_snd, ha]
    simp only [if_true]
    cases hq : s.reactor.items with
    | nil =>
      rw [hq] at ho
      subst ho
      obtain rfl := acquireReactor_none ha rfl
      simpa [Injector.isEmpty, hq] using takeQueued_not_reactor hc₁
    | cons e rest =>
      rw [hq] at ho
      subst ho
      have he : e.reactor = true := hc.reactor e (by rw [hq]; exact List.mem_cons_self)
      simp [Injector.isEmpty, hq, he]

/-- A due acquisition takes the front of the reactor queue. -/
theorem acquire_reactor_front (hs : s.slotOf t = some slot)
    (hd : (slot.ticks + 1) % reactorInterval = 0) {rest : List Entity}
    (hr : s.reactor.items = e :: rest) : (s.acquire t i).2 = some e := by
  have hdue : (s.tick t).2 = true := by
    rw [tick_due hs, hd]
    rfl
  have ho : (s.tick t).1.acquireReactor.2 = some e := by
    rw [acquireReactor_snd, reactor_tick, hr]
    rfl
  rw [acquire_eq_takeQueued, hdue, if_pos rfl]
  rcases ha : (s.tick t).1.acquireReactor with ⟨s₂, o₂⟩
  rw [ha] at ho
  subst ho
  rfl

/-! ## 2. The calls of other threads -/

@[simp] theorem threads_popPinned (s : Stealing) (i : Nat) : (s.popPinned i).1.threads = s.threads := by
  unfold popPinned
  split <;> rfl

@[simp] theorem threads_popDeque (s : Stealing) (i : Nat) : (s.popDeque i).1.threads = s.threads := by
  unfold popDeque
  split <;> rfl

@[simp] theorem threads_popLocal (s : Stealing) (t : Nat) : (s.popLocal t).1.threads = s.threads := by
  unfold popLocal
  split <;> simp

@[simp] theorem threads_stealGlobal (s : Stealing) (t : Nat) : (s.stealGlobal t).1.threads = s.threads := by
  unfold stealGlobal
  split <;> rfl

@[simp] theorem threads_acquireReactor (s : Stealing) : s.acquireReactor.1.threads = s.threads := rfl

@[simp] theorem threads_takeQueued (s : Stealing) (t i : Nat) : (s.takeQueued t i).1.threads = s.threads := by
  unfold takeQueued
  have h₁ := threads_popPinned s i
  rcases hp : s.popPinned i with ⟨s₁, _ | e₁⟩ <;> rw [hp] at h₁ <;> dsimp only at h₁ ⊢
  · have h₂ := threads_popLocal s₁ t
    rcases hl : s₁.popLocal t with ⟨s₂, _ | e₂⟩ <;> rw [hl] at h₂ <;> dsimp only at h₂ ⊢
    · rw [threads_stealGlobal, h₂, h₁]
    · rw [h₂, h₁]
  · exact h₁

/-- An acquisition changes no slot but through its tick. -/
theorem threads_acquire (s : Stealing) (t i : Nat) : (s.acquire t i).1.threads = (s.tick t).1.threads := by
  rw [acquire_eq_takeQueued]
  rcases hr : (if (s.tick t).2 then (s.tick t).1.acquireReactor else ((s.tick t).1, none)) with ⟨s₂, o₂⟩
  have h₂ : s₂.threads = (s.tick t).1.threads := by
    split at hr <;> simp only [acquireReactor, Prod.mk.injEq] at hr <;> rw [← hr.1]
  cases o₂ with
  | none => rw [threads_takeQueued, h₂]
  | some e₂ => exact h₂

@[simp] theorem threads_pushReady (s : Stealing) (t : Nat) (e : Entity) (y : Bool) :
    (s.pushReady t e y).threads = s.threads := by
  unfold pushReady
  repeat' split
  all_goals rfl

@[simp] theorem threads_startAll (s : Stealing) (t : Nat) (es : List Entity) :
    (s.startAll t es).threads = s.threads := by
  unfold startAll
  induction es generalizing s with
  | nil => rfl
  | cons e es ih =>
    rw [List.foldl_cons, ih]
    split <;> simp

@[simp] theorem threads_stealFromPeers (s : Stealing) (i : Nat) : (s.stealFromPeers i).1.threads = s.threads := by
  unfold stealFromPeers
  dsimp only
  split <;> simp

@[simp] theorem threads_remoteAcquire (s : Stealing) : s.remoteAcquire.1.threads = s.threads := by
  unfold remoteAcquire
  repeat' split
  all_goals simp

theorem slotOf_tick_ne {u : Nat} (h : u ≠ t) : (s.tick t).1.slotOf u = s.slotOf u := by
  unfold tick
  split
  · rfl
  · simp [slotOf, lookup_map_ticks, h]

namespace Call

/-- Whether the call is an acquisition by thread `t`. -/
def acquiresOn (t : Nat) : Call → Bool
  | .acquire u _ => u == t
  | _ => false

/-- Whether the call enters or leaves thread `t`. -/
def movesThread (t : Nat) : Call → Bool
  | .enter u _ | .leave u => u == t
  | _ => false

theorem eq_acquire_of_acquiresOn {c : Call} (h : c.acquiresOn t = true) : ∃ i, c = .acquire t i := by
  cases c with
  | acquire u i =>
    simp only [acquiresOn, beq_iff_eq] at h
    exact ⟨i, by rw [h]⟩
  | _ => simp [acquiresOn] at h

end Call

/-- A call that neither enters, leaves nor acquires on thread `t` leaves its slot alone. -/
theorem slotOf_call {c : Call} {o : Option Entity} (hm : c.movesThread t = false)
    (ha : c.acquiresOn t = false) (h : s.call c = .ok (s', o)) : s'.slotOf t = s.slotOf t := by
  cases c with
  | enter u j =>
    have hu : t ≠ u := fun h => by simp [Call.movesThread, h] at hm
    cases he : s.enter u j with
    | error a => simp [call, he, Except.map] at h
    | ok s₁ =>
      simp only [call, he, Except.map, Except.ok.injEq, Prod.mk.injEq] at h
      obtain ⟨rfl, -⟩ := h
      unfold enter at he
      split at he
      · simp only [Except.ok.injEq] at he
        subst he
        simp only [slotOf]
        rw [lookup_enter, if_neg hu]
      · simp at he
  | leave u =>
    have hu : t ≠ u := fun h => by simp [Call.movesThread, h] at hm
    simp only [call, Except.ok.injEq, Prod.mk.injEq] at h
    obtain ⟨rfl, -⟩ := h
    unfold leave
    split
    · rfl
    · simp only [slotOf]
      rw [lookup_filter_ne, if_neg hu]
  | acquire u j =>
    have hu : t ≠ u := fun h => by simp [Call.acquiresOn, h] at ha
    simp only [call, Except.ok.injEq] at h
    have h₁ : s'.threads = (s.tick u).1.threads := by rw [← threads_acquire s u j, h]
    unfold slotOf
    rw [h₁]
    exact slotOf_tick_ne hu
  | _ =>
    -- the other calls change no slot at all
    simp only [call, Except.ok.injEq] at h
    have h₁ := congrArg (fun r : Stealing × Option Entity => r.1.slotOf t) h
    simpa [slotOf] using h₁.symm

/-- Entering starts the thread's count at 0. -/
theorem slotOf_enter {index : Nat} (h : s.enter t index = .ok s') : s'.slotOf t = some { index } := by
  unfold enter at h
  split at h
  · simp only [Except.ok.injEq] at h
    subst h
    simp only [slotOf]
    rw [lookup_enter, if_pos rfl]
  · simp at h

/-! ## 3. Counting around the wrap -/

/-- The reactor queue is due at count `k + 1` exactly when that count, taken modulo `2^32`,
is a multiple of 61. -/
theorem due_iff_toNat (k : UInt32) :
    (k + 1) % reactorInterval = 0 ↔ (k.toNat + 1) % 2 ^ 32 % 61 = 0 := by
  rw [← UInt32.toNat_inj, UInt32.toNat_mod, UInt32.toNat_add]
  simp [reactorInterval]

/-- Among any 61 consecutive counts one is a multiple of 61 modulo `2^32`: before the wrap
the next multiple of 61, and across it the count `2^32` itself, which wraps to 0. -/
theorem exists_due (m : Nat) : ∃ k < 61, (m + k) % 2 ^ 32 % 61 = 0 := by
  have hwrap : ∀ k, (m + k) % 2 ^ 32 = (m % 2 ^ 32 + k) % 2 ^ 32 := fun k => by omega
  have hr : m % 2 ^ 32 < 2 ^ 32 := Nat.mod_lt _ (by norm_num)
  simp only [hwrap]
  generalize m % 2 ^ 32 = r at hr
  generalize 2 ^ 32 = M at hr
  by_cases h : r + 60 < M
  · refine ⟨(61 - r % 61) % 61, by omega, ?_⟩
    rw [Nat.mod_eq_of_lt (show r + (61 - r % 61) % 61 < M by omega)]
    omega
  · refine ⟨M - r, by omega, ?_⟩
    rw [Nat.add_sub_cancel' hr.le, Nat.mod_self]

/-! ## 4. Runs -/

/-- Runs calls in order, stopping at an abort, and records each call with the group it was
made on and the entity it handed out. -/
def trace (s : Stealing) : List Call → List (Stealing × Call × Option Entity)
  | [] => []
  | c :: cs =>
    match s.call c with
    | .ok (s', o) => (s, c, o) :: s'.trace cs
    | .error _ => []

/-- The acquisitions of thread `t` in a record of calls. -/
def acquisitions (t : Nat) (log : List (Stealing × Call × Option Entity)) :
    List (Stealing × Call × Option Entity) :=
  log.filter (fun x => x.2.1.acquiresOn t)

/-- Whether a recorded call handed out a reactor entity. -/
def TookReactor (x : Stealing × Call × Option Entity) : Bool := x.2.2.any Entity.reactor

/-- A recorded acquisition of thread `t` made at count `n`: on a group whose queues keep to
their classes, with the thread's count at `n` modulo `2^32`. -/
structure AcquiresAt (t n : Nat) (x : Stealing × Call × Option Entity) : Prop where
  classes : x.1.Classes
  slot : ∃ sl, x.1.slotOf t = some sl ∧ sl.ticks.toNat = n % 2 ^ 32
  result : ∃ i, x.2.1 = .acquire t i ∧ x.2.2 = (x.1.acquire t i).2

/-- Once thread `t` stands at count `n`, its `j`-th following acquisition is made at count
`n + j`, whatever other threads do in between. -/
theorem acquisitions_acquiresAt : ∀ (cs : List Call) {s : Stealing} {slot : WorkerSlot} (n : Nat),
    s.WF → s.Classes → s.slotOf t = some slot → slot.ticks.toNat = n % 2 ^ 32 →
    (∀ c ∈ cs, c.movesThread t = false) →
    ∀ j x, (acquisitions t (s.trace cs))[j]? = some x → AcquiresAt t (n + j) x
  | [], _, _, _, _, _, _, _, _, j, x, hx => by simp [trace, acquisitions] at hx
  | c :: cs, s, slot, n, hw, hc, hs, hn, hm, j, x, hx => by
    rcases hcall : s.call c with a | ⟨s₁, o⟩
    · simp [trace, hcall, acquisitions] at hx
    obtain ⟨-, hw₁, hc₁⟩ := call_ledger hw hc hcall
    have hm₁ : ∀ c ∈ cs, c.movesThread t = false := fun c hc => hm c (List.mem_cons_of_mem _ hc)
    cases hac : c.acquiresOn t with
    | false =>
      -- another thread's call: the count stands still
      have hs₁ : s₁.slotOf t = some slot := (slotOf_call (hm c List.mem_cons_self) hac hcall).trans hs
      have hx₁ : (acquisitions t (s₁.trace cs))[j]? = some x := by
        simpa [trace, hcall, acquisitions, hac] using hx
      exact acquisitions_acquiresAt cs n hw₁ hc₁ hs₁ hn hm₁ j x hx₁
    | true =>
      -- the thread's own acquisition, at count `n`; the next one is at `n + 1`
      obtain ⟨i, rfl⟩ := Call.eq_acquire_of_acquiresOn hac
      simp only [call, Except.ok.injEq] at hcall
      have hacqs : acquisitions t (s.trace (.acquire t i :: cs)) =
          (s, .acquire t i, o) :: acquisitions t (s₁.trace cs) := by
        simp [trace, call, hcall, acquisitions, hac]
      rw [hacqs] at hx
      cases j with
      | zero =>
        simp only [List.getElem?_cons_zero, Option.some.injEq] at hx
        subst hx
        exact ⟨hc, ⟨slot, hs, by simpa using hn⟩, ⟨i, rfl, by rw [hcall]⟩⟩
      | succ j =>
        have hs₁ : s₁.slotOf t = some { slot with ticks := slot.ticks + 1 } := by
          have h₁ : s₁.threads = (s.tick t).1.threads := by rw [← threads_acquire s t i, hcall]
          unfold slotOf
          rw [h₁]
          exact (slotOf_tick hs t).trans (if_pos rfl)
        have hn₁ : (slot.ticks + 1).toNat = (n + 1) % 2 ^ 32 := by
          rw [UInt32.toNat_add, hn]
          simp only [UInt32.reduceToNat]
          omega
        have h := acquisitions_acquiresAt cs (n + 1) hw₁ hc₁ hs₁ hn₁ hm₁ j x (by simpa using hx)
        rwa [show n + 1 + j = n + (j + 1) by omega] at h

/-- What thread `t`'s acquisitions do, numbered from 0 in the list: the `j`-th takes the front
of the reactor queue when `j + 1` is due, and hands out a reactor entity exactly then and when
the queue holds one; and among any 61 in a row made while the reactor queue is not empty, one
takes a reactor entity. -/
structure PollsReactor (acqs : List (Stealing × Call × Option Entity)) : Prop where
  takes : ∀ j x, acqs[j]? = some x →
    TookReactor x = ((j + 1) % 2 ^ 32 % 61 == 0 && !x.1.reactor.isEmpty)
  front : ∀ j x, acqs[j]? = some x → (j + 1) % 2 ^ 32 % 61 = 0 →
    ∀ e rest, x.1.reactor.items = e :: rest → x.2.2 = some e
  within : ∀ j, ((acqs.drop j).take 61).length = 61 →
    (∀ x ∈ (acqs.drop j).take 61, x.1.reactor.isEmpty = false) →
    ∃ x ∈ (acqs.drop j).take 61, TookReactor x = true

/-- **The reactor queue is polled every 61st acquisition.** Take a work-stealing scheduler as a
configuration creates it, any calls on it, then thread `t` entering as a worker, and after
that any calls that do not enter or leave `t`. Numbering `t`'s acquisitions from 1, the
`n`-th takes the front of the reactor queue when `n mod 2^32` is a multiple of 61, and no other
hands out a reactor entity; so among any 61 in a row made while the reactor queue is not
empty, across the wrap of the count too, one takes a reactor entity. -/
theorem reactor_polled_every_61 {c : Config} {n : Nat} {s₀ s₁ s₂ : Stealing} {pre : List Call}
    {out : List Entity} {t index : Nat} (hcreate : Scheduler.create c n = .ok (.stealing s₀))
    (hpre : s₀.runCalls pre = .ok (s₁, out)) (henter : s₁.enter t index = .ok s₂)
    (cs : List Call) (hcs : ∀ c ∈ cs, c.movesThread t = false) :
    PollsReactor (acquisitions t (s₂.trace cs)) := by
  obtain ⟨rfl, hn⟩ := eq_create_of_scheduler hcreate
  obtain ⟨-, hw₁, hc₁⟩ := runCalls_ledger pre (create_wf hn _) (create_classes _ _) hpre
  obtain ⟨-, hd, hw₂⟩ := enter_ok hw₁ henter
  have hat := acquisitions_acquiresAt cs 0 hw₂ (hc₁.drawn hd) (slotOf_enter henter) rfl hcs
  -- the count of the `j`-th acquisition, as the tick count sees it
  have hdue : ∀ j x, (acquisitions t (s₂.trace cs))[j]? = some x →
      ∃ sl, x.1.slotOf t = some sl ∧
        ((sl.ticks + 1) % reactorInterval = 0 ↔ (j + 1) % 2 ^ 32 % 61 = 0) := by
    intro j x hx
    obtain ⟨sl, hsl, hticks⟩ := (hat j x hx).slot
    refine ⟨sl, hsl, ?_⟩
    rw [due_iff_toNat, hticks, Nat.zero_add, Nat.mod_add_mod]
  have htakes : ∀ j x, (acquisitions t (s₂.trace cs))[j]? = some x →
      TookReactor x = ((j + 1) % 2 ^ 32 % 61 == 0 && !x.1.reactor.isEmpty) := by
    intro j x hx
    obtain ⟨sl, hsl, hiff⟩ := hdue j x hx
    obtain ⟨i, -, hres⟩ := (hat j x hx).result
    rw [TookReactor, hres, acquire_reactor_iff (hat j x hx).classes hsl]
    congr 1
    exact Bool.eq_iff_iff.2 (by simpa only [beq_iff_eq] using hiff)
  refine ⟨htakes, ?_, ?_⟩
  · intro j x hx hj e rest hr
    obtain ⟨sl, hsl, hiff⟩ := hdue j x hx
    obtain ⟨i, -, hres⟩ := (hat j x hx).result
    rw [hres]
    exact acquire_reactor_front hsl (hiff.2 hj) hr
  · intro j hlen hne
    obtain ⟨k, hk, hkdue⟩ := exists_due (j + 1)
    have hkl : k < ((acquisitions t (s₂.trace cs)).drop j |>.take 61).length := by omega
    refine ⟨_, List.getElem_mem hkl, ?_⟩
    have hx : (acquisitions t (s₂.trace cs))[j + k]? =
        some (((acquisitions t (s₂.trace cs)).drop j |>.take 61)[k]) := by
      simp [List.getElem_take, List.getElem_drop]
    rw [htakes (j + k) _ hx, hne _ (List.getElem_mem hkl)]
    simpa [show j + k + 1 = j + 1 + k by omega] using hkdue

/-- One worker entering a fresh group, then a reactor fiber started and one acquisition. -/
theorem reactor_polled_every_61_one_worker :
    Scheduler.create { scheduling := "v2" } 1 = .ok (.stealing (Stealing.create 1 256)) ∧
    (Stealing.create 1 256).runCalls [] = .ok (Stealing.create 1 256, []) ∧
    (Stealing.create 1 256).enter 0 0 =
      .ok { Stealing.create 1 256 with owners := [some 0], threads := [(0, { index := 0 })] } ∧
    (∀ c ∈ [Call.startFiber 0 { id := 1, reactor := true }, .acquire 0 0], c.movesThread 0 = false) ∧
    PollsReactor (acquisitions 0
      (({ Stealing.create 1 256 with owners := [some 0], threads := [(0, { index := 0 })] } : Stealing).trace
        [.startFiber 0 { id := 1, reactor := true }, .acquire 0 0])) :=
  have hcreate : Scheduler.create { scheduling := "v2" } 1 = .ok (.stealing (Stealing.create 1 256)) := rfl
  have hpre : (Stealing.create 1 256).runCalls [] = .ok (Stealing.create 1 256, []) := rfl
  have henter : (Stealing.create 1 256).enter 0 0 =
      .ok { Stealing.create 1 256 with owners := [some 0], threads := [(0, { index := 0 })] } := rfl
  have hcs : ∀ c ∈ [Call.startFiber 0 { id := 1, reactor := true }, .acquire 0 0],
      c.movesThread 0 = false := by
    simp [Call.movesThread]
  ⟨hcreate, hpre, henter, hcs, reactor_polled_every_61 hcreate hpre henter _ hcs⟩

end Stealing

end Fibers
