import Mathlib
import Fibers.Sync.Gate
import Fibers.Proofs.WaitQueue
import Fibers.Proofs.LifecycleView
import Fibers.Proofs.MonitorView
/-!
# Latches strand no waiter

An event opens at its first set and an exit barrier of count `c` at its `c`-th count-down
(at once when `c = 0`); a count-down past that aborts. The check a waiter makes and the
queueing of its block happen under the lock under which the latch opens, so no waiter slips
between them: every wait that blocked before the opening is claimed by it and woken exactly
once, and every wait that looks after it returns without blocking.

`Gate.Inv` says this of a single state, party by party, through what each party sees of the
gate (`Gate.view`); every step keeps it, and so does every run from a fresh latch.
-/

namespace Fibers

namespace Latch

/-! ## 1. The latch under its lock -/

/-- What the signals so far leave of a latch that opens at the `goal`-th: an event opens at
its first set, a barrier counts down from `goal`, and only its last count-down awakens its
waitable for good. -/
def Counts (goal signals : Nat) : Latch → Prop
  | .event e => goal = 1 ∧ (e.waiters.persistent = true ↔ 1 ≤ signals)
  | .barrier b => b.count + signals = goal ∧ (b.waiters.persistent = true → b.count = 0)

variable {l l' : Latch} {goal n blk : Nat} {claimed claimed' ws : List Nat}

/-- A latch before its first signal that opens at the `goal`-th: a new event opens at its
first set, a new exit barrier of count `goal` at its `goal`-th count-down. -/
def Fresh (goal : Nat) (l : Latch) : Prop := (l = .event {} ∧ goal = 1) ∨ l = .barrier { count := goal }

theorem Fresh.counts (h : l.Fresh goal) : l.Counts goal 0 := by
  rcases h with ⟨rfl, rfl⟩ | rfl
  · exact ⟨rfl, by simp⟩
  · exact ⟨rfl, fun h => by simp at h⟩

theorem Fresh.queue (h : l.Fresh goal) : l.waitable.queue = [] := by
  rcases h with ⟨rfl, -⟩ | rfl <;> rfl

/-- A latch is open once `goal` signals took effect. -/
theorem Counts.isOpen_iff (h : l.Counts goal n) : l.isOpen = true ↔ goal ≤ n := by
  cases l with
  | event e =>
    obtain ⟨rfl, h⟩ := h
    simpa [isOpen, Event.isSet] using h
  | barrier b =>
    obtain ⟨hc, -⟩ := h
    simp only [isOpen, Barrier.isOpen, decide_eq_true_eq]
    omega

/-- An open latch refuses a waiter, which returns at once. -/
theorem enqueue_of_isOpen (h : l.isOpen = true) (blk : Nat) : l.enqueue blk = (l, false) := by
  cases l with
  | event e =>
    simp only [isOpen, Event.isSet] at h
    simp [enqueue, Event.wait, Waitable.add, h]
  | barrier b =>
    simp only [isOpen, Barrier.isOpen, decide_eq_true_eq] at h
    simp [enqueue, Barrier.wait, h]

/-- A latch that is not open queues a waiter's block at the tail, and stays as it was. -/
theorem enqueue_of_not_isOpen (hc : l.Counts goal n) (h : l.isOpen = false) (blk : Nat) :
    ∃ l', l.enqueue blk = (l', true) ∧ l'.waitable.queue = l.waitable.queue ++ [blk] ∧
      l'.isOpen = false ∧ l'.Counts goal n := by
  cases l with
  | event e =>
    simp only [isOpen, Event.isSet] at h
    refine ⟨.event ⟨{ e.waiters with queue := e.waiters.queue ++ [blk] }⟩, ?_, rfl, h, ?_⟩
    · simp [enqueue, Event.wait, Waitable.add, h]
    · exact hc
  | barrier b =>
    simp only [isOpen, Barrier.isOpen, decide_eq_false_iff_not] at h
    have hp : b.waiters.persistent = false := by
      cases hpers : b.waiters.persistent
      · rfl
      · exact absurd (hc.2 hpers) h
    refine ⟨.barrier { b with waiters := { b.waiters with queue := b.waiters.queue ++ [blk] } }, ?_, rfl,
      by simp [isOpen, Barrier.isOpen, h], hc.1, fun hp' => absurd hp' (by simp [hp])⟩
    simp [enqueue, Barrier.wait, Waitable.add, h, hp]

/-- Opening awakens the waitable for good: it claims every block queued, which are all
unclaimed, and empties the queue. -/
theorem persist_of_unclaimed {w : Waitable} (hn : w.queue.Nodup) (hu : ∀ b ∈ w.queue, b ∉ claimed) :
    w.persist claimed = ({ w with persistent := true, queue := [] }, w.queue.reverse ++ claimed, w.queue) := by
  have hf : w.queue.filter (fun x => !decide (x ∈ claimed)) = w.queue :=
    List.filter_eq_self.mpr (fun b hb => by simp [hu b hb])
  simp [Waitable.persist, Waitable.wakeAll, Waitable.claimAll_eq hn, hf]

/-- What a signal that takes effect does: it opens the latch, claiming and waking every
waiter queued, or it only counts a barrier down. -/
theorem signal_ok (hc : l.Counts goal n) (hn : l.waitable.queue.Nodup)
    (hu : ∀ b ∈ l.waitable.queue, b ∉ claimed) (h : l.signal claimed = .ok (l', claimed', ws)) :
    l'.Counts goal (n + 1) ∧
      ((l'.isOpen = true ∧ ws = l.waitable.queue ∧ claimed' = l.waitable.queue.reverse ++ claimed ∧
          l'.waitable.queue = []) ∨
        (l.isOpen = false ∧ l'.isOpen = false ∧ ws = [] ∧ claimed' = claimed ∧
          l'.waitable.queue = l.waitable.queue)) := by
  cases l with
  | event e =>
    simp only [signal, Event.set, waitable] at h hn hu
    rw [persist_of_unclaimed hn hu] at h
    simp only [Except.ok.injEq, Prod.mk.injEq] at h
    obtain ⟨rfl, rfl, rfl⟩ := h
    exact ⟨⟨hc.1, by simp⟩, .inl ⟨by simp [isOpen, Event.isSet], rfl, rfl, rfl⟩⟩
  | barrier b =>
    simp only [signal, Barrier.countDown, waitable] at h hn hu
    split at h
    · simp [Except.map] at h
    · rename_i h0
      split at h
      · rename_i h1
        rw [persist_of_unclaimed hn hu] at h
        simp only [Except.map, Except.ok.injEq, Prod.mk.injEq] at h
        obtain ⟨rfl, rfl, rfl⟩ := h
        have hsum : b.count + n = goal := hc.1
        refine ⟨⟨show 0 + (n + 1) = goal by omega, fun _ => rfl⟩, .inl ⟨?_, rfl, rfl, rfl⟩⟩
        simp [isOpen, Barrier.isOpen]
      · rename_i h1
        simp only [Except.map, Except.ok.injEq, Prod.mk.injEq] at h
        obtain ⟨rfl, rfl, rfl⟩ := h
        have hp : b.waiters.persistent = false := by
          cases hpers : b.waiters.persistent
          · rfl
          · exact absurd (hc.2 hpers) h0
        refine ⟨⟨show b.count - 1 + (n + 1) = goal by have := hc.1; omega, fun hp' => absurd hp' (by simp [hp])⟩,
          .inr ⟨?_, ?_, rfl, rfl, rfl⟩⟩
        · simp [isOpen, Barrier.isOpen, h0]
        · simp [isOpen, Barrier.isOpen]
          omega

/-- A signal aborts exactly when it would count a barrier down past zero, with the barrier's
text. -/
theorem signal_error {a : Abort} (h : l.signal claimed = .error a) :
    (∃ b, l = .barrier b ∧ b.count = 0) ∧ a = Barrier.belowZero := by
  cases l with
  | event e => simp [signal] at h
  | barrier b =>
    simp only [signal, Barrier.countDown] at h
    split at h
    · simp only [Except.map, Except.error.injEq] at h
      exact ⟨⟨b, rfl, by assumption⟩, h.symm⟩
    · split at h <;> simp [Except.map] at h

theorem signal_error_of_zero {b : Barrier} (h : b.count = 0) :
    (Latch.barrier b).signal claimed = .error Barrier.belowZero := by
  simp [signal, Barrier.countDown, h, Except.map]

end Latch

/-! ## 2. Parties and what they are owed -/

namespace Gate

/-- How often party `p` is still to be woken by the signallers. -/
def owed (g : Gate) (p : Nat) : Nat := (g.parties.flatMap (·.stage.owes)).count p

variable {g g' : Gate} {p q : Nat} {f : Gatekeeper → Gatekeeper}

@[simp] theorem length_update : (g.update p f).parties.length = g.parties.length := by simp [update]
@[simp] theorem latch_update : (g.update p f).latch = g.latch := rfl
@[simp] theorem holder_update : (g.update p f).holder = g.holder := rfl
@[simp] theorem claimed_update : (g.update p f).claimed = g.claimed := rfl
@[simp] theorem signals_update : (g.update p f).signals = g.signals := rfl

theorem party_update (hp : p < g.parties.length) :
    (g.update p f).party q = if q = p then f (g.party p) else g.party q := by
  simp only [party, update, List.getD_eq_getElem?_getD, List.getElem?_modify]
  by_cases hq : q = p
  · subst hq
    simp [hp]
  · simp [hq, Ne.symm hq]

@[simp] theorem party_update_self (hp : p < g.parties.length) : (g.update p f).party p = f (g.party p) := by
  simp [party_update hp]

@[simp] theorem party_update_ne (hq : q ≠ p) : (g.update p f).party q = g.party q := by
  simp only [party, update, List.getD_eq_getElem?_getD, List.getElem?_modify]
  simp [Ne.symm hq]

/-- The parties of a gate whose other words changed. -/
@[simp] theorem party_with (l : Latch) (h : Option Nat) (c : List Nat) (n : Nat) :
    ({ latch := l, holder := h, claimed := c, parties := g.parties, signals := n } : Gate).party p = g.party p := rfl

@[simp] theorem owed_with (l : Latch) (h : Option Nat) (c : List Nat) (n : Nat) :
    ({ latch := l, holder := h, claimed := c, parties := g.parties, signals := n } : Gate).owed p = g.owed p := rfl

theorem party_eq_default (hp : g.parties.length ≤ p) : g.party p = default := by
  simp [party, List.getD_eq_getElem?_getD, List.getElem?_eq_none hp]

/-- Changing party `p` changes what others are owed by what its own list of waiters to wake
loses and gains. -/
theorem owed_update (hp : p < g.parties.length) (q : Nat) :
    (g.update p f).owed q + (g.party p).stage.owes.count q = g.owed q + (f (g.party p)).stage.owes.count q :=
  count_flatMap_modify (fun x : Gatekeeper => x.stage.owes) f q g.parties p hp

/-- Changing a party without changing its list of waiters to wake changes nobody's debts. -/
theorem owed_update_of_owes (hs : (f (g.party p)).stage.owes = (g.party p).stage.owes) (q : Nat) :
    (g.update p f).owed q = g.owed q := by
  by_cases hp : p < g.parties.length
  · have := owed_update (f := f) hp q
    rw [hs] at this
    omega
  · have hm : g.parties.modify p f = g.parties := List.modify_eq_self (by omega)
    simp [owed, update, hm]

/-- A party is owed a wake exactly when some party has it in its list of waiters to wake. -/
theorem owed_pos_iff : 0 < g.owed q ↔ ∃ r < g.parties.length, q ∈ (g.party r).stage.owes := by
  simp only [owed, List.count_pos_iff, List.mem_flatMap]
  constructor
  · rintro ⟨x, hx, hq⟩
    obtain ⟨r, hr, rfl⟩ := List.mem_iff_getElem.mp hx
    refine ⟨r, hr, ?_⟩
    rwa [party, List.getD_eq_getElem _ _ hr]
  · rintro ⟨r, hr, hq⟩
    rw [party, List.getD_eq_getElem _ _ hr] at hq
    exact ⟨g.parties[r], List.getElem_mem hr, hq⟩

/-! ## 3. What a party sees, and the invariant -/

/-- What a party sees of the gate: its own words, how often it is still to be woken, whether
its block is claimed, whether the latch is open and whether its block is queued. -/
structure Sight where
  party : Gatekeeper
  owed : Nat
  claimed : Bool
  isOpen : Bool
  queued : Bool

/-- The sights a party may have. A blocked waiter's block is either queued and unclaimed, the
latch closed and nothing on its way; or claimed, the latch open, its block off the queue, and
exactly one wake delivered or still to come. Any other party has its block off the queue and
no wake pending. -/
def Sight.Ok (v : Sight) : Prop :=
  if v.party.stage.blocked then
    if v.claimed then
      v.party.wakes + v.owed = 1 ∧ v.party.wakeup = Wakeup.holding v.party.fiber (decide (v.party.wakes = 1)) ∧
        v.isOpen = true ∧ v.queued = false
    else v.party.wakes = 0 ∧ v.owed = 0 ∧ v.party.wakeup = {} ∧ v.isOpen = false ∧ v.queued = true
  else v.owed = 0 ∧ v.party.wakeup = {} ∧ v.queued = false

/-- What party `p` sees. -/
def view (g : Gate) (p : Nat) : Sight :=
  ⟨g.party p, g.owed p, decide (p ∈ g.claimed), g.latch.isOpen, decide (p ∈ g.latch.waitable.queue)⟩

/-- The invariant of a gate whose latch opens at the `goal`-th signal: every party's sight is
in order, nothing is owed to or queued for a party that does not exist, the lock is held by
exactly the party in a stage that holds it, no block is queued or claimed twice, and the
latch is where its signals left it. -/
structure Inv (goal : Nat) (g : Gate) : Prop where
  ok : ∀ p, p < g.parties.length → (g.view p).Ok
  absent : ∀ p, g.parties.length ≤ p → g.owed p = 0 ∧ p ∉ g.latch.waitable.queue
  lock : ∀ p, g.holder = some p ↔ p < g.parties.length ∧ (g.party p).stage.holdsLock = true
  nodup : g.latch.waitable.queue.Nodup
  claimedNodup : g.claimed.Nodup
  counts : g.latch.Counts goal g.signals

variable {goal : Nat}

namespace Sight

variable {v : Sight}

theorem ok_of_claimed (hb : v.party.stage.blocked = true) (hc : v.claimed = true) :
    v.Ok ↔ v.party.wakes + v.owed = 1 ∧ v.party.wakeup = Wakeup.holding v.party.fiber (decide (v.party.wakes = 1)) ∧
      v.isOpen = true ∧ v.queued = false := by
  simp [Ok, hb, hc]

theorem ok_of_unclaimed (hb : v.party.stage.blocked = true) (hc : v.claimed = false) :
    v.Ok ↔ v.party.wakes = 0 ∧ v.owed = 0 ∧ v.party.wakeup = {} ∧ v.isOpen = false ∧ v.queued = true := by
  simp [Ok, hb, hc]

theorem ok_of_not_blocked (hb : v.party.stage.blocked = false) :
    v.Ok ↔ v.owed = 0 ∧ v.party.wakeup = {} ∧ v.queued = false := by
  simp [Ok, hb]

/-- A sight whose party's stage changed without changing whether it is blocked, and nothing
else, is as good as before. -/
theorem ok_of_restage {v v' : Sight} (h : v.Ok) (hb : v'.party.stage.blocked = v.party.stage.blocked)
    (hw : v'.party.wakeup = v.party.wakeup) (hn : v'.party.wakes = v.party.wakes)
    (hf : v'.party.fiber = v.party.fiber) (ho : v'.owed = v.owed) (hc : v'.claimed = v.claimed)
    (hop : v'.isOpen = v.isOpen) (hq : v'.queued = v.queued) : v'.Ok := by
  unfold Ok at h ⊢
  rw [hb, hw, hn, hf, ho, hc, hop, hq]
  exact h

/-- A sight whose party moved to a stage blocked as the old one is as good as before. -/
theorem Ok.restage (h : v.Ok) {k : GateStage} (hk : k.blocked = v.party.stage.blocked) :
    ({ v with party := { v.party with stage := k } } : Sight).Ok :=
  ok_of_restage h hk rfl rfl rfl rfl rfl rfl rfl

/-- What a party sees once the latch opened: its queued block is claimed and owed one wake. -/
def opened (v : Sight) : Sight :=
  { v with
    owed := v.owed + (if v.queued then 1 else 0)
    claimed := v.claimed || v.queued
    isOpen := true
    queued := false }

/-- Opening the latch keeps every sight in order: a queued waiter becomes a claimed one with
its single wake on the way. -/
theorem Ok.opened (h : v.Ok) : v.opened.Ok := by
  cases hb : v.party.stage.blocked
  · obtain ⟨ho, hw, hq⟩ := (ok_of_not_blocked hb).mp h
    exact (ok_of_not_blocked (v := v.opened) hb).mpr ⟨by simp [Sight.opened, ho, hq], hw, rfl⟩
  · cases hc : v.claimed
    · obtain ⟨hn, ho, hw, -, hq⟩ := (ok_of_unclaimed hb hc).mp h
      refine (ok_of_claimed (v := v.opened) hb (by simp [Sight.opened, hc, hq])).mpr ⟨?_, ?_, rfl, rfl⟩
      · simp [Sight.opened, hn, ho, hq]
      · simp [Sight.opened, hn, hw]
    · obtain ⟨hn, hw, -, hq⟩ := (ok_of_claimed hb hc).mp h
      exact (ok_of_claimed (v := v.opened) hb (by simp [Sight.opened, hc])).mpr
        ⟨by simp [Sight.opened, hq, hn], hw, rfl, rfl⟩

end Sight

/-- A queued block belongs to a blocked party, is unclaimed, and the latch is closed. -/
theorem Inv.queued (hi : g.Inv goal) (hq : q ∈ g.latch.waitable.queue) :
    q < g.parties.length ∧ (g.party q).stage.blocked = true ∧ q ∉ g.claimed ∧ g.latch.isOpen = false := by
  have hq' : q < g.parties.length := by
    by_contra hge
    exact (hi.absent q (by omega)).2 hq
  have hok := hi.ok q hq'
  cases hb : (g.party q).stage.blocked
  · have := ((Sight.ok_of_not_blocked hb).mp hok).2.2
    simp [view, hq] at this
  · by_cases hc : q ∈ g.claimed
    · have := ((Sight.ok_of_claimed hb (by simpa [view] using hc)).mp hok).2.2.2
      simp [view, hq] at this
    · exact ⟨hq', rfl, hc, ((Sight.ok_of_unclaimed hb (by simpa [view] using hc)).mp hok).2.2.2.1⟩

/-- A party that is owed a wake is blocked, claimed, has received none, and is owed it once. -/
theorem Inv.owed_pos (hi : g.Inv goal) (hq : 0 < g.owed q) :
    q < g.parties.length ∧ (g.party q).stage.blocked = true ∧ q ∈ g.claimed ∧ (g.party q).wakes = 0 ∧
      g.owed q = 1 := by
  have hq' : q < g.parties.length := by
    by_contra hge
    have := (hi.absent q (by omega)).1
    omega
  have hok := hi.ok q hq'
  cases hb : (g.party q).stage.blocked
  · have := ((Sight.ok_of_not_blocked hb).mp hok).1
    simp only [view] at this
    omega
  · by_cases hc : q ∈ g.claimed
    · have := ((Sight.ok_of_claimed hb (by simpa [view] using hc)).mp hok).1
      simp only [view] at this
      exact ⟨hq', rfl, hc, by omega, by omega⟩
    · have := ((Sight.ok_of_unclaimed hb (by simpa [view] using hc)).mp hok).2.1
      simp only [view] at this
      omega

/-- While the lock is free, no party is in a stage that holds it. -/
theorem Inv.free (hi : g.Inv goal) (hh : g.holder = none) (r : Nat) (hr : r < g.parties.length) :
    (g.party r).stage.holdsLock = false := by
  cases hl : (g.party r).stage.holdsLock
  · rfl
  · have := (hi.lock r).mpr ⟨hr, hl⟩
    rw [hh] at this
    cases this

/-! ## 4. Building the invariant after a step -/

theorem view_congr (hparty : g'.party q = g.party q) (howed : g'.owed q = g.owed q)
    (hclaimed : q ∈ g'.claimed ↔ q ∈ g.claimed) (hopen : g'.latch.isOpen = g.latch.isOpen)
    (hqueue : q ∈ g'.latch.waitable.queue ↔ q ∈ g.latch.waitable.queue) : g'.view q = g.view q := by
  simp only [view, hparty, howed, hopen, Sight.mk.injEq, true_and]
  exact ⟨decide_eq_decide.mpr hclaimed, decide_eq_decide.mpr hqueue⟩

/-- A step that changes party `p`'s sight, and what it does to the lock, the queue and the
latch, but no other party's sight, keeps the invariant once `p`'s new sight is in order. -/
theorem Inv.frame (hi : g.Inv goal) (hp : p < g.parties.length)
    (hlen : g'.parties.length = g.parties.length)
    (hparty : ∀ q, q ≠ p → g'.party q = g.party q)
    (howed : ∀ q, q ≠ p → g'.owed q = g.owed q)
    (hclaimed : ∀ q, q ≠ p → (q ∈ g'.claimed ↔ q ∈ g.claimed))
    (hqueue : ∀ q, q ≠ p → (q ∈ g'.latch.waitable.queue ↔ q ∈ g.latch.waitable.queue))
    (hopen : g'.latch.isOpen = g.latch.isOpen) (hok : (g'.view p).Ok)
    (hlock : ∀ q, g'.holder = some q ↔ q < g'.parties.length ∧ (g'.party q).stage.holdsLock = true)
    (hnodup : g'.latch.waitable.queue.Nodup) (hcn : g'.claimed.Nodup)
    (hcounts : g'.latch.Counts goal g'.signals) : g'.Inv goal where
  ok q hq := by
    by_cases hqp : q = p
    · exact hqp ▸ hok
    · rw [view_congr (hparty q hqp) (howed q hqp) (hclaimed q hqp) hopen (hqueue q hqp)]
      exact hi.ok q (hlen ▸ hq)
  absent q hq := by
    have hqp : q ≠ p := by omega
    rw [howed q hqp, hqueue q hqp]
    exact hi.absent q (by omega)
  lock := hlock
  nodup := hnodup
  claimedNodup := hcn
  counts := hcounts

/-- The lock after a step that leaves the holder and every stage's hold on the lock as they
were. -/
theorem Inv.lock_same (hi : g.Inv goal) (hh : g'.holder = g.holder)
    (hlen : g'.parties.length = g.parties.length) (hparty : ∀ q, q ≠ p → g'.party q = g.party q)
    (hs : (g'.party p).stage.holdsLock = (g.party p).stage.holdsLock) (q : Nat) :
    g'.holder = some q ↔ q < g'.parties.length ∧ (g'.party q).stage.holdsLock = true := by
  rw [hh, hi.lock q, hlen]
  by_cases hqp : q = p
  · subst hqp
    rw [hs]
  · rw [hparty q hqp]

/-- The lock after party `p` takes it. -/
theorem Inv.lock_take (hi : g.Inv goal) (hfree : g.holder = none) (hh : g'.holder = some p)
    (hp : p < g.parties.length) (hlen : g'.parties.length = g.parties.length)
    (hparty : ∀ q, q ≠ p → g'.party q = g.party q) (hs : (g'.party p).stage.holdsLock = true) (q : Nat) :
    g'.holder = some q ↔ q < g'.parties.length ∧ (g'.party q).stage.holdsLock = true := by
  rw [hh, hlen]
  by_cases hqp : q = p
  · subst hqp
    simp [hp, hs]
  · rw [hparty q hqp]
    constructor
    · intro h
      exact absurd (Option.some.inj h).symm hqp
    · rintro ⟨hq, hl⟩
      rw [hi.free hfree q hq] at hl
      cases hl

/-- The lock after party `p`, which held it, releases it. -/
theorem Inv.lock_give (hi : g.Inv goal) (hh : g'.holder = none)
    (hlen : g'.parties.length = g.parties.length) (hparty : ∀ q, q ≠ p → g'.party q = g.party q)
    (hs : (g'.party p).stage.holdsLock = false) (hheld : (g.party p).stage.holdsLock = true) (q : Nat) :
    g'.holder = some q ↔ q < g'.parties.length ∧ (g'.party q).stage.holdsLock = true := by
  rw [hh, hlen]
  simp only [reduceCtorEq, false_iff, not_and, Bool.not_eq_true]
  intro hq
  by_cases hqp : q = p
  · subst hqp
    exact hs
  · rw [hparty q hqp]
    -- the lock was held by `p`, so by no other party
    have hpl : p < g.parties.length := by
      by_contra hge
      rw [party_eq_default (by omega)] at hheld
      cases hheld
    have hp : g.holder = some p := (hi.lock p).mpr ⟨hpl, hheld⟩
    cases hl : (g.party q).stage.holdsLock
    · rfl
    · have := (hi.lock q).mpr ⟨hq, hl⟩
      rw [hp] at this
      exact absurd (Option.some.inj this).symm hqp

/-! ## 5. Each step keeps the invariant -/

/-- A step that only moves party `p` between stages that neither block, owe wakes, nor change
its hold on the lock. -/
theorem Inv.restage (hi : g.Inv goal) (hp : p < g.parties.length)
    (hb : (g.party p).stage.blocked = false) (hb' : (f (g.party p)).stage.blocked = false)
    (ho : (g.party p).stage.owes = []) (ho' : (f (g.party p)).stage.owes = [])
    (hl : (f (g.party p)).stage.holdsLock = (g.party p).stage.holdsLock)
    (hw : (f (g.party p)).wakeup = (g.party p).wakeup) : (g.update p f).Inv goal := by
  have howed : ∀ q, (g.update p f).owed q = g.owed q := owed_update_of_owes (by rw [ho, ho'])
  have hok := (Sight.ok_of_not_blocked hb).mp (hi.ok p hp)
  refine hi.frame hp (by simp) (fun q hq => party_update_ne hq) (fun q _ => howed q) (fun _ _ => Iff.rfl)
    (fun _ _ => Iff.rfl) rfl ?_ (hi.lock_same rfl (by simp) (fun q hq => party_update_ne hq) (by simp [hp, hl]))
    hi.nodup hi.claimedNodup hi.counts
  refine (Sight.ok_of_not_blocked (by simp [view, hp, hb'])).mpr ⟨?_, ?_, ?_⟩
  · simpa [view, howed] using hok.1
  · simpa [view, hp, hw] using hok.2.1
  · exact hok.2.2

/-- A waiter that finds the latch closed queues its block: the lock is its own, and its wait
starts fresh, unclaimed and with nothing on its way. -/
theorem Inv.enqueue (hi : g.Inv goal) (hp : p < g.parties.length) (hs : (g.party p).stage = .enter)
    (hfree : g.holder = none) {l : Latch} (he : g.latch.enqueue p = (l, true)) :
    ({ g with latch := l, holder := some p, claimed := g.claimed.erase p }.update p
      (fun x => { x with stage := .release true, wakeup := {}, wakes := 0 })).Inv goal := by
  have hclosed : g.latch.isOpen = false := by
    cases ho : g.latch.isOpen
    · rfl
    · rw [Latch.enqueue_of_isOpen ho] at he
      simp at he
  obtain ⟨l', he', hq', ho', hc'⟩ := Latch.enqueue_of_not_isOpen hi.counts hclosed p
  rw [he', Prod.mk.injEq] at he
  obtain ⟨rfl, -⟩ := he
  have hok := (Sight.ok_of_not_blocked (by simp [view, hs, GateStage.blocked])).mp (hi.ok p hp)
  simp only [view, decide_eq_false_iff_not] at hok
  refine hi.frame hp (by simp) (fun q hq => party_update_ne hq)
    (fun q _ => owed_update_of_owes (by simp [hs, GateStage.owes]) q)
    (fun q hq => List.mem_erase_of_ne hq) (fun q hq => by simp [hq', hq]) (ho'.trans hclosed.symm)
    ?_ (hi.lock_take hfree rfl hp (by simp) (fun q hq => party_update_ne hq) (by simp [hp, GateStage.holdsLock]))
    (show l'.waitable.queue.Nodup by
      rw [hq']; exact List.nodup_append.mpr ⟨hi.nodup, by simp, fun a ha b hb => by
        simp only [List.mem_singleton] at hb
        subst hb
        exact fun h => hok.2.2 (h ▸ ha)⟩)
    (hi.claimedNodup.erase p) hc'
  refine (Sight.ok_of_unclaimed (by simp [view, hp, GateStage.blocked])
    (by simp [view, hi.claimedNodup.not_mem_erase])).mpr ⟨by simp [view, hp], ?_, by simp [view, hp], ?_, ?_⟩
  · simp only [view]
    rw [owed_update_of_owes (by simp [hs, GateStage.owes])]
    exact hok.1
  · exact ho'
  · simp [view, hq']

/-- The sight of party `p` after a step that moved it to stage `k`, blocked as before, and
changed no word it sees. -/
theorem Inv.ok_restage (hi : g.Inv goal) (hp : p < g.parties.length) {k : GateStage}
    (hb : k.blocked = (g.party p).stage.blocked) (ho : k.owes = (g.party p).stage.owes)
    {g₁ : Gate} (hparties : g₁.parties = g.parties) (hc : p ∈ g₁.claimed ↔ p ∈ g.claimed)
    (hopen : g₁.latch.isOpen = g.latch.isOpen)
    (hq : p ∈ g₁.latch.waitable.queue ↔ p ∈ g.latch.waitable.queue) :
    ((g₁.setStage p k).view p).Ok := by
  have hpar : ∀ r, g₁.party r = g.party r := fun r => by simp [party, hparties]
  have hlen : p < g₁.parties.length := hparties ▸ hp
  refine Sight.ok_of_restage (hi.ok p hp) ?_ ?_ ?_ ?_ ?_ ?_ ?_ ?_ <;>
    simp only [view, setStage, party_update_self hlen, hpar, claimed_update, latch_update]
  · exact hb
  · have := owed_update_of_owes (g := g₁) (p := p) (f := fun x => { x with stage := k })
      (by rw [hpar]; exact ho) p
    rw [this]
    simp [owed, hparties]
  · exact decide_eq_decide.mpr hc
  · exact hopen
  · exact decide_eq_decide.mpr hq

/-- A waiter that finds the latch open takes the lock and queues nothing. -/
theorem Inv.refused (hi : g.Inv goal) (hp : p < g.parties.length) (hs : (g.party p).stage = .enter)
    (hfree : g.holder = none) {l : Latch} (he : g.latch.enqueue p = (l, false)) :
    ({ g with latch := l, holder := some p }.setStage p (.release false)).Inv goal := by
  have hl : l = g.latch := by
    cases ho : g.latch.isOpen
    · obtain ⟨l', he', -⟩ := Latch.enqueue_of_not_isOpen hi.counts ho p
      rw [he'] at he
      simp at he
    · rw [Latch.enqueue_of_isOpen ho] at he
      simp only [Prod.mk.injEq, and_true] at he
      exact he.symm
  subst hl
  refine hi.frame hp (by simp [setStage]) (fun q hq => by simp [setStage, hq])
    (fun q _ => by simp only [setStage]; rw [owed_update_of_owes (by simp [hs, GateStage.owes])]; rfl)
    (fun _ _ => Iff.rfl) (fun _ _ => Iff.rfl) rfl
    (hi.ok_restage hp (by simp [hs, GateStage.blocked]) (by simp [hs, GateStage.owes]) rfl Iff.rfl rfl Iff.rfl)
    (hi.lock_take hfree rfl hp (by simp [setStage]) (fun q hq => by simp [setStage, hq])
      (by simp [setStage, hp, GateStage.holdsLock]))
    hi.nodup hi.claimedNodup hi.counts

/-- Party `p`, which holds the lock, releases it and moves to stage `k`, blocked as before. -/
theorem Inv.unlock (hi : g.Inv goal) (hp : p < g.parties.length) {k : GateStage}
    (hheld : (g.party p).stage.holdsLock = true) (hk : k.holdsLock = false)
    (hb : k.blocked = (g.party p).stage.blocked) (ho : k.owes = (g.party p).stage.owes) :
    ({ g with holder := none }.setStage p k).Inv goal :=
  hi.frame hp (by simp [setStage]) (fun q hq => by simp [setStage, hq])
    (fun q _ => by simp only [setStage]; rw [owed_update_of_owes (by simp [ho])]; rfl)
    (fun _ _ => Iff.rfl) (fun _ _ => Iff.rfl) rfl
    (hi.ok_restage hp hb ho rfl Iff.rfl rfl Iff.rfl)
    (hi.lock_give rfl (by simp [setStage]) (fun q hq => by simp [setStage, hq])
      (by simp [setStage, hp, hk]) hheld)
    hi.nodup hi.claimedNodup hi.counts

/-- Releasing the lock: a waiter whose block was queued goes to sleep, any other returns. -/
theorem Inv.release (hi : g.Inv goal) (hp : p < g.parties.length) {queued : Bool}
    (hs : (g.party p).stage = .release queued) :
    ({ g with holder := none }.setStage p (if queued then .sleep else .idle)).Inv goal := by
  cases queued
  · exact hi.unlock hp (by simp [hs, GateStage.holdsLock]) rfl (by simp [hs, GateStage.blocked])
      (by simp [hs, GateStage.owes])
  · exact hi.unlock hp (by simp [hs, GateStage.holdsLock]) rfl (by simp [hs, GateStage.blocked])
      (by simp [hs, GateStage.owes])

/-- A signaller takes the lock. -/
theorem Inv.grab (hi : g.Inv goal) (hp : p < g.parties.length) (hs : (g.party p).stage = .grab)
    (hfree : g.holder = none) : ({ g with holder := some p }.setStage p .signal).Inv goal :=
  hi.frame hp (by simp [setStage]) (fun q hq => by simp [setStage, hq])
    (fun q _ => by simp only [setStage]; rw [owed_update_of_owes (by simp [hs, GateStage.owes])]; rfl)
    (fun _ _ => Iff.rfl) (fun _ _ => Iff.rfl) rfl
    (hi.ok_restage hp (by simp [hs, GateStage.blocked]) (by simp [hs, GateStage.owes]) rfl Iff.rfl rfl Iff.rfl)
    (hi.lock_take hfree rfl hp (by simp [setStage]) (fun q hq => by simp [setStage, hq])
      (by simp [setStage, hp, GateStage.holdsLock]))
    hi.nodup hi.claimedNodup hi.counts

/-- A party starts its next operation. -/
theorem Inv.begin (hi : g.Inv goal) (hp : p < g.parties.length) (hs : (g.party p).stage = .idle)
    {k : GateStage} (hk : k = .enter ∨ k = .grab ∨ k = .probe) (rest : List GateOp) :
    (g.update p (fun x => { x with program := rest, stage := k })).Inv goal := by
  have hkb : k.blocked = false := by rcases hk with rfl | rfl | rfl <;> rfl
  have hko : k.owes = [] := by rcases hk with rfl | rfl | rfl <;> rfl
  have hkl : k.holdsLock = false := by rcases hk with rfl | rfl | rfl <;> rfl
  exact hi.restage hp (by simp [hs, GateStage.blocked]) hkb (by simp [hs, GateStage.owes]) hko
    (show k.holdsLock = _ by rw [hkl, hs]; rfl) rfl

/-- A signaller with nobody left to wake is done. -/
theorem Inv.finish (hi : g.Inv goal) (hp : p < g.parties.length) (hs : (g.party p).stage = .wake []) :
    (g.setStage p .idle).Inv goal :=
  hi.restage hp (by simp [hs, GateStage.blocked]) rfl (by simp [hs, GateStage.owes]) rfl
    (by simp [hs, GateStage.holdsLock]) rfl

/-- A probe reads the latch under its lock. -/
theorem Inv.probe (hi : g.Inv goal) (hp : p < g.parties.length) (hs : (g.party p).stage = .probe)
    (o : Option Bool) : (g.update p (fun x => { x with stage := .idle, seen := o })).Inv goal :=
  hi.restage hp (by simp [hs, GateStage.blocked]) rfl (by simp [hs, GateStage.owes]) rfl
    (by simp [hs, GateStage.holdsLock]) rfl

/-- A sleeper that consumes a wake was claimed and woken exactly once, and returns. -/
theorem Inv.wakeUp (hi : g.Inv goal) (hp : p < g.parties.length) (hs : (g.party p).stage = .sleep)
    {w : Wakeup} (hw : (g.party p).wakeup.consume (g.party p).fiber = some w) :
    (g.update p (fun x => { x with wakeup := w, stage := .idle })).Inv goal := by
  have hb : (g.party p).stage.blocked = true := by simp [hs, GateStage.blocked]
  by_cases hc : p ∈ g.claimed
  · obtain ⟨hn, hwk, -, hq⟩ := (Sight.ok_of_claimed hb (by simpa [view] using hc)).mp (hi.ok p hp)
    change (g.party p).wakes + g.owed p = 1 at hn
    change (g.party p).wakeup = Wakeup.holding (g.party p).fiber (decide ((g.party p).wakes = 1)) at hwk
    change decide (p ∈ g.latch.waitable.queue) = false at hq
    -- only a delivered wake can be consumed
    have h1 : (g.party p).wakes = 1 := by
      by_contra hne
      rw [hwk, decide_eq_false hne, Wakeup.consume_holding_false] at hw
      cases hw
    rw [hwk, h1, show decide (1 = 1) = true from rfl, Wakeup.consume_holding_true, Option.some.injEq] at hw
    subst hw
    have howed : ∀ q, (g.update p (fun x => { x with wakeup := {}, stage := .idle })).owed q = g.owed q :=
      owed_update_of_owes (by simp [hs, GateStage.owes])
    refine hi.frame hp (by simp) (fun q hq => party_update_ne hq) (fun q _ => howed q) (fun _ _ => Iff.rfl)
      (fun _ _ => Iff.rfl) rfl ?_
      (hi.lock_same rfl (by simp) (fun q hq => party_update_ne hq) (by simp [hp, hs, GateStage.holdsLock]))
      hi.nodup hi.claimedNodup hi.counts
    refine (Sight.ok_of_not_blocked (by simp [view, hp, GateStage.blocked])).mpr ⟨?_, by simp [view, hp], hq⟩
    simp only [view, howed]
    omega
  · -- an unclaimed sleeper has nothing to consume
    have h0 := ((Sight.ok_of_unclaimed hb (by simpa [view] using hc)).mp (hi.ok p hp)).2.2.1
    simp only [view] at h0
    have hnone : ({} : Wakeup).consume (g.party p).fiber = none := Wakeup.consume_holding_false
    rw [h0, hnone] at hw
    cases hw

/-- A count-down that leaves the barrier closed changes nobody's sight but the signaller's. -/
theorem Inv.countDown (hi : g.Inv goal) (hp : p < g.parties.length) (hs : (g.party p).stage = .signal)
    {l : Latch} (hcounts : l.Counts goal (g.signals + 1)) (hclosed : g.latch.isOpen = false)
    (hclosed' : l.isOpen = false) (hq : l.waitable.queue = g.latch.waitable.queue) :
    ({ g with latch := l, holder := none, claimed := g.claimed, signals := g.signals + 1 }.setStage p
      (.wake [])).Inv goal :=
  hi.frame hp (by simp [setStage]) (fun q hq => by simp [setStage, hq])
    (fun q _ => by simp only [setStage]; rw [owed_update_of_owes (by simp [hs, GateStage.owes])]; rfl)
    (fun _ _ => Iff.rfl) (fun q _ => by simp [setStage, hq]) (hclosed'.trans hclosed.symm)
    (hi.ok_restage hp (by simp [hs, GateStage.blocked]) (by simp [hs, GateStage.owes]) rfl Iff.rfl
      (hclosed'.trans hclosed.symm) (by rw [hq]))
    (hi.lock_give (p := p) rfl (by simp [setStage]) (fun q hq => by simp [setStage, hq])
      (by simp [setStage, hp, GateStage.holdsLock]) (by simp [hs, GateStage.holdsLock]))
    (by simpa [setStage, hq] using hi.nodup) hi.claimedNodup hcounts

/-- The signal that opens the latch claims every queued waiter and owes each one wake; every
other sight stays as it was. -/
theorem Inv.opening (hi : g.Inv goal) (hp : p < g.parties.length) (hs : (g.party p).stage = .signal)
    {g₁ : Gate} (hparties : g₁.parties = g.parties) (hholder : g₁.holder = none)
    (hclaimed : g₁.claimed = g.latch.waitable.queue.reverse ++ g.claimed)
    (hcounts : g₁.latch.Counts goal g₁.signals) (hopen : g₁.latch.isOpen = true)
    (hq : g₁.latch.waitable.queue = []) :
    (g₁.setStage p (.wake g.latch.waitable.queue)).Inv goal := by
  have hpar : ∀ r, g₁.party r = g.party r := fun r => by simp [party, hparties]
  have hlen₁ : p < g₁.parties.length := hparties ▸ hp
  have hlen : (g₁.setStage p (.wake g.latch.waitable.queue)).parties.length = g.parties.length := by
    simp [setStage, hparties]
  have hparty : ∀ q, q ≠ p → (g₁.setStage p (.wake g.latch.waitable.queue)).party q = g.party q :=
    fun q hq => by simp [setStage, hq, hpar]
  have hself : (g₁.setStage p (.wake g.latch.waitable.queue)).party p =
      { g.party p with stage := .wake g.latch.waitable.queue } := by
    simp [setStage, hlen₁, hpar]
  -- each queued waiter is owed exactly one wake, by the signaller
  have howed : ∀ q, (g₁.setStage p (.wake g.latch.waitable.queue)).owed q =
      g.owed q + if q ∈ g.latch.waitable.queue then 1 else 0 := by
    intro q
    have h := owed_update (g := g₁) (f := fun x => { x with stage := .wake g.latch.waitable.queue }) hlen₁ q
    have h₁ : g₁.owed q = g.owed q := by simp [owed, hparties]
    simp only [hpar, hs, GateStage.owes, List.count_nil, add_zero, h₁] at h
    unfold setStage
    rw [h]
    split_ifs with hm
    · exact congrArg _ (List.count_eq_one_of_mem hi.nodup hm)
    · exact congrArg _ (List.count_eq_zero.mpr hm)
  have hpq : p ∉ g.latch.waitable.queue := fun h => by simpa [hs, GateStage.blocked] using (hi.queued h).2.1
  refine { ok := ?_, absent := ?_, lock := ?_, nodup := ?_, claimedNodup := ?_, counts := hcounts }
  · -- the sight of every party is the one it had, opened
    intro q hql
    have hql' : q < g.parties.length := hlen ▸ hql
    by_cases hqp : q = p
    · subst hqp
      have hv : (g₁.setStage q (.wake g.latch.waitable.queue)).view q =
          { (g.view q).opened with party := { (g.view q).opened.party with stage := .wake g.latch.waitable.queue } } := by
        unfold view Sight.opened
        rw [hself, howed]
        simp [setStage, hclaimed, hq, hopen, hpq]
      rw [hv]
      exact (hi.ok q hql').opened.restage (by simp [Sight.opened, view, hs, GateStage.blocked])
    · have hv : (g₁.setStage p (.wake g.latch.waitable.queue)).view q = (g.view q).opened := by
        unfold view Sight.opened
        rw [hparty q hqp, howed]
        simp [setStage, hclaimed, hq, hopen, Bool.or_comm]
      rw [hv]
      exact (hi.ok q hql').opened
  · intro q hq'
    have h := hi.absent q (by omega)
    exact ⟨by simp [howed, h.1, h.2], by simp [setStage, hq]⟩
  · exact hi.lock_give (p := p) (by simp [setStage, hholder]) hlen hparty
      (by simp [hself, GateStage.holdsLock]) (by simp [hs, GateStage.holdsLock])
  · simp [setStage, hq]
  · rw [show (g₁.setStage p (.wake g.latch.waitable.queue)).claimed = g₁.claimed from rfl, hclaimed]
    refine List.nodup_append.mpr ⟨List.nodup_reverse.mpr hi.nodup, hi.claimedNodup, fun a ha b hb hab => ?_⟩
    subst hab
    exact (hi.queued (List.mem_reverse.mp ha)).2.2.1 hb

/-- A signal that takes effect: the latch opens, or a barrier only counts down. -/
theorem Inv.signal (hi : g.Inv goal) (hp : p < g.parties.length) (hs : (g.party p).stage = .signal)
    {l : Latch} {c ws : List Nat} (he : g.latch.signal g.claimed = .ok (l, c, ws)) :
    ({ g with latch := l, holder := none, claimed := c, signals := g.signals + 1 }.setStage p
      (.wake ws)).Inv goal := by
  obtain ⟨hcounts, ⟨hopen, rfl, rfl, hq⟩ | ⟨hclosed, hclosed', rfl, rfl, hq⟩⟩ :=
    Latch.signal_ok hi.counts hi.nodup (fun b hb => (hi.queued hb).2.2.1) he
  · exact hi.opening hp hs rfl rfl rfl hcounts hopen hq
  · exact hi.countDown hp hs hcounts hclosed hclosed' hq

/-- A signaller delivers one of the wakes it owes: the waiter it wakes has then received its
single wake. -/
theorem Inv.deliver (hi : g.Inv goal) (hp : p < g.parties.length) {q : Nat} {ws : List Nat}
    (hs : (g.party p).stage = .wake (q :: ws)) : ((g.deliver q).setStage p (.wake ws)).Inv goal := by
  -- the waiter is owed this wake, so it is blocked, claimed and has received none
  have hpos : 0 < g.owed q := owed_pos_iff.mpr ⟨p, hp, by simp [hs, GateStage.owes]⟩
  obtain ⟨hql, hqb, hqc, hq0, hq1⟩ := hi.owed_pos hpos
  have hqp : q ≠ p := by
    rintro rfl
    simp [hs, GateStage.blocked] at hqb
  have hlenp : p < (g.deliver q).parties.length := by simpa [Gate.deliver] using hp
  have hdp : (g.deliver q).party p = g.party p := party_update_ne (Ne.symm hqp)
  have hlen : ((g.deliver q).setStage p (.wake ws)).parties.length = g.parties.length := by
    simp [setStage, Gate.deliver]
  have hpartyp : ((g.deliver q).setStage p (.wake ws)).party p = { g.party p with stage := .wake ws } := by
    simp only [setStage, party_update_self hlenp, hdp]
  have hpartyq : ((g.deliver q).setStage p (.wake ws)).party q =
      { g.party q with wakeup := (g.party q).wakeup.deliver (g.party q).fiber, wakes := (g.party q).wakes + 1 } := by
    simp only [setStage, party_update_ne hqp, Gate.deliver, party_update_self hql]
  have hparty : ∀ r, r ≠ p → r ≠ q → ((g.deliver q).setStage p (.wake ws)).party r = g.party r := by
    intro r hrp hrq
    simp only [setStage, party_update_ne hrp, Gate.deliver, party_update_ne hrq]
  -- exactly the wake delivered is no longer owed
  have howed : ∀ r, ((g.deliver q).setStage p (.wake ws)).owed r + (if r = q then 1 else 0) = g.owed r := by
    intro r
    have h := owed_update (g := g.deliver q) (f := fun x => { x with stage := .wake ws }) hlenp r
    have hd : (g.deliver q).owed r = g.owed r := owed_update_of_owes rfl r
    rw [hdp, hs, hd] at h
    unfold setStage
    by_cases hr : r = q
    · subst hr
      simp only [GateStage.owes, List.count_cons_self, if_true] at h ⊢
      omega
    · simp only [GateStage.owes, List.count_cons, beq_iff_eq, Ne.symm hr, if_false, hr] at h ⊢
      omega
  have hheld : ∀ r, (((g.deliver q).setStage p (.wake ws)).party r).stage.holdsLock =
      (g.party r).stage.holdsLock := by
    intro r
    by_cases hrp : r = p
    · subst hrp
      simp [hpartyp, hs, GateStage.holdsLock]
    · by_cases hrq : r = q
      · subst hrq
        simp [hpartyq]
      · rw [hparty r hrp hrq]
  refine ⟨?_, ?_, ?_, hi.nodup, hi.claimedNodup, hi.counts⟩
  · intro r hr
    by_cases hrp : r = p
    · -- the signaller only moves on in its list
      subst hrp
      have hop := howed r
      simp only [Ne.symm hqp, if_false, add_zero] at hop
      have hv : ((g.deliver q).setStage r (.wake ws)).view r =
          { g.view r with party := { (g.view r).party with stage := .wake ws } } := by
        unfold view
        rw [hpartyp, hop]
        rfl
      rw [hv]
      exact (hi.ok r hp).restage (by simp [view, hs, GateStage.blocked])
    · by_cases hrq : r = q
      · -- the waiter has its wake, and is owed no other
        subst hrq
        have hoq := howed r
        simp only [if_true] at hoq
        obtain ⟨-, -, hop, hqq⟩ := (Sight.ok_of_claimed hqb (by simpa [view] using hqc)).mp (hi.ok r hql)
        have hw0 : (g.party r).wakeup = {} := by
          have hok := ((Sight.ok_of_claimed hqb (by simpa [view] using hqc)).mp (hi.ok r hql)).2.1
          change (g.party r).wakeup = Wakeup.holding (g.party r).fiber (decide ((g.party r).wakes = 1)) at hok
          rw [hok, hq0]
          rfl
        refine (Sight.ok_of_claimed (by simp [view, hpartyq, hqb]) (decide_eq_true hqc)).mpr
          ⟨?_, ?_, hop, hqq⟩
        · simp only [view, hpartyq, hq0]
          omega
        · simp [view, hpartyq, hq0, hw0]
      · rw [view_congr (hparty r hrp hrq) (by simpa [hrq] using howed r) Iff.rfl rfl Iff.rfl]
        exact hi.ok r (hlen ▸ hr)
  · intro r hr
    have hrq : r ≠ q := by omega
    have h := hi.absent r (by omega)
    exact ⟨by simpa [hrq, h.1] using howed r, h.2⟩
  · intro r
    rw [show ((g.deliver q).setStage p (.wake ws)).holder = g.holder from rfl, hi.lock r, hlen, hheld r]

/-- A party beyond the gate's parties has nothing to do. -/
theorem step_of_absent (hp : g.parties.length ≤ p) : g.step p = .ok none := by
  simp [Gate.step, party_eq_default hp]
  rfl

/-- A party that takes a step is one of the gate's parties. -/
theorem lt_of_step (h : g.step p = .ok (some g')) : p < g.parties.length := by
  by_contra hge
  rw [step_of_absent (by omega)] at h
  cases h

/-! ## 6. Every run keeps the invariant -/

/-- **Every step keeps the invariant.** -/
theorem Inv.step (hi : g.Inv goal) (h : g.step p = .ok (some g')) : g'.Inv goal := by
  have hp : p < g.parties.length := lt_of_step h
  unfold Gate.step at h
  cases hs : (g.party p).stage with
  | idle =>
    simp only [hs] at h
    cases hprog : (g.party p).program with
    | nil => simp [hprog] at h
    | cons op rest =>
      cases op <;> simp only [hprog, Except.ok.injEq, Option.some.injEq] at h <;> subst h
      · exact hi.begin hp hs (.inl rfl) rest
      · exact hi.begin hp hs (.inr (.inl rfl)) rest
      · exact hi.begin hp hs (.inr (.inr rfl)) rest
  | enter =>
    simp only [hs] at h
    by_cases hfree : g.holder = none
    · rcases he : g.latch.enqueue p with ⟨l, b⟩
      cases b <;> simp [hfree, he] at h <;> subst h
      · exact hi.refused hp hs hfree he
      · exact hi.enqueue hp hs hfree he
    · simp [hfree] at h
  | release queued =>
    simp only [hs, Except.ok.injEq, Option.some.injEq] at h
    subst h
    exact hi.release hp hs
  | sleep =>
    simp only [hs] at h
    cases hw : (g.party p).wakeup.consume (g.party p).fiber with
    | none => simp [hw] at h
    | some w =>
      simp only [hw, Except.ok.injEq, Option.some.injEq] at h
      subst h
      exact hi.wakeUp hp hs hw
  | grab =>
    simp only [hs] at h
    by_cases hfree : g.holder = none
    · simp only [hfree, Option.isNone_none, if_true, Except.ok.injEq, Option.some.injEq] at h
      subst h
      exact hi.grab hp hs hfree
    · simp [hfree] at h
  | signal =>
    simp only [hs] at h
    cases he : g.latch.signal g.claimed with
    | error a => simp [he] at h
    | ok r =>
      obtain ⟨l, c, ws⟩ := r
      simp only [he, Except.ok.injEq, Option.some.injEq] at h
      subst h
      exact hi.signal hp hs he
  | wake ws =>
    cases ws with
    | nil =>
      simp only [hs, Except.ok.injEq, Option.some.injEq] at h
      subst h
      exact hi.finish hp hs
    | cons q ws =>
      simp only [hs, Except.ok.injEq, Option.some.injEq] at h
      subst h
      exact hi.deliver hp hs
  | probe =>
    simp only [hs] at h
    by_cases hfree : g.holder = none
    · simp only [hfree, Option.isNone_none, if_true, Except.ok.injEq, Option.some.injEq] at h
      subst h
      exact hi.probe hp hs _
    · simp [hfree] at h

theorem Inv.next (hi : g.Inv goal) (h : g.next p = .ok g') : g'.Inv goal := by
  unfold Gate.next at h
  cases hs : g.step p with
  | error a => simp [hs] at h
  | ok o =>
    cases o with
    | none =>
      simp only [hs, Except.ok.injEq] at h
      exact h ▸ hi
    | some g₁ =>
      simp only [hs, Except.ok.injEq] at h
      exact h ▸ hi.step hs

/-- **Every run keeps the invariant**, whatever the schedule. -/
theorem Inv.run (hi : g.Inv goal) {schedule : List Nat} (h : g.run schedule = .ok g') : g'.Inv goal := by
  induction schedule generalizing g with
  | nil =>
    simp only [Gate.run, List.foldlM_nil] at h
    exact Except.ok.inj h ▸ hi
  | cons p rest ih =>
    simp only [Gate.run, List.foldlM_cons] at h
    cases hn : g.next p with
    | error a =>
      rw [hn] at h
      cases h
    | ok g₁ =>
      rw [hn] at h
      exact ih (hi.next hn) h

/-! ## 7. From a fresh latch -/

section Start

variable {l : Latch} {programs : List (Bool × List GateOp)} {r : Nat}

@[simp] theorem stage_start : ((Gate.start l programs).party r).stage = .idle := by
  unfold party Gate.start
  simp only [List.getD_eq_getElem?_getD, List.getElem?_map]
  cases programs[r]? <;> rfl

@[simp] theorem wakeup_start : ((Gate.start l programs).party r).wakeup = {} := by
  unfold party Gate.start
  simp only [List.getD_eq_getElem?_getD, List.getElem?_map]
  cases programs[r]? <;> rfl

theorem owed_start : (Gate.start l programs).owed r = 0 := by
  have h : ∀ x ∈ (Gate.start l programs).parties, x.stage.owes = [] := by
    intro x hx
    obtain ⟨a, -, rfl⟩ := List.mem_map.mp hx
    rfl
  simp [owed, List.flatMap_eq_nil_iff.mpr h]

theorem Inv.start (hl : l.Fresh goal) : (Gate.start l programs).Inv goal := by
  refine ⟨fun p _ => ?_, fun p _ => ⟨owed_start, by simp [Gate.start, hl.queue]⟩, fun p => ?_,
    by simp [Gate.start, hl.queue], List.nodup_nil, hl.counts⟩
  · exact (Sight.ok_of_not_blocked (by simp [view, GateStage.blocked])).mpr
      ⟨owed_start, by simp [view], by simp [view, Gate.start, hl.queue]⟩
  · constructor
    · intro h
      cases h
    · rintro ⟨-, h⟩
      rw [stage_start] at h
      cases h

end Start

/-- The invariant holds in every state that a run from a fresh latch reaches. -/
theorem inv_of_run (hl : l.Fresh goal) (programs : List (Bool × List GateOp)) {schedule : List Nat}
    (h : (Gate.start l programs).run schedule = .ok g) : g.Inv goal :=
  (Inv.start hl).run h

/-! ## 8. What the invariant says of a run -/

/-- Signals only accumulate: every step rebuilds the gate with the signals it had, or one more. -/
theorem signals_step (h : g.step p = .ok (some g')) : g.signals ≤ g'.signals := by
  unfold Gate.step at h
  cases hs : (g.party p).stage <;> simp only [hs] at h <;> (repeat' split at h) <;>
    simp only [Except.ok.injEq, Option.some.injEq, reduceCtorEq] at h <;> subst h <;>
    simp [setStage, Gate.deliver]

/-- Only a signal aborts, and only with what the latch's signal gives. -/
theorem step_error {a : Abort} (h : g.step p = .error a) :
    (g.party p).stage = .signal ∧ g.latch.signal g.claimed = .error a := by
  unfold Gate.step at h
  cases hs : (g.party p).stage <;> simp only [hs] at h <;> (repeat' split at h) <;> simp_all

/-- A signal of a reachable gate aborts exactly when it would count an open barrier down, and
then with the barrier's text. -/
theorem Inv.step_error_iff (hi : g.Inv goal) {a : Abort} :
    g.step p = .error a ↔
      (g.party p).stage = .signal ∧ (∃ b, g.latch = .barrier b) ∧ goal ≤ g.signals ∧ a = Barrier.belowZero := by
  constructor
  · intro h
    obtain ⟨hs, he⟩ := step_error h
    obtain ⟨⟨b, hb, hz⟩, rfl⟩ := Latch.signal_error he
    have hc : b.count + g.signals = goal := by
      have := hi.counts
      rw [hb] at this
      exact this.1
    exact ⟨hs, ⟨b, hb⟩, by omega, rfl⟩
  · rintro ⟨hs, ⟨b, hb⟩, hle, rfl⟩
    have hc : b.count + g.signals = goal := by
      have := hi.counts
      rw [hb] at this
      exact this.1
    unfold Gate.step
    simp [hs, hb, Latch.signal_error_of_zero (show b.count = 0 by omega)]

/-- A wait that looks at an open latch takes the lock and returns without blocking. -/
theorem step_enter_of_isOpen (hs : (g.party p).stage = .enter) (ho : g.latch.isOpen = true)
    (h : g.step p = .ok (some g')) : (g'.party p).stage = .release false := by
  have hp := lt_of_step h
  unfold Gate.step at h
  by_cases hfree : g.holder = none
  · simp only [hs, hfree, Option.isNone_none, if_true, Latch.enqueue_of_isOpen ho, Except.ok.injEq,
      Option.some.injEq] at h
    subst h
    simp [setStage, hp]
  · simp [hs, hfree] at h

/-- Before the opening, a blocked waiter is queued and nobody has woken it or owes it a wake. -/
theorem Inv.blocked_of_closed (hi : g.Inv goal) (hp : p < g.parties.length)
    (hb : (g.party p).stage.blocked = true) (ho : g.latch.isOpen = false) :
    p ∈ g.latch.waitable.queue ∧ (g.party p).wakes = 0 ∧ g.owed p = 0 := by
  by_cases hc : p ∈ g.claimed
  · have := ((Sight.ok_of_claimed hb (decide_eq_true hc)).mp (hi.ok p hp)).2.2.1
    simp [view, ho] at this
  · obtain ⟨hn, ho, -, -, hq⟩ := (Sight.ok_of_unclaimed hb (decide_eq_false hc)).mp (hi.ok p hp)
    exact ⟨by simpa [view] using hq, hn, ho⟩

/-- After the opening, a blocked waiter is claimed and woken exactly once in all, and is not
stranded: its wake is there to consume, or a signaller still owes it. -/
theorem Inv.blocked_of_open (hi : g.Inv goal) (hp : p < g.parties.length)
    (hb : (g.party p).stage.blocked = true) (ho : g.latch.isOpen = true) :
    p ∈ g.claimed ∧ (g.party p).wakes + g.owed p = 1 ∧
      ((g.party p).wakeup.consume (g.party p).fiber ≠ none ∨
        ∃ r < g.parties.length, p ∈ (g.party r).stage.owes) := by
  by_cases hc : p ∈ g.claimed
  · obtain ⟨hn, hw, -, -⟩ := (Sight.ok_of_claimed hb (decide_eq_true hc)).mp (hi.ok p hp)
    change (g.party p).wakes + g.owed p = 1 at hn
    change (g.party p).wakeup = Wakeup.holding (g.party p).fiber (decide ((g.party p).wakes = 1)) at hw
    refine ⟨hc, hn, ?_⟩
    by_cases h1 : (g.party p).wakes = 1
    · left
      rw [hw, h1, show decide (1 = 1) = true from rfl, Wakeup.consume_holding_true]
      simp
    · exact .inr (owed_pos_iff.mp (by omega))
  · have := ((Sight.ok_of_unclaimed hb (decide_eq_false hc)).mp (hi.ok p hp)).2.2.2.1
    simp [view, ho] at this

/-- **Latches strand no waiter.** In every state that a run from a fresh latch reaches, the
latch is open exactly once `goal` signals took effect, and stays open; a signal aborts exactly
when it would count an open barrier down, with the barrier's text; a wait that looks at an
open latch returns without blocking; and a blocked waiter is, before the opening, queued and
not woken, and after it, claimed and woken exactly once in all, its wake there to consume or
still owed by a signaller. -/
theorem latch_strands_no_waiter {l : Latch} (hl : l.Fresh goal) (programs : List (Bool × List GateOp))
    {schedule : List Nat} (hrun : (Gate.start l programs).run schedule = .ok g) :
    (g.latch.isOpen = true ↔ goal ≤ g.signals) ∧
    (∀ p g', g.step p = .ok (some g') → g.latch.isOpen = true → g'.latch.isOpen = true) ∧
    (∀ p a, g.step p = .error a ↔
      (g.party p).stage = .signal ∧ (∃ b, g.latch = .barrier b) ∧ goal ≤ g.signals ∧ a = Barrier.belowZero) ∧
    (∀ p g', (g.party p).stage = .enter → g.latch.isOpen = true → g.step p = .ok (some g') →
      (g'.party p).stage = .release false) ∧
    (∀ p, p < g.parties.length → (g.party p).stage.blocked = true →
      (g.latch.isOpen = false → p ∈ g.latch.waitable.queue ∧ (g.party p).wakes = 0 ∧ g.owed p = 0) ∧
      (g.latch.isOpen = true → p ∈ g.claimed ∧ (g.party p).wakes + g.owed p = 1 ∧
        ((g.party p).wakeup.consume (g.party p).fiber ≠ none ∨
          ∃ r < g.parties.length, p ∈ (g.party r).stage.owes))) := by
  have hi : g.Inv goal := inv_of_run hl programs hrun
  refine ⟨hi.counts.isOpen_iff, fun p g' h ho => ?_, fun p a => hi.step_error_iff,
    fun p g' hs ho h => step_enter_of_isOpen hs ho h,
    fun p hp hb => ⟨hi.blocked_of_closed hp hb, hi.blocked_of_open hp hb⟩⟩
  -- signals only accumulate, so an open latch stays open
  have hle := signals_step h
  exact (hi.step h).counts.isOpen_iff.mpr (le_trans (hi.counts.isOpen_iff.mp ho) hle)

/-- A thread waits on an exit barrier of count one and a fiber counts it down: the run stops
with the waiter asleep, claimed, and its wake owed by the fiber. -/
theorem latch_strands_no_waiter_barrier :
    Latch.Fresh 1 (.barrier { count := 1 }) ∧
    ∃ g : Gate, (Gate.start (.barrier { count := 1 }) [(false, [.wait]), (true, [.signal])]).run
        [0, 0, 0, 1, 1, 1] = .ok g ∧
      (g.latch.isOpen = true ↔ 1 ≤ g.signals) ∧
      (∀ p g', g.step p = .ok (some g') → g.latch.isOpen = true → g'.latch.isOpen = true) ∧
      (∀ p a, g.step p = .error a ↔
        (g.party p).stage = .signal ∧ (∃ b, g.latch = .barrier b) ∧ 1 ≤ g.signals ∧ a = Barrier.belowZero) ∧
      (∀ p g', (g.party p).stage = .enter → g.latch.isOpen = true → g.step p = .ok (some g') →
        (g'.party p).stage = .release false) ∧
      (∀ p, p < g.parties.length → (g.party p).stage.blocked = true →
        (g.latch.isOpen = false → p ∈ g.latch.waitable.queue ∧ (g.party p).wakes = 0 ∧ g.owed p = 0) ∧
        (g.latch.isOpen = true → p ∈ g.claimed ∧ (g.party p).wakes + g.owed p = 1 ∧
          ((g.party p).wakeup.consume (g.party p).fiber ≠ none ∨
            ∃ r < g.parties.length, p ∈ (g.party r).stage.owes))) := by
  have hl : Latch.Fresh 1 (.barrier { count := 1 }) := .inr rfl
  obtain ⟨g, hrun⟩ : ∃ g : Gate, (Gate.start (.barrier { count := 1 }) [(false, [.wait]), (true, [.signal])]).run
      [0, 0, 0, 1, 1, 1] = .ok g := ⟨_, rfl⟩
  exact ⟨hl, g, hrun, latch_strands_no_waiter hl _ hrun⟩

end Gate

end Fibers
