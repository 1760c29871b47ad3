import Mathlib
import Fibers.Proofs.LifecycleView
import Fibers.Timer.Protocol
/-!
# What a step of the timer protocol does

The ground every proof about the timer thread and its producers stands on
(`Fibers.Timer.Protocol`):

1. how the timer table reads after a timer is enabled or cancelled;
2. the heap: putting a pending timer in keeps the heap in firing order and adds just that
   timer;
3. the views the timer properties talk about: the operation each thread has in progress,
   where a timer waits, the pending timer the timer thread holds;
4. one equation per stage of a caller and of the timer thread, and one lemma per party
   saying what its step changes, so that later proofs never unfold a step again;
5. what every step keeps: a cancelled timer stays cancelled, an enabled one enabled, and the
   firings only grow.
-/

namespace Fibers

/-! ## 1. The timer table -/

namespace TimerTable

variable {t : TimerTable} {i j : Nat}

theorem getD_modify (l : List TimerEntry) (f : TimerEntry → TimerEntry) (i j : Nat) :
    (l.modify i f).getD j default =
      if i = j ∧ j < l.length then f (l.getD j default) else l.getD j default := by
  simp only [List.getD_eq_getElem?_getD, List.getElem?_modify]
  by_cases hij : i = j
  · subst hij
    by_cases hl : i < l.length
    · simp [hl]
    · simp [hl]
  · simp [hij]

theorem get_cancel : (t.cancel i).get j =
    if i = j ∧ j < t.entries.length then { t.get j with cancelled := true } else t.get j :=
  getD_modify _ _ i j

theorem get_markEnabled : (t.markEnabled i).get j =
    if i = j ∧ j < t.entries.length then { t.get j with enabled := true } else t.get j :=
  getD_modify _ _ i j

@[simp] theorem length_cancel : (t.cancel i).entries.length = t.entries.length := by
  simp [cancel]

@[simp] theorem length_markEnabled : (t.markEnabled i).entries.length = t.entries.length := by
  simp [markEnabled]

@[simp] theorem expiresAt_cancel : ((t.cancel i).get j).expiresAt = (t.get j).expiresAt := by
  rw [get_cancel]; split <;> rfl

@[simp] theorem interval_cancel : ((t.cancel i).get j).interval = (t.get j).interval := by
  rw [get_cancel]; split <;> rfl

@[simp] theorem worker_cancel : ((t.cancel i).get j).worker = (t.get j).worker := by
  rw [get_cancel]; split <;> rfl

@[simp] theorem enabled_cancel : ((t.cancel i).get j).enabled = (t.get j).enabled := by
  rw [get_cancel]; split <;> rfl

@[simp] theorem expiresAt_markEnabled : ((t.markEnabled i).get j).expiresAt = (t.get j).expiresAt := by
  rw [get_markEnabled]; split <;> rfl

@[simp] theorem interval_markEnabled : ((t.markEnabled i).get j).interval = (t.get j).interval := by
  rw [get_markEnabled]; split <;> rfl

@[simp] theorem worker_markEnabled : ((t.markEnabled i).get j).worker = (t.get j).worker := by
  rw [get_markEnabled]; split <;> rfl

@[simp] theorem isCancelled_markEnabled : (t.markEnabled i).isCancelled j = t.isCancelled j := by
  simp only [isCancelled, get_markEnabled]; split <;> rfl

theorem isCancelled_cancel :
    (t.cancel i).isCancelled j = (t.isCancelled j || decide (i = j ∧ j < t.entries.length)) := by
  simp only [isCancelled, get_cancel]
  split <;> simp_all

theorem enabled_markEnabled :
    ((t.markEnabled i).get j).enabled = ((t.get j).enabled || decide (i = j ∧ j < t.entries.length)) := by
  rw [get_markEnabled]
  split <;> simp_all

/-- Only a created timer can be cancelled. -/
theorem lt_of_isCancelled (h : t.isCancelled j = true) : j < t.entries.length := by
  by_contra hn
  simp only [isCancelled, get, List.getD_eq_getElem?_getD, List.getElem?_eq_none (Nat.le_of_not_lt hn),
    Option.getD_none] at h
  exact Bool.noConfusion h

/-- A timer that was not created reads as the default entry, never enabled. -/
theorem enabled_of_length_le (h : t.entries.length ≤ j) : (t.get j).enabled = false := by
  simp only [get, List.getD_eq_getElem?_getD, List.getElem?_eq_none h, Option.getD_none]
  rfl

end TimerTable

/-! ## 2. The heap -/

namespace Pending

/-- The heap's order by expiry alone, which publishing the earliest expiry relies on. -/
def Ordered (heap : List Pending) : Prop := heap.Pairwise (fun a b => a.expiresAt ≤ b.expiresAt)

theorem insert_perm (p : Pending) : ∀ l : List Pending, (Pending.insert p l).Perm (p :: l)
  | [] => .refl _
  | q :: rest => by
    simp only [Pending.insert]
    split
    · exact .refl _
    · exact ((insert_perm p rest).cons q).trans (.swap p q rest)

theorem count_insert {t : Nat} (p : Pending) (heap : List Pending) :
    ((Pending.insert p heap).map Pending.timer).count t =
      (heap.map Pending.timer).count t + if p.timer = t then 1 else 0 := by
  rw [((Pending.insert_perm p heap).map Pending.timer).count_eq]
  simp [List.count_cons, beq_iff_eq]

theorem mem_insert {p x : Pending} {l : List Pending} : x ∈ Pending.insert p l ↔ x = p ∨ x ∈ l := by
  simpa using (insert_perm p l).mem_iff

theorem le_of_before {a b : Pending} (h : a.before b = true) : a.expiresAt ≤ b.expiresAt := by
  simp only [before, Bool.or_eq_true, decide_eq_true_eq, Bool.and_eq_true, beq_iff_eq] at h
  omega

theorem le_of_not_before {a b : Pending} (h : a.before b = false) : b.expiresAt ≤ a.expiresAt := by
  simp only [before, Bool.or_eq_false_iff, decide_eq_false_iff_not, Bool.and_eq_false_iff,
    beq_eq_false_iff_ne] at h
  omega

theorem Ordered.insert (p : Pending) : ∀ {l : List Pending}, Ordered l → Ordered (Pending.insert p l)
  | [], _ => List.pairwise_singleton _ p
  | q :: rest, h => by
    have hq : ∀ x ∈ rest, q.expiresAt ≤ x.expiresAt := (List.pairwise_cons.1 h).1
    simp only [Pending.insert]
    split
    · next hb =>
      refine List.pairwise_cons.2 ⟨?_, h⟩
      intro x hx
      have hpq := le_of_before hb
      rcases List.mem_cons.1 hx with rfl | hx
      · exact hpq
      · exact hpq.trans (hq x hx)
    · next hb =>
      refine List.pairwise_cons.2 ⟨?_, Ordered.insert p (List.pairwise_cons.1 h).2⟩
      intro x hx
      rcases mem_insert.1 hx with rfl | hx
      · exact le_of_not_before (by simpa using hb)
      · exact hq x hx

end Pending

/-! ## 3. Views of a world -/

namespace TimerLoop

/-- The stage of the operation a callback has in progress. -/
def callStage (l : TimerLoop) : Option CallStage :=
  match l.stage with
  | .callback _ _ _ call => some call
  | _ => none

/-- The pending timer the timer thread holds, from its check until it puts it back or lets
it go. -/
def held (l : TimerLoop) : Option Pending :=
  match l.stage with
  | .fire _ p | .callback _ p _ _ | .recheck _ p _ => some p
  | _ => none

@[simp] theorem held_afterCallback (l : TimerLoop) (table : TimerTable) (now : Nat) (p : Pending) :
    ({ l with stage := afterCallback table now p } : TimerLoop).held =
      ((table.get p.timer).interval.map fun _ => p) := by
  unfold afterCallback
  split <;> simp_all [held]

@[simp] theorem callStage_afterCallback (l : TimerLoop) (table : TimerTable) (now : Nat) (p : Pending) :
    ({ l with stage := afterCallback table now p } : TimerLoop).callStage = none := by
  unfold afterCallback
  split <;> rfl

/-- The timer thread passed its cancelled check for a firing of `t` and has yet to count it. -/
def armed (l : TimerLoop) (t : Nat) : Bool :=
  match l.stage with
  | .fire _ p => p.timer == t
  | _ => false

/-- Timer `t` is in the heap. -/
def InHeap (l : TimerLoop) (t : Nat) : Prop := ∃ p ∈ l.heap, p.timer = t

end TimerLoop

/-- Timer `t` is in a producer queue. -/
def TimerHub.Queued (h : TimerHub) (t : Nat) : Prop := t ∈ h.queues.flatMap (·.timers)

namespace TimerWorld

/-- The operation caller `c` has in progress. -/
def callOf (s : TimerWorld) : Caller → Option CallStage
  | .producer p => s.producers[p]?.map (·.call)
  | .timer => s.loop.callStage

/-- Some thread is enabling `t`: it set its enabled flag and has yet to push it. -/
def Enabling (s : TimerWorld) (t : Nat) : Prop :=
  ∃ c, s.callOf c = some (.register t) ∨ s.callOf c = some (.push t)

/-- Some thread pushed `t` and has yet to lower the watermark to its expiry. -/
def Lowering (s : TimerWorld) (t : Nat) : Prop := ∃ c, s.callOf c = some (.lower t)

/-- Producer `p` lowered the watermark and is about to notify the timer thread. -/
def Notifying (s : TimerWorld) (p : Nat) : Prop := ∃ t, s.callOf (.producer p) = some (.notify t)

/-- Timer `t` waits to be collected or fired, due at `e`: in a producer queue, or in the
heap with that expiry. -/
def Waits (s : TimerWorld) (t e : Nat) : Prop :=
  (s.hub.Queued t ∧ (s.hub.table.get t).expiresAt = e) ∨ ∃ p ∈ s.loop.heap, p.timer = t ∧ p.expiresAt = e

end TimerWorld

/-- The stages whose step touches neither the timers nor the firings: only the watermark, the
locks, the clock and the stage itself. -/
def LoopStage.quiet : LoopStage → Bool
  | .take _ | .retain | .pop _ | .fire _ _ | .callback _ _ _ _ | .recheck _ _ _ | .done => false
  | _ => true

/-! ## 4. Steps -/

namespace CallStage

variable {h : TimerHub} {c : Caller} {t : Nat}

@[simp] theorem step_idle : CallStage.idle.step h c = some (h, .idle) := rfl

theorem step_claim : (CallStage.claim t).step h c =
    if (h.table.get t).worker ≠ h.id then some ({ h with abort := some TimerThread.wrongThread }, .idle)
    else if (h.table.get t).enabled then some ({ h with abort := some TimerThread.enabledTwice }, .idle)
    else some ({ h with table := h.table.markEnabled t }, .register t) := by
  simp only [step, access, TimerHub.access]
  split_ifs <;> rfl

theorem step_register : (CallStage.register t).step h c =
    if (h.ownQueue c).isSome then some (h, .push t)
    else if h.collecting then none
    else some ({ h with queues := h.queues ++ [{ owner := c }] }, .push t) := by
  simp only [step, access, TimerHub.access]
  split_ifs <;> rfl

theorem step_push : (CallStage.push t).step h c =
    match h.ownQueue c with
    | none => some (h, .lower t)
    | some i =>
      if h.draining = some i then none
      else some ({ h with queues := h.queues.modify i (fun q => { q with timers := q.timers ++ [t] }) }, .lower t) := by
  simp only [step, access, TimerHub.access]
  cases h.ownQueue c with
  | none => rfl
  | some i =>
    dsimp only
    split_ifs <;> rfl

theorem step_lower : (CallStage.lower t).step h c =
    some ({ h with next := min h.next (h.table.get t).expiresAt },
      if (h.table.get t).expiresAt < h.next then .notify t else .idle) := rfl

theorem step_notify : (CallStage.notify t).step h c =
    if h.sleepHeld then none else some ({ h with notified := h.notified || h.waiting }, .idle) := by
  simp only [step, access, TimerHub.access]
  split_ifs <;> rfl

theorem step_cancel : (CallStage.cancel t).step h c = some ({ h with table := h.table.cancel t }, .idle) :=
  rfl

/-- A caller's step is one access. -/
theorem step_access {call call' : CallStage} {h' : TimerHub} (hs : call.step h c = some (h', call')) :
    ∃ a, h.access (call.access c h.table) = some (h', a) := by
  obtain ⟨⟨h'', a⟩, hh, he⟩ := Option.map_eq_some_iff.1 hs
  simp only [Prod.mk.injEq] at he
  exact ⟨a, he.1 ▸ hh⟩

/-- Every step of caller `c`'s operation, with its guard and its outcome. -/
inductive Turn (h : TimerHub) (c : Caller) : CallStage → TimerHub → CallStage → Prop
  | idle : Turn h c .idle h .idle
  /-- Enabling a timer of another timer thread is fatal. -/
  | wrongThread (t : Nat) : (h.table.get t).worker ≠ h.id →
      Turn h c (.claim t) { h with abort := some TimerThread.wrongThread } .idle
  /-- Enabling a timer twice is fatal. -/
  | enabledTwice (t : Nat) : (h.table.get t).worker = h.id → (h.table.get t).enabled = true →
      Turn h c (.claim t) { h with abort := some TimerThread.enabledTwice } .idle
  | claim (t : Nat) : (h.table.get t).worker = h.id → (h.table.get t).enabled = false →
      Turn h c (.claim t) { h with table := h.table.markEnabled t } (.register t)
  | registerFound (t : Nat) : (h.ownQueue c).isSome = true → Turn h c (.register t) h (.push t)
  | registerNew (t : Nat) : (h.ownQueue c).isSome = false → h.collecting = false →
      Turn h c (.register t) { h with queues := h.queues ++ [{ owner := c }] } (.push t)
  /-- Without a queue of its own the push is lost. -/
  | pushLost (t : Nat) : h.ownQueue c = none → Turn h c (.push t) h (.lower t)
  | push (t i : Nat) : h.ownQueue c = some i → h.draining ≠ some i →
      Turn h c (.push t) { h with queues := h.queues.modify i (fun q => { q with timers := q.timers ++ [t] }) }
        (.lower t)
  /-- Lower the watermark; notify only if that lowered it. -/
  | lower (t : Nat) : Turn h c (.lower t) { h with next := min h.next (h.table.get t).expiresAt }
      (if (h.table.get t).expiresAt < h.next then .notify t else .idle)
  | notify (t : Nat) : h.sleepHeld = false →
      Turn h c (.notify t) { h with notified := h.notified || h.waiting } .idle
  | cancel (t : Nat) : Turn h c (.cancel t) { h with table := h.table.cancel t } .idle

theorem step_turn {call call' : CallStage} {h' : TimerHub} (hs : call.step h c = some (h', call')) :
    Turn h c call h' call' := by
  have e {x : TimerHub × CallStage} (hx : call.step h c = some x) : x = (h', call') :=
    Option.some.inj (hx.symm.trans hs)
  cases call with
  | idle =>
    obtain ⟨rfl, rfl⟩ := Prod.mk.inj (e step_idle)
    exact .idle
  | claim t =>
    have hs' := hs
    rw [step_claim] at hs'
    split_ifs at hs' with hw he <;> obtain ⟨rfl, rfl⟩ := Prod.mk.inj (Option.some.inj hs').symm
    · exact .wrongThread t hw
    · exact .enabledTwice t (not_not.1 hw) he
    · exact .claim t (not_not.1 hw) (by simpa using he)
  | register t =>
    have hs' := hs
    rw [step_register] at hs'
    split_ifs at hs' with ho hcol <;> obtain ⟨rfl, rfl⟩ := Prod.mk.inj (Option.some.inj hs').symm
    · exact .registerFound t ho
    · exact .registerNew t (by simpa using ho) (by simpa using hcol)
  | push t =>
    have hs' := hs
    rw [step_push] at hs'
    cases hi : h.ownQueue c with
    | none =>
      simp only [hi, Option.some.injEq] at hs'
      obtain ⟨rfl, rfl⟩ := Prod.mk.inj hs'.symm
      exact .pushLost t hi
    | some i =>
      simp only [hi] at hs'
      split_ifs at hs' with hd
      obtain ⟨rfl, rfl⟩ := Prod.mk.inj (Option.some.inj hs').symm
      exact .push t i hi hd
  | lower t =>
    obtain ⟨rfl, rfl⟩ := Prod.mk.inj (e step_lower)
    exact .lower t
  | notify t =>
    have hs' := hs
    rw [step_notify] at hs'
    split_ifs at hs' with hsl
    obtain ⟨rfl, rfl⟩ := Prod.mk.inj (Option.some.inj hs').symm
    exact .notify t (by simpa using hsl)
  | cancel t =>
    obtain ⟨rfl, rfl⟩ := Prod.mk.inj (e step_cancel)
    exact .cancel t

/-- What a caller's step leaves alone: the firings, the timer thread's locks and flags. -/
theorem step_frame {call call' : CallStage} {h' : TimerHub} (hs : call.step h c = some (h', call')) :
    h'.fires = h.fires ∧ h'.collecting = h.collecting ∧ h'.draining = h.draining ∧
      h'.sleepHeld = h.sleepHeld ∧ h'.waiting = h.waiting ∧ h'.stopped = h.stopped ∧ h'.clock = h.clock := by
  cases step_turn hs <;> exact ⟨rfl, rfl, rfl, rfl, rfl, rfl, rfl⟩

end CallStage

namespace TimerProducer

variable {x x' : TimerProducer} {h h' : TimerHub} {p : Nat}

/-- What a producer's step does: it begins an operation, exits, or makes the access of the
operation in progress. -/
theorem step_cases (hs : x.step h p = some (h', x')) :
    x.exited = false ∧
      ((∃ op rest, x.call = .idle ∧ x.program = op :: rest ∧ h' = h ∧
          x' = { x with program := rest, call := CallStage.begin op }) ∨
        (x.call = .idle ∧ x.program = [] ∧
          h' = { h with queues := h.queues.map (fun q => if q.owner = .producer p then { q with held := false } else q) } ∧
          x' = { x with exited := true }) ∨
        (x.call ≠ .idle ∧ x.call.step h (.producer p) = some (h', x'.call) ∧ x' = { x with call := x'.call })) := by
  unfold TimerProducer.step at hs
  split_ifs at hs with hx hc
  refine ⟨by simpa using hx, ?_⟩
  · cases hp : x.program with
    | cons op rest =>
      simp only [hp, Option.some.injEq, Prod.mk.injEq] at hs
      obtain ⟨rfl, rfl⟩ := hs
      exact .inl ⟨op, rest, hc, rfl, rfl, rfl⟩
    | nil =>
      simp only [hp, TimerHub.access, Option.map_some, Option.some.injEq, Prod.mk.injEq] at hs
      obtain ⟨rfl, rfl⟩ := hs
      exact .inr (.inl ⟨hc, rfl, rfl, rfl⟩)
  · refine ⟨by simpa using hx, ?_⟩
    obtain ⟨⟨h'', call'⟩, hh, he⟩ := Option.map_eq_some_iff.1 hs
    simp only [Prod.mk.injEq] at he
    obtain ⟨rfl, rfl⟩ := he
    exact .inr (.inr ⟨hc, hh, rfl⟩)

theorem step_fires (hs : x.step h p = some (h', x')) : h'.fires = h.fires := by
  rcases (step_cases hs).2 with ⟨-, -, -, -, rfl, -⟩ | ⟨-, -, rfl, -⟩ | ⟨-, hc, -⟩
  · rfl
  · rfl
  · exact (CallStage.step_frame hc).1

end TimerProducer

namespace TimerLoop

variable {l : TimerLoop} {h : TimerHub} {cb : Nat → Nat → List TimerOp} {i now : Nat} {p : Pending}

theorem step_reset (hl : l.stage = .reset) :
    l.step h cb = some ({ h with next := noDeadline }, { l with stage := .collect }) := by
  simp [step, access, after, hl, TimerHub.access]

theorem step_collect (hl : l.stage = .collect) :
    l.step h cb = some ({ h with collecting := true }, { l with stage := .drain 0 }) := by
  simp [step, access, after, hl, TimerHub.access]

theorem step_drain (hl : l.stage = .drain i) :
    l.step h cb = some (if i < h.queues.length then ({ h with draining := some i }, { l with stage := .take i })
      else (h, { l with stage := .retain })) := by
  simp only [step, access, hl, Option.bind_some, TimerHub.access]
  split_ifs <;> simp [after, hl]

theorem step_take_nil (hl : l.stage = .take i) (hq : (h.queues.getD i default).timers = []) :
    l.step h cb = some ({ h with draining := none }, { l with stage := .drain (i + 1) }) := by
  simp only [step, access, hl, Option.bind_some, TimerHub.access, hq, Option.map_some, after]

theorem step_take_cons {t : Nat} {rest : List Nat} (hl : l.stage = .take i)
    (hq : (h.queues.getD i default).timers = t :: rest) :
    l.step h cb = some ({ h with queues := h.queues.modify i (fun q => { q with timers := rest }) },
      if h.table.isCancelled t then l
      else { l with heap := Pending.insert ⟨(h.table.get t).expiresAt, l.seq + 1, t⟩ l.heap, seq := l.seq + 1 }) := by
  simp only [step, access, hl, Option.bind_some, TimerHub.access, hq, Option.map_some, after]

theorem step_retain (hl : l.stage = .retain) :
    l.step h cb = some
      ({ h with queues := h.queues.filter (fun q => q.held || !q.timers.isEmpty), collecting := false },
        { l with stage := .clock }) := by
  simp [step, access, after, hl, TimerHub.access]

theorem step_clock (hl : l.stage = .clock) :
    l.step h cb = some (h, { l with stage := .pop h.clock }) := by
  simp [step, access, after, hl, TimerHub.access]

theorem step_pop_due {rest : List Pending} (hl : l.stage = .pop now) (hh : l.heap = p :: rest)
    (hd : p.expiresAt ≤ now) :
    l.step h cb = some (h,
      { l with heap := rest, stage := if h.table.isCancelled p.timer then .pop now else .fire now p }) := by
  simp [step, access, after, hl, hh, hd, TimerHub.access]

theorem step_pop_later {rest : List Pending} (hl : l.stage = .pop now) (hh : l.heap = p :: rest)
    (hd : now < p.expiresAt) : l.step h cb = some (h, { l with stage := .publish }) := by
  simp [step, access, after, hl, hh, Nat.not_le.2 hd, TimerHub.access]

theorem step_pop_nil (hl : l.stage = .pop now) (hh : l.heap = []) :
    l.step h cb = some (h, { l with stage := .publish }) := by
  simp [step, access, after, hl, hh, TimerHub.access]

theorem step_fire (hl : l.stage = .fire now p) :
    l.step h cb = some ({ h with fires := h.fires ++ [p.timer] },
      { l with stage := .callback now p (cb p.timer (h.fires.count p.timer)) .idle }) := by
  simp [step, access, after, hl, TimerHub.access]

theorem step_callback_begin {op : TimerOp} {ops : List TimerOp}
    (hl : l.stage = .callback now p (op :: ops) .idle) :
    l.step h cb = some (h, { l with stage := .callback now p ops (CallStage.begin op) }) := by
  simp [step, access, after, hl, TimerHub.access, CallStage.access]

theorem step_callback_end (hl : l.stage = .callback now p [] .idle) :
    l.step h cb = some (h, { l with stage := afterCallback h.table now p }) := by
  simp [step, access, after, hl, TimerHub.access, CallStage.access]

theorem step_callback_call {ops : List TimerOp} {call : CallStage}
    (hl : l.stage = .callback now p ops call) (hc : call ≠ .idle) :
    l.step h cb = (call.step h .timer).map fun (h', call') => (h', { l with stage := .callback now p ops call' }) := by
  simp only [step, access, hl, Option.bind_some, CallStage.step, Option.map_map]
  congr 1
  funext ⟨h', a⟩
  simp [after, hl, hc]

theorem step_recheck_cancelled {interval : Nat} (hl : l.stage = .recheck now p interval)
    (hc : h.table.isCancelled p.timer = true) :
    l.step h cb = some (h, { l with stage := .pop now }) := by
  simp [step, access, hl, TimerHub.access, after, hc]

theorem step_recheck_live {interval : Nat} (hl : l.stage = .recheck now p interval)
    (hc : h.table.isCancelled p.timer = false) (hw : p.expiresAt + interval < Nat.pow 2 64) :
    l.step h cb = some (h,
      { l with heap := Pending.insert { p with expiresAt := p.expiresAt + interval } l.heap,
               stage := .pop now }) := by
  simp [step, access, hl, TimerHub.access, after, hc, Nat.not_le.2 hw]

/-- Putting a live periodic timer back past the word panics, which stops the run. -/
theorem step_recheck_overflow {interval : Nat} (hl : l.stage = .recheck now p interval)
    (hc : h.table.isCancelled p.timer = false) (hw : Nat.pow 2 64 ≤ p.expiresAt + interval) :
    l.step h cb = some ({ h with abort := some Abort.addOverflow },
      { l with heap := Pending.insert { p with expiresAt := p.expiresAt + interval } l.heap,
               stage := .pop now }) := by
  simp [step, access, hl, TimerHub.access, after, hc, hw]

/-- The re-arm panics exactly when the timer thread's own `rearm` does: for a live periodic
timer put back past the word. -/
theorem step_recheck_abort_iff {interval : Nat} (hl : l.stage = .recheck now p interval)
    (hi : (h.table.get p.timer).interval = some interval) (ha : h.abort = none) (w : TimerThread) :
    (∃ h' l', l.step h cb = some (h', l') ∧ h'.abort = some Abort.addOverflow) ↔
      w.rearm h.table p = .error Abort.addOverflow := by
  unfold TimerThread.rearm
  rw [hi]
  cases hc : h.table.isCancelled p.timer
  · by_cases hw : p.expiresAt + interval < Nat.pow 2 64
    · simp [step_recheck_live hl hc hw, ha, hw]
    · simp [step_recheck_overflow hl hc (Nat.le_of_not_lt hw), hw]
  · simp [step_recheck_cancelled hl hc, ha]

theorem step_publish_cons {rest : List Pending} (hl : l.stage = .publish) (hh : l.heap = p :: rest) :
    l.step h cb = some ({ h with next := min h.next p.expiresAt }, { l with stage := .lockSleep }) := by
  simp [step, access, after, hl, hh, TimerHub.access]

theorem step_publish_nil (hl : l.stage = .publish) (hh : l.heap = []) :
    l.step h cb = some (h, { l with stage := .lockSleep }) := by
  simp [step, access, after, hl, hh, TimerHub.access]

theorem step_lockSleep (hl : l.stage = .lockSleep) :
    l.step h cb = some ({ h with sleepHeld := true }, { l with stage := .loadStopped }) := by
  simp [step, access, after, hl, TimerHub.access]

theorem step_loadStopped (hl : l.stage = .loadStopped) :
    l.step h cb = some (h, { l with stage := if h.stopped then .leave else .loadNext }) := by
  simp [step, access, after, hl, TimerHub.access]

theorem step_leave (hl : l.stage = .leave) :
    l.step h cb = some ({ h with sleepHeld := false }, { l with stage := .done }) := by
  simp [step, access, after, hl, TimerHub.access]

theorem step_loadNext (hl : l.stage = .loadNext) :
    l.step h cb = some (h, { l with stage := if h.next = noDeadline then .sleep none else .compare h.next }) := by
  simp [step, access, after, hl, TimerHub.access]

theorem step_compare {v : Nat} (hl : l.stage = .compare v) :
    l.step h cb = some (h, { l with stage := if h.clock < v then .sleep (some v) else .unlock }) := by
  simp [step, access, after, hl, TimerHub.access]

theorem step_sleep {d : Option Nat} (hl : l.stage = .sleep d) :
    l.step h cb = some ({ h with sleepHeld := false, waiting := true, notified := false },
      { l with stage := .waiting d }) := by
  simp [step, access, after, hl, TimerHub.access]

theorem step_unlock (hl : l.stage = .unlock) :
    l.step h cb = some ({ h with sleepHeld := false }, { l with stage := .reset }) := by
  simp [step, access, after, hl, TimerHub.access]

theorem step_waiting {d : Option Nat} (hl : l.stage = .waiting d) :
    l.step h cb = some ({ h with waiting := false, notified := false }, { l with stage := .reset }) := by
  simp [step, access, after, hl, TimerHub.access]

theorem step_done (hl : l.stage = .done) : l.step h cb = none := by
  simp [step, access, hl]

/-- The timer thread's step is one access. -/
theorem step_access {h' : TimerHub} {l' : TimerLoop} (hs : l.step h cb = some (h', l')) :
    ∃ acc a, h.access acc = some (h', a) := by
  obtain ⟨acc, -, hs⟩ := Option.bind_eq_some_iff.1 hs
  obtain ⟨⟨h'', a⟩, hh, he⟩ := Option.map_eq_some_iff.1 hs
  simp only [Prod.mk.injEq] at he
  exact ⟨acc, a, he.1 ▸ hh⟩

/-- The steps of the timer thread that are not quiet, each with its guard and its outcome: the
timer thread's whole work on the timers and the firings. -/
inductive Touches (cb : Nat → Nat → List TimerOp) (l : TimerLoop) (h : TimerHub) :
    TimerHub → TimerLoop → Prop
  /-- The `i`-th queue is empty: go on to the next one. -/
  | takeNil (i : Nat) : l.stage = .take i → (h.queues.getD i default).timers = [] →
      Touches cb l h { h with draining := none } { l with stage := .drain (i + 1) }
  /-- The first timer of the `i`-th queue is cancelled: drop it. -/
  | takeCancelled (i u : Nat) (rest : List Nat) : l.stage = .take i →
      (h.queues.getD i default).timers = u :: rest → h.table.isCancelled u = true →
      Touches cb l h { h with queues := h.queues.modify i (fun q => { q with timers := rest }) } l
  /-- The first timer of the `i`-th queue is live: move it into the heap. -/
  | takeLive (i u : Nat) (rest : List Nat) : l.stage = .take i →
      (h.queues.getD i default).timers = u :: rest → h.table.isCancelled u = false →
      Touches cb l h { h with queues := h.queues.modify i (fun q => { q with timers := rest }) }
        { l with heap := Pending.insert ⟨(h.table.get u).expiresAt, l.seq + 1, u⟩ l.heap, seq := l.seq + 1 }
  /-- Drop the empty queues of exited producers. -/
  | retain : l.stage = .retain →
      Touches cb l h { h with queues := h.queues.filter (fun q => q.held || !q.timers.isEmpty), collecting := false }
        { l with stage := .clock }
  /-- No timer is due. -/
  | popNone (now : Nat) : l.stage = .pop now → (∀ p ∈ l.heap.head?, now < p.expiresAt) →
      Touches cb l h h { l with stage := .publish }
  /-- The first pending timer is due and cancelled: drop it. -/
  | popCancelled (now : Nat) (p : Pending) (rest : List Pending) : l.stage = .pop now →
      l.heap = p :: rest → p.expiresAt ≤ now → h.table.isCancelled p.timer = true →
      Touches cb l h h { l with heap := rest, stage := .pop now }
  /-- The first pending timer is due and live: hold it for its firing. -/
  | popLive (now : Nat) (p : Pending) (rest : List Pending) : l.stage = .pop now →
      l.heap = p :: rest → p.expiresAt ≤ now → h.table.isCancelled p.timer = false →
      Touches cb l h h { l with heap := rest, stage := .fire now p }
  /-- Count the firing and take the callback's operations. -/
  | fire (now : Nat) (p : Pending) : l.stage = .fire now p →
      Touches cb l h { h with fires := h.fires ++ [p.timer] }
        { l with stage := .callback now p (cb p.timer (h.fires.count p.timer)) .idle }
  /-- Start the callback's next operation. -/
  | callbackBegin (now : Nat) (p : Pending) (op : TimerOp) (ops : List TimerOp) :
      l.stage = .callback now p (op :: ops) .idle →
      Touches cb l h h { l with stage := .callback now p ops (CallStage.begin op) }
  /-- The callback is over. -/
  | callbackEnd (now : Nat) (p : Pending) : l.stage = .callback now p [] .idle →
      Touches cb l h h { l with stage := afterCallback h.table now p }
  /-- A step of the callback's operation in progress. -/
  | callbackCall (now : Nat) (p : Pending) (ops : List TimerOp) (call call' : CallStage) (h' : TimerHub) :
      l.stage = .callback now p ops call → call ≠ .idle → call.step h .timer = some (h', call') →
      Touches cb l h h' { l with stage := .callback now p ops call' }
  /-- A periodic timer cancelled by the time its callback ended is dropped. -/
  | recheckCancelled (now : Nat) (p : Pending) (interval : Nat) : l.stage = .recheck now p interval →
      h.table.isCancelled p.timer = true → Touches cb l h h { l with stage := .pop now }
  /-- A live periodic timer goes back into the heap, due one interval later. -/
  | recheckLive (now : Nat) (p : Pending) (interval : Nat) : l.stage = .recheck now p interval →
      h.table.isCancelled p.timer = false → p.expiresAt + interval < Nat.pow 2 64 →
      Touches cb l h h { l with heap := Pending.insert { p with expiresAt := p.expiresAt + interval } l.heap,
                                stage := .pop now }
  /-- A live periodic timer due one interval later past the word: putting it back panics, and
  the run stops. -/
  | recheckOverflow (now : Nat) (p : Pending) (interval : Nat) : l.stage = .recheck now p interval →
      h.table.isCancelled p.timer = false → Nat.pow 2 64 ≤ p.expiresAt + interval →
      Touches cb l h { h with abort := some Abort.addOverflow }
        { l with heap := Pending.insert { p with expiresAt := p.expiresAt + interval } l.heap,
                 stage := .pop now }

/-- The quiet steps of the timer thread, each with its guard and its outcome: the ones that
pace its loop through the watermark, the locks and the clock. -/
inductive Paces (l : TimerLoop) (h : TimerHub) : TimerHub → TimerLoop → Prop
  /-- Reset the watermark before collecting. -/
  | reset : l.stage = .reset → Paces l h { h with next := noDeadline } { l with stage := .collect }
  /-- Take the producers list. -/
  | collect : l.stage = .collect → Paces l h { h with collecting := true } { l with stage := .drain 0 }
  /-- Lock the `i`-th queue. -/
  | drainLock (i : Nat) : l.stage = .drain i → i < h.queues.length →
      Paces l h { h with draining := some i } { l with stage := .take i }
  /-- Past the last queue. -/
  | drainEnd (i : Nat) : l.stage = .drain i → h.queues.length ≤ i → Paces l h h { l with stage := .retain }
  | clock : l.stage = .clock → Paces l h h { l with stage := .pop h.clock }
  /-- Publish the first expiry of the heap into the watermark. -/
  | publishTop (p : Pending) (rest : List Pending) : l.stage = .publish → l.heap = p :: rest →
      Paces l h { h with next := min h.next p.expiresAt } { l with stage := .lockSleep }
  | publishNone : l.stage = .publish → l.heap = [] → Paces l h h { l with stage := .lockSleep }
  | lockSleep : l.stage = .lockSleep → Paces l h { h with sleepHeld := true } { l with stage := .loadStopped }
  | loadStopped : l.stage = .loadStopped →
      Paces l h h { l with stage := if h.stopped then .leave else .loadNext }
  | leave : l.stage = .leave → Paces l h { h with sleepHeld := false } { l with stage := .done }
  /-- Read the watermark: sleep without a deadline while it is the largest value. -/
  | loadNext : l.stage = .loadNext →
      Paces l h h { l with stage := if h.next = noDeadline then .sleep none else .compare h.next }
  | compare (v : Nat) : l.stage = .compare v →
      Paces l h h { l with stage := if h.clock < v then .sleep (some v) else .unlock }
  /-- Wait on the condition variable, releasing the sleep lock. -/
  | sleep (d : Option Nat) : l.stage = .sleep d →
      Paces l h { h with sleepHeld := false, waiting := true, notified := false } { l with stage := .waiting d }
  | unlock : l.stage = .unlock → Paces l h { h with sleepHeld := false } { l with stage := .reset }
  /-- Wake up, notified or not. -/
  | waiting (d : Option Nat) : l.stage = .waiting d →
      Paces l h { h with waiting := false, notified := false } { l with stage := .reset }

/-- Every quiet step of the timer thread is one of `Paces`. -/
theorem step_paces {h' : TimerHub} {l' : TimerLoop} (hs : l.step h cb = some (h', l'))
    (hq : l.stage.quiet = true) : Paces l h h' l' := by
  have e {x : TimerHub × TimerLoop} (hx : l.step h cb = some x) : x = (h', l') :=
    Option.some.inj (hx.symm.trans hs)
  cases hst : l.stage <;> simp only [LoopStage.quiet, hst, Bool.false_eq_true] at hq
  case reset => obtain ⟨rfl, rfl⟩ := Prod.mk.inj (e (step_reset hst)); exact .reset hst
  case collect => obtain ⟨rfl, rfl⟩ := Prod.mk.inj (e (step_collect hst)); exact .collect hst
  case drain i =>
    have hs' := e (step_drain hst)
    split_ifs at hs' with hi <;> obtain ⟨rfl, rfl⟩ := Prod.mk.inj hs'
    · exact .drainLock i hst hi
    · exact .drainEnd i hst (Nat.le_of_not_lt hi)
  case clock => obtain ⟨rfl, rfl⟩ := Prod.mk.inj (e (step_clock hst)); exact .clock hst
  case publish =>
    cases hh : l.heap with
    | nil => obtain ⟨rfl, rfl⟩ := Prod.mk.inj (e (step_publish_nil hst hh)); exact .publishNone hst hh
    | cons p rest =>
      obtain ⟨rfl, rfl⟩ := Prod.mk.inj (e (step_publish_cons hst hh))
      exact .publishTop p rest hst hh
  case lockSleep => obtain ⟨rfl, rfl⟩ := Prod.mk.inj (e (step_lockSleep hst)); exact .lockSleep hst
  case loadStopped => obtain ⟨rfl, rfl⟩ := Prod.mk.inj (e (step_loadStopped hst)); exact .loadStopped hst
  case leave => obtain ⟨rfl, rfl⟩ := Prod.mk.inj (e (step_leave hst)); exact .leave hst
  case loadNext => obtain ⟨rfl, rfl⟩ := Prod.mk.inj (e (step_loadNext hst)); exact .loadNext hst
  case compare v => obtain ⟨rfl, rfl⟩ := Prod.mk.inj (e (step_compare hst)); exact .compare v hst
  case sleep d => obtain ⟨rfl, rfl⟩ := Prod.mk.inj (e (step_sleep hst)); exact .sleep d hst
  case unlock => obtain ⟨rfl, rfl⟩ := Prod.mk.inj (e (step_unlock hst)); exact .unlock hst
  case waiting d => obtain ⟨rfl, rfl⟩ := Prod.mk.inj (e (step_waiting hst)); exact .waiting d hst

namespace Paces

variable {h' : TimerHub} {l' : TimerLoop}

theorem table_eq (hp : Paces l h h' l') : h'.table = h.table := by
  cases hp <;> rfl

theorem queues_eq (hp : Paces l h h' l') : h'.queues = h.queues := by
  cases hp <;> rfl

theorem fires_eq (hp : Paces l h h' l') : h'.fires = h.fires := by
  cases hp <;> rfl

theorem heap_eq (hp : Paces l h h' l') : l'.heap = l.heap := by
  cases hp <;> rfl

/-- After a quiet step the timer thread holds no timer and runs no callback. -/
theorem held_callStage (hp : Paces l h h' l') : l'.held = none ∧ l'.callStage = none := by
  cases hp with
  | loadStopped _ | loadNext _ | compare _ _ =>
    simp only [held, callStage]
    split_ifs <;> exact ⟨rfl, rfl⟩
  | _ => exact ⟨rfl, rfl⟩

end Paces

/-- A quiet step leaves the timers and the firings where they are, and the timer thread
holds no pending timer and runs no callback before it or after it. -/
theorem step_quiet {h' : TimerHub} {l' : TimerLoop} (hq : l.stage.quiet = true)
    (hs : l.step h cb = some (h', l')) :
    h'.table = h.table ∧ h'.queues = h.queues ∧ h'.fires = h.fires ∧ l'.heap = l.heap ∧
      l.held = none ∧ l'.held = none ∧ l.callStage = none ∧ l'.callStage = none := by
  have hp := step_paces hs hq
  have hbefore : l.held = none ∧ l.callStage = none := by
    cases hst : l.stage <;> simp_all [LoopStage.quiet, held, callStage]
  exact ⟨hp.table_eq, hp.queues_eq, hp.fires_eq, hp.heap_eq, hbefore.1, hp.held_callStage.1, hbefore.2,
    hp.held_callStage.2⟩

/-- Every step of the timer thread is quiet or one of `Touches`. -/
theorem step_touches {h' : TimerHub} {l' : TimerLoop} (hs : l.step h cb = some (h', l'))
    (hq : l.stage.quiet = false) : Touches cb l h h' l' := by
  have e {x y : TimerHub × TimerLoop} (hx : l.step h cb = some x) (hy : l.step h cb = some y) : x = y :=
    Option.some.inj (hx.symm.trans hy)
  cases hst : l.stage <;> simp only [LoopStage.quiet, hst, Bool.true_eq_false] at hq
  case take i =>
    cases hqi : (h.queues.getD i default).timers with
    | nil =>
      obtain ⟨rfl, rfl⟩ := Prod.mk.inj (e hs (step_take_nil hst hqi))
      exact .takeNil i hst hqi
    | cons u rest =>
      have hs' := e hs (step_take_cons hst hqi)
      cases hc : h.table.isCancelled u
      · simp only [hc, Bool.false_eq_true, if_false, Prod.mk.injEq] at hs'
        obtain ⟨rfl, rfl⟩ := hs'
        exact .takeLive i u rest hst hqi hc
      · simp only [hc, if_true, Prod.mk.injEq] at hs'
        obtain ⟨rfl, rfl⟩ := hs'
        exact .takeCancelled i u rest hst hqi hc
  case retain =>
    obtain ⟨rfl, rfl⟩ := Prod.mk.inj (e hs (step_retain hst))
    exact .retain hst
  case pop now =>
    cases hh : l.heap with
    | nil =>
      obtain ⟨rfl, rfl⟩ := Prod.mk.inj (e hs (step_pop_nil hst hh))
      exact .popNone now hst (by simp [hh])
    | cons p rest =>
      by_cases hd : p.expiresAt ≤ now
      · have hs' := e hs (step_pop_due hst hh hd)
        cases hc : h.table.isCancelled p.timer
        · simp only [hc, Bool.false_eq_true, if_false, Prod.mk.injEq] at hs'
          obtain ⟨rfl, rfl⟩ := hs'
          exact .popLive now p rest hst hh hd hc
        · simp only [hc, if_true, Prod.mk.injEq] at hs'
          obtain ⟨rfl, rfl⟩ := hs'
          exact .popCancelled now p rest hst hh hd hc
      · obtain ⟨rfl, rfl⟩ := Prod.mk.inj (e hs (step_pop_later hst hh (Nat.lt_of_not_le hd)))
        exact .popNone now hst (by simpa [hh] using hd)
  case fire now p =>
    obtain ⟨rfl, rfl⟩ := Prod.mk.inj (e hs (step_fire hst))
    exact .fire now p hst
  case callback now p ops call =>
    by_cases hci : call = .idle
    · subst hci
      cases ops with
      | nil =>
        obtain ⟨rfl, rfl⟩ := Prod.mk.inj (e hs (step_callback_end hst))
        exact .callbackEnd now p hst
      | cons op ops =>
        obtain ⟨rfl, rfl⟩ := Prod.mk.inj (e hs (step_callback_begin hst))
        exact .callbackBegin now p op ops hst
    · rw [step_callback_call hst hci] at hs
      obtain ⟨⟨h'', call'⟩, hcs, he⟩ := Option.map_eq_some_iff.1 hs
      obtain ⟨rfl, rfl⟩ := Prod.mk.inj he
      exact .callbackCall now p ops call call' h'' hst hci hcs
  case recheck now p i =>
    cases hc : h.table.isCancelled p.timer
    · -- a live timer goes back, unless one interval later passes the word
      by_cases hw : p.expiresAt + i < Nat.pow 2 64
      · obtain ⟨rfl, rfl⟩ := Prod.mk.inj (e hs (step_recheck_live hst hc hw))
        exact .recheckLive now p i hst hc hw
      · have hw' := Nat.le_of_not_lt hw
        obtain ⟨rfl, rfl⟩ := Prod.mk.inj (e hs (step_recheck_overflow hst hc hw'))
        exact .recheckOverflow now p i hst hc hw'
    · obtain ⟨rfl, rfl⟩ := Prod.mk.inj (e hs (step_recheck_cancelled hst hc))
      exact .recheckCancelled now p i hst hc
  case done => simp [step_done hst] at hs

end TimerLoop

namespace TimerWorld

variable {s s' : TimerWorld} {p : Nat}

theorem step_producer (hs : s.step (.producer p) = some s') :
    s.hub.abort = none ∧ ∃ x x', s.producers[p]? = some x ∧ x.step s.hub p = some (s'.hub, x') ∧
      s' = { s with hub := s'.hub, producers := s.producers.set p x' } := by
  simp only [step] at hs
  split_ifs at hs with ha
  cases hx : s.producers[p]? with
  | none => simp [hx] at hs
  | some x =>
    simp only [hx] at hs
    obtain ⟨⟨hub, x'⟩, hh, rfl⟩ := Option.map_eq_some_iff.1 hs
    exact ⟨by simpa using ha, x, x', rfl, hh, rfl⟩

theorem step_timer (hs : s.step .timer = some s') :
    s.hub.abort = none ∧ s.loop.step s.hub s.callbacks = some (s'.hub, s'.loop) ∧
      s' = { s with hub := s'.hub, loop := s'.loop } := by
  simp only [step] at hs
  split_ifs at hs with ha
  obtain ⟨⟨hub, l⟩, hh, rfl⟩ := Option.map_eq_some_iff.1 hs
  exact ⟨by simpa using ha, hh, rfl⟩

theorem step_stopper (hs : s.step .stopper = some s') :
    s.hub.abort = none ∧
      ((s.stopper = .store ∧ s' = { s with hub := { s.hub with stopped := true }, stopper := .notify }) ∨
        (s.stopper = .notify ∧ s.hub.sleepHeld = false ∧
          s' = { s with hub := { s.hub with notified := s.hub.notified || s.hub.waiting }, stopper := .done })) := by
  simp only [step] at hs
  split_ifs at hs with ha
  refine ⟨by simpa using ha, ?_⟩
  cases hst : s.stopper with
  | store =>
    simp only [hst, StopStage.access, Option.bind_some, TimerHub.access, Option.map_some,
      Option.some.injEq] at hs
    exact .inl ⟨rfl, hs.symm⟩
  | notify =>
    by_cases hsl : s.hub.sleepHeld = true
    · simp [hst, StopStage.access, TimerHub.access, hsl] at hs
    · simp only [hst, StopStage.access, Option.bind_some, TimerHub.access, if_neg hsl, Option.map_some,
        Option.some.injEq] at hs
      exact .inr ⟨rfl, by simpa using hsl, hs.symm⟩
  | done => simp [hst, StopStage.access] at hs

theorem step_clock (hs : s.step .clock = some s') :
    s.hub.abort = none ∧ s' = { s with hub := { s.hub with clock := s.hub.clock + 1 } } := by
  simp only [step] at hs
  split_ifs at hs with ha
  simp only [TimerHub.access, Option.map_some, Option.some.injEq] at hs
  exact ⟨by simpa using ha, hs.symm⟩

/-- A turn either changes nothing or is a step. -/
theorem next_cases (s : TimerWorld) (party : TimerParty) :
    s.next party = s ∨ s.step party = some (s.next party) := by
  unfold next
  cases h : s.step party with
  | none => exact .inl rfl
  | some s' => exact .inr rfl

/-- Only the timer thread's turn moves the timer thread or counts a firing. -/
theorem loop_next (s : TimerWorld) (party : TimerParty) :
    ((s.next party).loop = s.loop ∧ (s.next party).hub.fires = s.hub.fires) ∨
      s.loop.step s.hub s.callbacks = some ((s.next party).hub, (s.next party).loop) := by
  rcases next_cases s party with h | h
  · exact .inl (by rw [h]; exact ⟨rfl, rfl⟩)
  generalize s.next party = s' at h ⊢
  cases party with
  | producer p =>
    obtain ⟨-, x, x', -, hx, he⟩ := step_producer h
    rw [he]
    exact .inl ⟨rfl, TimerProducer.step_fires hx⟩
  | timer => exact .inr (step_timer h).2.1
  | stopper => obtain ⟨-, ⟨-, he⟩ | ⟨-, -, he⟩⟩ := step_stopper h <;> rw [he] <;> exact .inl ⟨rfl, rfl⟩
  | clock =>
    obtain ⟨-, he⟩ := step_clock h
    rw [he]
    exact .inl ⟨rfl, rfl⟩

/-- The shared state after a turn is the one before, or what one access made of it. -/
theorem hub_next (s : TimerWorld) (party : TimerParty) :
    (s.next party).hub = s.hub ∨ ∃ acc a, s.hub.access acc = some ((s.next party).hub, a) := by
  rcases next_cases s party with h | h
  · exact .inl (by rw [h])
  · right
    generalize s.next party = s' at h
    cases party with
    | producer p =>
      obtain ⟨-, x, x', -, hx, -⟩ := step_producer h
      rcases (TimerProducer.step_cases hx).2 with ⟨-, -, -, -, he, -⟩ | ⟨-, -, he, -⟩ | ⟨-, hc, -⟩
      · exact ⟨.skip, {}, by rw [he]; rfl⟩
      · exact ⟨.exit p, {}, by rw [he]; rfl⟩
      · obtain ⟨a, ha⟩ := CallStage.step_access hc
        exact ⟨_, a, ha⟩
    | timer =>
      obtain ⟨-, hl, -⟩ := step_timer h
      exact TimerLoop.step_access hl
    | stopper =>
      obtain ⟨-, ⟨-, he⟩ | ⟨-, hs, he⟩⟩ := step_stopper h
      · exact ⟨.storeStopped, {}, by rw [he]; rfl⟩
      · exact ⟨.notifyAll, {}, by simp [TimerHub.access, hs, he]⟩
    | clock =>
      obtain ⟨-, he⟩ := step_clock h
      exact ⟨.tick, {}, by rw [he]; rfl⟩

end TimerWorld

/-! ## 5. Where the producer queues put a timer -/

namespace TimerHub

variable {h : TimerHub} {t u : Nat}

theorem queued_iff_count : h.Queued t ↔ 0 < (h.queues.flatMap (·.timers)).count t := List.count_pos_iff.symm

/-- A push into the `i`-th queue adds one copy of its timer to the queues. -/
theorem count_push {i : Nat} (hi : i < h.queues.length) (t : Nat) :
    ((h.queues.modify i (fun q => { q with timers := q.timers ++ [u] })).flatMap (·.timers)).count t =
      (h.queues.flatMap (·.timers)).count t + if t = u then 1 else 0 := by
  have hc := count_flatMap_modify (·.timers) (fun q : ProducerQueue => { q with timers := q.timers ++ [u] }) t
    h.queues i hi
  simp only [List.count_append, List.count_cons, List.count_nil, beq_iff_eq] at hc
  by_cases htu : t = u
  · subst htu
    simp only [if_true] at hc ⊢
    omega
  · simp only [Ne.symm htu, htu, if_false] at hc ⊢
    omega

/-- Taking the first timer `u` of the `i`-th queue removes one copy of it from the queues. -/
theorem count_take {i : Nat} {rest : List Nat} (hq : (h.queues.getD i default).timers = u :: rest) (t : Nat) :
    ((h.queues.modify i (fun q => { q with timers := rest })).flatMap (·.timers)).count t +
      (if t = u then 1 else 0) = (h.queues.flatMap (·.timers)).count t := by
  have hi : i < h.queues.length := by
    by_contra hn
    rw [List.getD_eq_getElem?_getD, List.getElem?_eq_none (Nat.le_of_not_lt hn), Option.getD_none] at hq
    exact List.cons_ne_nil u rest hq.symm
  have hc := count_flatMap_modify (·.timers) (fun q : ProducerQueue => { q with timers := rest }) t h.queues i hi
  simp only [hq, List.count_cons, beq_iff_eq] at hc
  by_cases htu : t = u
  · subst htu
    simp only [if_true] at hc ⊢
    omega
  · simp only [Ne.symm htu, htu, if_false] at hc ⊢
    omega

/-- Taking the first timer `u` of the `i`-th queue keeps the others. -/
theorem queued_take {i : Nat} {rest : List Nat} (hq : (h.queues.getD i default).timers = u :: rest) :
    (({ h with queues := h.queues.modify i (fun q => { q with timers := rest }) } : TimerHub).Queued t →
        h.Queued t) ∧
      (h.Queued t → ({ h with queues := h.queues.modify i (fun q => { q with timers := rest }) } : TimerHub).Queued t ∨
        t = u) := by
  have hc := count_take hq t
  simp only [queued_iff_count]
  by_cases htu : t = u
  · subst htu
    simp only [if_true] at hc
    exact ⟨fun _ => by omega, fun _ => .inr rfl⟩
  · simp only [htu, if_false] at hc
    exact ⟨fun _ => by omega, fun _ => .inl (by omega)⟩

/-- Dropping the empty queues of exited owners keeps every timer queued. -/
theorem queued_retain :
    ({ h with queues := h.queues.filter (fun q => q.held || !q.timers.isEmpty), collecting := false } : TimerHub).Queued t ↔
      h.Queued t := by
  simp only [Queued, List.mem_flatMap, List.mem_filter]
  constructor
  · rintro ⟨q, ⟨hq, -⟩, ht⟩
    exact ⟨q, hq, ht⟩
  · rintro ⟨q, hq, ht⟩
    refine ⟨q, ⟨hq, ?_⟩, ht⟩
    cases hq' : q.timers with
    | nil => simp [hq'] at ht
    | cons _ _ => simp

/-- An exiting producer gives up its queues, which keep their timers. -/
theorem queued_exit {p : Nat} :
    ({ h with queues := h.queues.map (fun q => if q.owner = .producer p then { q with held := false } else q) } : TimerHub).Queued t ↔
      h.Queued t := by
  have hq : (fun q : ProducerQueue => (if q.owner = .producer p then { q with held := false } else q).timers) =
      (·.timers) := by
    funext q
    split <;> rfl
  simp only [Queued, List.flatMap_map, hq]

end TimerHub

/-! ## 6. The views after a step -/

namespace TimerWorld

variable {s : TimerWorld} {p : Nat} {x x' : TimerProducer} {h' : TimerHub} {l' : TimerLoop}

theorem callOf_setProducer (hx : s.producers[p]? = some x) (c : Caller) :
    ({ s with hub := h', producers := s.producers.set p x' } : TimerWorld).callOf c =
      if c = .producer p then some x'.call else s.callOf c := by
  cases c with
  | producer q =>
    simp only [callOf, List.getElem?_set, Caller.producer.injEq]
    by_cases hq : p = q
    · subst hq
      have hp : p < s.producers.length := (List.getElem?_eq_some_iff.1 hx).1
      simp [hp]
    · simp [hq, Ne.symm hq]
  | timer => simp [callOf]

theorem callOf_setLoop (c : Caller) :
    ({ s with hub := h', loop := l' } : TimerWorld).callOf c = if c = .timer then l'.callStage else s.callOf c := by
  cases c <;> simp [callOf]

end TimerWorld

/-! ## 7. What every step keeps -/

namespace TimerHub

variable {h h' : TimerHub} {acc : TimerAccess} {a : TimerAnswer} {t : Nat}

/-- What an access does to the timer table and to the firings: the table stays, or one timer
is removed or enabled; the firings only grow. -/
theorem access_frame (hs : h.access acc = some (h', a)) :
    (h'.table = h.table ∨ (∃ u, h'.table = h.table.cancel u) ∨ ∃ u, h'.table = h.table.markEnabled u) ∧
      h.fires <+: h'.fires := by
  cases acc <;> simp only [access] at hs <;> (try split_ifs at hs) <;> (try split at hs) <;>
    (try split_ifs at hs) <;> simp only [Option.some.injEq, Prod.mk.injEq] at hs <;>
    obtain ⟨rfl, -⟩ := hs <;> simp

theorem access_isCancelled (hs : h.access acc = some (h', a)) (hc : h.table.isCancelled t = true) :
    h'.table.isCancelled t = true := by
  rcases (access_frame hs).1 with ht | ⟨u, ht⟩ | ⟨u, ht⟩ <;> rw [ht] <;> simp [TimerTable.isCancelled_cancel, hc]

theorem access_enabled (hs : h.access acc = some (h', a)) (he : (h.table.get t).enabled = true) :
    (h'.table.get t).enabled = true := by
  rcases (access_frame hs).1 with ht | ⟨u, ht⟩ | ⟨u, ht⟩ <;> rw [ht] <;> simp [TimerTable.enabled_markEnabled, he]

theorem access_length (hs : h.access acc = some (h', a)) :
    h'.table.entries.length = h.table.entries.length := by
  rcases (access_frame hs).1 with ht | ⟨u, ht⟩ | ⟨u, ht⟩ <;> rw [ht] <;> simp

theorem access_interval (hs : h.access acc = some (h', a)) :
    (h'.table.get t).interval = (h.table.get t).interval := by
  rcases (access_frame hs).1 with ht | ⟨u, ht⟩ | ⟨u, ht⟩ <;> rw [ht] <;> simp

end TimerHub

namespace TimerWorld

variable {s : TimerWorld} {t : Nat}

theorem isCancelled_next (party : TimerParty) (hc : s.hub.table.isCancelled t = true) :
    (s.next party).hub.table.isCancelled t = true := by
  rcases hub_next s party with h | ⟨acc, a, h⟩
  · rwa [h]
  · exact TimerHub.access_isCancelled h hc

theorem enabled_next (party : TimerParty) (he : (s.hub.table.get t).enabled = true) :
    ((s.next party).hub.table.get t).enabled = true := by
  rcases hub_next s party with h | ⟨acc, a, h⟩
  · rwa [h]
  · exact TimerHub.access_enabled h he

theorem length_next (party : TimerParty) :
    (s.next party).hub.table.entries.length = s.hub.table.entries.length := by
  rcases hub_next s party with h | ⟨acc, a, h⟩
  · rw [h]
  · exact TimerHub.access_length h

theorem interval_next (party : TimerParty) :
    ((s.next party).hub.table.get t).interval = (s.hub.table.get t).interval := by
  rcases hub_next s party with h | ⟨acc, a, h⟩
  · rw [h]
  · exact TimerHub.access_interval h

theorem fires_next (party : TimerParty) : s.hub.fires <+: (s.next party).hub.fires := by
  rcases hub_next s party with h | ⟨acc, a, h⟩
  · rw [h]
  · exact (TimerHub.access_frame h).2

theorem fires_run (u : List TimerParty) : s.hub.fires <+: (s.run u).hub.fires := by
  induction u generalizing s with
  | nil => exact List.prefix_refl _
  | cons party u ih => exact (fires_next party).trans ih

theorem Reachable.run (hr : s.Reachable) (u : List TimerParty) : (s.run u).Reachable := by
  induction u generalizing s with
  | nil => exact hr
  | cons party u ih => exact ih (.next party hr)

end TimerWorld

end Fibers
