import Mathlib
import Fibers.Proofs.TimerSteps
/-!
# Where a timer is

A timer that something holds is in one of four *spots* (`TimerWorld.spots`): in the hand of
the thread enabling it, from its enabled flag to its push; in a producer queue; in the timer
thread's heap; or held by the timer thread from its check until it puts the timer back or lets
it go. Every step keeps each timer in its spot or moves it to another, with two exceptions
(`TimerWorld.Moves`): enabling takes a timer in hand, and the timer thread drops a timer only
when it finds it cancelled, or when it lets a one-shot timer go after its callback.

Two facts of the shape of a world make this so (`TimerWorld.Shape`): a thread about to push
has a queue of its own in the producers list, and the timer running a callback was counted as
fired. From the moves, by induction over the run (`TimerWorld.Reachable.sound`):

* every timer in a spot, or whose callback started, was enabled;
* a timer is in at most one spot;
* every enabled timer is in a spot, or cancelled, or a one-shot timer whose callback started.
-/

namespace Fibers

/-! ## 1. The spots -/

namespace CallStage

/-- The timer a thread holds in hand: the one it is enabling, from its enabled flag to its
push. -/
def hand : CallStage → List Nat
  | .register t | .push t => [t]
  | _ => []

@[simp] theorem hand_idle : CallStage.idle.hand = [] := rfl

@[simp] theorem hand_begin (op : TimerOp) : (CallStage.begin op).hand = [] := by
  cases op <;> rfl

end CallStage

namespace TimerLoop

/-- The timer in the hand of the operation the callback has in progress. -/
def hand (l : TimerLoop) : List Nat := (l.callStage.map CallStage.hand).getD []

/-- The pending timer the timer thread holds, as a list. -/
def heldTimers (l : TimerLoop) : List Nat := (l.held.map Pending.timer).toList

/-- What the timer thread sees of the spots: the hand of its callback, the queues, the heap
and its hold. -/
def spots (l : TimerLoop) (h : TimerHub) : List Nat :=
  l.hand ++ h.queues.flatMap (·.timers) ++ l.heap.map Pending.timer ++ l.heldTimers

end TimerLoop

theorem Caller.exists_iff {P : Caller → Prop} : (∃ c, P c) ↔ (∃ p, P (.producer p)) ∨ P .timer := by
  constructor
  · rintro ⟨c, hc⟩
    cases c with
    | producer p => exact .inl ⟨p, hc⟩
    | timer => exact .inr hc
  · rintro (⟨p, hp⟩ | hc)
    · exact ⟨_, hp⟩
    · exact ⟨_, hc⟩

namespace TimerWorld

/-- Every spot a timer can be in, with repetitions: the hands of the producers, and what the
timer thread sees. -/
def spots (s : TimerWorld) : List Nat := s.producers.flatMap (·.call.hand) ++ s.loop.spots s.hub

theorem count_spots (s : TimerWorld) (t : Nat) :
    s.spots.count t = (s.producers.flatMap (·.call.hand)).count t + (s.loop.spots s.hub).count t := by
  simp [spots, List.count_append]

theorem mem_producerHands {s : TimerWorld} {t : Nat} :
    t ∈ s.producers.flatMap (·.call.hand) ↔ ∃ p, s.callOf (.producer p) = some (.register t) ∨
      s.callOf (.producer p) = some (.push t) := by
  simp only [List.mem_flatMap, callOf, Option.map_eq_some_iff]
  constructor
  · rintro ⟨x, hx, ht⟩
    obtain ⟨p, hp, rfl⟩ := List.getElem_of_mem hx
    refine ⟨p, ?_⟩
    cases hc : s.producers[p].call <;> simp [CallStage.hand, hc] at ht ⊢ <;> simp [ht, List.getElem?_eq_getElem hp, hc]
  · rintro ⟨p, ⟨x, hx, hc⟩ | ⟨x, hx, hc⟩⟩ <;>
      exact ⟨x, List.mem_of_getElem? hx, by simp [hc, CallStage.hand]⟩

/-- The spots are the places the claims about timers name. -/
theorem mem_spots {s : TimerWorld} {t : Nat} :
    t ∈ s.spots ↔ s.Enabling t ∨ s.hub.Queued t ∨ s.loop.InHeap t ∨ ∃ p, s.loop.held = some p ∧ p.timer = t := by
  have hl : t ∈ s.loop.hand ↔ s.callOf .timer = some (.register t) ∨ s.callOf .timer = some (.push t) := by
    simp only [TimerLoop.hand, callOf]
    cases s.loop.callStage with
    | none => simp
    | some call => cases call <;> simp [CallStage.hand, eq_comm]
  simp only [spots, TimerLoop.spots, List.mem_append, mem_producerHands, hl, TimerLoop.heldTimers,
    Option.mem_toList, Option.map_eq_some_iff, TimerHub.Queued, TimerLoop.InHeap, List.mem_map, Enabling,
    Caller.exists_iff (P := fun c => s.callOf c = some (.register t) ∨ s.callOf c = some (.push t)), or_assoc]

end TimerWorld

/-! ## 2. How a step moves the timers -/

section Lists

variable {α β : Type}

theorem any_modify_of {l : List α} {i : Nat} {f : α → α} {p : α → Bool} (hf : ∀ x, p (f x) = p x) :
    (l.modify i f).any p = l.any p := by
  induction l generalizing i with
  | nil => simp
  | cons x l ih => cases i <;> simp [List.modify_zero_cons, List.modify_succ_cons, ih, hf]

theorem flatMap_filter_of_nil {l : List α} {p : α → Bool} {F : α → List β}
    (hF : ∀ x, p x = false → F x = []) : (l.filter p).flatMap F = l.flatMap F := by
  induction l with
  | nil => rfl
  | cons x l ih =>
    cases hx : p x
    · simp [hx, hF x hx, ih]
    · simp [hx, ih]

theorem count_flatMap_set [BEq β] [Inhabited α] (F : α → List β) (b : β) {l : List α} {i : Nat} {x y : α}
    (hx : l[i]? = some x) : ((l.set i y).flatMap F).count b + (F x).count b = (l.flatMap F).count b + (F y).count b := by
  have hi : i < l.length := (List.getElem?_eq_some_iff.1 hx).1
  have := count_flatMap_modify F (fun _ => y) b l i hi
  rwa [List.modify_eq_set, List.getD_eq_getElem?_getD, hx, Option.getD_some] at this

end Lists

namespace TimerHub

variable {h : TimerHub} {c : Caller}

theorem ownQueue_isSome : (h.ownQueue c).isSome = h.queues.any (fun q => q.owner == c && q.held) :=
  List.findIdx?_isSome

theorem lt_of_ownQueue {i : Nat} (hi : h.ownQueue c = some i) : i < h.queues.length :=
  (List.findIdx?_eq_some_iff_getElem.1 hi).1

end TimerHub

namespace CallStage

variable {call call' : CallStage} {h h' : TimerHub} {c : Caller}

/-- A caller's step keeps the timers of its hand and of the queues, except that enabling takes
a timer in hand. A push moves its timer from the hand into the caller's own queue, which the
caller must have. -/
theorem step_moves (hs : call.step h c = some (h', call'))
    (hown : ∀ u, call = .push u → (h.ownQueue c).isSome) :
    ((∀ t, (h'.table.get t).enabled = (h.table.get t).enabled) ∧
      (∀ t, call'.hand.count t + (h'.queues.flatMap (·.timers)).count t =
        call.hand.count t + (h.queues.flatMap (·.timers)).count t)) ∨
    ∃ u, call = .claim u ∧ call' = .register u ∧ (h.table.get u).enabled = false ∧
      h'.table = h.table.markEnabled u ∧ h'.queues = h.queues := by
  cases step_turn hs with
  | claim u _ he => exact .inr ⟨u, rfl, rfl, he, rfl, rfl⟩
  | registerNew u _ _ => exact .inl ⟨fun _ => rfl, fun _ => by simp [hand]⟩
  | pushLost u hi => simp [hi] at hown
  | push u i hi _ =>
    -- the push moves the timer from the hand into the caller's queue
    refine .inl ⟨fun _ => rfl, fun t => ?_⟩
    have hc := TimerHub.count_push (u := u) (TimerHub.lt_of_ownQueue hi) t
    simp only [hand, List.count_cons, List.count_nil, beq_iff_eq] at hc ⊢
    split_ifs at hc ⊢ <;> omega
  | lower u => exact .inl ⟨fun _ => rfl, fun _ => by split <;> rfl⟩
  | cancel u => exact .inl ⟨fun _ => TimerTable.enabled_cancel, fun _ => rfl⟩
  | idle | wrongThread _ _ | enabledTwice _ _ _ | registerFound _ _ | notify _ _ =>
    exact .inl ⟨fun _ => rfl, fun _ => rfl⟩

end CallStage

/-! ## 3. The moves -/

/-- How one step changes the spots `xs` into `ys`, while the shared state goes from `h` to `h'`:
it keeps every timer's count and every enabled flag; or it enables a timer and takes it in
hand; or it keeps the enabled flags and drops one timer, which is cancelled or is a one-shot
timer whose callback started. -/
inductive SpotMove (xs ys : List Nat) (h h' : TimerHub) : Prop
  | keep : (∀ t, (h'.table.get t).enabled = (h.table.get t).enabled) →
      (∀ t, ys.count t = xs.count t) → SpotMove xs ys h h'
  | claim (u : Nat) : (h.table.get u).enabled = false → h'.table = h.table.markEnabled u →
      (∀ t, ys.count t = xs.count t + if t = u then 1 else 0) → SpotMove xs ys h h'
  | drop (u : Nat) : (∀ t, (h'.table.get t).enabled = (h.table.get t).enabled) →
      (h'.table.isCancelled u = true ∨ ((h'.table.get u).interval = none ∧ u ∈ h'.fires)) →
      (∀ t, ys.count t + (if t = u then 1 else 0) = xs.count t) → SpotMove xs ys h h'

/-- A move stays one when the same timers are added to both sides (`k`), also when both sides
are compared after adding the same timers (`a`). -/
theorem SpotMove.shift {xs ys xs' ys' : List Nat} {h h' : TimerHub} (a k : Nat → Nat)
    (hx : ∀ t, xs'.count t + a t = xs.count t + k t) (hy : ∀ t, ys'.count t + a t = ys.count t + k t) :
    SpotMove xs ys h h' → SpotMove xs' ys' h h'
  | .keep he hc => .keep he fun t => by have := hx t; have := hy t; have := hc t; omega
  | .claim u he ht hc => .claim u he ht fun t => by have := hx t; have := hy t; have := hc t; omega
  | .drop u he hr hc => .drop u he hr fun t => by have := hx t; have := hy t; have := hc t; omega

namespace TimerLoop

variable {l l' : TimerLoop} {h h' : TimerHub} {cb : Nat → Nat → List TimerOp}

theorem count_spots (l : TimerLoop) (h : TimerHub) (t : Nat) :
    (l.spots h).count t = l.hand.count t + (h.queues.flatMap (·.timers)).count t +
      (l.heap.map Pending.timer).count t + l.heldTimers.count t := by
  simp only [spots, List.count_append]

/-- The timer thread's step moves the timers it sees, provided it has a queue of its own when
its callback pushes, and the timer whose callback runs was counted as fired. -/
theorem step_moves (hs : l.step h cb = some (h', l'))
    (hown : ∀ u, l.callStage = some (.push u) → (h.ownQueue .timer).isSome)
    (hfired : ∀ now p ops call, l.stage = .callback now p ops call → p.timer ∈ h.fires) :
    SpotMove (l.spots h) (l'.spots h') h h' := by
  cases hq : l.stage.quiet
  case true =>
    obtain ⟨ht, hqs, -, hh, hl, hl', hc, hc'⟩ := step_quiet hq hs
    exact .keep (fun t => by rw [ht]) fun t => by
      simp [count_spots, hand, heldTimers, hqs, hh, hl, hl', hc, hc']
  cases step_touches hs hq with
  | takeNil i hst _ =>
    exact .keep (fun _ => rfl) fun t => by simp [count_spots, hand, heldTimers, callStage, held, hst]
  | takeCancelled i u rest hst hqi hc =>
    refine .drop u (fun _ => rfl) (.inl hc) fun t => ?_
    have := TimerHub.count_take hqi t
    simp only [count_spots]
    omega
  | takeLive i u rest hst hqi hc =>
    refine .keep (fun _ => rfl) fun t => ?_
    have hq := TimerHub.count_take hqi t
    have hin := Pending.count_insert (t := t) ⟨(h.table.get u).expiresAt, l.seq + 1, u⟩ l.heap
    simp only [count_spots, hand, heldTimers, callStage, held, hst]
    by_cases htu : t = u
    · subst htu
      simp only [if_true] at hq hin ⊢
      omega
    · simp only [htu, Ne.symm htu, if_false] at hq hin ⊢
      omega
  | retain hst =>
    refine .keep (fun _ => rfl) fun t => ?_
    have hq : (h.queues.filter (fun q => q.held || !q.timers.isEmpty)).flatMap (·.timers) =
        h.queues.flatMap (·.timers) :=
      flatMap_filter_of_nil fun q hq => by
        simp only [Bool.or_eq_false_iff, Bool.not_eq_false', List.isEmpty_iff] at hq
        exact hq.2
    simp [count_spots, hand, heldTimers, callStage, held, hst, hq]
  | popNone now hst _ =>
    exact .keep (fun _ => rfl) fun t => by simp [count_spots, hand, heldTimers, callStage, held, hst]
  | popCancelled now p rest hst hh _ hc =>
    refine .drop p.timer (fun _ => rfl) (.inl hc) fun t => ?_
    simp only [count_spots, hand, heldTimers, callStage, held, hst, hh, List.map_cons, List.count_cons,
      beq_iff_eq, Option.map_none, Option.getD_none, Option.toList_none, List.count_nil]
    split_ifs <;> omega
  | popLive now p rest hst hh _ _ =>
    refine .keep (fun _ => rfl) fun t => ?_
    simp only [count_spots, hand, heldTimers, callStage, held, hst, hh, List.map_cons, List.count_cons,
      beq_iff_eq, Option.map_none, Option.map_some, Option.getD_none, Option.toList_none, Option.toList_some,
      List.count_nil]
    split_ifs <;> omega
  | fire now p hst =>
    exact .keep (fun _ => rfl) fun t => by simp [count_spots, hand, heldTimers, callStage, held, hst, CallStage.hand]
  | callbackBegin now p op ops hst =>
    exact .keep (fun _ => rfl) fun t => by simp [count_spots, hand, heldTimers, callStage, held, hst]
  | callbackEnd now p hst =>
    -- the callback is over: a periodic timer stays held for its recheck, a one-shot one goes
    cases hi : (h.table.get p.timer).interval with
    | some i =>
      exact .keep (fun _ => rfl) fun t => by
        simp [count_spots, hand, heldTimers, held_afterCallback, callStage_afterCallback, hi]
        simp [callStage, held, hst]
    | none =>
      refine .drop p.timer (fun _ => rfl) (.inr ⟨hi, hfired now p [] .idle hst⟩) fun t => ?_
      simp only [count_spots, hand, heldTimers, held_afterCallback, callStage_afterCallback, hi]
      simp only [callStage, held, hst, Option.map_some, Option.map_none, Option.getD_some, Option.getD_none,
        Option.toList_some, Option.toList_none, CallStage.hand_idle, List.count_cons, List.count_nil, beq_iff_eq]
      split_ifs <;> omega
  | callbackCall now p ops call call' h'' hst _ hcs =>
    have hown' : ∀ u, call = .push u → (h.ownQueue .timer).isSome := fun u hu =>
      hown u (by simp [callStage, hst, hu])
    rcases CallStage.step_moves hcs hown' with ⟨he, hc⟩ | ⟨u, rfl, rfl, hen, ht, hq⟩
    · refine .keep he fun t => ?_
      have := hc t
      simp only [count_spots, hand, heldTimers, callStage, held, hst, Option.map_some, Option.getD_some]
      omega
    · refine .claim u hen ht fun t => ?_
      simp only [count_spots, hand, heldTimers, callStage, held, hst, hq, Option.map_some, Option.getD_some,
        CallStage.hand, List.count_cons, List.count_nil]
      by_cases htu : t = u
      · subst htu
        simp
        omega
      · simp [htu, Ne.symm htu]
  | recheckCancelled now p i hst hc =>
    refine .drop p.timer (fun _ => rfl) (.inl hc) fun t => ?_
    simp only [count_spots, hand, heldTimers, callStage, held, hst, Option.map_some, Option.map_none,
      Option.getD_none, Option.toList_some, Option.toList_none, List.count_cons, List.count_nil, beq_iff_eq]
    split_ifs <;> omega
  | recheckLive now p i hst _ _ | recheckOverflow now p i hst _ _ =>
    refine .keep (fun _ => rfl) fun t => ?_
    have hin := Pending.count_insert (t := t) { p with expiresAt := p.expiresAt + i } l.heap
    simp only [count_spots, hand, heldTimers, callStage, held, hst, hin, Option.map_some, Option.map_none,
      Option.getD_none, Option.toList_some, Option.toList_none, List.count_cons, List.count_nil, beq_iff_eq]
    split_ifs <;> omega

end TimerLoop

/-! ## 4. The shape of a world -/

namespace TimerHub

variable {h h' : TimerHub} {acc : TimerAccess} {a : TimerAnswer} {c : Caller}

/-- A thread keeps its queue over every access but its own exit. -/
theorem access_ownQueue (hs : h.access acc = some (h', a)) (hex : ∀ p, acc = .exit p → c ≠ .producer p)
    (hc : (h.ownQueue c).isSome) : (h'.ownQueue c).isSome := by
  rw [ownQueue_isSome] at hc ⊢
  cases acc <;> simp only [access] at hs <;> (try split_ifs at hs) <;> (try split at hs) <;>
    (try split_ifs at hs) <;> simp only [Option.some.injEq, Prod.mk.injEq] at hs <;> obtain ⟨rfl, -⟩ := hs
  -- most accesses leave the queues alone, or only add a queue or change the timers of one
  any_goals dsimp only
  any_goals first
    | exact hc
    | (simp only [List.any_append]; exact Bool.or_eq_true_iff.2 (.inl hc))
    | (rw [any_modify_of]; exacts [hc, fun _ => rfl])
  case retain =>
    obtain ⟨q, hq, hqc⟩ := List.any_eq_true.1 hc
    refine List.any_eq_true.2 ⟨q, List.mem_filter.2 ⟨hq, ?_⟩, hqc⟩
    simp only [Bool.and_eq_true] at hqc
    simp [hqc.2]
  case exit p =>
    obtain ⟨q, hq, hqc⟩ := List.any_eq_true.1 hc
    refine List.any_eq_true.2 ⟨_, List.mem_map_of_mem hq, ?_⟩
    have hne : q.owner ≠ .producer p := by
      simp only [Bool.and_eq_true, beq_iff_eq] at hqc
      rw [hqc.1]
      exact hex p rfl
    simpa [hne] using hqc

end TimerHub

theorem CallStage.access_ne_exit (call : CallStage) (c : Caller) (table : TimerTable) (p : Nat) :
    call.access c table ≠ .exit p := by
  cases call <;> simp [CallStage.access]

theorem TimerLoop.access_ne_exit {l : TimerLoop} {table : TimerTable} {acc : TimerAccess}
    (ha : l.access table = some acc) (p : Nat) : acc ≠ .exit p := by
  unfold TimerLoop.access at ha
  split at ha <;> (try split at ha) <;> (try split_ifs at ha) <;> cases ha <;> simp [CallStage.access_ne_exit]

namespace CallStage

variable {call call' : CallStage} {h h' : TimerHub} {c : Caller}

theorem step_ownQueue (hs : call.step h c = some (h', call')) {c' : Caller} (hc : (h.ownQueue c').isSome) :
    (h'.ownQueue c').isSome := by
  obtain ⟨a, ha⟩ := step_access hs
  exact TimerHub.access_ownQueue ha (fun p he => absurd he (access_ne_exit call c h.table p)) hc

/-- A thread about to push found or made its queue in the step before. -/
theorem ownQueue_of_step_push {u : Nat} (hs : call.step h c = some (h', .push u)) : (h'.ownQueue c).isSome := by
  have ht := step_turn hs
  generalize hcu : CallStage.push u = call'' at ht
  cases ht with
  | registerFound _ ho => exact ho
  | registerNew _ _ _ => simp [TimerHub.ownQueue_isSome]
  | lower t => split at hcu <;> cases hcu
  | idle | wrongThread _ _ | enabledTwice _ _ _ | claim _ _ _ | pushLost _ _ | push _ _ _ _ | notify _ _
  | cancel _ => cases hcu

end CallStage

namespace TimerLoop

variable {l l' : TimerLoop} {h h' : TimerHub} {cb : Nat → Nat → List TimerOp}

theorem step_ownQueue (hs : l.step h cb = some (h', l')) {c : Caller} (hc : (h.ownQueue c).isSome) :
    (h'.ownQueue c).isSome := by
  obtain ⟨acc, hacc, hs⟩ := Option.bind_eq_some_iff.1 hs
  obtain ⟨⟨h'', a⟩, hh, he⟩ := Option.map_eq_some_iff.1 hs
  obtain ⟨rfl, -⟩ := Prod.mk.inj he
  exact TimerHub.access_ownQueue hh (fun p he => absurd he (access_ne_exit hacc p)) hc

/-- The callback of the timer thread, about to push, has a queue of its own. -/
theorem step_own (hs : l.step h cb = some (h', l')) {u : Nat} (hu : l'.callStage = some (.push u)) :
    (h'.ownQueue .timer).isSome := by
  cases hq : l.stage.quiet
  case true =>
    obtain ⟨-, -, -, -, -, -, -, hc'⟩ := step_quiet hq hs
    simp [hc'] at hu
  cases step_touches hs hq with
  | callbackBegin now p op ops hst =>
    simp only [callStage, Option.some.injEq] at hu
    cases op <;> simp [CallStage.begin] at hu
  | callbackCall now p ops call call' h'' hst _ hcs =>
    simp only [callStage, Option.some.injEq] at hu
    subst hu
    exact CallStage.ownQueue_of_step_push hcs
  | callbackEnd now p hst => simp at hu
  | takeCancelled i u rest hst _ _ => simp [callStage, hst] at hu
  | takeLive i u rest hst _ _ => simp [callStage, hst] at hu
  | _ => simp [callStage] at hu

/-- The timer whose callback runs was counted as fired. -/
theorem step_fired (hs : l.step h cb = some (h', l'))
    (hfired : ∀ now p ops call, l.stage = .callback now p ops call → p.timer ∈ h.fires) :
    ∀ now p ops call, l'.stage = .callback now p ops call → p.timer ∈ h'.fires := by
  intro now p ops call hst'
  cases hq : l.stage.quiet
  case true =>
    obtain ⟨-, -, -, -, -, -, -, hc'⟩ := step_quiet hq hs
    simp [callStage, hst'] at hc'
  cases step_touches hs hq with
  | fire now' p' hst =>
    simp only [LoopStage.callback.injEq] at hst'
    obtain ⟨rfl, rfl, -, -⟩ := hst'
    simp
  | callbackBegin now' p' op ops' hst =>
    simp only [LoopStage.callback.injEq] at hst'
    obtain ⟨rfl, rfl, -, -⟩ := hst'
    exact hfired _ _ _ _ hst
  | callbackCall now' p' ops' call₀ call' h'' hst _ hcs =>
    simp only [LoopStage.callback.injEq] at hst'
    obtain ⟨rfl, rfl, -, -⟩ := hst'
    rw [(CallStage.step_frame hcs).1]
    exact hfired _ _ _ _ hst
  | callbackEnd now' p' hst =>
    revert hst'
    unfold afterCallback
    split <;> simp
  | takeCancelled i u rest hst _ _ => simp [hst] at hst'
  | takeLive i u rest hst _ _ => simp [hst] at hst'
  | _ => simp at hst'

/-- A firing is counted only for the timer the timer thread holds. -/
theorem mem_fires_step (hs : l.step h cb = some (h', l')) {t : Nat} (ht : t ∈ h'.fires) :
    t ∈ h.fires ∨ t ∈ l.heldTimers := by
  cases hq : l.stage.quiet
  case true =>
    obtain ⟨-, -, hf, -⟩ := step_quiet hq hs
    exact .inl (hf ▸ ht)
  cases step_touches hs hq with
  | fire now p hst =>
    simp only [List.mem_append, List.mem_singleton] at ht
    rcases ht with ht | rfl
    · exact .inl ht
    · exact .inr (by simp [heldTimers, held, hst])
  | callbackCall now p ops call call' h'' hst _ hcs =>
    exact .inl ((CallStage.step_frame hcs).1 ▸ ht)
  | _ => exact .inl ht

end TimerLoop

namespace TimerProducer

variable {x x' : TimerProducer} {h h' : TimerHub} {p : Nat}

/-- A producer's step moves the timers of its hand and of the queues, provided it has a queue of
its own when it pushes. -/
theorem step_moves (hs : x.step h p = some (h', x'))
    (hown : ∀ u, x.call = .push u → (h.ownQueue (.producer p)).isSome) :
    SpotMove (x.call.hand ++ h.queues.flatMap (·.timers)) (x'.call.hand ++ h'.queues.flatMap (·.timers)) h h' := by
  rcases (step_cases hs).2 with ⟨op, rest, hc, -, rfl, rfl⟩ | ⟨hc, -, rfl, rfl⟩ | ⟨-, hcs, -⟩
  · exact .keep (fun _ => rfl) fun t => by simp [hc]
  · -- exiting gives up the queues but keeps their timers
    have hq : (h.queues.map (fun q => if q.owner = .producer p then { q with held := false } else q)).flatMap
        (·.timers) = h.queues.flatMap (·.timers) := by
      simp only [List.flatMap_map]
      congr 1
      funext q
      split <;> rfl
    exact .keep (fun _ => rfl) fun t => by simp [hq]
  · rcases CallStage.step_moves hcs hown with ⟨he, hc⟩ | ⟨u, hcu, hu, hen, ht, hq⟩
    · exact .keep he fun t => by simpa [List.count_append] using hc t
    · refine .claim u hen ht fun t => ?_
      simp only [List.count_append, hcu, hu, hq, CallStage.hand, List.count_cons, List.count_nil, beq_iff_eq]
      split_ifs <;> omega

theorem step_own (hs : x.step h p = some (h', x')) {u : Nat} (hu : x'.call = .push u) :
    (h'.ownQueue (.producer p)).isSome := by
  rcases (step_cases hs).2 with ⟨op, rest, -, -, -, rfl⟩ | ⟨hc, -, -, rfl⟩ | ⟨-, hcs, -⟩
  · cases op <;> simp [CallStage.begin] at hu
  · simp [hc] at hu
  · exact CallStage.ownQueue_of_step_push (hu ▸ hcs)

/-- The other threads keep their queues over a producer's step. -/
theorem step_ownQueue (hs : x.step h p = some (h', x')) {c : Caller} (hne : c ≠ .producer p)
    (hc : (h.ownQueue c).isSome) : (h'.ownQueue c).isSome := by
  rcases (step_cases hs).2 with ⟨-, -, -, -, rfl, -⟩ | ⟨-, -, rfl, -⟩ | ⟨-, hcs, -⟩
  · exact hc
  · exact TimerHub.access_ownQueue (show h.access (.exit p) = some (_, {}) from rfl)
      (fun q he => by cases he; exact hne) hc
  · exact CallStage.step_ownQueue hcs hc

end TimerProducer

/-! ## 5. The worlds -/

namespace TimerWorld

variable {s s' : TimerWorld}

/-- Two facts about the threads' progress that the moves rest on. -/
structure Shape (s : TimerWorld) : Prop where
  /-- A thread about to push has a queue of its own. -/
  own : ∀ c u, s.callOf c = some (.push u) → (s.hub.ownQueue c).isSome
  /-- The timer whose callback runs was counted as fired. -/
  fired : ∀ now p ops call, s.loop.stage = .callback now p ops call → p.timer ∈ s.hub.fires

theorem shape_start (id : Nat) (timers : List (Nat × Nat × Option Nat)) (programs : List (List TimerOp))
    (callbacks : Nat → Nat → List TimerOp) : (start id timers programs callbacks).Shape where
  own c u hc := by
    cases c <;> simp [callOf, start, TimerLoop.callStage] at hc
  fired now p ops call hst := by
    simp [start] at hst

theorem Shape.next (hs : s.Shape) (party : TimerParty) : (s.next party).Shape := by
  rcases next_cases s party with h | h
  · rwa [h]
  generalize s.next party = s' at h ⊢
  cases party with
  | producer p =>
    obtain ⟨-, x, x', hx, hxs, he⟩ := step_producer h
    rw [he]
    refine ⟨fun c u hcu => ?_, fun now q ops call hst => ?_⟩
    · rw [callOf_setProducer hx] at hcu
      split_ifs at hcu with hcp
      · subst hcp
        exact TimerProducer.step_own hxs (Option.some.inj hcu)
      · exact TimerProducer.step_ownQueue hxs hcp (hs.own c u hcu)
    · rw [TimerProducer.step_fires hxs]
      exact hs.fired now q ops call hst
  | timer =>
    obtain ⟨-, hl, he⟩ := step_timer h
    rw [he]
    refine ⟨fun c u hcu => ?_, TimerLoop.step_fired hl hs.fired⟩
    rw [callOf_setLoop] at hcu
    split_ifs at hcu with hct
    · subst hct
      exact TimerLoop.step_own hl hcu
    · exact TimerLoop.step_ownQueue hl (hs.own c u hcu)
  | stopper =>
    obtain ⟨-, ⟨-, he⟩ | ⟨-, -, he⟩⟩ := step_stopper h <;> rw [he] <;> exact ⟨hs.own, hs.fired⟩
  | clock =>
    obtain ⟨-, he⟩ := step_clock h
    rw [he]
    exact ⟨hs.own, hs.fired⟩

/-- Every turn of a world of the right shape moves its timers. -/
theorem Shape.moves (hs : s.Shape) (party : TimerParty) : SpotMove s.spots (s.next party).spots s.hub (s.next party).hub := by
  rcases next_cases s party with h | h
  · rw [h]
    exact .keep (fun _ => rfl) fun _ => rfl
  generalize s.next party = s' at h ⊢
  cases party with
  | producer p =>
    obtain ⟨-, x, x', hx, hxs, he⟩ := step_producer h
    have hown : ∀ u, x.call = .push u → (s.hub.ownQueue (.producer p)).isSome := fun u hu =>
      hs.own _ u (by simp [callOf, hx, hu])
    -- the producer's hand and the queues move; the other hands and the timer thread stay
    refine (TimerProducer.step_moves hxs hown).shift (fun t => x.call.hand.count t)
      (fun t => (s.producers.flatMap (·.call.hand)).count t + s.loop.hand.count t +
        (s.loop.heap.map Pending.timer).count t + s.loop.heldTimers.count t) (fun t => ?_) (fun t => ?_)
    · simp only [count_spots, TimerLoop.count_spots, List.count_append]
      omega
    · have hset := count_flatMap_set (·.call.hand) t (y := x') hx
      rw [he]
      simp only [count_spots, TimerLoop.count_spots, List.count_append] at hset ⊢
      omega
  | timer =>
    obtain ⟨-, hl, he⟩ := step_timer h
    have hown : ∀ u, s.loop.callStage = some (.push u) → (s.hub.ownQueue .timer).isSome := fun u hu =>
      hs.own .timer u hu
    refine (TimerLoop.step_moves hl hown hs.fired).shift (fun _ => 0)
      (fun t => (s.producers.flatMap (·.call.hand)).count t) (fun t => ?_) (fun t => ?_)
    · simp only [count_spots]
      omega
    · rw [he]
      simp only [count_spots]
      omega
  | stopper =>
    obtain ⟨-, ⟨-, he⟩ | ⟨-, -, he⟩⟩ := step_stopper h <;> rw [he] <;> exact .keep (fun _ => rfl) fun _ => rfl
  | clock =>
    obtain ⟨-, he⟩ := step_clock h
    rw [he]
    exact .keep (fun _ => rfl) fun _ => rfl

/-- A turn counts a firing only of a timer in a spot. -/
theorem mem_fires_next (party : TimerParty) {t : Nat} (ht : t ∈ (s.next party).hub.fires) :
    t ∈ s.hub.fires ∨ t ∈ s.spots := by
  rcases next_cases s party with h | h
  · rw [h] at ht
    exact .inl ht
  generalize s.next party = s' at h ht
  cases party with
  | producer p =>
    obtain ⟨-, x, x', -, hxs, he⟩ := step_producer h
    rw [he, TimerProducer.step_fires hxs] at ht
    exact .inl ht
  | timer =>
    obtain ⟨-, hl, he⟩ := step_timer h
    rw [he] at ht
    rcases TimerLoop.mem_fires_step hl ht with ht | ht
    · exact .inl ht
    · exact .inr (by simp [spots, TimerLoop.spots, ht])
  | stopper =>
    obtain ⟨-, ⟨-, he⟩ | ⟨-, -, he⟩⟩ := step_stopper h <;> rw [he] at ht <;> exact .inl ht
  | clock =>
    obtain ⟨-, he⟩ := step_clock h
    rw [he] at ht
    exact .inl ht

end TimerWorld

/-! ## 6. Where the timers of a reachable world are -/

namespace TimerWorld

variable {s : TimerWorld}

/-- Where the timers of a reachable world are. Timers that were never created (numbers past
the table) are left out: no operation can name them. -/
structure Sound (s : TimerWorld) : Prop where
  shape : s.Shape
  /-- A timer in a spot, or that fired, was enabled. -/
  enabled : ∀ t < s.hub.table.entries.length, t ∈ s.spots ∨ t ∈ s.hub.fires → (s.hub.table.get t).enabled = true
  /-- No timer is in two spots. -/
  single : ∀ t < s.hub.table.entries.length, s.spots.count t ≤ 1
  /-- An enabled timer is in a spot, cancelled, or a one-shot timer whose callback started. -/
  placed : ∀ t, (s.hub.table.get t).enabled = true →
    t ∈ s.spots ∨ s.hub.table.isCancelled t = true ∨ ((s.hub.table.get t).interval = none ∧ t ∈ s.hub.fires)

theorem sound_start (id : Nat) (timers : List (Nat × Nat × Option Nat)) (programs : List (List TimerOp))
    (callbacks : Nat → Nat → List TimerOp) : (start id timers programs callbacks).Sound := by
  have hspots : (start id timers programs callbacks).spots = [] := by
    simp [spots, start, TimerLoop.spots, TimerLoop.hand, TimerLoop.heldTimers, TimerLoop.callStage,
      TimerLoop.held, List.flatMap_map]
  have hoff : ∀ t, ((start id timers programs callbacks).hub.table.get t).enabled = false := by
    intro t
    simp only [start, TimerTable.get, List.getD_eq_getElem?_getD, List.getElem?_map]
    cases timers[t]? <;> rfl
  refine ⟨shape_start id timers programs callbacks, fun t _ ht => ?_, fun t _ => ?_, fun t ht => ?_⟩
  · rw [hspots] at ht
    simp [start] at ht
  · simp [hspots]
  · simp [hoff] at ht

variable (party : TimerParty)

theorem Sound.enabled_next (hs : s.Sound) : ∀ t < (s.next party).hub.table.entries.length,
    t ∈ (s.next party).spots ∨ t ∈ (s.next party).hub.fires → ((s.next party).hub.table.get t).enabled = true := by
  intro t ht hmem
  have ht₀ : t < s.hub.table.entries.length := length_next party ▸ ht
  -- a timer in a spot after the turn was in one before, or is the one the turn enabled
  have hfire : t ∈ (s.next party).hub.fires → t ∈ s.spots ∨ t ∈ s.hub.fires := fun hf =>
    (mem_fires_next party hf).symm
  cases hs.shape.moves party with
  | keep he hc =>
    rw [he]
    refine hs.enabled t ht₀ (hmem.elim (fun hm => .inl ?_) fun hf => hfire hf)
    rw [← List.count_pos_iff, ← hc]
    exact List.count_pos_iff.2 hm
  | claim u _ htab hc =>
    rw [htab, TimerTable.enabled_markEnabled]
    by_cases htu : t = u
    · subst htu
      simp [ht₀]
    · refine Bool.or_eq_true_iff.2 (.inl (hs.enabled t ht₀ (hmem.elim (fun hm => .inl ?_) fun hf => ?_)))
      · rw [← List.count_pos_iff]
        have := hc t
        have := List.count_pos_iff.2 hm
        simp only [htu, if_false] at *
        omega
      · exact hfire hf
  | drop u he _ hc =>
    rw [he]
    refine hs.enabled t ht₀ (hmem.elim (fun hm => .inl ?_) fun hf => hfire hf)
    rw [← List.count_pos_iff]
    have := hc t
    have := List.count_pos_iff.2 hm
    omega

theorem Sound.single_next (hs : s.Sound) : ∀ t < (s.next party).hub.table.entries.length,
    (s.next party).spots.count t ≤ 1 := by
  intro t ht
  have ht₀ : t < s.hub.table.entries.length := length_next party ▸ ht
  cases hs.shape.moves party with
  | keep _ hc => rw [hc]; exact hs.single t ht₀
  | claim u hen _ hc =>
    rw [hc]
    by_cases htu : t = u
    · -- the timer enabled now was in no spot, for a timer in a spot was enabled before
      subst htu
      have hnot : t ∉ s.spots := fun hm => by
        rw [hs.enabled t ht₀ (.inl hm)] at hen
        exact Bool.noConfusion hen
      simp [List.count_eq_zero.2 hnot]
    · simpa [htu] using hs.single t ht₀
  | drop u _ _ hc =>
    have := hc t
    have := hs.single t ht₀
    omega

theorem Sound.placed_next (hs : s.Sound) : ∀ t, ((s.next party).hub.table.get t).enabled = true →
    t ∈ (s.next party).spots ∨ (s.next party).hub.table.isCancelled t = true ∨
      (((s.next party).hub.table.get t).interval = none ∧ t ∈ (s.next party).hub.fires) := by
  intro t ht
  have hint := interval_next party (s := s) (t := t)
  have hfires := fires_next party (s := s)
  -- a timer placed before stays placed, unless the turn moves it out of the spots
  have hkeep : (s.hub.table.get t).enabled = true → t ∉ (s.next party).spots →
      (s.next party).hub.table.isCancelled t = true ∨
        (((s.next party).hub.table.get t).interval = none ∧ t ∈ (s.next party).hub.fires) ∨ t ∈ s.spots := by
    intro he _
    rcases hs.placed t he with hm | hc | ⟨hi, hf⟩
    · exact .inr (.inr hm)
    · exact .inl (isCancelled_next party hc)
    · exact .inr (.inl ⟨hint ▸ hi, hfires.subset hf⟩)
  by_cases hm : t ∈ (s.next party).spots
  · exact .inl hm
  refine .inr ?_
  cases hs.shape.moves party with
  | keep he hc =>
    rcases hkeep (he t ▸ ht) hm with h | h | h
    · exact .inl h
    · exact .inr h
    · rw [← List.count_pos_iff, ← hc, List.count_pos_iff] at h
      exact absurd h hm
  | claim u _ htab hc =>
    have htu : t ≠ u := fun htu => hm (List.count_pos_iff.1 (by rw [hc, htu]; simp))
    have he : (s.hub.table.get t).enabled = true := by
      rw [htab, TimerTable.enabled_markEnabled] at ht
      simpa [Ne.symm htu] using ht
    rcases hkeep he hm with h | h | h
    · exact .inl h
    · exact .inr h
    · rw [← List.count_pos_iff] at h
      have := hc t
      simp only [htu, if_false] at this
      exact absurd (List.count_pos_iff.1 (by omega)) hm
  | drop u he hr hc =>
    rcases hkeep (he t ▸ ht) hm with h | h | h
    · exact .inl h
    · exact .inr h
    · -- the timer dropped from its spot: the move says why
      by_cases htu : t = u
      · subst htu
        exact hr
      · rw [← List.count_pos_iff] at h
        have := hc t
        simp only [htu, if_false] at this
        exact absurd (List.count_pos_iff.1 (by omega)) hm

theorem Sound.next (hs : s.Sound) : (s.next party).Sound :=
  ⟨hs.shape.next party, hs.enabled_next party, hs.single_next party, hs.placed_next party⟩

/-- Every reachable world is sound. -/
theorem Reachable.sound (hr : s.Reachable) : s.Sound := by
  induction hr with
  | start id timers programs callbacks => exact sound_start id timers programs callbacks
  | next party _ ih => exact ih.next party

end TimerWorld

end Fibers
