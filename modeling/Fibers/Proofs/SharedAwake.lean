import Mathlib
import Fibers.Proofs.ParkingShared
/-!
# A group on one run queue never falls asleep with work queued

A worker that finds no work sets its parked bit, pops the run queue once more, reads the
stop flag and waits on its slot. A producer that pushed reads the spinner count and, with no
spinner about, clears the lowest parked bit and counts a wake on that worker's slot.

Not every push's wake reaches a worker that then takes the work: a spinner's count holds
back wakes that the spinner may not honour, and a parked worker woken for one entity does
not pass the wake on when more is queued, so a queued entity may wait behind a busy worker
while a peer sleeps. What does hold, in every state any schedule reaches before the stop, is
that the group as a whole never falls asleep with work queued: once no producer is inside a
call, some worker can take its next step (`ShareWorld.some_worker_moves`).

Two invariants carry it (`ShareWorld.Awake`).

* *Covered*: a worker between setting its bit and waiting whose bit was cleared has a wake
  on its slot, or a party about to count one there. Only a wake clears another worker's bit,
  and it counts the wake next.
* *Roused*: while work is queued, some worker is not *dormant* (parked with its bit set,
  its last pop empty, no wake to take), or some producer has still to look for a worker to
  wake. A worker becomes dormant only from a pop that found the queue empty; a producer that
  pushed looks next; and its look ends with a spinner about (not dormant), with a cleared
  bit (whose worker is not dormant), or with no bit set at all (so nobody is dormant).
-/

namespace Fibers

/-! ## 1. Parked bits and wakes -/

namespace ShareHub

variable {h h' : ShareHub} {acc : ShareAccess} {a : Answer} {w : Nat}

/-- Worker `w`'s parked bit. -/
def bit (h : ShareHub) (w : Nat) : Bool := h.parked.getD w false

/-- The wakes waiting on worker `w`'s slot. -/
def wakes (h : ShareHub) (w : Nat) : Nat := (h.slots.getD w {}).wakeups

theorem foldl_clear_getD (ws : List Nat) (l : List Bool) (u : Nat) :
    (ws.foldl (fun parked w => parked.set w false) l).getD u false =
      (!ws.contains u && l.getD u false) := by
  induction ws generalizing l with
  | nil => simp
  | cons w ws ih =>
    simp only [List.foldl_cons, ih, List.contains_cons, List.getD_eq_getElem?_getD,
      List.getElem?_set]
    by_cases huw : u = w
    · subst huw
      split_ifs <;> simp_all
    · have hne : (u == w) = false := by simpa using huw
      simp [hne, Ne.symm huw]

theorem foldl_clear_length (ws : List Nat) (l : List Bool) :
    (ws.foldl (fun parked w => parked.set w false) l).length = l.length := by
  induction ws generalizing l with
  | nil => rfl
  | cons w ws ih => simp [ih]

@[simp] theorem bit_clearParked (ws : List Nat) (u : Nat) :
    (h.clearParked ws).bit u = (!ws.contains u && h.bit u) :=
  foldl_clear_getD ws h.parked u

@[simp] theorem clearParked_parked_length (ws : List Nat) :
    (h.clearParked ws).parked.length = h.parked.length :=
  foldl_clear_length ws h.parked

@[simp] theorem clearParked_slots (ws : List Nat) : (h.clearParked ws).slots = h.slots := rfl

@[simp] theorem clearParked_queue (ws : List Nat) : (h.clearParked ws).queue = h.queue := rfl

theorem mem_parkedWorkers {u : Nat} : u ∈ h.parkedWorkers ↔ h.bit u = true := by
  simp only [parkedWorkers, bit, List.mem_filter, List.mem_range, List.getD_eq_getElem?_getD]
  constructor
  · exact fun hu => hu.2
  · intro hb
    refine ⟨?_, hb⟩
    by_contra hlt
    simp [List.getElem?_eq_none (Nat.le_of_not_lt hlt)] at hb

theorem lt_of_mem_parkedWorkers {u : Nat} (hu : u ∈ h.parkedWorkers) : u < h.parked.length := by
  simp only [parkedWorkers, List.mem_filter, List.mem_range] at hu
  exact hu.1

/-- A claim with no bit set finds every bit clear. -/
theorem bit_of_parkedWorkers_nil (hn : h.parkedWorkers = []) (u : Nat) : h.bit u = false := by
  cases hb : h.bit u
  · rfl
  · have hu := mem_parkedWorkers.2 hb
    simp [hn] at hu

/-- The length of the parked mask never changes. -/
theorem access_parked_length (hs : h.access acc = some (h', a)) :
    h'.parked.length = h.parked.length := by
  cases acc <;> simp [access] at hs
  all_goals first
    | (obtain ⟨rfl, -⟩ := hs; simp)
    | (obtain ⟨_, -, rfl, -⟩ := hs; simp)
    | (split_ifs at hs <;> simp at hs <;> obtain ⟨rfl, -⟩ := hs <;> simp)

/-- A bit is set only by its own worker's store. -/
theorem access_bit_true (hs : h.access acc = some (h', a)) (hb : h'.bit w = true) :
    h.bit w = true ∨ acc = .setParked w true := by
  cases acc <;> simp [access] at hs
  case claimParked | takeParked =>
    obtain ⟨rfl, -⟩ := hs
    simp only [bit_clearParked, Bool.and_eq_true] at hb
    exact .inl hb.2
  case setParked u b =>
    obtain ⟨rfl, -⟩ := hs
    simp only [bit, List.getD_eq_getElem?_getD, List.getElem?_set] at hb ⊢
    by_cases huw : u = w
    · subst huw
      split_ifs at hb <;> simp_all
    · simp only [huw, if_false] at hb
      exact .inl hb
  all_goals first
    | (obtain ⟨rfl, -⟩ := hs; exact .inl hb)
    | (obtain ⟨_, -, rfl, -⟩ := hs; exact .inl hb)
    | (split_ifs at hs <;> simp at hs <;> obtain ⟨rfl, -⟩ := hs <;> exact .inl hb)

/-- A bit is cleared by a claim that answers its worker, by taking every bit, or by its own
worker's store. -/
theorem access_bit_false (hs : h.access acc = some (h', a)) (hb : h.bit w = true)
    (hb' : h'.bit w = false) :
    (acc = .claimParked ∧ a.woken = [w]) ∨ (acc = .takeParked ∧ w ∈ a.woken) ∨
      acc = .setParked w false := by
  have hw := mem_parkedWorkers.2 hb
  cases acc <;> simp [access] at hs
  case claimParked =>
    obtain ⟨rfl, rfl⟩ := hs
    simp only [bit_clearParked, hb, Bool.and_true, Bool.not_eq_eq_eq_not, Bool.not_false,
      List.contains_iff_mem] at hb'
    refine .inl ⟨rfl, ?_⟩
    -- the claim answers the lowest set bit, and it cleared `w`'s
    obtain ⟨v, rest, hv⟩ : ∃ v rest, h.parkedWorkers = v :: rest := by
      cases hp : h.parkedWorkers with
      | nil => simp [hp] at hw
      | cons v rest => exact ⟨v, rest, rfl⟩
    simp only [hv, List.take_succ_cons, List.take_zero, List.mem_singleton] at hb' ⊢
    rw [hb']
  case takeParked =>
    obtain ⟨rfl, rfl⟩ := hs
    exact .inr (.inl ⟨rfl, hw⟩)
  case setParked u b =>
    obtain ⟨rfl, -⟩ := hs
    simp only [bit, List.getD_eq_getElem?_getD, List.getElem?_set] at hb hb'
    by_cases huw : u = w
    · subst huw
      split_ifs at hb' <;> simp_all
    · simp_all
  all_goals first
    | (obtain ⟨rfl, -⟩ := hs; simp_all [bit])
    | (obtain ⟨_, -, rfl, -⟩ := hs; simp_all [bit])
    | (split_ifs at hs <;> simp at hs <;> obtain ⟨rfl, -⟩ := hs <;> simp_all [bit])

/-- Wakes on a slot are taken only by its worker's wait. -/
theorem access_wakes_le (hs : h.access acc = some (h', a)) (hw : ∀ t, acc ≠ .wait w t) :
    h.wakes w ≤ h'.wakes w := by
  cases acc <;> simp [access] at hs
  case wake u =>
    obtain ⟨rfl, -⟩ := hs
    simp only [wakes, List.getD_eq_getElem?_getD, List.getElem?_modify]
    cases h.slots[w]? <;> simp
    split_ifs <;> simp [WaitSlot.wake]
  case persist u =>
    obtain ⟨rfl, -⟩ := hs
    simp only [wakes, List.getD_eq_getElem?_getD, List.getElem?_modify]
    cases h.slots[w]? <;> simp
    split_ifs <;> simp [WaitSlot.persistentWake]
  case wait u t =>
    have hu : u ≠ w := fun huw => hw t (by rw [huw])
    split_ifs at hs <;> simp at hs <;> obtain ⟨rfl, -⟩ := hs
    · simp [wakes, List.getD_eq_getElem?_getD, List.getElem?_set_ne hu]
    · exact le_rfl
  all_goals first
    | (obtain ⟨rfl, -⟩ := hs; exact le_rfl)
    | (obtain ⟨_, -, rfl, -⟩ := hs; exact le_rfl)
    | (split_ifs at hs <;> simp at hs <;> obtain ⟨rfl, -⟩ := hs <;> exact le_rfl)

/-- A wake counts one on its slot. -/
theorem access_wake (hs : h.access (.wake w) = some (h', a)) (hw : w < h.slots.length) :
    h'.wakes w = h.wakes w + 1 := by
  simp only [access, Option.some.injEq, Prod.mk.injEq] at hs
  obtain ⟨rfl, -⟩ := hs
  simp [wakes, List.getD_eq_getElem?_getD, List.getElem?_eq_getElem hw, WaitSlot.wake]

/-- A worker's store sets its bit as it says. -/
theorem access_setParked_bit {b : Bool} (hs : h.access (.setParked w b) = some (h', a))
    (hw : w < h.parked.length) : h'.bit w = b := by
  simp only [access, Option.some.injEq, Prod.mk.injEq] at hs
  obtain ⟨rfl, -⟩ := hs
  simp [bit, List.getD_eq_getElem?_getD, hw]

/-- A claim leaves a bit clear: the one it cleared, or any when none was set. -/
theorem access_claim_clears (hs : h.access .claimParked = some (h', a)) (hn : 0 < h.parked.length) :
    ∃ u < h.parked.length, h'.bit u = false := by
  simp only [access, Option.some.injEq, Prod.mk.injEq] at hs
  obtain ⟨rfl, -⟩ := hs
  cases hw : h.parkedWorkers with
  | nil => exact ⟨0, hn, by simp [bit_of_parkedWorkers_nil hw]⟩
  | cons v rest => exact ⟨v, lt_of_mem_parkedWorkers (by simp [hw]), by simp⟩

/-- Taking every bit leaves every bit clear. -/
theorem access_take_clears (hs : h.access .takeParked = some (h', a)) (u : Nat) :
    h'.bit u = false := by
  simp only [access, Option.some.injEq, Prod.mk.injEq] at hs
  obtain ⟨rfl, -⟩ := hs
  cases hb : h.bit u
  · simp [hb]
  · simp [mem_parkedWorkers.2 hb]

/-- A poll that finds nothing to take finds no wake. -/
theorem wakes_of_poll (hp : (h.slots.getD w {}).poll.2 = false) : h.wakes w = 0 := by
  simp only [wakes]
  simp only [WaitSlot.poll] at hp
  split_ifs at hp with h1 h2
  omega

/-- The run queue goes from empty to holding work only by a push that went in. -/
theorem access_queue_grows (hs : h.access acc = some (h', a)) (he : h.queue.queue = [])
    (hne : h'.queue.queue ≠ []) :
    (∃ e, acc = .push e ∧ a.flag = true) ∨ ∃ e, acc = .pushForever e := by
  cases acc <;> simp [access] at hs
  case push e =>
    obtain ⟨rfl, rfl⟩ := hs
    cases hp : h.queue.push e
    · simp [hp] at hne
      exact absurd he hne
    · exact .inl ⟨e, rfl, by simp⟩
  case pushForever e => exact .inr ⟨e, rfl⟩
  case pop =>
    obtain ⟨rfl, -⟩ := hs
    simp [SharedQueue.pop, he] at hne
  case storeStopped =>
    obtain ⟨rfl, -⟩ := hs
    exact absurd he hne
  all_goals first
    | (obtain ⟨rfl, -⟩ := hs; exact absurd he hne)
    | (split_ifs at hs <;> simp at hs <;> obtain ⟨rfl, -⟩ := hs <;> exact absurd he hne)

/-- A pop that found nothing leaves the queue empty. -/
theorem access_pop_none (hs : h.access .pop = some (h', a)) (he : a.entity = none) :
    h'.queue.queue = [] := by
  simp only [access, Option.some.injEq, Prod.mk.injEq] at hs
  obtain ⟨rfl, rfl⟩ := hs
  simp only [SharedQueue.pop] at he ⊢
  split at he <;> simp_all

end ShareHub

/-! ## 2. Stages on the way to sleep, and wakes on their way -/

/-- The worker a stage of a wake counts a wake for. -/
def Rouse.target : Rouse → Option Nat
  | .slot w => some w
  | _ => none

namespace ShareStage

/-- About to read the stop flag and wait, or waiting: with its bit set, a worker here
sleeps unless woken. -/
def resting : ShareStage → Bool
  | .stopCheck | .wait => true
  | _ => false

/-- Between setting its bit and waiting. -/
def parking : ShareStage → Bool
  | .recheck | .stopCheck | .wait => true
  | _ => false

/-- About to count a wake on worker `u`'s slot, for a stall or for work behind its own. -/
def owes (g : ShareStage) (u : Nat) : Bool :=
  match g with
  | .stall _ k | .chain _ k => k.target == some u
  | _ => false

variable {g : ShareStage} {w u : Nat} {v : Bool} {acc : ShareAccess} {a : Answer}

@[simp] theorem nextPoll_ne_wait (l k : Nat) : nextPoll l k ≠ .wait := by
  cases l <;> simp [nextPoll]

@[simp] theorem nextPoll_ne_recheck (l k : Nat) : nextPoll l k ≠ .recheck := by
  cases l <;> simp [nextPoll]

theorem after_eq_wait (h : g.after a = .wait) : g = .stopCheck ∧ a.flag = false := by
  cases g <;> simp only [after] at h <;> (try split at h) <;> (try split at h) <;> simp_all

theorem after_eq_recheck (h : g.after a = .recheck) : g = .publish := by
  cases g <;> simp only [after] at h <;> (try split at h) <;> (try split at h) <;> simp_all

/-- A worker comes to rest from resting, by reading the stop flag clear, or from the pop
that found nothing. -/
theorem resting_after (h : (g.after a).resting = true) :
    (g = .stopCheck ∧ a.flag = false) ∨ (g = .recheck ∧ a.entity = none) := by
  cases hg : g.after a <;> simp [hg, resting] at h
  · exact .inr (after_eq_stopCheck hg)
  · exact .inl (after_eq_wait hg)

/-- A worker comes to park from parking, or by setting its bit. -/
theorem parking_after (h : (g.after a).parking = true) : g.parking = true ∨ g = .publish := by
  cases hg : g.after a <;> simp [hg, parking] at h
  · exact .inr (after_eq_recheck hg)
  · exact .inl (by rw [(after_eq_stopCheck hg).1]; rfl)
  · exact .inl (by rw [(after_eq_wait hg).1]; rfl)

/-- A parked worker's steps between parking stages pop the queue or read the stop flag. -/
theorem access_parking (hg : g.parking = true) (hg' : (g.after a).parking = true)
    (hacc : g.access w v = some acc) : acc = .pop ∨ acc = .loadStopped := by
  cases g <;> simp [parking] at hg <;> simp [access] at hacc <;> subst hacc
  · exact .inl rfl
  · exact .inr rfl
  · simp [after, parking] at hg'

/-- A worker stores only its own bit: it sets it to park, and clears it to go on. -/
theorem access_setParked {b : Bool} (h : g.access w v = some (.setParked u b)) :
    u = w ∧ (b = true → g = .publish) ∧ (b = false → (g.after a).parking = false) := by
  cases g <;> simp [access] at h
  all_goals first
    | (obtain ⟨rfl, rfl⟩ := h; simp [after, parking])
    | (rename_i k; cases k <;> simp [Rouse.access] at h)

/-- Only the wait stage waits, and it waits timed when the worker has foreign groups. -/
theorem eq_wait_of_access {t : Bool} (h : g.access w v = some (.wait u t)) :
    g = .wait ∧ t = v := by
  cases g <;> simp [access] at h
  case wait => exact ⟨rfl, h.2.symm⟩
  all_goals cases ‹Rouse› <;> simp [Rouse.access] at h

/-- A wake on its way is counted at the worker's next step. -/
theorem access_of_owes (h : g.owes u = true) : g.access w v = some (.wake u) := by
  cases g <;> simp [owes] at h
  all_goals
    rename_i k
    cases k <;> simp [Rouse.target] at h
    subst h
    rfl

/-- A claim that answered worker `u` leaves the claimer owing it a wake. -/
theorem owes_after_claim (hacc : g.access w v = some .claimParked) (hu : a.woken = [u]) :
    (g.after a).owes u = true := by
  cases g <;> simp [access] at hacc
  all_goals
    rename_i k
    cases k <;> simp [Rouse.access] at hacc
    simp [after, Rouse.after, hu, owes, Rouse.target]

/-- A counted worker is not resting. -/
theorem resting_of_counted (h : g.counted = true) : g.resting = false := by
  cases g <;> simp_all [counted, spinning, resting]

end ShareStage

namespace ShareFeed

/-- The call has pushed and has yet to look for a worker to wake. -/
def rousing : ShareFeed → Bool
  | .batch _ (_ + 1) | .rouse .look _ | .rouse .claim _ | .rouseAll => true
  | _ => false

/-- About to count a wake on worker `u`'s slot. -/
def owes (f : ShareFeed) (u : Nat) : Bool :=
  match f with
  | .rouse k _ => k.target == some u
  | .wakeEach ws => ws.contains u
  | _ => false

variable {f : ShareFeed} {size u : Nat} {a : Answer}

theorem wakeWorkers_succ_rousing (size n : Nat) : (wakeWorkers size (n + 1)).rousing = true := by
  unfold wakeWorkers
  split_ifs <;> rfl

/-- A push that went in leaves the call about to rouse a worker. -/
theorem rousing_after_push {e : Entity} (hacc : f.access = .push e) (ha : a.flag = true) :
    (f.after size a).rousing = true := by
  cases f <;> (try cases ‹List _›) <;> (try cases ‹Rouse›) <;>
    simp [access, Rouse.access] at hacc
  · simp [after, ha, rousing]
  · simp [after, ha, rousing]

theorem rousing_after_pushForever {e : Entity} (hacc : f.access = .pushForever e) :
    (f.after size a).rousing = true := by
  cases f <;> (try cases ‹List _›) <;> (try cases ‹Rouse›) <;>
    simp [access, Rouse.access] at hacc
  simp [after, rousing]

/-- A rousing call stays rousing, unless its look found a spinner about, or it claimed a bit,
or it took every bit. -/
theorem rousing_after (size : Nat) (a : Answer) (hf : f.rousing = true) :
    (f.after size a).rousing = true ∨ (f.access = .loadSpinning ∧ a.count ≠ 0) ∨
      f.access = .claimParked ∨ f.access = .takeParked := by
  cases f with
  | batch es pushed =>
    cases pushed with
    | zero => simp [rousing] at hf
    | succ n =>
      left
      cases es with
      | nil => exact wakeWorkers_succ_rousing size n
      | cons e rest =>
        simp only [after]
        split_ifs
        · rfl
        · exact wakeWorkers_succ_rousing size n
  | rouse k more =>
    cases k with
    | look =>
      by_cases hc : a.count = 0
      · left
        simp [after, Rouse.after, hc, rousing]
      · exact .inr (.inl ⟨rfl, hc⟩)
    | claim => exact .inr (.inr (.inl rfl))
    | slot w => simp [rousing] at hf
  | rouseAll => exact .inr (.inr (.inr rfl))
  | _ => simp [rousing] at hf

/-- A wake on its way is counted at the producer's next access; a producer waking several
workers still owes the others. -/
theorem owes_access (size : Nat) (a : Answer) (hf : f.owes u = true) :
    f.access = .wake u ∨ ∃ v, f.access = .wake v ∧ (f.after size a).owes u = true := by
  cases f <;> simp [owes] at hf
  case rouse k _ =>
    cases k <;> simp [Rouse.target] at hf
    subst hf
    exact .inl rfl
  case wakeEach ws =>
    cases ws with
    | nil => simp at hf
    | cons v rest =>
      by_cases hv : v = u
      · subst hv
        exact .inl rfl
      · refine .inr ⟨v, rfl, ?_⟩
        simp only [List.mem_cons] at hf
        simpa [after, owes, Ne.symm hv] using hf.resolve_left (Ne.symm hv)

/-- A claim that answered worker `u` leaves the producer owing it a wake. -/
theorem owes_after_claim (hacc : f.access = .claimParked) (hu : a.woken = [u]) :
    (f.after size a).owes u = true := by
  cases f <;> (try cases ‹List _›) <;> (try cases ‹Rouse›) <;>
    simp [access, Rouse.access] at hacc
  simp [after, Rouse.after, hu, owes, Rouse.target]

/-- Taking every bit leaves the producer owing a wake to each worker it answered. -/
theorem owes_after_take (hacc : f.access = .takeParked) (hu : u ∈ a.woken) :
    (f.after size a).owes u = true := by
  cases f <;> (try cases ‹List _›) <;> (try cases ‹Rouse›) <;>
    simp [access, Rouse.access] at hacc
  simpa [after, owes] using hu

theorem owes_idle : ShareFeed.idle.owes u = false := rfl

theorem rousing_idle : ShareFeed.idle.rousing = false := rfl

end ShareFeed

/-! ## 3. One step of the world -/

namespace ShareWorld

variable {s s' : ShareWorld} {p : Party} {acc : ShareAccess} {a : Answer}

/-- A producer's step begins its next call, or makes its call's next access. -/
theorem step_producer_eq {q : Nat} (hs : s.step (.producer q) = some (s', acc, a)) :
    ∃ x x', s.producers[q]? = some x ∧ s.hub.access acc = some (s'.hub, a) ∧
      s'.workers = s.workers ∧ s'.producers = s.producers.set q x' ∧
      ((x.feed = .idle ∧ acc = .skip) ∨
        (acc = x.feed.access ∧ x'.feed = x.feed.after s.workers.length a)) := by
  simp only [step] at hs
  split at hs
  · cases hs
  · rename_i x hx
    split at hs
    · cases hs
    · rename_i op rest hf hprog
      simp only [Option.some.injEq, Prod.mk.injEq] at hs
      obtain ⟨rfl, rfl, rfl⟩ := hs
      exact ⟨x, _, hx, rfl, rfl, rfl, .inl ⟨hf, rfl⟩⟩
    · obtain ⟨⟨hub, a'⟩, hh, he⟩ := Option.map_eq_some_iff.1 hs
      simp only [Prod.mk.injEq] at he
      obtain ⟨rfl, rfl, rfl⟩ := he
      exact ⟨x, _, hx, hh, rfl, rfl, .inr ⟨rfl, rfl⟩⟩

/-- After its step, a producer is where its step took it. -/
theorem producer_step_self {q : Nat} {x x' : ShareProducer} (hx : s.producers[q]? = some x)
    (hp : s'.producers = s.producers.set q x') : s'.producers[q]? = some x' := by
  rw [hp]
  exact List.getElem?_set_self (List.getElem?_eq_some_iff.1 hx).1

/-- After its step, a worker is where its step took it. -/
theorem worker_step_self {w : Nat} {x : ShareWorker} {hub : ShareHub} (hx : s.workers[w]? = some x)
    (g : ShareStage) :
    ({ s with hub, workers := s.workers.set w { x with stage := g } } : ShareWorld).workers[w]? =
      some { x with stage := g } :=
  List.getElem?_set_self (List.getElem?_eq_some_iff.1 hx).1

theorem step_access (hs : s.step p = some (s', acc, a)) : s.hub.access acc = some (s'.hub, a) := by
  cases p with
  | worker w =>
    obtain ⟨x, hub, -, -, hh, rfl⟩ := ShareWorld.step_worker hs
    exact hh
  | producer q => exact (ShareWorld.step_producer hs).1
  | stopper =>
    obtain ⟨hub, -, hh, rfl⟩ := ShareWorld.step_stopper hs
    exact hh

theorem workers_length_step (hs : s.step p = some (s', acc, a)) :
    s'.workers.length = s.workers.length := by
  cases p with
  | worker w =>
    obtain ⟨x, hub, -, -, -, rfl⟩ := ShareWorld.step_worker hs
    simp
  | producer q => rw [(ShareWorld.step_producer hs).2.1]
  | stopper =>
    obtain ⟨hub, -, -, rfl⟩ := ShareWorld.step_stopper hs
    rfl

/-- A step of another party leaves a worker where it was. -/
theorem worker_step_ne {u : Nat} (hs : s.step p = some (s', acc, a)) (hp : p ≠ .worker u) :
    s'.workers[u]? = s.workers[u]? := by
  cases p with
  | worker w =>
    obtain ⟨x, hub, -, -, -, rfl⟩ := ShareWorld.step_worker hs
    have hwu : w ≠ u := fun h => hp (by rw [h])
    exact List.getElem?_set_ne hwu
  | producer q => rw [(ShareWorld.step_producer hs).2.1]
  | stopper =>
    obtain ⟨hub, -, -, rfl⟩ := ShareWorld.step_stopper hs
    rfl

/-- A step of another party leaves a producer where it was. -/
theorem producer_step_ne {q : Nat} (hs : s.step p = some (s', acc, a)) (hp : p ≠ .producer q) :
    s'.producers[q]? = s.producers[q]? := by
  cases p with
  | worker w =>
    obtain ⟨x, hub, -, -, -, rfl⟩ := ShareWorld.step_worker hs
    rfl
  | producer r =>
    obtain ⟨x, x', -, -, -, he, -⟩ := step_producer_eq hs
    rw [he]
    have hrq : r ≠ q := fun h => hp (by rw [h])
    exact List.getElem?_set_ne hrq
  | stopper =>
    obtain ⟨hub, -, -, rfl⟩ := ShareWorld.step_stopper hs
    rfl

/-- Stores to a bit and waits on a slot are made by workers alone, each at its own stage. -/
theorem worker_of_step (hs : s.step p = some (s', acc, a))
    (hacc : (∃ u b, acc = .setParked u b) ∨ ∃ u t, acc = .wait u t) :
    ∃ v x, p = .worker v ∧ s.workers[v]? = some x ∧ x.stage.access v x.victims = some acc ∧
      s'.workers[v]? = some { x with stage := x.stage.after a } := by
  cases p with
  | worker v =>
    obtain ⟨x, hub, hx, hacc, -, rfl⟩ := ShareWorld.step_worker hs
    exact ⟨v, x, rfl, hx, hacc, worker_step_self hx _⟩
  | producer q =>
    obtain ⟨x, x', -, -, -, -, hcase⟩ := step_producer_eq hs
    exfalso
    rcases hcase with ⟨-, rfl⟩ | ⟨rfl, -⟩
    · rcases hacc with ⟨u, b, h⟩ | ⟨u, t, h⟩ <;> cases h
    · revert hacc
      cases x.feed <;> (try cases ‹List _›) <;> (try cases ‹Rouse›) <;>
        simp [ShareFeed.access, Rouse.access]
  | stopper =>
    obtain ⟨hub, hk, -, -⟩ := ShareWorld.step_stopper hs
    exfalso
    cases hst : s.stopper <;> simp [hst, ShareStop.access] at hk <;> subst hk <;> simp at hacc

/-- Only worker `w` sets its own bit. -/
theorem setParked_true_step {w : Nat} (hs : s.step p = some (s', acc, a))
    (hacc : acc = .setParked w true) :
    ∃ x, p = .worker w ∧ s.workers[w]? = some x ∧ x.stage = .publish := by
  obtain ⟨v, x, rfl, hx, hacc', -⟩ := worker_of_step hs (.inl ⟨w, true, hacc⟩)
  subst hacc
  obtain ⟨rfl, hpub, -⟩ := ShareStage.access_setParked (a := a) hacc'
  exact ⟨x, rfl, hx, hpub rfl⟩

/-- Only worker `w` waits on its own slot. -/
theorem wait_step {w : Nat} {t : Bool} (hs : s.step p = some (s', acc, a)) (hacc : acc = .wait w t) :
    p = .worker w := by
  obtain ⟨v, x, rfl, -, hacc', -⟩ := worker_of_step hs (.inr ⟨w, t, hacc⟩)
  subst hacc
  rw [ShareStage.access_wait hacc']

/-- The stop flag, once set, stays set. -/
theorem stopped_of_step (hs : s.step p = some (s', acc, a)) (h' : s'.hub.queue.stopped = false) :
    s.hub.queue.stopped = false := by
  have hh := step_access hs
  by_cases hst : acc = .storeStopped
  · subst hst
    rw [ShareHub.access_storeStopped hh] at h'
    cases h'
  · rwa [ShareHub.access_stopped hh hst] at h'

end ShareWorld

/-! ## 4. Dormant workers, owed wakes, and the invariant -/

namespace ShareWorld

variable {s s' : ShareWorld} {p : Party} {acc : ShareAccess} {a : Answer} {w : Nat}

/-- Worker `w` sleeps until woken: it waits, or is about to wait, untimed, with its bit set
and no wake on its slot. -/
def Dormant (s : ShareWorld) (w : Nat) : Prop :=
  ∃ x, s.workers[w]? = some x ∧ x.stage.resting = true ∧ x.victims = false ∧
    s.hub.bit w = true ∧ s.hub.wakes w = 0

/-- A party is on its way to count a wake on worker `w`'s slot. -/
def Owed (s : ShareWorld) (w : Nat) : Prop :=
  (∃ (q : Nat) (x : ShareProducer), s.producers[q]? = some x ∧ x.feed.owes w = true) ∨
    ∃ (v : Nat) (x : ShareWorker), s.workers[v]? = some x ∧ x.stage.owes w = true

theorem not_dormant_of_bit (hb : s.hub.bit w = false) : ¬ s.Dormant w := by
  rintro ⟨x, -, -, -, hb', -⟩
  rw [hb] at hb'
  cases hb'

theorem not_dormant_of_resting {x : ShareWorker} (hx : s.workers[w]? = some x)
    (hr : x.stage.resting = false) : ¬ s.Dormant w := by
  rintro ⟨y, hy, hr', -⟩
  rw [hx, Option.some.injEq] at hy
  subst hy
  rw [hr] at hr'
  cases hr'

/-- A worker falls dormant only at a pop that finds the queue empty: every other step keeps
its bit, its slot and its stage. -/
theorem Dormant.of_step (hs : s.step p = some (s', acc, a)) (hd : s'.Dormant w) :
    s.Dormant w ∨ s'.hub.queue.queue = [] := by
  obtain ⟨x', hx', hrest, hvic, hbit, hwk⟩ := hd
  have hh := step_access hs
  by_cases hp : p = .worker w
  · subst hp
    obtain ⟨x, hub, hx, hacc, hh', rfl⟩ := step_worker hs
    rw [worker_step_self hx, Option.some.injEq] at hx'
    subst hx'
    rcases ShareStage.resting_after hrest with ⟨hg, -⟩ | ⟨hg, he⟩
    · -- it read the stop flag, which leaves the hub as it was
      rw [hg] at hacc
      simp only [ShareStage.access, Option.some.injEq] at hacc
      subst hacc
      simp only [ShareHub.access, Option.some.injEq, Prod.mk.injEq] at hh'
      obtain ⟨rfl, -⟩ := hh'
      exact .inl ⟨x, hx, by rw [hg]; rfl, hvic, hbit, hwk⟩
    · -- its pop found nothing
      rw [hg] at hacc
      simp only [ShareStage.access, Option.some.injEq] at hacc
      subst hacc
      exact .inr (ShareHub.access_pop_none hh' he)
  · -- another party neither sets this bit nor takes a wake from this slot
    refine .inl ⟨x', by rw [← worker_step_ne hs hp]; exact hx', hrest, hvic, ?_, ?_⟩
    · rcases ShareHub.access_bit_true hh hbit with hb | hacc
      · exact hb
      · obtain ⟨x, hpw, -⟩ := setParked_true_step hs hacc
        exact absurd hpw hp
    · have := ShareHub.access_wakes_le hh (fun t hacc => hp (wait_step hs hacc))
      omega

/-- A wake on its way is counted at this step or stays on its way. -/
theorem Owed.step (ho : s.Owed w) (hw : w < s.hub.slots.length)
    (hs : s.step p = some (s', acc, a)) : 0 < s'.hub.wakes w ∨ s'.Owed w := by
  have hh := step_access hs
  rcases ho with ⟨q, x, hx, hxo⟩ | ⟨v, x, hx, hxo⟩
  · by_cases hp : p = .producer q
    · subst hp
      obtain ⟨y, y', hy, -, -, hprod, hcase⟩ := step_producer_eq hs
      rw [hx, Option.some.injEq] at hy
      subst hy
      rcases hcase with ⟨hidle, -⟩ | ⟨hacc, hfeed⟩
      · rw [hidle, ShareFeed.owes_idle] at hxo
        cases hxo
      · rcases ShareFeed.owes_access s.workers.length a hxo with hwk | ⟨u, hwk, ho'⟩
        · rw [hacc, hwk] at hh
          rw [ShareHub.access_wake hh hw]
          exact .inl (Nat.succ_pos _)
        · exact .inr (.inl ⟨q, y', producer_step_self hx hprod, by rw [hfeed]; exact ho'⟩)
    · exact .inr (.inl ⟨q, x, by rw [producer_step_ne hs hp]; exact hx, hxo⟩)
  · by_cases hp : p = .worker v
    · subst hp
      obtain ⟨y, hub, hy, hacc, hh', rfl⟩ := step_worker hs
      rw [hx, Option.some.injEq] at hy
      subst hy
      rw [ShareStage.access_of_owes hxo, Option.some.injEq] at hacc
      subst hacc
      rw [ShareHub.access_wake hh' hw]
      exact .inl (Nat.succ_pos _)
    · exact .inr (.inr ⟨v, x, by rw [worker_step_ne hs hp]; exact hx, hxo⟩)

/-- A claim that answered worker `u` leaves the claimer owing it a wake. -/
theorem owed_of_claim {u : Nat} (hs : s.step p = some (s', .claimParked, a)) (hu : a.woken = [u]) :
    s'.Owed u := by
  cases p with
  | worker v =>
    obtain ⟨x, hub, hx, hacc, -, rfl⟩ := step_worker hs
    exact .inr ⟨v, _, worker_step_self hx _, ShareStage.owes_after_claim hacc hu⟩
  | producer q =>
    obtain ⟨x, x', hx, -, -, hprod, hcase⟩ := step_producer_eq hs
    rcases hcase with ⟨-, h⟩ | ⟨hacc, hfeed⟩
    · cases h
    · refine .inl ⟨q, x', producer_step_self hx hprod, ?_⟩
      rw [hfeed]
      exact ShareFeed.owes_after_claim hacc.symm hu
  | stopper =>
    obtain ⟨hub, hk, -, -⟩ := step_stopper hs
    cases hst : s.stopper <;> simp [hst, ShareStop.access] at hk

/-- Taking every bit leaves the producer owing a wake to each worker it answered. -/
theorem owed_of_take {u : Nat} (hs : s.step p = some (s', .takeParked, a)) (hu : u ∈ a.woken) :
    s'.Owed u := by
  cases p with
  | worker v =>
    obtain ⟨x, hub, -, hacc, -, -⟩ := step_worker hs
    exfalso
    revert hacc
    cases x.stage <;> (try cases ‹Rouse›) <;> simp [ShareStage.access, Rouse.access]
  | producer q =>
    obtain ⟨x, x', hx, -, -, hprod, hcase⟩ := step_producer_eq hs
    rcases hcase with ⟨-, h⟩ | ⟨hacc, hfeed⟩
    · cases h
    · refine .inl ⟨q, x', producer_step_self hx hprod, ?_⟩
      rw [hfeed]
      exact ShareFeed.owes_after_take hacc.symm hu
  | stopper =>
    obtain ⟨hub, hk, -, -⟩ := step_stopper hs
    cases hst : s.stopper <;> simp [hst, ShareStop.access] at hk

/-- Every worker between setting its bit and waiting whose bit was cleared has a wake to
take, or one on its way. -/
def Covered (s : ShareWorld) : Prop :=
  ∀ (w : Nat) (x : ShareWorker), s.workers[w]? = some x → x.stage.parking = true →
    s.hub.bit w = false → 0 < s.hub.wakes w ∨ s.Owed w

/-- A worker parking after a step was parking before it, and took no wake, or it has just
set its bit. -/
theorem parking_before (hs : s.step p = some (s', acc, a)) {x' : ShareWorker}
    (hx' : s'.workers[w]? = some x') (hpark : x'.stage.parking = true) :
    ∃ x, s.workers[w]? = some x ∧
      ((x.stage.parking = true ∧ ∀ t, acc ≠ .wait w t) ∨ acc = .setParked w true) := by
  by_cases hp : p = .worker w
  · subst hp
    obtain ⟨x, hub, hx, hacc, -, rfl⟩ := step_worker hs
    rw [worker_step_self hx, Option.some.injEq] at hx'
    subst hx'
    refine ⟨x, hx, ?_⟩
    rcases ShareStage.parking_after hpark with hg | hg
    · -- between parking stages it pops or reads the flag
      refine .inl ⟨hg, fun t hw => ?_⟩
      rcases ShareStage.access_parking hg hpark hacc with h | h <;> rw [h] at hw <;> cases hw
    · rw [hg] at hacc
      simp only [ShareStage.access, Option.some.injEq] at hacc
      exact .inr hacc.symm
  · exact ⟨x', by rw [← worker_step_ne hs hp]; exact hx',
      .inl ⟨hpark, fun t hw => hp (wait_step hs hw)⟩⟩

theorem Covered.step (hc : s.Covered) (hslots : s.hub.slots.length = s.workers.length)
    (hparked : s.hub.parked.length = s.workers.length) (hs : s.step p = some (s', acc, a)) :
    s'.Covered := by
  intro w x' hx' hpark hbit'
  have hh := step_access hs
  have hw : w < s.workers.length := by
    rw [← workers_length_step hs]
    exact (List.getElem?_eq_some_iff.1 hx').1
  obtain ⟨x, hx, ⟨hpx, hnw⟩ | hacc⟩ := parking_before hs hx' hpark
  · cases hb : s.hub.bit w
    · -- cleared before: the wake it had stays, and one on its way is counted or stays so
      rcases hc w x hx hpx hb with hpos | ho
      · exact .inl (lt_of_lt_of_le hpos (ShareHub.access_wakes_le hh hnw))
      · exact ho.step (hslots ▸ hw) hs
    · -- cleared at this step, by a claim or by taking every bit, each owing it a wake
      right
      rcases ShareHub.access_bit_false hh hb hbit' with ⟨rfl, hu⟩ | ⟨rfl, hu⟩ | rfl
      · exact owed_of_claim hs hu
      · exact owed_of_take hs hu
      · -- or by its own store, which it makes only on its way out of parking
        obtain ⟨v, y, rfl, -, hacc', hy'⟩ := worker_of_step hs (.inl ⟨w, false, rfl⟩)
        obtain ⟨rfl, -, hout⟩ := ShareStage.access_setParked (a := a) hacc'
        rw [hx', Option.some.injEq] at hy'
        subst hy'
        exact absurd hpark (by simp [hout rfl])
  · -- it has just set its bit
    subst hacc
    rw [ShareHub.access_setParked_bit hh (hparked ▸ hw)] at hbit'
    cases hbit'


/-- While work is queued and the group runs, some worker is not dormant, or a producer is
on its way to rouse one. -/
def Roused (s : ShareWorld) : Prop :=
  0 < s.workers.length → s.hub.queue.stopped = false → s.hub.queue.queue ≠ [] →
    (∃ w < s.workers.length, ¬ s.Dormant w) ∨
      ∃ (q : Nat) (x : ShareProducer), s.producers[q]? = some x ∧ x.feed.rousing = true

/-- A step that puts work in an empty queue is a producer's push, after which the producer
goes on to rouse a worker. -/
theorem rousing_of_push (hs : s.step p = some (s', acc, a)) (he : s.hub.queue.queue = [])
    (hne : s'.hub.queue.queue ≠ []) :
    ∃ (q : Nat) (x : ShareProducer), s'.producers[q]? = some x ∧ x.feed.rousing = true := by
  have hpush := ShareHub.access_queue_grows (step_access hs) he hne
  cases p with
  | worker v =>
    obtain ⟨x, hub, -, hacc, -, -⟩ := step_worker hs
    have := ShareStage.access_pushes hacc
    rcases hpush with ⟨e, rfl, -⟩ | ⟨e, rfl⟩ <;> simp [ShareAccess.pushes] at this
  | producer q =>
    obtain ⟨x, x', hx, -, -, hprod, hcase⟩ := step_producer_eq hs
    rcases hcase with ⟨-, rfl⟩ | ⟨hacc, hfeed⟩
    · rcases hpush with ⟨e, h, -⟩ | ⟨e, h⟩ <;> cases h
    · refine ⟨q, x', producer_step_self hx hprod, ?_⟩
      rw [hfeed]
      rcases hpush with ⟨e, rfl, hf⟩ | ⟨e, rfl⟩
      · exact ShareFeed.rousing_after_push hacc.symm hf
      · exact ShareFeed.rousing_after_pushForever hacc.symm
  | stopper =>
    obtain ⟨hub, hk, -, -⟩ := step_stopper hs
    cases hst : s.stopper <;> simp [hst, ShareStop.access] at hk <;> subst hk <;>
      rcases hpush with ⟨e, h, -⟩ | ⟨e, h⟩ <;> cases h

/-- A rousing producer's step leaves a worker awake, or the producer still rousing: a
spinner it saw is not dormant, and neither is a worker whose bit it cleared. -/
theorem roused_of_rousing (hsc : s.SpinCount) (hparked : s.hub.parked.length = s.workers.length)
    (hn : 0 < s.workers.length) {q : Nat} {x : ShareProducer} (hx : s.producers[q]? = some x)
    (hxr : x.feed.rousing = true) (hs : s.step p = some (s', acc, a)) :
    (∃ w < s.workers.length, ¬ s'.Dormant w) ∨
      ∃ (q : Nat) (x : ShareProducer), s'.producers[q]? = some x ∧ x.feed.rousing = true := by
  by_cases hp : p = .producer q
  · subst hp
    obtain ⟨y, y', hy, hh, hw, hprod, hcase⟩ := step_producer_eq hs
    rw [hx, Option.some.injEq] at hy
    subst hy
    rcases hcase with ⟨hidle, -⟩ | ⟨hacc, hfeed⟩
    · rw [hidle, ShareFeed.rousing_idle] at hxr
      cases hxr
    rcases ShareFeed.rousing_after s.workers.length a hxr with
      hr | ⟨hl, hc⟩ | hl | hl
    · exact .inr ⟨q, y', producer_step_self hx hprod, by rw [hfeed]; exact hr⟩
    · -- it saw the spinner count nonzero: a counted worker is about, and it is not resting
      rw [hacc, hl] at hh
      simp only [ShareHub.access, Option.some.injEq, Prod.mk.injEq] at hh
      obtain ⟨-, rfl⟩ := hh
      have hpos : 0 < s.workers.countP (·.stage.counted) := by
        rw [← hsc.count]
        exact Nat.pos_of_ne_zero hc
      obtain ⟨z, hz, hzc⟩ := List.countP_pos_iff.1 hpos
      obtain ⟨u, hu⟩ := List.mem_iff_getElem?.1 hz
      refine .inl ⟨u, (List.getElem?_eq_some_iff.1 hu).1,
        not_dormant_of_resting (by rw [hw]; exact hu) ?_⟩
      exact ShareStage.resting_of_counted (by simpa using hzc)
    · rw [hacc, hl] at hh
      obtain ⟨u, hu, hb⟩ := ShareHub.access_claim_clears hh (hparked ▸ hn)
      exact .inl ⟨u, hparked ▸ hu, not_dormant_of_bit hb⟩
    · rw [hacc, hl] at hh
      exact .inl ⟨0, hn, not_dormant_of_bit (ShareHub.access_take_clears hh 0)⟩
  · exact .inr ⟨q, x, by rw [producer_step_ne hs hp]; exact hx, hxr⟩

theorem Roused.step (hr : s.Roused) (hsc : s.SpinCount)
    (hparked : s.hub.parked.length = s.workers.length) (hs : s.step p = some (s', acc, a)) :
    s'.Roused := by
  intro hn' hstop' hq'
  have hlen := workers_length_step hs
  have hn : 0 < s.workers.length := hlen ▸ hn'
  rw [hlen]
  by_cases hq : s.hub.queue.queue = []
  · exact .inr (rousing_of_push hs hq hq')
  rcases hr hn (stopped_of_step hs hstop') hq with ⟨u, hu, hd⟩ | ⟨q, x, hx, hxr⟩
  · -- a worker awake before stays so while the queue holds work
    exact .inl ⟨u, hu, fun hd' => (Dormant.of_step hs hd').elim hd hq'⟩
  · exact roused_of_rousing hsc hparked hn hx hxr hs

/-- **No stall.** The invariant that keeps a worker awake for queued work. -/
structure Awake (s : ShareWorld) : Prop where
  parked : s.hub.parked.length = s.workers.length
  covered : s.Covered
  roused : s.Roused

theorem Awake.start (q : SharedQueue) (victims : List Bool) (foreign : List Entity)
    (programs : List (List ShareOp)) : Awake (ShareWorld.start q victims foreign programs) := by
  -- every worker starts at the top of its loop, neither parking nor resting
  have htop : ∀ (w : Nat) (x : ShareWorker), (ShareWorld.start q victims foreign programs).workers[w]? = some x →
      x.stage = .top := by
    intro w x hx
    simp only [ShareWorld.start, List.getElem?_map] at hx
    obtain ⟨_, -, rfl⟩ := Option.map_eq_some_iff.1 hx
    rfl
  refine ⟨by simp [ShareWorld.start], fun w x hx hpark => ?_, fun hn _ _ => ?_⟩
  · rw [htop w x hx] at hpark
    cases hpark
  · obtain ⟨x, hx⟩ : ∃ x, (ShareWorld.start q victims foreign programs).workers[0]? = some x :=
      ⟨_, List.getElem?_eq_getElem hn⟩
    exact .inl ⟨0, hn, not_dormant_of_resting hx (by rw [htop 0 x hx]; rfl)⟩

theorem Awake.step (ha : s.Awake) (hi : s.Inv) (hsc : s.SpinCount)
    (hs : s.step p = some (s', acc, a)) : s'.Awake where
  parked := by
    rw [ShareHub.access_parked_length (step_access hs), workers_length_step hs]
    exact ha.parked
  covered := ha.covered.step hi.slots ha.parked hs
  roused := ha.roused.step hsc ha.parked hs

theorem Reachable.awake (h : Reachable s) : s.Awake := by
  induction h with
  | start q victims foreign programs _ => exact Awake.start q victims foreign programs
  | next p h ih =>
    unfold ShareWorld.next
    split
    · exact ih.step h.inv h.spinCount ‹_›
    · exact ih

end ShareWorld

/-! ## 5. Some worker can always move -/

namespace ShareWorld

variable {s : ShareWorld}

/-- A worker in its loop can take its step unless it waits untimed on a slot with nothing
to take. -/
theorem worker_step_isSome {w : Nat} {x : ShareWorker} (hx : s.workers[w]? = some x)
    (hin : x.stage ≠ .exited)
    (hnb : ¬ (x.stage = .wait ∧ x.victims = false ∧ (s.hub.slots.getD w {}).poll.2 = false)) :
    (s.step (.worker w)).isSome := by
  obtain ⟨acc, hacc⟩ := Option.isSome_iff_exists.1
    (ShareStage.access_isSome hin : (x.stage.access w x.victims).isSome)
  cases hh : s.hub.access acc with
  | some r =>
    simp only [ShareWorld.step, hx, hacc, Option.bind_some, hh, Option.map_some, Option.isSome_some]
  | none =>
    exfalso
    rcases ShareHub.access_eq_none hh with ⟨e, rfl⟩ | ⟨v, rfl, hpoll⟩
    · simpa [ShareAccess.pushes] using ShareStage.access_pushes hacc
    · obtain rfl := ShareStage.access_wait hacc
      obtain ⟨hg, hv⟩ := ShareStage.eq_wait_of_access hacc
      exact hnb ⟨hg, hv.symm, by rwa [List.getD_eq_getElem?_getD]⟩

/-- **No stall.** In every state a schedule reaches, while the group has a worker and runs,
its queue holds work and every producer is between calls, some worker can take a step. -/
theorem some_worker_moves (h : Reachable s) (hn : 0 < s.workers.length)
    (hstop : s.hub.queue.stopped = false)
    (hcalm : ∀ (q : Nat) (x : ShareProducer), s.producers[q]? = some x → x.feed = .idle)
    (hq : s.hub.queue.queue ≠ []) : ∃ w, (s.step (.worker w)).isSome := by
  have ha := h.awake
  -- with no producer rousing, the invariant gives a worker that is not dormant
  obtain ⟨u, hu, hd⟩ : ∃ u < s.workers.length, ¬ s.Dormant u := by
    rcases ha.roused hn hstop hq with hw | ⟨q, x, hx, hxr⟩
    · exact hw
    · rw [hcalm q x hx, ShareFeed.rousing_idle] at hxr
      cases hxr
  obtain ⟨x, hx⟩ : ∃ x, s.workers[u]? = some x := ⟨_, List.getElem?_eq_getElem hu⟩
  -- before the stop no worker has left its loop
  have hin : x.stage ≠ .exited := by
    intro he
    have := h.inv.leaving u x hx (by rw [he]; rfl)
    rw [hstop] at this
    cases this
  by_cases hb : x.stage = .wait ∧ x.victims = false ∧ (s.hub.slots.getD u {}).poll.2 = false
  · -- it waits with nothing to take, yet it is not dormant: its bit was cleared, and the
    -- wake it is owed is on its way with a worker, whose step delivers it
    obtain ⟨hst, hvic, hpoll⟩ := hb
    have hwk := ShareHub.wakes_of_poll hpoll
    have hbit : s.hub.bit u = false := by
      cases hbu : s.hub.bit u
      · rfl
      · exact (hd ⟨x, hx, by rw [hst]; rfl, hvic, hbu, hwk⟩).elim
    rcases ha.covered u x hx (by rw [hst]; rfl) hbit with hpos | ⟨q, y, hy, hyo⟩ | ⟨v, y, hy, hyo⟩
    · omega
    · rw [hcalm q y hy, ShareFeed.owes_idle] at hyo
      cases hyo
    · refine ⟨v, ?_⟩
      simp [ShareWorld.step, hy, ShareStage.access_of_owes hyo, ShareHub.access]
  · exact ⟨u, worker_step_isSome hx hin hb⟩

theorem some_worker_moves_after_start :
    0 < ((start { size := 2, capacity := 4 } [] [] [[.start { id := 0 }]]).run
        [.producer 0, .producer 0, .producer 0, .producer 0]).workers.length ∧
      ((start { size := 2, capacity := 4 } [] [] [[.start { id := 0 }]]).run
        [.producer 0, .producer 0, .producer 0, .producer 0]).hub.queue.stopped = false ∧
      (∀ (q : Nat) (x : ShareProducer),
        ((start { size := 2, capacity := 4 } [] [] [[.start { id := 0 }]]).run
          [.producer 0, .producer 0, .producer 0, .producer 0]).producers[q]? = some x →
          x.feed = .idle) ∧
      ((start { size := 2, capacity := 4 } [] [] [[.start { id := 0 }]]).run
        [.producer 0, .producer 0, .producer 0, .producer 0]).hub.queue.queue ≠ [] ∧
      ∃ w, (((start { size := 2, capacity := 4 } [] [] [[.start { id := 0 }]]).run
        [.producer 0, .producer 0, .producer 0, .producer 0]).step (.worker w)).isSome := by
  have hcalm : ∀ (q : Nat) (x : ShareProducer),
      ((start { size := 2, capacity := 4 } [] [] [[.start { id := 0 }]]).run
        [.producer 0, .producer 0, .producer 0, .producer 0]).producers[q]? = some x →
        x.feed = .idle := by
    intro q x hx
    rcases q with _ | q
    · obtain rfl : { program := [], feed := .idle } = x := Option.some.inj hx
      rfl
    · cases hx
  exact ⟨by decide, rfl, hcalm, by decide,
    some_worker_moves ((Reachable.start _ [] [] _ rfl).run _) (by decide) rfl hcalm (by decide)⟩

end ShareWorld

end Fibers
