import Mathlib
import Fibers.Sched.Parking
/-!
# Stopping a group on one run queue

The group's parties take turns in any order (`Fibers.Sched.Parking`). Stopping sets the
stop flag and then makes the wait slots persistent one after the other; a persistent slot's
wait returns at once. Three facts follow, for every schedule.

* Once the stop has completed, no worker can block again: every worker still in its loop has
  a step (`ShareWorld.Inv.worker_moves`).
* A worker leaves its loop only through a pop of the run queue that found nothing, then a
  read of the stop flag that found it set, then the clearing of its parked bit: these are
  its last three accesses in every run (`ShareWorld.exit_log`). The flag is set only by the
  stop.
* Once the stop has completed and the queues have drained (the run queue and the foreign
  groups empty, no producer with anything left to push), a worker given sixteen turns,
  however they fall among the other parties', has left its loop (`ShareWorld.Inv.leaves`).

Besides, the spinner count is the number of workers between joining and leaving it, and at
most two workers spin at once (`ShareWorld.spinners_counted`).

The invariant `ShareWorld.Inv` says what the stop has done so far: the flag is set once the
stopper stored it, the slots it passed are persistent, and a worker out of its loop read
the flag set.
-/

namespace Fibers

/-! ## 1. Wait slots -/

namespace WaitSlot

@[simp] theorem wake_persistent (s : WaitSlot) : s.wake.persistent = s.persistent := rfl

@[simp] theorem persistentWake_persistent (s : WaitSlot) : s.persistentWake.persistent = true := rfl

@[simp] theorem poll_persistent (s : WaitSlot) : s.poll.1.persistent = s.persistent := by
  unfold poll
  split_ifs <;> rfl

/-- A persistent slot's wait returns at once. -/
theorem poll_of_persistent {s : WaitSlot} (h : s.persistent = true) : s.poll.2 = true := by
  simp [poll, h]

end WaitSlot

/-! ## 2. What an access changes -/

namespace ShareHub

variable {h h' : ShareHub} {acc : ShareAccess} {a : Answer}

/-- Whether worker `w`'s slot is persistent. -/
def persistentAt (h : ShareHub) (w : Nat) : Bool := (h.slots[w]?.getD {}).persistent

theorem persistentAt_modify {f : WaitSlot → WaitSlot}
    (hf : ∀ s, s.persistent = true → (f s).persistent = true) {w i : Nat}
    (hw : h.persistentAt w = true) :
    ({ h with slots := h.slots.modify i f } : ShareHub).persistentAt w = true := by
  simp only [persistentAt, List.getElem?_modify] at hw ⊢
  cases hs : h.slots[w]? with
  | none => simp [hs] at hw
  | some s =>
    simp only [hs, Option.getD_some, Option.map_eq_map, Option.map_some] at hw ⊢
    split_ifs
    · exact hf s hw
    · exact hw

theorem persistentAt_set_poll {w i : Nat} (hw : h.persistentAt w = true) :
    ({ h with slots := h.slots.set i (h.slots[i]?.getD {}).poll.1 } : ShareHub).persistentAt w =
      true := by
  simp only [persistentAt, List.getElem?_set] at hw ⊢
  split_ifs with hi hl
  · subst hi
    simpa using hw
  · simp_all
  · exact hw

theorem access_slots_length (hs : h.access acc = some (h', a)) :
    h'.slots.length = h.slots.length := by
  cases acc <;> simp [access, clearParked] at hs
  all_goals first
    | (obtain ⟨rfl, -⟩ := hs; simp)
    | (obtain ⟨_, -, rfl, -⟩ := hs; simp)
    | (split_ifs at hs <;> simp at hs <;> obtain ⟨rfl, -⟩ := hs <;> simp)

/-- A persistent slot stays persistent. -/
theorem access_persistentAt (hs : h.access acc = some (h', a)) {w : Nat}
    (hw : h.persistentAt w = true) : h'.persistentAt w = true := by
  cases acc <;> simp [access, clearParked] at hs
  case wake i =>
    obtain ⟨rfl, -⟩ := hs
    exact persistentAt_modify (fun s hs => by simpa using hs) hw
  case persist i =>
    obtain ⟨rfl, -⟩ := hs
    exact persistentAt_modify (fun s _ => by simp) hw
  case wait i timed =>
    split_ifs at hs <;> simp at hs <;> obtain ⟨rfl, -⟩ := hs
    · exact persistentAt_set_poll hw
    · exact hw
  all_goals first
    | (obtain ⟨rfl, -⟩ := hs; exact hw)
    | (obtain ⟨_, -, rfl, -⟩ := hs; exact hw)
    | (split_ifs at hs <;> simp at hs <;> obtain ⟨rfl, -⟩ := hs <;> exact hw)

theorem access_persist_self {w : Nat} (hs : h.access (.persist w) = some (h', a))
    (hw : w < h.slots.length) : h'.persistentAt w = true := by
  simp only [access, Option.some.injEq, Prod.mk.injEq] at hs
  obtain ⟨rfl, -⟩ := hs
  simp [persistentAt, hw]

/-- Only the stop sets the stop flag, and nothing clears it. -/
theorem access_stopped (hs : h.access acc = some (h', a)) (hacc : acc ≠ .storeStopped) :
    h'.queue.stopped = h.queue.stopped := by
  cases acc <;> simp [access, clearParked] at hs
  case storeStopped => exact absurd rfl hacc
  case pop =>
    obtain ⟨rfl, -⟩ := hs
    simp only [SharedQueue.pop]
    split <;> rfl
  case push e =>
    obtain ⟨rfl, -⟩ := hs
    simp only [SharedQueue.push]
    split_ifs <;> rfl
  case pushForever e =>
    obtain ⟨q, hq, rfl, -⟩ := hs
    simp only [SharedQueue.push] at hq
    split_ifs at hq
    cases hq
    rfl
  all_goals first
    | (obtain ⟨rfl, -⟩ := hs; rfl)
    | (split_ifs at hs <;> simp at hs <;> obtain ⟨rfl, -⟩ := hs <;> rfl)

theorem access_storeStopped (hs : h.access .storeStopped = some (h', a)) :
    h'.queue.stopped = true := by
  simp only [access, Option.some.injEq, Prod.mk.injEq] at hs
  rw [← hs.1]

end ShareHub

/-! ## 3. Where a worker's stages lead -/

namespace ShareStage

@[simp] theorem nextPoll_ne_exited (l k : Nat) : nextPoll l k ≠ .exited := by
  cases l <;> simp [nextPoll]

@[simp] theorem nextPoll_ne_leave (l k : Nat) : nextPoll l k ≠ .leave := by
  cases l <;> simp [nextPoll]

@[simp] theorem nextPoll_ne_stopCheck (l k : Nat) : nextPoll l k ≠ .stopCheck := by
  cases l <;> simp [nextPoll]

variable {g : ShareStage} {a : Answer}

/-- A worker leaves its loop only from the stage that clears its parked bit. -/
theorem after_eq_exited (h : g.after a = .exited) : g = .leave ∨ g = .exited := by
  cases g <;> simp only [after] at h <;> (try split at h) <;> (try split at h) <;> simp_all

/-- It gets there only by reading the stop flag set. -/
theorem after_eq_leave (h : g.after a = .leave) : g = .stopCheck ∧ a.flag = true := by
  cases g <;> simp only [after] at h <;> (try split at h) <;> (try split at h) <;> simp_all

/-- And it reads the flag there only after a pop, its parked bit set, found nothing. -/
theorem after_eq_stopCheck (h : g.after a = .stopCheck) : g = .recheck ∧ a.entity = none := by
  cases g <;> simp only [after] at h <;> (try split at h) <;> (try split at h) <;> simp_all



/-- Whether a worker is on its way out of the loop. -/
def leaving : ShareStage → Bool
  | .leave | .exited => true
  | _ => false

/-- A worker's stages never set the stop flag nor make a slot persistent. -/
theorem access_ne_storeStopped {g : ShareStage} {w : Nat} {v : Bool} {acc : ShareAccess}
    (h : g.access w v = some acc) : acc ≠ .storeStopped := by
  cases g <;> simp [access] at h <;> (try cases ‹Rouse›) <;> subst h <;> simp [Rouse.access]

theorem after_leaving {g : ShareStage} {a : Answer} (h : (g.after a).leaving = true) :
    g.leaving = true ∨ (g = .stopCheck ∧ a.flag = true) := by
  cases hg : g.after a with
  | leave => exact .inr (after_eq_leave hg)
  | exited =>
    rcases after_eq_exited hg with rfl | rfl <;> simp [leaving]
  | _ => simp [hg, leaving] at h

end ShareStage

namespace ShareFeed

theorem access_ne_storeStopped (f : ShareFeed) : f.access ≠ .storeStopped := by
  cases f <;> (try cases ‹List _›) <;> (try cases ‹Rouse›) <;> simp [access, Rouse.access]

end ShareFeed

namespace ShareStop

/-- Whether the stop has set the flag. -/
def stored : ShareStop → Bool
  | .store => false
  | _ => true

/-- Whether the stop has made worker `w`'s slot persistent. -/
def passed : ShareStop → Nat → Bool
  | .store, _ => false
  | .persist k, w => decide (w < k)
  | .done, _ => true

end ShareStop

/-! ## 4. One step of each party -/

namespace ShareWorld

variable {s s' : ShareWorld} {acc : ShareAccess} {a : Answer}

theorem step_worker {w : Nat} (hs : s.step (.worker w) = some (s', acc, a)) :
    ∃ x hub, s.workers[w]? = some x ∧ x.stage.access w x.victims = some acc ∧
      s.hub.access acc = some (hub, a) ∧
      s' = { s with hub, workers := s.workers.set w { x with stage := x.stage.after a } } := by
  simp only [step] at hs
  split at hs
  · cases hs
  · rename_i x hx
    obtain ⟨acc', hacc, hs⟩ := Option.bind_eq_some_iff.1 hs
    obtain ⟨⟨hub, a'⟩, hh, he⟩ := Option.map_eq_some_iff.1 hs
    simp only [Prod.mk.injEq] at he
    obtain ⟨rfl, rfl, rfl⟩ := he
    exact ⟨x, hub, hx, hacc, hh, rfl⟩

theorem step_producer {p : Nat} (hs : s.step (.producer p) = some (s', acc, a)) :
    s.hub.access acc = some (s'.hub, a) ∧ s'.workers = s.workers ∧ s'.stopper = s.stopper ∧
      ∃ f : ShareFeed, acc = f.access := by
  simp only [step] at hs
  split at hs
  · cases hs
  · rename_i x hx
    split at hs
    · cases hs
    · simp only [Option.some.injEq, Prod.mk.injEq] at hs
      obtain ⟨rfl, rfl, rfl⟩ := hs
      exact ⟨rfl, rfl, rfl, .idle, rfl⟩
    · obtain ⟨⟨hub, a'⟩, hh, he⟩ := Option.map_eq_some_iff.1 hs
      simp only [Prod.mk.injEq] at he
      obtain ⟨rfl, rfl, rfl⟩ := he
      exact ⟨hh, rfl, rfl, _, rfl⟩

theorem step_stopper (hs : s.step .stopper = some (s', acc, a)) :
    ∃ hub, s.stopper.access = some acc ∧ s.hub.access acc = some (hub, a) ∧
      s' = { s with hub, stopper := s.stopper.after s.workers.length } := by
  simp only [step] at hs
  obtain ⟨acc', hacc, hs⟩ := Option.bind_eq_some_iff.1 hs
  obtain ⟨⟨hub, a'⟩, hh, he⟩ := Option.map_eq_some_iff.1 hs
  simp only [Prod.mk.injEq] at he
  obtain ⟨rfl, rfl, rfl⟩ := he
  exact ⟨hub, hacc, hh, rfl⟩


/-! ## 5. What the stop has done -/


/-- What the stop has done so far, and what a worker on its way out knows. -/
structure Inv (s : ShareWorld) : Prop where
  /-- The stop flag is set exactly once the stop stored it. -/
  stopped : s.hub.queue.stopped = s.stopper.stored
  /-- The slots the stop passed are persistent. -/
  persistent : ∀ w < s.workers.length, s.stopper.passed w = true → s.hub.persistentAt w = true
  /-- A worker on its way out read the flag set. -/
  leaving : ∀ (w : Nat) (x : ShareWorker), s.workers[w]? = some x → x.stage.leaving = true →
    s.hub.queue.stopped = true
  slots : s.hub.slots.length = s.workers.length

theorem Inv.start (q : SharedQueue) (victims : List Bool) (foreign : List Entity)
    (programs : List (List ShareOp)) (h : q.stopped = false) :
    Inv (ShareWorld.start q victims foreign programs) := by
  refine ⟨by simpa [ShareWorld.start, ShareStop.stored] using h, ?_, ?_,
    by simp [ShareWorld.start]⟩
  · intro w _ hp
    simp [ShareWorld.start, ShareStop.passed] at hp
  · intro w x hx hl
    simp only [ShareWorld.start, List.getElem?_map] at hx
    obtain ⟨_, -, rfl⟩ := Option.map_eq_some_iff.1 hx
    simp [ShareStage.leaving] at hl

theorem Inv.step_worker (hi : Inv s) {w : Nat} (hs : s.step (.worker w) = some (s', acc, a)) :
    Inv s' := by
  obtain ⟨x, hub, hx, hacc, hh, rfl⟩ := ShareWorld.step_worker hs
  have hstop := ShareHub.access_stopped hh (ShareStage.access_ne_storeStopped hacc)
  refine ⟨by simpa [hstop] using hi.stopped, ?_, ?_, ?_⟩
  · intro v hv hp
    exact ShareHub.access_persistentAt hh (hi.persistent v (by simpa using hv) hp)
  · intro v y hy hl
    simp only [hstop]
    by_cases hvw : v = w
    · subst hvw
      have hy' : y = { x with stage := x.stage.after a } := by
        simp only [List.getElem?_set_self (List.getElem?_eq_some_iff.1 hx).1,
          Option.some.injEq] at hy
        exact hy.symm
      subst hy'
      rcases ShareStage.after_leaving hl with hl' | ⟨hg, hf⟩
      · exact hi.leaving v x hx hl'
      · -- it read the flag at this very step
        simp only [hg, ShareStage.access, Option.some.injEq] at hacc
        subst hacc
        simp only [ShareHub.access, Option.some.injEq, Prod.mk.injEq] at hh
        rw [← hh.2] at hf
        exact hf
    · rw [List.getElem?_set_ne (Ne.symm hvw)] at hy
      exact hi.leaving v y hy hl
  · simpa [ShareHub.access_slots_length hh] using hi.slots

theorem Inv.step_producer (hi : Inv s) {p : Nat} (hs : s.step (.producer p) = some (s', acc, a)) :
    Inv s' := by
  obtain ⟨hh, hw, hst, f, rfl⟩ := ShareWorld.step_producer hs
  have hstop := ShareHub.access_stopped hh (ShareFeed.access_ne_storeStopped f)
  refine ⟨by simpa [hstop, hst] using hi.stopped, ?_, ?_, ?_⟩
  · intro v hv hp
    rw [hw] at hv
    rw [hst] at hp
    exact ShareHub.access_persistentAt hh (hi.persistent v hv hp)
  · intro v y hy hl
    rw [hw] at hy
    rw [hstop]
    exact hi.leaving v y hy hl
  · rw [ShareHub.access_slots_length hh, hw]
    exact hi.slots

theorem Inv.step_stopper (hi : Inv s) (hs : s.step .stopper = some (s', acc, a)) : Inv s' := by
  obtain ⟨hub, hacc, hh, rfl⟩ := ShareWorld.step_stopper hs
  have hlen := ShareHub.access_slots_length hh
  cases hk : s.stopper with
  | store =>
    rw [hk] at hacc
    simp only [ShareStop.access, Option.some.injEq] at hacc
    subst hacc
    have hset := ShareHub.access_storeStopped hh
    refine ⟨by simp [hset, ShareStop.after, ShareStop.stored], ?_, ?_,
      by simpa [hlen] using hi.slots⟩
    · intro v _ hp
      simp [ShareStop.after, ShareStop.passed] at hp
    · intro v y hy _
      exact hset
  | persist k =>
    rw [hk] at hacc
    simp only [ShareStop.access, Option.some.injEq] at hacc
    subst hacc
    have hstop := ShareHub.access_stopped hh (by simp)
    refine ⟨?_, ?_, ?_, by simpa [hlen] using hi.slots⟩
    · have := hi.stopped
      rw [hk] at this
      simp only [hstop, this, ShareStop.stored, ShareStop.after]
      split_ifs <;> rfl
    · intro v hv hp
      by_cases hvk : v = k
      · subst hvk
        exact ShareHub.access_persist_self hh (by rw [hi.slots]; exact hv)
      · -- the slots passed before stay persistent
        have hpass : s.stopper.passed v = true := by
          rw [hk]
          simp only [ShareStop.after] at hp
          simp only at hv
          split_ifs at hp <;> simp [ShareStop.passed] at hp ⊢ <;> omega
        exact ShareHub.access_persistentAt hh (hi.persistent v hv hpass)
    · intro v y hy hl
      rw [hstop]
      exact hi.leaving v y hy hl
  | done =>
    rw [hk] at hacc
    simp [ShareStop.access] at hacc

theorem Inv.step (hi : Inv s) {p : Party} (hs : s.step p = some (s', acc, a)) : Inv s' := by
  cases p with
  | worker w => exact hi.step_worker hs
  | producer q => exact hi.step_producer hs
  | stopper => exact hi.step_stopper hs

theorem Inv.next (hi : Inv s) (p : Party) : Inv (s.next p) := by
  unfold ShareWorld.next
  split
  · exact hi.step ‹_›
  · exact hi

theorem Reachable.inv (h : Reachable s) : Inv s := by
  induction h with
  | start q victims foreign programs hq => exact Inv.start q victims foreign programs hq
  | next p _ ih => exact ih.next p

theorem Reachable.run (h : Reachable s) (schedule : List Party) : Reachable (s.run schedule) := by
  induction schedule generalizing s with
  | nil => exact h
  | cons p rest ih => exact ih (h.next p)

end ShareWorld

/-! ## 6. After the stop, no worker blocks -/

namespace ShareHub
variable {h h' : ShareHub} {acc : ShareAccess} {a : Answer}

/-- Only a push retried while the queue is full, and an untimed wait on a slot with nothing
to take, are refused. -/
theorem access_eq_none (hn : h.access acc = none) :
    (∃ e, acc = .pushForever e) ∨
      ∃ w, acc = .wait w false ∧ (h.slots[w]?.getD {}).poll.2 = false := by
  cases acc with
  | pushForever e => exact .inl ⟨e, rfl⟩
  | wait w timed =>
    simp only [access, List.getD_eq_getElem?_getD] at hn
    split_ifs at hn with h1 h2
    exact .inr ⟨w, by simp_all, by simpa using h1⟩
  | stealForeign victims =>
    simp only [access] at hn
    split_ifs at hn
  | _ => simp [access] at hn

end ShareHub

/-- Whether an access puts an entity in the run queue. -/
def ShareAccess.pushes : ShareAccess → Bool
  | .push _ | .pushForever _ => true
  | _ => false

namespace ShareStage
variable {g : ShareStage} {w : Nat} {v : Bool} {acc : ShareAccess}

/-- Workers never push. -/
theorem access_pushes (h : g.access w v = some acc) : acc.pushes = false := by
  cases g <;> simp [access] at h <;> (try cases ‹Rouse›) <;> subst h <;> rfl

/-- A worker waits on its own slot only. -/
theorem access_wait {u : Nat} {t : Bool} (h : g.access w v = some (.wait u t)) : u = w := by
  cases g <;> simp [access] at h
  case wait => exact h.1.symm
  all_goals cases ‹Rouse› <;> simp [Rouse.access] at h

theorem access_isSome (h : g ≠ .exited) : (g.access w v).isSome := by
  cases g <;> simp [access] at h ⊢

end ShareStage

namespace ShareWorld
variable {s : ShareWorld}

/-- Once the stop has completed, every worker still in its loop can take a step: none waits
on its slot for good. -/
theorem Inv.worker_moves (hi : Inv s) (hdone : s.stopper = .done) {w : Nat} {x : ShareWorker}
    (hx : s.workers[w]? = some x) (hin : x.stage ≠ .exited) :
    (s.step (.worker w)).isSome := by
  obtain ⟨acc, hacc⟩ := Option.isSome_iff_exists.1
    (ShareStage.access_isSome hin : (x.stage.access w x.victims).isSome)
  cases hh : s.hub.access acc with
  | some r =>
    simp only [ShareWorld.step, hx, hacc, Option.bind_some, hh, Option.map_some, Option.isSome_some]
  | none =>
    exfalso
    rcases ShareHub.access_eq_none hh with ⟨e, rfl⟩ | ⟨v, rfl, hpoll⟩
    · simpa [ShareAccess.pushes] using ShareStage.access_pushes hacc
    · -- the wait is on its own slot, which the stop made persistent
      obtain rfl := ShareStage.access_wait hacc
      have hp := hi.persistent v (List.getElem?_eq_some_iff.1 hx).1
        (by simp [hdone, ShareStop.passed])
      simp only [ShareHub.persistentAt] at hp
      simp [WaitSlot.poll_of_persistent hp] at hpoll

end ShareWorld

/-! ## 7. A worker's last accesses -/

section Log

variable {α : Type} {log : List (Party × α × Answer)} {w : Nat}

/-- Worker `w`'s own accesses in a log, in order, with their answers. -/
def accessesOf (log : List (Party × α × Answer)) (w : Nat) : List (α × Answer) :=
  (log.filter (fun e => e.1 = .worker w)).map (·.2)

theorem accessesOf_append_ne {p : Party} (e : α × Answer) (h : p ≠ .worker w) :
    accessesOf (log ++ [(p, e)]) w = accessesOf log w := by
  simp [accessesOf, h]

theorem accessesOf_append_self (e : α × Answer) :
    accessesOf (log ++ [(.worker w, e)]) w = accessesOf log w ++ [e] := by
  simp [accessesOf]

/-- The step that extends what a worker has made of a trail appends exactly its next
entry. -/
theorem trail_extend {trail : List (α × Answer)} {n : Nat} {e : α × Answer}
    (h : trail.take n <:+ accessesOf log w) (he : trail[n]? = some e) :
    trail.take (n + 1) <:+ accessesOf (log ++ [(.worker w, e)]) w := by
  rw [List.take_add_one, he, accessesOf_append_self]
  exact List.suffix_concat_iff.2 (.inr ⟨_, rfl, h⟩)

end Log

/-- How much of its leaving trail a worker at this stage has made. -/
def ShareStage.trailMade : ShareStage → Nat
  | .stopCheck => 1
  | .leave => 2
  | .exited => 3
  | _ => 0

namespace ShareWorld
variable {s s' : ShareWorld} {acc : ShareAccess} {a : Answer}
  {log : List (Party × ShareAccess × Answer)}

/-- A worker's last accesses when it leaves its loop: a pop of the run queue that found
nothing, a read of the stop flag that found it set, and the clearing of its parked bit. -/
def leavingTrail (w : Nat) : List (ShareAccess × Answer) :=
  [(.pop, {}), (.loadStopped, { flag := true }), (.setParked w false, {})]

/-- Every worker has made, last, the part of its leaving trail its stage says. -/
def Trail (s : ShareWorld) (log : List (Party × ShareAccess × Answer)) : Prop :=
  ∀ (w : Nat) (x : ShareWorker), s.workers[w]? = some x →
    (leavingTrail w).take x.stage.trailMade <:+ accessesOf log w

/-- Each step of a worker either starts its leaving trail over or makes its next entry. -/
theorem trail_step {g : ShareStage} {w : Nat} {v : Bool} {h h' : ShareHub}
    (hacc : g.access w v = some acc) (hh : h.access acc = some (h', a)) :
    (g.after a).trailMade = 0 ∨
      ((g.after a).trailMade = g.trailMade + 1 ∧
        (leavingTrail w)[g.trailMade]? = some (acc, a)) := by
  cases hg : g.after a
  case stopCheck =>
    obtain ⟨rfl, hn⟩ := ShareStage.after_eq_stopCheck hg
    simp only [ShareStage.access, Option.some.injEq] at hacc
    subst hacc
    simp only [ShareHub.access, Option.some.injEq, Prod.mk.injEq] at hh
    obtain ⟨-, rfl⟩ := hh
    simp only at hn
    simp [ShareStage.trailMade, leavingTrail, hn]
  case leave =>
    obtain ⟨rfl, hf⟩ := ShareStage.after_eq_leave hg
    simp only [ShareStage.access, Option.some.injEq] at hacc
    subst hacc
    simp only [ShareHub.access, Option.some.injEq, Prod.mk.injEq] at hh
    obtain ⟨-, rfl⟩ := hh
    simp only at hf
    simp [ShareStage.trailMade, leavingTrail, hf]
  case exited =>
    rcases ShareStage.after_eq_exited hg with rfl | rfl
    · simp only [ShareStage.access, Option.some.injEq] at hacc
      subst hacc
      simp only [ShareHub.access, Option.some.injEq, Prod.mk.injEq] at hh
      obtain ⟨-, rfl⟩ := hh
      simp [ShareStage.trailMade, leavingTrail]
    · simp [ShareStage.access] at hacc
  all_goals exact .inl rfl

theorem Trail.step (ht : Trail s log) {p : Party} (hs : s.step p = some (s', acc, a)) :
    Trail s' (log ++ [(p, acc, a)]) := by
  cases p with
  | worker w =>
    obtain ⟨x, hub, hx, hacc, hh, rfl⟩ := ShareWorld.step_worker hs
    intro v y hy
    by_cases hvw : v = w
    · subst hvw
      rw [List.getElem?_set_self (List.getElem?_eq_some_iff.1 hx).1, Option.some.injEq] at hy
      subst hy
      rcases trail_step hacc hh with h0 | ⟨hn, he⟩
      · simp [h0]
      · rw [hn]
        exact trail_extend (ht v x hx) he
    · rw [List.getElem?_set_ne (Ne.symm hvw)] at hy
      rw [accessesOf_append_ne _ (by simpa using Ne.symm hvw)]
      exact ht v y hy
  | producer q =>
    obtain ⟨-, hw, -⟩ := ShareWorld.step_producer hs
    intro v y hy
    rw [hw] at hy
    rw [accessesOf_append_ne _ (by simp)]
    exact ht v y hy
  | stopper =>
    obtain ⟨hub, -, -, rfl⟩ := ShareWorld.step_stopper hs
    intro v y hy
    rw [accessesOf_append_ne _ (by simp)]
    exact ht v y hy

theorem Trail.exec (ht : Trail s log) (schedule : List Party) :
    Trail (s.exec schedule).1 (log ++ (s.exec schedule).2) := by
  induction schedule generalizing s log with
  | nil => simpa [ShareWorld.exec] using ht
  | cons p rest ih =>
    simp only [ShareWorld.exec]
    split
    · rename_i s' acc a hs
      simpa using ih (ht.step hs)
    · exact ih ht

/-- A worker leaves its loop only through a pop of the run queue that found nothing, then a
read of the stop flag that found it set, then the clearing of its parked bit: in every run,
these are its last three accesses. -/
theorem exit_log (q : SharedQueue) (victims : List Bool) (foreign : List Entity)
    (programs : List (List ShareOp)) (schedule : List Party) (w : Nat) (x : ShareWorker)
    (hx : ((start q victims foreign programs).exec schedule).1.workers[w]? = some x)
    (hexit : x.stage = .exited) :
    leavingTrail w <:+ accessesOf ((start q victims foreign programs).exec schedule).2 w := by
  have h0 : Trail (start q victims foreign programs) [] := by
    intro v y hy
    simp only [ShareWorld.start, List.getElem?_map] at hy
    obtain ⟨_, -, rfl⟩ := Option.map_eq_some_iff.1 hy
    simp [ShareStage.trailMade]
  simpa [hexit, ShareStage.trailMade, leavingTrail] using h0.exec schedule w x hx

end ShareWorld

/-! ## 8. Quiet answers, and how far a worker is from leaving -/

/-- What an access answers once the group is stopped with its queues drained: no entity
from a pop or a steal, an empty queue, the stop flag set. -/
def ShareAccess.Quiet : ShareAccess → Answer → Prop
  | .pop, a | .stealForeign _, a => a.entity = none
  | .isEmpty, a | .loadStopped, a => a.flag = true
  | _, _ => True

namespace ShareHub
variable {h h' : ShareHub} {acc : ShareAccess} {a : Answer}

/-- Once stopped with nothing queued, an access that pushes nothing answers quietly and
leaves it so. -/
theorem access_quiet (hq : h.queue.queue = []) (hf : h.foreign = []) (hst : h.queue.stopped = true)
    (hp : acc.pushes = false) (hs : h.access acc = some (h', a)) :
    acc.Quiet a ∧ h'.queue.queue = [] ∧ h'.foreign = [] ∧ h'.queue.stopped = true := by
  cases acc <;> simp [ShareAccess.pushes] at hp <;> simp [access, clearParked] at hs
  case pop =>
    obtain ⟨rfl, rfl⟩ := hs
    simp [ShareAccess.Quiet, SharedQueue.pop, hq, hf, hst]
  case stealForeign v =>
    split_ifs at hs <;> simp at hs <;> obtain ⟨rfl, rfl⟩ := hs <;>
      simp [ShareAccess.Quiet, hq, hf, hst]
  case wait =>
    split_ifs at hs <;> simp at hs <;> obtain ⟨rfl, rfl⟩ := hs <;>
      simp [ShareAccess.Quiet, hq, hf, hst]
  all_goals obtain ⟨rfl, rfl⟩ := hs; simp [ShareAccess.Quiet, hq, hf, hst]

end ShareHub

/-- The stage of a wake, counted down to its end. -/
def Rouse.rank : Rouse → Nat
  | .slot _ => 0
  | .claim => 1
  | .look => 2

theorem Rouse.rank_after {k k' : Rouse} {a : Answer} (h : k.after a = some k') :
    k'.rank < k.rank := by
  cases k <;> simp only [Rouse.after] at h
  · split_ifs at h
    cases h
    simp [Rouse.rank]
  · split at h <;> cases h
    simp [Rouse.rank]
  · cases h

namespace ShareStage

/-- The turns a worker at this stage needs to leave its loop, once the group is stopped and
its queues drained. -/
def rank : ShareStage → Nat
  | .exited => 0
  | .leave => 1
  | .stopCheck => 2
  | .recheck => 3
  | .publish => 4
  | .foreign | .refreign => 5
  | .spinLeave none | .repop => 6
  | .stopRead _ _ | .unpark => 7
  | .poll _ _ | .wait => 8
  | .stallLook _ _ | .spinEnter => 9
  | .stall _ k => 9 + k.rank
  | .top => 10
  | .run _ => 11
  | .retract _ => 12
  | .chain _ k => 12 + k.rank
  | .chainLook _ => 15
  | .spinLeave (some _) => 16

theorem rank_nextPoll (l k : Nat) : (nextPoll l k).rank ≤ 8 := by
  cases l <;> simp [nextPoll, rank]

theorem rank_le (g : ShareStage) : g.rank ≤ 16 := by
  cases g <;> (try cases ‹Rouse›) <;> (try cases ‹Option Entity›) <;>
    simp [rank, Rouse.rank]

theorem rank_eq_zero {g : ShareStage} (h : g.rank = 0) : g = .exited := by
  cases g <;> (try cases ‹Rouse›) <;> (try cases ‹Option Entity›) <;>
    simp [rank, Rouse.rank] at h ⊢

/-- Every step with a quiet answer brings a worker nearer to leaving. -/
theorem rank_after {g : ShareStage} {w : Nat} {v : Bool} {acc : ShareAccess} {a : Answer}
    (hacc : g.access w v = some acc) (hq : acc.Quiet a) : (g.after a).rank < g.rank := by
  cases g <;> simp [access] at hacc <;> subst hacc
  case stall left k =>
    simp only [after]
    cases hk : k.after a with
    | some k' =>
      have := Rouse.rank_after hk
      simp only [rank]
      omega
    | none => exact lt_of_le_of_lt (rank_nextPoll left 0) (by simp only [rank]; omega)
  case chain e k =>
    simp only [after]
    cases hk : k.after a with
    | some k' =>
      have := Rouse.rank_after hk
      simp only [rank]
      omega
    | none => simp only [rank]; omega
  case stallLook left stalled =>
    simp only [ShareAccess.Quiet] at hq
    simp only [after, hq, if_true]
    exact lt_of_le_of_lt (rank_nextPoll left 0) (by simp [rank])
  case spinEnter =>
    simp only [after]
    split <;> simp [rank]
  case spinLeave got =>
    cases got <;> simp [after, rank]
  all_goals simp_all [ShareAccess.Quiet, after, rank]

end ShareStage

/-! ## 9. A drained group leaves -/

namespace ShareWorld

variable {s s' : ShareWorld} {acc : ShareAccess} {a : Answer}

/-- The group's queues have drained: the run queue and the foreign groups are empty, and no
producer has anything left to do. -/
structure Drained (s : ShareWorld) : Prop where
  queue : s.hub.queue.queue = []
  foreign : s.hub.foreign = []
  producers : ∀ (p : Nat) (x : ShareProducer), s.producers[p]? = some x →
    x.program = [] ∧ x.feed = .idle

/-- Another party's step leaves a worker as it was. -/
theorem step_workers_ne {p : Party} {w : Nat} (hs : s.step p = some (s', acc, a))
    (hp : p ≠ .worker w) : s'.workers[w]? = s.workers[w]? := by
  cases p with
  | worker v =>
    obtain ⟨x, hub, -, -, -, rfl⟩ := ShareWorld.step_worker hs
    exact List.getElem?_set_ne (by simpa using hp)
  | producer q => rw [(ShareWorld.step_producer hs).2.1]
  | stopper =>
    obtain ⟨hub, -, -, rfl⟩ := ShareWorld.step_stopper hs
    rfl

/-- Once stopped with its queues drained, only workers move in a group, each answered
quietly, and the group stays so. -/
theorem Drained.step (hd : Drained s) (hi : Inv s) (hdone : s.stopper = .done) {p : Party}
    (hs : s.step p = some (s', acc, a)) :
    Drained s' ∧ s'.stopper = .done ∧ ∃ w x, p = .worker w ∧ s.workers[w]? = some x ∧
      x.stage.access w x.victims = some acc ∧ acc.Quiet a := by
  have hst : s.hub.queue.stopped = true := by
    rw [hi.stopped, hdone]
    rfl
  cases p with
  | worker w =>
    obtain ⟨x, hub, hx, hacc, hh, rfl⟩ := ShareWorld.step_worker hs
    obtain ⟨hq, hqueue, hforeign, -⟩ :=
      ShareHub.access_quiet hd.queue hd.foreign hst (ShareStage.access_pushes hacc) hh
    exact ⟨⟨hqueue, hforeign, hd.producers⟩, hdone, w, x, rfl, hx, hacc, hq⟩
  | producer q =>
    simp only [ShareWorld.step] at hs
    split at hs
    · cases hs
    · rename_i x hx
      obtain ⟨hprog, hfeed⟩ := hd.producers q x hx
      simp [hprog, hfeed] at hs
  | stopper =>
    obtain ⟨hub, hacc, -, -⟩ := ShareWorld.step_stopper hs
    simp [hdone, ShareStop.access] at hacc

theorem Inv.leaves_of_rank (hi : Inv s) (hdone : s.stopper = .done) (hd : Drained s) {w : Nat}
    {x : ShareWorker} (hx : s.workers[w]? = some x) (schedule : List Party)
    (hturns : x.stage.rank ≤ schedule.count (.worker w)) :
    ∃ y, (s.run schedule).workers[w]? = some y ∧ y.stage = .exited := by
  induction schedule generalizing s x with
  | nil => exact ⟨x, hx, ShareStage.rank_eq_zero (by simpa using hturns)⟩
  | cons p rest ih =>
    simp only [ShareWorld.run, List.foldl_cons] at ih ⊢
    unfold ShareWorld.next
    cases hs : s.step p with
    | none =>
      by_cases hp : p = .worker w
      · -- a worker that cannot move has left already
        subst hp
        have hex : x.stage = .exited := by
          by_contra hne
          have := hi.worker_moves hdone hx hne
          simp [hs] at this
        exact ih hi hdone hd hx (by simp [hex, ShareStage.rank])
      · exact ih hi hdone hd hx (by simpa [List.count_cons, hp] using hturns)
    | some r =>
      obtain ⟨s', acc, a⟩ := r
      obtain ⟨hd', hdone', v, x', rfl, hx', hacc, hq⟩ := hd.step hi hdone hs
      by_cases hvw : v = w
      · -- the worker's own turn brings it nearer
        subst hvw
        obtain rfl : x' = x := Option.some.inj (hx'.symm.trans hx)
        obtain ⟨x'', hub, hx'', -, -, rfl⟩ := ShareWorld.step_worker hs
        obtain rfl : x'' = x' := Option.some.inj (hx''.symm.trans hx')
        have hlt := ShareStage.rank_after hacc hq
        refine ih (hi.step hs) hdone' hd'
          (List.getElem?_set_self (List.getElem?_eq_some_iff.1 hx).1) ?_
        simp only [List.count_cons, beq_self_eq_true, if_true] at hturns
        dsimp only
        omega
      · exact ih (hi.step hs) hdone' hd'
          (by rw [step_workers_ne hs (by simpa using hvw)]; exact hx)
          (by simpa [List.count_cons, hvw] using hturns)

/-- Once the stop has completed and the queues have drained, a worker given sixteen turns,
however they fall among the other parties', has left its loop. -/
theorem Inv.leaves (hi : Inv s) (hdone : s.stopper = .done) (hd : Drained s) {w : Nat}
    {x : ShareWorker} (hx : s.workers[w]? = some x) (schedule : List Party)
    (hturns : 16 ≤ schedule.count (.worker w)) :
    ∃ y, (s.run schedule).workers[w]? = some y ∧ y.stage = .exited :=
  hi.leaves_of_rank hdone hd hx schedule ((x.stage.rank_le).trans hturns)

end ShareWorld

/-! ## 10. At most two spinners -/

namespace ShareStage

/-- Inside the spin: polling the queue, reading the stop flag, looking at the queue, or
waking a peer. -/
def spinning : ShareStage → Bool
  | .poll _ _ | .stopRead _ _ | .stallLook _ _ | .stall _ _ => true
  | _ => false

/-- Counted among the spinners: inside the spin, or about to leave the count. -/
def counted : ShareStage → Bool
  | .spinLeave _ => true
  | g => g.spinning

theorem access_eq_joinSpinners {g : ShareStage} {w : Nat} {v : Bool}
    (h : g.access w v = some .joinSpinners) : g = .spinEnter := by
  cases g <;> simp [access] at h ⊢ <;> cases ‹Rouse› <;> simp [Rouse.access] at h

theorem access_eq_leaveSpinners {g : ShareStage} {w : Nat} {v : Bool}
    (h : g.access w v = some .leaveSpinners) : ∃ got, g = .spinLeave got := by
  cases g <;> simp [access] at h ⊢ <;> cases ‹Rouse› <;> simp [Rouse.access] at h

@[simp] theorem spinEnter_after_counted (a : Answer) : (spinEnter.after a).counted = true := by
  simp only [after]
  split_ifs <;> rfl

theorem spinEnter_after_spinning (a : Answer) :
    (spinEnter.after a).spinning = true ↔ a.count < maxSpinners := by
  simp only [after]
  split_ifs with h <;> simp [spinning, h]

theorem spinLeave_after_counted (got : Option Entity) (a : Answer) :
    ((spinLeave got).after a).counted = false := by
  cases got <;> rfl

theorem spinLeave_after_spinning (got : Option Entity) (a : Answer) :
    ((spinLeave got).after a).spinning = false := by
  cases got <;> rfl

theorem counted_of_spinning {g : ShareStage} (h : g.spinning = true) : g.counted = true := by
  cases g <;> simp_all [spinning, counted]

@[simp] theorem counted_nextPoll (l k : Nat) : (nextPoll l k).counted = true := by
  cases l <;> rfl

/-- A step that neither joins nor leaves the spinners keeps a worker counted or not, and
never starts it spinning. -/
theorem counted_after {g : ShareStage} {w : Nat} {v : Bool} {acc : ShareAccess} {a : Answer}
    (hacc : g.access w v = some acc) (hj : acc ≠ .joinSpinners) (hl : acc ≠ .leaveSpinners) :
    (g.after a).counted = g.counted ∧ ((g.after a).spinning = true → g.spinning = true) := by
  cases g <;> simp [access] at hacc <;> subst hacc <;> simp at hj hl
  all_goals simp only [after]
  all_goals (repeat' split) <;> (try simp only [counted_nextPoll]) <;> simp [counted, spinning]

end ShareStage

/-- Replacing one element changes a count by that element's indicator only. -/
theorem countP_set_add {α : Type} {p : α → Bool} {ws : List α} {w : Nat} {x : α}
    (hx : ws[w]? = some x) (x' : α) :
    (ws.set w x').countP p + (if p x then 1 else 0) = ws.countP p + (if p x' then 1 else 0) := by
  obtain ⟨hlt, hxw⟩ := List.getElem?_eq_some_iff.1 hx
  have hle := List.boole_getElem_le_countP (p := p) hlt
  rw [List.countP_set hlt, hxw]
  rw [hxw] at hle
  omega

theorem ShareFeed.access_spinning (f : ShareFeed) :
    f.access ≠ .joinSpinners ∧ f.access ≠ .leaveSpinners := by
  cases f <;> (try cases ‹List _›) <;> (try cases ‹Rouse›) <;>
    simp [ShareFeed.access, Rouse.access]

theorem ShareHub.access_spinning {h h' : ShareHub} {acc : ShareAccess} {a : Answer}
    (hs : h.access acc = some (h', a)) (hj : acc ≠ .joinSpinners) (hl : acc ≠ .leaveSpinners) :
    h'.spinning = h.spinning := by
  cases acc <;> simp at hj hl <;> simp [ShareHub.access, ShareHub.clearParked] at hs
  all_goals first
    | (obtain ⟨rfl, -⟩ := hs; rfl)
    | (obtain ⟨_, -, rfl, -⟩ := hs; rfl)
    | (split_ifs at hs <;> simp at hs <;> obtain ⟨rfl, -⟩ := hs <;> rfl)

namespace ShareWorld
variable {s s' : ShareWorld} {acc : ShareAccess} {a : Answer}

/-- The spinner count counts the workers between joining and leaving it, and at most two of
them spin. -/
structure SpinCount (s : ShareWorld) : Prop where
  count : s.hub.spinning = s.workers.countP (·.stage.counted)
  spinners : s.workers.countP (·.stage.spinning) ≤ maxSpinners

theorem countP_spinning_le (ws : List ShareWorker) :
    ws.countP (·.stage.spinning) ≤ ws.countP (·.stage.counted) :=
  List.countP_mono_left (fun _ _ hx => ShareStage.counted_of_spinning hx)

theorem SpinCount.step_worker (hc : SpinCount s) {w : Nat}
    (hs : s.step (.worker w) = some (s', acc, a)) : SpinCount s' := by
  obtain ⟨x, hub, hx, hacc, hh, rfl⟩ := ShareWorld.step_worker hs
  -- both counts change only by the worker's own stage
  have hcnt := countP_set_add (p := (·.stage.counted)) hx { x with stage := x.stage.after a }
  have hspn := countP_set_add (p := (·.stage.spinning)) hx { x with stage := x.stage.after a }
  dsimp only at hcnt hspn
  have hle := countP_spinning_le s.workers
  have hmax := hc.spinners
  have hC := hc.count
  simp only [maxSpinners] at hmax
  by_cases hj : acc = .joinSpinners
  · -- joining: counted from now on, and spinning only if fewer than two were counted
    subst hj
    have hg := ShareStage.access_eq_joinSpinners hacc
    simp only [ShareHub.access, Option.some.injEq, Prod.mk.injEq] at hh
    obtain ⟨rfl, rfl⟩ := hh
    have h1 : x.stage.counted = false := by rw [hg]; rfl
    have h2 : x.stage.spinning = false := by rw [hg]; rfl
    have h3 : (x.stage.after { count := s.hub.spinning }).counted = true := by
      rw [hg]; exact ShareStage.spinEnter_after_counted _
    rw [h1, h3] at hcnt
    rw [h2] at hspn
    simp only [Bool.false_eq_true, if_false, if_true, Nat.add_zero] at hcnt hspn
    refine ⟨by dsimp only; omega, ?_⟩
    dsimp only
    by_cases h4 : (x.stage.after { count := s.hub.spinning }).spinning = true
    · -- it spins: fewer than two were counted, so at most one spun
      have h5 := (ShareStage.spinEnter_after_spinning _).1 (hg ▸ h4)
      simp only [h4, if_true] at hspn
      simp only [maxSpinners] at h5 ⊢
      omega
    · simp only [h4, Bool.false_eq_true, if_false, Nat.add_zero] at hspn
      simp only [maxSpinners]
      omega
  · by_cases hl : acc = .leaveSpinners
    · -- leaving: counted no more
      subst hl
      obtain ⟨got, hg⟩ := ShareStage.access_eq_leaveSpinners hacc
      simp only [ShareHub.access, Option.some.injEq, Prod.mk.injEq] at hh
      obtain ⟨rfl, rfl⟩ := hh
      have h1 : x.stage.counted = true := by rw [hg]; rfl
      have h2 : (x.stage.after {}).counted = false := by
        rw [hg]; exact ShareStage.spinLeave_after_counted got _
      have h3 : (x.stage.after {}).spinning = false := by
        rw [hg]; exact ShareStage.spinLeave_after_spinning got _
      rw [h1, h2] at hcnt
      rw [h3] at hspn
      simp only [Bool.false_eq_true, if_false, if_true, Nat.add_zero] at hcnt hspn
      refine ⟨by dsimp only; omega, ?_⟩
      dsimp only
      simp only [maxSpinners]
      split_ifs at hspn <;> omega
    · -- any other step keeps the worker counted or not, and starts no spin
      obtain ⟨hsame, hspin⟩ := ShareStage.counted_after (a := a) hacc hj hl
      rw [hsame] at hcnt
      refine ⟨?_, ?_⟩ <;> dsimp only
      · rw [ShareHub.access_spinning hh hj hl, hC]
        omega
      · simp only [maxSpinners]
        -- the worker spins after the step only if it spun before
        by_cases h1 : (x.stage.after a).spinning = true
        · simp only [h1, hspin h1, if_true] at hspn
          omega
        · simp only [h1, Bool.false_eq_true, if_false, Nat.add_zero] at hspn
          split_ifs at hspn <;> omega

theorem SpinCount.step (hc : SpinCount s) {p : Party} (hs : s.step p = some (s', acc, a)) :
    SpinCount s' := by
  cases p with
  | worker w => exact hc.step_worker hs
  | producer q =>
    obtain ⟨hh, hw, -, f, rfl⟩ := ShareWorld.step_producer hs
    obtain ⟨hj, hl⟩ := f.access_spinning
    exact ⟨by rw [ShareHub.access_spinning hh hj hl, hw, hc.count],
      by rw [hw]; exact hc.spinners⟩
  | stopper =>
    obtain ⟨hub, hacc, hh, rfl⟩ := ShareWorld.step_stopper hs
    have hj : acc ≠ .joinSpinners ∧ acc ≠ .leaveSpinners := by
      cases hk : s.stopper <;> simp [hk, ShareStop.access] at hacc <;> subst hacc <;> simp
    exact ⟨by rw [ShareHub.access_spinning hh hj.1 hj.2]; exact hc.count, hc.spinners⟩

theorem SpinCount.next (hc : SpinCount s) (p : Party) : SpinCount (s.next p) := by
  unfold ShareWorld.next
  split
  · exact hc.step ‹_›
  · exact hc

/-- The spinner count counts the spinning workers in every state a schedule reaches. -/
theorem Reachable.spinCount (h : Reachable s) : SpinCount s := by
  induction h with
  | start q victims foreign programs _ =>
    -- every worker starts at the top of its loop
    have hc : (ShareWorld.start q victims foreign programs).workers.countP (·.stage.counted) = 0 :=
      List.countP_eq_zero.2 (by simp [ShareWorld.start, ShareStage.counted, ShareStage.spinning])
    refine ⟨by rw [hc]; rfl, ?_⟩
    have := countP_spinning_le (ShareWorld.start q victims foreign programs).workers
    simp only [maxSpinners]
    omega
  | next p _ ih => exact ih.next p

/-- **The spinner count of a group on one run queue**: in every state a schedule reaches, the
count equals the number of workers between joining it and leaving it, and at most two workers
spin at once. -/
theorem spinners_counted (h : Reachable s) :
    s.hub.spinning = s.workers.countP (·.stage.counted) ∧
      s.workers.countP (·.stage.spinning) ≤ maxSpinners :=
  ⟨h.spinCount.count, h.spinCount.spinners⟩

theorem spinners_counted_three_workers :
    ((start { size := 3, capacity := 8 } [] [] []).run
        [.worker 0, .worker 1, .worker 2, .worker 0]).hub.spinning =
      ((start { size := 3, capacity := 8 } [] [] []).run
        [.worker 0, .worker 1, .worker 2, .worker 0]).workers.countP (·.stage.counted) ∧
    ((start { size := 3, capacity := 8 } [] [] []).run
      [.worker 0, .worker 1, .worker 2, .worker 0]).workers.countP (·.stage.spinning) ≤
      maxSpinners :=
  spinners_counted ((Reachable.start _ [] [] [] rfl).run _)

/-! ## 11. What the stop guarantees of every run -/

theorem exec_fst (s : ShareWorld) (schedule : List Party) :
    (s.exec schedule).1 = s.run schedule := by
  induction schedule generalizing s with
  | nil => rfl
  | cons p rest ih =>
    simp only [ShareWorld.exec, ShareWorld.run, List.foldl_cons, ShareWorld.next]
    split
    · rename_i s' acc a hs
      simpa [hs, ShareWorld.run] using ih s'
    · rename_i hs
      simpa [hs, ShareWorld.run] using ih s

/-- What the stop guarantees of a run of a group on one run queue, read off its last state
`s` and its log. -/
structure Stops (s : ShareWorld) (log : List (Party × ShareAccess × Answer)) : Prop where
  /-- Once the stop has completed, every worker still in its loop can take its step. -/
  moves : s.stopper = .done → ∀ (w : Nat) (x : ShareWorker), s.workers[w]? = some x →
    x.stage ≠ .exited → (s.step (.worker w)).isSome
  /-- A worker out of its loop left after the stop set the flag, through a pop that found
  nothing, a read of the flag set and the clearing of its parked bit. -/
  exits : ∀ (w : Nat) (x : ShareWorker), s.workers[w]? = some x → x.stage = .exited →
    s.stopper ≠ .store ∧ leavingTrail w <:+ accessesOf log w
  /-- Once the stop has completed and the queues have drained, a worker given sixteen turns
  has left its loop. -/
  joins : s.stopper = .done → Drained s → ∀ (w : Nat) (x : ShareWorker),
    s.workers[w]? = some x → ∀ schedule : List Party, 16 ≤ schedule.count (.worker w) →
      ∃ y, (s.run schedule).workers[w]? = some y ∧ y.stage = .exited

/-- Every run of a group started alive gives what the stop guarantees. -/
theorem stops (q : SharedQueue) (victims : List Bool) (foreign : List Entity)
    (programs : List (List ShareOp)) (hq : q.stopped = false) (schedule : List Party) :
    Stops ((start q victims foreign programs).exec schedule).1
      ((start q victims foreign programs).exec schedule).2 := by
  have hi : Inv ((start q victims foreign programs).exec schedule).1 := by
    rw [exec_fst]
    exact ((Reachable.start q victims foreign programs hq).run schedule).inv
  refine ⟨fun hdone w x hx hin => hi.worker_moves hdone hx hin, fun w x hx hexit => ⟨?_, ?_⟩,
    fun hdone hd w x hx sched hturns => hi.leaves hdone hd hx sched hturns⟩
  · -- it read the flag set, which only the stop stores
    have hst := hi.leaving w x hx (by simp [hexit, ShareStage.leaving])
    intro hk
    rw [hi.stopped, hk] at hst
    cases hst
  · exact exit_log q victims foreign programs schedule w x hx hexit

end ShareWorld
end Fibers
