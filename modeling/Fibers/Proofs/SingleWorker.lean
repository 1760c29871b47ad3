import Mathlib
import Fibers.Proofs.ExactlyOnce
/-!
# A group of one worker, and the line it runs

With one worker, a group hands its master the entities it queues in an order that one list
shows, its *line*. With the shared queue the line is the queue, from its front. With work
stealing it is the worker's pinned queue, then its deque, then the global queue: the order in
which the worker acquires from them (`Stealing.acquire_line`); a steal from the global queue
moves a batch into the empty deque and keeps that order. The reactor queue stands apart: the
worker looks at it every 61 acquisitions, and when it finds nothing else.

Making an entity ready puts it somewhere in the line, or in the reactor queue
(`Scheduler.push_line`); a yielded entity that is neither a reactor entity nor group-local
joins the line's tail (`Scheduler.push_line_yield`).

`Lifecycle.Single` is what a group started with one worker keeps at every step
(`Lifecycle.Single.run`): every fiber's view in order, one master, worker `0` on thread `2`,
and a scheduler of one worker whose queues hold entities of their class. The line of such a
group starts with what its master is about to run (`Lifecycle.line`); together with the
reactor queue, what the master holds aside and what the wakers are about to queue, it holds
every fiber held ready, and a fiber is held at most once (`Lifecycle.Single.count_holders`).
-/

namespace Fibers

namespace Stealing

variable {s s' : Stealing} {t i : Nat} {e : Entity}

/-! ## 1. The line of one worker -/

/-- What worker `0` acquires, in order, the reactor queue aside: its pinned queue, its deque,
then the global queue. -/
def line (s : Stealing) : List Entity := s.pinned.getD 0 [] ++ s.deque 0 ++ s.global.items

/-- A group of one worker, entered by thread `2`, whose queues hold entities of their class. -/
structure Single (s : Stealing) : Prop where
  size : s.size = 1
  entered : s.localIndex 2 = some 0
  classes : s.Classes

theorem line_eq_queueAt (s : Stealing) :
    s.line = s.queueAt (.pinned 0) ++ s.queueAt (.deque 0) ++ s.queueAt .global := rfl

/-- With one worker, a group holds the entities of its line and of its reactor queue. -/
theorem entities_perm_line (hw : s.WF) (hs : s.size = 1) :
    s.entities.Perm (s.line ++ s.reactor.items) := by
  obtain ⟨d, hd⟩ := List.length_eq_one_iff.mp (hw.deques.trans hs)
  obtain ⟨p, hp⟩ := List.length_eq_one_iff.mp (hw.pinned.trans hs)
  simp only [entities, line, deque, hd, hp, List.flatten_cons, List.flatten_nil, List.append_nil,
    List.getD_cons_zero]
  have h := (@List.perm_append_comm _ (s.global.items ++ s.reactor.items) (d ++ p)).trans
    ((@List.perm_append_comm _ d p).append_right (s.global.items ++ s.reactor.items))
  simpa only [List.append_assoc] using h

/-- The one worker of a group is worker `0`. -/
theorem localIndex_single (hw : s.WF) (hs : s.size = 1) (h : s.localIndex t = some i) : i = 0 := by
  have := hw.slots t i h
  omega

/-- With one worker, a ready entity goes to the reactor queue, or to the worker's pinned
queue, its deque or the global queue. -/
theorem Routes.single {y : Bool} {p : Place} (hw : s.WF) (hs : s.size = 1) (h : Routes s t e y p) :
    p = .reactor ∨ p = .pinned 0 ∨ p = .deque 0 ∨ p = .global := by
  cases h with
  | reactor => exact .inl rfl
  | home h _ _ _ hlt => exact .inr (.inl (by rw [show h = 0 by omega]))
  | caller i _ _ _ hi => exact .inr (.inl (by rw [localIndex_single hw hs hi]))
  | anyWorker i _ _ _ _ hlt => exact .inr (.inl (by rw [show i = 0 by omega]))
  | yielded => exact .inr (.inr (.inr rfl))
  | own i _ _ _ hi _ => exact .inr (.inr (.inl (by rw [localIndex_single hw hs hi])))
  | spill => exact .inr (.inr (.inr rfl))

/-- Making an entity ready puts it somewhere in the line, or leaves the line as it was when
the entity goes to the reactor queue. -/
theorem pushReady_line (hw : s.WF) (hs : s.size = 1) (e : Entity) (y : Bool) :
    (∃ A B, s.line = A ++ B ∧ (s.pushReady t e y).line = A ++ e :: B) ∨
      (s.pushReady t e y).line = s.line := by
  obtain ⟨p, hr, ha⟩ := pushReady_routes (t := t) hw e y
  unfold Added at ha
  simp only [line_eq_queueAt, ha]
  rcases hr.single hw hs with rfl | rfl | rfl | rfl
  · right
    simp
  · left
    exact ⟨s.queueAt (.pinned 0), s.queueAt (.deque 0) ++ s.queueAt .global, by simp, by simp⟩
  · left
    exact ⟨s.queueAt (.pinned 0) ++ s.queueAt (.deque 0), s.queueAt .global, by simp, by simp⟩
  · left
    exact ⟨s.queueAt (.pinned 0) ++ s.queueAt (.deque 0) ++ s.queueAt .global, [], by simp, by simp⟩

/-- A yielded entity that is neither a reactor entity nor group-local joins the tail of the
global queue, so the tail of the line. -/
theorem pushReady_line_yield (hr : e.reactor = false) (hg : e.groupLocal = false) :
    (s.pushReady t e true).line = s.line ++ [e] := by
  simp [pushReady, hr, hg, line, deque, Injector.items_push]

theorem size_pushReady (y : Bool) : (s.pushReady t e y).size = s.size := by
  unfold pushReady
  split_ifs <;> (try split) <;> (try split_ifs) <;> rfl

theorem localIndex_pushReady (y : Bool) (u : Nat) : (s.pushReady t e y).localIndex u = s.localIndex u := by
  unfold pushReady
  split_ifs <;> (try split) <;> (try split_ifs) <;> rfl

theorem Single.pushReady (hw : s.WF) (h : s.Single) (e : Entity) (y : Bool) : (s.pushReady t e y).Single :=
  ⟨(size_pushReady y).trans h.size, (localIndex_pushReady y 2).trans h.entered, pushReady_classes hw h.classes e y⟩

/-! ## 2. What the worker acquires -/

theorem tick_line (t : Nat) : (s.tick t).1.line = s.line ∧ (s.tick t).1.reactor = s.reactor := by
  unfold tick
  split <;> exact ⟨rfl, rfl⟩

theorem popPinned_line (h : s.popPinned 0 = (s', some e)) : s.line = e :: s'.line := by
  unfold popPinned at h
  split at h
  · simp at h
  · rename_i x rest hq
    simp only [Prod.mk.injEq, Option.some.injEq] at h
    obtain ⟨rfl, rfl⟩ := h
    have h0 : 0 < s.pinned.length := by
      rcases hp : s.pinned with _ | ⟨q, qs⟩
      · simp [hp] at hq
      · simp
    have hset : (s.pinned.set 0 rest).getD 0 [] = rest := by simp [List.getD_eq_getElem?_getD, h0]
    simp only [line, hq, hset, deque, List.cons_append]

theorem popPinned_empty (h : s.popPinned 0 = (s', none)) : s' = s ∧ s.pinned.getD 0 [] = [] := by
  unfold popPinned at h
  split at h
  · simp_all
  · simp at h

theorem popDeque_line (hp : s.pinned.getD 0 [] = []) (h : s.popDeque 0 = (s', some e)) :
    s.line = e :: s'.line := by
  unfold popDeque at h
  split at h
  · simp at h
  · rename_i x rest hq
    simp only [Prod.mk.injEq, Option.some.injEq] at h
    obtain ⟨rfl, rfl⟩ := h
    have h0 : 0 < s.deques.length := by
      rcases hd : s.deques with _ | ⟨q, qs⟩
      · simp [deque, hd] at hq
      · simp
    have hset : (s.deques.set 0 rest).getD 0 [] = rest := by simp [List.getD_eq_getElem?_getD, h0]
    rw [line, line, hq, hp]
    simp only [deque, hset, List.nil_append, List.cons_append]

theorem popDeque_empty (h : s.popDeque 0 = (s', none)) : s' = s ∧ s.deque 0 = [] := by
  unfold popDeque at h
  split at h
  · simp_all
  · simp at h

/-- A steal from the global queue into an empty deque keeps the order of the line. -/
theorem stealGlobal_line (hw : s.WF) (hl : s.localIndex t = some 0) (hp : s.pinned.getD 0 [] = [])
    (hd : s.deque 0 = []) (h : s.stealGlobal t = (s', some e)) : s.line = e :: s'.line := by
  unfold stealGlobal at h
  rw [hl] at h
  rcases hb : s.global.stealBatch with ⟨g, batch, o⟩
  simp only [hb, Prod.mk.injEq] at h
  obtain ⟨rfl, rfl⟩ := h
  have h0 : 0 < s.deques.length := by rw [hw.deques]; exact hw.pos
  have hmod : (s.deques.modify 0 (· ++ batch)).getD 0 [] = batch := by
    rw [getD_modify_self _ h0]
    exact congrArg (· ++ batch) hd
  simp only [line, deque, hp, hmod, Injector.stealBatch_some hb, List.nil_append]
  simpa [deque] using hd

theorem acquireReactor_line (h : s.acquireReactor = (s', some e)) : e ∈ s.reactor.items ∧ s'.line = s.line := by
  unfold acquireReactor at h
  rcases hsteal : s.reactor.steal with ⟨r, o⟩
  simp only [hsteal, Prod.mk.injEq] at h
  obtain ⟨rfl, rfl⟩ := h
  exact ⟨by simp [Injector.steal_some hsteal], rfl⟩

/-- **One acquisition of the one worker takes the front of its line**, or an entity of the
reactor queue, which leaves the line as it was. -/
theorem acquire_line (hw : s.WF) (hl : s.localIndex t = some 0) (h : s.acquire t 0 = (s', some e)) :
    s.line = e :: s'.line ∨ e ∈ s.reactor.items ∧ s'.line = s.line := by
  unfold acquire at h
  rcases ht : s.tick t with ⟨s₁, due⟩
  obtain ⟨hl₁, hr₁⟩ : s₁.line = s.line ∧ s₁.reactor = s.reactor := by simpa [ht] using tick_line (s := s) t
  have hw₁ : s₁.WF := by simpa [ht] using tick_wf hw t
  have hloc : s₁.localIndex t = some 0 := by rw [← hl]; simpa [ht] using localIndex_tick (s := s) t t
  simp only [ht] at h
  -- the reactor queue when due, then the pinned queue, the own deque and the global queue
  rcases hr : (if due = true then s₁.acquireReactor else (s₁, none)) with ⟨s₂, _ | e₂⟩
  · have hs₂ : s₂ = s₁ := by
      split at hr
      · exact acquireReactor_none hr rfl
      · simp only [Prod.mk.injEq] at hr
        exact hr.1.symm
    simp only [hr, hs₂] at h
    rw [← hl₁]
    left
    rcases hp : s₁.popPinned 0 with ⟨s₃, _ | e₃⟩
    · obtain ⟨hs₃, hp₀⟩ := popPinned_empty hp
      simp only [hp, hs₃] at h
      have hloc' : s₁.popLocal t = s₁.popDeque 0 := by simp [popLocal, hloc]
      rcases hd : s₁.popDeque 0 with ⟨s₄, _ | e₄⟩
      · obtain ⟨hs₄, hd₀⟩ := popDeque_empty hd
        simp only [hloc', hd, hs₄] at h
        exact stealGlobal_line hw₁ hloc hp₀ hd₀ h
      · simp only [hloc', hd, Prod.mk.injEq, Option.some.injEq] at h
        obtain ⟨rfl, rfl⟩ := h
        exact popDeque_line hp₀ hd
    · simp only [hp, Prod.mk.injEq, Option.some.injEq] at h
      obtain ⟨rfl, rfl⟩ := h
      exact popPinned_line hp
  · simp only [hr, Prod.mk.injEq, Option.some.injEq] at h
    obtain ⟨rfl, rfl⟩ := h
    split at hr
    · obtain ⟨hm, hl'⟩ := acquireReactor_line hr
      exact .inr ⟨hr₁ ▸ hm, hl'.trans hl₁⟩
    · simp at hr

/-- An acquisition that finds nothing only counts itself. -/
theorem acquire_none (h : s.acquire t i = (s', none)) : s' = (s.tick t).1 := by
  unfold acquire at h
  rcases ht : s.tick t with ⟨s₁, due⟩
  simp only [ht] at h
  rcases hr : (if due = true then s₁.acquireReactor else (s₁, none)) with ⟨s₂, _ | e₂⟩
  · have hs₂ : s₂ = s₁ := by
      split at hr
      · exact acquireReactor_none hr rfl
      · simp only [Prod.mk.injEq] at hr
        exact hr.1.symm
    simp only [hr] at h
    rcases hp : s₂.popPinned i with ⟨s₃, _ | e₃⟩
    · rw [popPinned_none hp rfl] at hp
      simp only [hp] at h
      rcases hl : s₂.popLocal t with ⟨s₄, _ | e₄⟩
      · rw [popLocal_none hl rfl] at hl
        simp only [hl] at h
        rw [stealGlobal_none h rfl, hs₂]
      · simp [hl] at h
    · simp [hp] at h
  · simp [hr] at h

/-- A worker with no peers steals nothing from them. -/
theorem stealFromPeers_single (hs : s.size = 1) (i : Nat) : s.stealFromPeers i = (s, none) := by
  simp [stealFromPeers, hs]

theorem Single.took (h : s.Single) (ht : Took s s' e) (hd : Drawn s s') : s'.Single :=
  ⟨ht.2.1.trans h.size, (ht.2.2.2 2).trans h.entered, h.classes.drawn hd⟩

theorem Single.kept (h : s.Single) (hk : Kept s s') (hd : Drawn s s') : s'.Single :=
  ⟨hk.2.1.trans h.size, (hk.2.2.2 2).trans h.entered, h.classes.drawn hd⟩

end Stealing

namespace Scheduler

variable {s s' : Scheduler} {t i : Nat} {e : Entity} {y : Bool} {o : Option Entity}

/-! ## 3. The line of a scheduler of one worker -/

/-- The entities the one worker of a group runs, in order, the reactor queue aside. -/
def line : Scheduler → List Entity
  | .shared q => q.queue
  | .stealing st => st.line

/-- The reactor queue; the shared queue keeps none apart. -/
def reactorItems : Scheduler → List Entity
  | .shared _ => []
  | .stealing st => st.reactor.items

/-- A scheduler of one worker: a shared queue, or a work-stealing group of one worker. -/
def Single : Scheduler → Prop
  | .shared _ => True
  | .stealing st => st.Single

theorem entities_perm_line (hw : s.WF) (hs : s.Single) : s.entities.Perm (s.line ++ s.reactorItems) := by
  cases s with
  | shared q => simp [entities, line, reactorItems]
  | stealing st => exact Stealing.entities_perm_line hw hs.size

/-- Every queued entity is in the line, but a reactor entity with work stealing. -/
theorem mem_line (hw : s.WF) (hs : s.Single) (he : e ∈ s.entities)
    (hr : s.isShared = false → e.reactor = false) : e ∈ s.line := by
  rcases List.mem_append.mp ((entities_perm_line hw hs).subset he) with h | h
  · exact h
  · cases s with
    | shared q => simp [reactorItems] at h
    | stealing st =>
      have := hs.classes.reactor e h
      simp [Stealing.Place.admits, hr rfl] at this

/-- **Making an entity ready puts it somewhere in the line**, or in the reactor queue. -/
theorem push_line (hw : s.WF) (hs : s.Single) (h : s.push t e y = some s') :
    (∃ A B, s.line = A ++ B ∧ s'.line = A ++ e :: B) ∨ s'.line = s.line := by
  cases s with
  | shared q =>
    simp only [push, Option.map_eq_some_iff] at h
    obtain ⟨q', hq, rfl⟩ := h
    unfold SharedQueue.push at hq
    split at hq
    · simp at hq
    · simp only [Option.some.injEq] at hq
      subst hq
      exact .inl ⟨q.queue, [], by simp [line], by simp [line]⟩
  | stealing st =>
    simp only [push, Option.some.injEq] at h
    subst h
    exact Stealing.pushReady_line hw hs.size e y

/-- **A yielded entity joins the tail of the line**, unless with work stealing it is a
reactor entity or group-local. -/
theorem push_line_yield (hf : s.isShared = false → e.reactor = false ∧ e.groupLocal = false)
    (h : s.push t e true = some s') : s'.line = s.line ++ [e] := by
  cases s with
  | shared q =>
    simp only [push, Option.map_eq_some_iff] at h
    obtain ⟨q', hq, rfl⟩ := h
    unfold SharedQueue.push at hq
    split at hq
    · simp at hq
    · simp only [Option.some.injEq] at hq
      subst hq
      rfl
  | stealing st =>
    simp only [push, Option.some.injEq] at h
    subst h
    obtain ⟨hr, hg⟩ := hf rfl
    exact Stealing.pushReady_line_yield hr hg

/-- **The worker takes the front of its line**, or an entity of the reactor queue. -/
theorem take_line (hw : s.WF) (hs : s.Single) (h : s.take 2 0 = (s', some e)) :
    s.line = e :: s'.line ∨ e ∈ s.reactorItems ∧ s'.line = s.line := by
  cases s with
  | shared q =>
    simp only [take] at h
    unfold SharedQueue.pop at h
    split at h
    · simp at h
    · rename_i x rest hq
      simp only [Prod.mk.injEq, Option.some.injEq] at h
      obtain ⟨rfl, rfl⟩ := h
      exact .inl (by simp [line, hq])
  | stealing st =>
    rcases ha : st.acquire 2 0 with ⟨st₁, _ | e₁⟩
    · -- nothing in the line: the reactor queue is the last place the worker looks
      have hst₁ := Stealing.acquire_none ha
      have hsz : st₁.size = 1 := (Stealing.acquire_kept hw ha).2.1.trans hs.size
      obtain ⟨hl₁, hr₁⟩ := Stealing.tick_line (s := st) 2
      rw [← hst₁] at hl₁ hr₁
      rcases hr : st₁.acquireReactor with ⟨st₂, o₂⟩
      simp only [take, ha, Stealing.stealFromPeers_single hsz, hr, Prod.mk.injEq] at h
      obtain ⟨rfl, rfl⟩ := h
      obtain ⟨hm, hl₂⟩ := Stealing.acquireReactor_line hr
      exact .inr ⟨by simpa [reactorItems, hr₁] using hm, by simpa [line] using hl₂.trans hl₁⟩
    · simp only [take, ha, Prod.mk.injEq, Option.some.injEq] at h
      obtain ⟨rfl, rfl⟩ := h
      exact Stealing.acquire_line hw hs.entered ha

/-- A suspending fiber hands over the front of the line, if anything. -/
theorem handOff_line (h : s.handOff = (s', o)) : s.line = o.toList ++ s'.line := by
  cases s with
  | shared q =>
    simp only [handOff] at h
    unfold SharedQueue.pop at h
    split at h
    · rename_i hq
      simp only [Prod.mk.injEq] at h
      obtain ⟨rfl, rfl⟩ := h
      simp [line, hq]
    · rename_i x rest hq
      simp only [Prod.mk.injEq] at h
      obtain ⟨rfl, rfl⟩ := h
      simp [line, hq]
  | stealing st =>
    simp only [handOff, Prod.mk.injEq] at h
    obtain ⟨rfl, rfl⟩ := h
    rfl

theorem take_single (hw : s.WF) (hs : s.Single) (h : s.take t i = (s', some e)) : s'.Single := by
  cases s with
  | shared q =>
    rcases hq : q.pop with ⟨q', o'⟩
    simp only [take, hq, Prod.mk.injEq] at h
    obtain ⟨rfl, -⟩ := h
    trivial
  | stealing st =>
    rcases ha : st.acquire t i with ⟨st₁, _ | e₁⟩
    · have hk := Stealing.acquire_kept hw ha
      have hs₁ := hs.kept hk (Stealing.acquire_drawn ha)
      rcases hr : st₁.acquireReactor with ⟨st₂, _ | e₂⟩
      · simp [take, ha, Stealing.stealFromPeers_single hs₁.size, hr] at h
      · simp only [take, ha, Stealing.stealFromPeers_single hs₁.size, hr, Prod.mk.injEq] at h
        obtain ⟨rfl, -⟩ := h
        exact hs₁.took (Stealing.acquireReactor_took hk.2.2.1 hr) (Stealing.acquireReactor_drawn hr)
    · simp only [take, ha, Prod.mk.injEq] at h
      obtain ⟨rfl, -⟩ := h
      exact hs.took (Stealing.acquire_took hw ha) (Stealing.acquire_drawn ha)

/-- How one step of a group moves its scheduler: not at all, or by one push, one take or one
hand-off. -/
inductive Move (s : Scheduler) : Scheduler → Prop
  | stay : Move s s
  | push {t : Nat} {e : Entity} {y : Bool} {s' : Scheduler} : s.push t e y = some s' → Move s s'
  | take {t i : Nat} {e : Entity} {s' : Scheduler} : s.take t i = (s', some e) → Move s s'
  | handOff {o : Option Entity} {s' : Scheduler} : s.handOff = (s', o) → Move s s'

theorem Single.move (hw : s.WF) (hs : s.Single) (h : s.Move s') : s'.Single := by
  cases h with
  | stay => exact hs
  | push hp =>
    cases s with
    | shared q =>
      simp only [push, Option.map_eq_some_iff] at hp
      obtain ⟨q', -, rfl⟩ := hp
      trivial
    | stealing st =>
      simp only [push, Option.some.injEq] at hp
      subst hp
      exact Stealing.Single.pushReady hw hs _ _
  | take ht => exact take_single hw hs ht
  | handOff ho =>
    cases s with
    | shared q =>
      rcases hq : q.pop with ⟨q', o'⟩
      simp only [handOff, hq, Prod.mk.injEq] at ho
      obtain ⟨rfl, -⟩ := ho
      trivial
    | stealing st =>
      simp only [handOff, Prod.mk.injEq] at ho
      obtain ⟨rfl, -⟩ := ho
      exact hs

theorem Move.isShared (h : s.Move s') : s'.isShared = s.isShared := by
  cases h with
  | stay => rfl
  | push hp =>
    cases s with
    | shared q =>
      simp only [Scheduler.push, Option.map_eq_some_iff] at hp
      obtain ⟨q', -, rfl⟩ := hp
      rfl
    | stealing st =>
      simp only [Scheduler.push, Option.some.injEq] at hp
      subst hp
      rfl
  | @take t i e s' ht =>
    cases s with
    | shared q =>
      rcases hq : q.pop with ⟨q', o'⟩
      simp only [Scheduler.take, hq, Prod.mk.injEq] at ht
      obtain ⟨rfl, -⟩ := ht
      rfl
    | stealing st =>
      rcases ha : st.acquire t i with ⟨st₁, _ | e₁⟩
      · rcases hp : st₁.stealFromPeers i with ⟨st₂, _ | e₂⟩
        · rcases hr : st₂.acquireReactor with ⟨st₃, o₃⟩
          simp only [Scheduler.take, ha, hp, hr, Prod.mk.injEq] at ht
          rw [← ht.1]
          rfl
        · simp only [Scheduler.take, ha, hp, Prod.mk.injEq] at ht
          rw [← ht.1]
          rfl
      · simp only [Scheduler.take, ha, Prod.mk.injEq] at ht
        rw [← ht.1]
        rfl
  | handOff ho =>
    cases s with
    | shared q =>
      rcases hq : q.pop with ⟨q', o'⟩
      simp only [Scheduler.handOff, hq, Prod.mk.injEq] at ho
      obtain ⟨rfl, -⟩ := ho
      rfl
    | stealing st =>
      simp only [Scheduler.handOff, Prod.mk.injEq] at ho
      obtain ⟨rfl, -⟩ := ho
      rfl

end Scheduler

namespace MasterPhase

/-- What the master is about to run, or was handed to run next. -/
def nextUp : MasterPhase → List Entity
  | .run e => [e]
  | .switched _ (.suspend next) | .switched _ (.yield next) | .requeue _ _ next => next.toList
  | _ => []

/-- The fiber the master holds ready and does not run next: the fiber it is to queue again, or
the one a dispatch switched to, before the master looks it up. -/
def spare : MasterPhase → List Nat
  | .switched _ (.switchTo t) => [t]
  | .requeue f _ _ => [f]
  | _ => []

theorem holds_perm (p : MasterPhase) : p.holds.Perm (p.nextUp.map Entity.id ++ p.spare) := by
  cases p with
  | switched f a => cases a <;> simp [holds, nextUp, spare, SwitchAction.holds]
  | requeue f y next => simpa [holds, nextUp, spare] using @List.perm_append_comm _ [f] (next.toList.map Entity.id)
  | _ => simp [holds, nextUp, spare]

@[simp] theorem nextUp_after (next : Option Entity) : (Lifecycle.after next).nextUp = next.toList := by
  cases next <;> rfl

end MasterPhase

/-- Whether a fiber is a reactor fiber, and whether it is group-local. -/
def FiberCell.kind (c : FiberCell) : Bool × Bool := (c.reactor, c.groupLocal)

namespace Lifecycle

variable {l l' : Lifecycle} {a : Turn} {i f g r : Nat} {e : Entity}

/-! ## 4. A group of one worker -/

/-- The workers of a group: each master's thread and worker index. -/
def crew (l : Lifecycle) : List (Nat × Nat) := l.masters.map (fun m => (m.thread, m.index))

@[simp] theorem crew_setPhase (p : MasterPhase) : (l.setPhase i p).crew = l.crew := by
  simp only [crew, setPhase]
  apply List.ext_getElem (by simp)
  intro j h₁ h₂
  simp only [List.getElem_map, List.getElem_modify]
  split <;> rfl

@[simp] theorem crew_updateFiber (F : FiberCell → FiberCell) : (l.updateFiber f F).crew = l.crew := rfl
@[simp] theorem crew_setSched (s : Scheduler) : (l.setSched s).crew = l.crew := rfl
@[simp] theorem crew_addFiber (c : FiberCell) : (l.addFiber c).crew = l.crew := rfl

/-- A change of one fiber that keeps what kind of fiber it is keeps the kinds of all. -/
theorem kind_updateFiber {F : FiberCell → FiberCell} (hF : ∀ c, (F c).kind = c.kind) (g : Nat) :
    ((l.updateFiber f F).fiber g).kind = (l.fiber g).kind := by
  by_cases hg : g = f
  · subst hg
    by_cases hlt : g < l.fibers.length
    · rw [fiber_updateFiber_self hlt]
      exact hF _
    · simp [updateFiber, fiber, List.getD_eq_getElem?_getD, List.getElem?_eq_none (not_lt.mp hlt)]
  · rw [fiber_updateFiber_ne hg]

/-- The line of a group of one worker: what its master is about to run, then the line of its
scheduler. -/
def line (l : Lifecycle) : List Entity := (l.master 0).phase.nextUp ++ l.sched.line

/-- What a turn launches: the entity a master about to run one runs, when it takes its step. -/
def launched (l : Lifecycle) : Turn → List Entity
  | .master i =>
    match (l.master i).phase, l.step (.master i) with
    | .run e, .ok (some _) => [e]
    | _, _ => []
  | .waker _ _ => []

/-- The fibers that wakers are about to queue. -/
def woken (l : Lifecycle) : List Nat := l.wakers.flatMap (·.phase.holds)

/-- The entities that may join the line at a step: a new fiber's, the one a waker is about to
queue, and that of the fiber the master holds aside. -/
def Joins (l : Lifecycle) (x : Entity) : Prop :=
  l.fibers.length ≤ x.id ∨ x.id ∈ l.woken ∨ x.id ∈ (l.master 0).phase.spare

/-- The entities that may go to the front of the line: one from the reactor queue, and that of
the fiber the master holds aside. -/
def Cuts (l : Lifecycle) (x : Entity) : Prop :=
  x ∈ l.sched.reactorItems ∨ x.id ∈ (l.master 0).phase.spare

/-- How one step of a group of one worker moves its line, with what the step launches. -/
inductive LineStep (l : Lifecycle) : List Entity → List Entity → Prop
  | keep : LineStep l [] l.line
  | join {A B : List Entity} {x : Entity} : l.line = A ++ B → l.Joins x → LineStep l [] (A ++ x :: B)
  | cut {x : Entity} : l.Cuts x → LineStep l [] (x :: l.line)
  | launch {x : Entity} {L : List Entity} : l.line = x :: L → LineStep l [x] L

theorem LineStep.of_eq {L : List Entity} (h : L = l.line) : LineStep l [] L := h ▸ .keep

/-- A group of one worker: every fiber's view in order, one master, worker `0` on thread `2`,
and a scheduler of one worker. -/
structure Single (l : Lifecycle) : Prop where
  inv : l.Inv
  crew : l.crew = [(2, 0)]
  sched : l.sched.Single

theorem Single.masters_eq (h : l.Single) : l.masters = [{ thread := 2, index := 0, phase := (l.master 0).phase }] := by
  have hc := h.crew
  unfold Lifecycle.crew at hc
  have hlen : l.masters.length = 1 := by simpa using congrArg List.length hc
  obtain ⟨m, hm⟩ := List.length_eq_one_iff.mp hlen
  rw [hm] at hc ⊢
  simp only [List.map_cons, List.map_nil, List.cons.injEq, Prod.mk.injEq, and_true] at hc
  simp [master, hm, ← hc.1, ← hc.2]

theorem Single.length (h : l.Single) : l.masters.length = 1 := by
  rw [h.masters_eq]
  rfl

theorem Single.master_zero (h : l.Single) : (l.master 0).thread = 2 ∧ (l.master 0).index = 0 := by
  have hm := h.masters_eq
  constructor
  · rw [master, hm]
    rfl
  · rw [master, hm]
    rfl

/-- The line after the master moves to a new phase. -/
theorem line_setPhase (h0 : 0 < l.masters.length) (p : MasterPhase) :
    (l.setPhase 0 p).line = p.nextUp ++ l.sched.line := by
  simp [line, master_setPhase_self h0]

theorem line_of_masters (hm : l'.masters = l.masters) :
    l'.line = (l.master 0).phase.nextUp ++ l'.sched.line := by
  simp [line, master, hm]

/-- Making a fiber ready changes only its state. -/
theorem markReady_some {st : FiberState} {l₁ : Lifecycle} (h : l.markReady f st = .ok (some l₁)) :
    l₁ = l.updateFiber f (fun c => { c with state := .ready }) := by
  unfold markReady at h
  dsimp only at h
  split_ifs at h <;> simp_all

/-! ## 5. How each step moves the line -/

theorem Single.seek_line (h : l.Single) (hp : (l.master 0).phase = .idle) (hs : l.seek 0 = some l') :
    l.sched.Move l'.sched ∧ l'.crew = l.crew ∧ LineStep l [] l'.line := by
  obtain ⟨ht, hi⟩ := h.master_zero
  unfold Lifecycle.seek at hs
  rw [ht, hi] at hs
  rcases hx : l.sched.take 2 0 with ⟨s, _ | x⟩
  · simp [hx] at hs
  simp only [hx, Option.some.injEq] at hs
  subst hs
  refine ⟨.take hx, by simp, ?_⟩
  rw [line_setPhase (by simp [h.length])]
  rcases Scheduler.take_line h.inv.sched h.sched hx with hfront | ⟨hr, hs'⟩
  · exact .of_eq (by simp [line, hp, MasterPhase.nextUp, hfront])
  · have hl : l.line = s.line := by simp [line, hp, MasterPhase.nextUp, hs']
    simpa [MasterPhase.nextUp, hl] using LineStep.cut (l := l) (.inl hr)

theorem Single.launch_line (h : l.Single) (hp : (l.master 0).phase = .run e)
    (hs : l.launch 0 e = .ok (some l')) : l.sched.Move l'.sched ∧ l'.crew = l.crew ∧ LineStep l [e] l'.line := by
  unfold Lifecycle.launch at hs
  dsimp only at hs
  split_ifs at hs <;> simp only [Except.ok.injEq, Option.some.injEq, reduceCtorEq] at hs
  all_goals
    subst hs
    refine ⟨by simp only [sched_setPhase, sched_updateFiber]; exact .stay, by simp, .launch ?_⟩
    rw [line_setPhase (by simp [h.length])]
    simp [line, hp, MasterPhase.nextUp]

theorem Single.perform_line (h : l.Single) (hp : (l.master 0).phase = .running f) (hs : l.perform 0 f = some l') :
    l.sched.Move l'.sched ∧ l'.crew = l.crew ∧ LineStep l [] l'.line := by
  have hline : l.line = l.sched.line := by simp [line, hp, MasterPhase.nextUp]
  unfold Lifecycle.perform at hs
  rcases hprog : (l.fiber f).program with _ | ⟨op, rest⟩
  · simp only [hprog, Option.some.injEq] at hs
    subst hs
    refine ⟨by simp only [sched_setPhase, sched_updateFiber]; exact .stay, by simp, .of_eq ?_⟩
    rw [line_setPhase (by simp [h.length]), hline]
    rfl
  cases op with
  | work =>
    simp only [hprog, Option.some.injEq] at hs
    subst hs
    exact ⟨.stay, rfl, .of_eq rfl⟩
  | wait =>
    simp only [hprog] at hs
    split_ifs at hs
    simp only [Option.some.injEq] at hs
    subst hs
    refine ⟨by simp only [sched_setPhase, sched_updateFiber]; exact .stay, by simp, .of_eq ?_⟩
    rw [line_setPhase (by simp [h.length]), hline]
    rfl
  | yield =>
    simp only [hprog, sched_updateFiber] at hs
    cases hsc : l.sched with
    | shared q =>
      simp only [hsc] at hs
      rcases hpop : q.pop with ⟨q', _ | x⟩
      · simp only [hpop, Option.some.injEq] at hs
        subst hs
        exact ⟨by simp only [sched_updateFiber, hsc]; exact .stay, rfl, .of_eq rfl⟩
      · simp only [hpop, Option.some.injEq] at hs
        subst hs
        have ho : (Scheduler.shared q).handOff = (.shared q', some x) := by simp [Scheduler.handOff, hpop]
        refine ⟨by simp only [sched_setPhase, sched_setSched]; exact .handOff ho, by simp, .of_eq ?_⟩
        rw [line_setPhase (by simp [h.length]), hline, hsc, Scheduler.handOff_line ho]
        rfl
    | stealing st =>
      simp only [hsc, Option.some.injEq] at hs
      subst hs
      refine ⟨by simp only [sched_setPhase, sched_updateFiber, hsc]; exact .stay, by simp, .of_eq ?_⟩
      rw [line_setPhase (by simp [h.length]), hline]
      rfl
  | spawn gl rc body =>
    simp only [hprog] at hs
    rcases hpush : l.sched.push (l.master 0).thread
      (({ program := body, groupLocal := gl, reactor := rc } : FiberCell).entity l.fibers.length) false with
      _ | s
    · simp [hpush] at hs
    simp only [hpush, Option.some.injEq] at hs
    subst hs
    refine ⟨by simp only [sched_addFiber, sched_setSched]; exact .push hpush, by simp, ?_⟩
    rw [line_of_masters (l := l) (by simp)]
    simp only [hp, MasterPhase.nextUp, List.nil_append, sched_addFiber, sched_setSched]
    rcases Scheduler.push_line h.inv.sched h.sched hpush with ⟨A, B, hA, hB⟩ | hsame
    · rw [hB]
      exact .join (hline.trans hA) (.inl (by simp [FiberCell.entity]))
    · exact .of_eq (hsame.trans hline.symm)
  | dispatch gl rc body =>
    simp only [hprog, Option.some.injEq] at hs
    subst hs
    refine ⟨by simp only [sched_setPhase, sched_addFiber, sched_updateFiber]; exact .stay, by simp, .of_eq ?_⟩
    rw [line_setPhase (by simp [h.length]), hline]
    rfl

theorem Single.suspendStep_line (h : l.Single) {st : SuspendStage} (hp : (l.master 0).phase = .suspending f st) :
    l.sched.Move (l.suspendStep 0 f st).sched ∧ (l.suspendStep 0 f st).crew = l.crew ∧
      LineStep l [] (l.suspendStep 0 f st).line := by
  have hline : l.line = l.sched.line := by simp [line, hp, MasterPhase.nextUp]
  cases st with
  | publish =>
    refine ⟨by simp only [Lifecycle.suspendStep, sched_setPhase, sched_updateFiber]; exact .stay, by
      simp [Lifecycle.suspendStep], .of_eq ?_⟩
    rw [Lifecycle.suspendStep, line_setPhase (by simp [h.length]), hline]
    rfl
  | mark =>
    refine ⟨by simp only [Lifecycle.suspendStep, sched_setPhase, sched_updateFiber]; exact .stay, by
      simp [Lifecycle.suspendStep], .of_eq ?_⟩
    rw [Lifecycle.suspendStep, line_setPhase (by simp [h.length]), hline]
    rfl
  | pop =>
    rcases ho : l.sched.handOff with ⟨s, next⟩
    refine ⟨by simp only [Lifecycle.suspendStep, ho, sched_setPhase, sched_setSched]; exact .handOff ho, by
      simp [Lifecycle.suspendStep, ho], .of_eq ?_⟩
    rw [Lifecycle.suspendStep, ho]
    dsimp only
    rw [line_setPhase (by simp [h.length]), hline, Scheduler.handOff_line ho]
    rfl

theorem Single.afterSwitch_line (h : l.Single) {act : SwitchAction} (hp : (l.master 0).phase = .switched f act)
    (hs : l.afterSwitch 0 f act = .ok (some l')) :
    l.sched.Move l'.sched ∧ l'.crew = l.crew ∧ LineStep l [] l'.line := by
  cases act with
  | suspend next =>
    simp only [Lifecycle.afterSwitch, Except.ok.injEq, Option.some.injEq] at hs
    subst hs
    refine ⟨by simp only [sched_setPhase, sched_updateFiber]; exact .stay, by simp, .of_eq ?_⟩
    rw [line_setPhase (by simp [h.length]), MasterPhase.nextUp_after]
    simp [line, hp, MasterPhase.nextUp]
  | yield next =>
    rcases hm : l.markReady f .running with _ | _ | l₁
    · simp [Lifecycle.afterSwitch, hm, Except.map] at hs
    · simp [Lifecycle.afterSwitch, hm, Except.map] at hs
    simp only [Lifecycle.afterSwitch, hm, Except.map, Option.map_some, Except.ok.injEq, Option.some.injEq] at hs
    subst hs
    rw [markReady_some hm]
    refine ⟨by simp only [sched_setPhase, sched_updateFiber]; exact .stay, by simp, .of_eq ?_⟩
    rw [line_setPhase (by simp [h.length])]
    simp [line, hp, MasterPhase.nextUp]
  | switchTo t =>
    rcases hm : l.markReady f .running with _ | _ | l₁
    · simp [Lifecycle.afterSwitch, hm, Except.map] at hs
    · simp [Lifecycle.afterSwitch, hm, Except.map] at hs
    simp only [Lifecycle.afterSwitch, hm, Except.map, Option.map_some, Except.ok.injEq, Option.some.injEq] at hs
    subst hs
    rw [markReady_some hm]
    refine ⟨by simp only [sched_setPhase, sched_updateFiber]; exact .stay, by simp, ?_⟩
    rw [line_setPhase (by simp [h.length])]
    have hl : l.line = l.sched.line := by simp [line, hp, MasterPhase.nextUp]
    simpa [MasterPhase.nextUp, hl] using
      LineStep.cut (l := l) (x := (l.fiber t).entity t) (.inr (by simp [hp, MasterPhase.spare, FiberCell.entity]))

theorem Single.requeue_line (h : l.Single) {y : Bool} {next : Option Entity}
    (hp : (l.master 0).phase = .requeue f y next) (hs : l.requeue 0 f y next = some l') :
    l.sched.Move l'.sched ∧ l'.crew = l.crew ∧ LineStep l [] l'.line := by
  unfold Lifecycle.requeue at hs
  rcases hpush : l.sched.push (l.master 0).thread ((l.fiber f).entity f) y with _ | s
  · simp [hpush] at hs
  simp only [hpush, Option.some.injEq] at hs
  subst hs
  refine ⟨by simp only [sched_setPhase, sched_setSched]; exact .push hpush, by simp, ?_⟩
  rw [line_setPhase (by simp [h.length]), MasterPhase.nextUp_after]
  have hline : l.line = next.toList ++ l.sched.line := by simp [line, hp, MasterPhase.nextUp]
  rcases Scheduler.push_line h.inv.sched h.sched hpush with ⟨A, B, hA, hB⟩ | hsame
  · simp only [sched_setSched, hB, ← List.append_assoc]
    exact .join (by rw [hline, hA, List.append_assoc])
      (.inr (.inr (by simp [hp, MasterPhase.spare, FiberCell.entity])))
  · exact .of_eq (by rw [sched_setSched, hsame, hline])

/-- The master queues a yielded fiber that is neither a reactor fiber nor, with work stealing,
group-local: it joins the tail of the line. -/
theorem Single.requeue_line_yield (h : l.Single) {next : Option Entity}
    (hp : (l.master 0).phase = .requeue f true next)
    (hk : l.sched.isShared = false → (l.fiber f).kind = (false, false)) (hs : l.requeue 0 f true next = some l') :
    l'.line = l.line ++ [(l.fiber f).entity f] ∧ (l'.master 0).phase = after next := by
  unfold Lifecycle.requeue at hs
  rcases hpush : l.sched.push (l.master 0).thread ((l.fiber f).entity f) true with _ | s
  · simp [hpush] at hs
  simp only [hpush, Option.some.injEq] at hs
  subst hs
  have hs' := Scheduler.push_line_yield (fun hsh => by
    simpa [FiberCell.kind, FiberCell.entity] using hk hsh) hpush
  refine ⟨?_, by simp [master_setPhase_self (show 0 < (l.setSched s).masters.length by simp [h.length])]⟩
  rw [line_setPhase (by simp [h.length]), MasterPhase.nextUp_after]
  simp [line, hp, MasterPhase.nextUp, hs']

theorem Single.wakerStep_line (h : l.Single) (hs : l.wakerStep r g = .ok (some l')) :
    l.sched.Move l'.sched ∧ l'.masters = l.masters ∧ (∀ c, (l'.fiber c).kind = (l.fiber c).kind) ∧
      (l'.line = l.line ∨ ∃ A B x, l.line = A ++ B ∧ l'.line = A ++ x :: B ∧ x.id ∈ l.woken) := by
  unfold Lifecycle.wakerStep at hs
  by_cases hr : r < l.wakers.length
  · rw [if_pos hr] at hs
    cases hph : (l.waker r).phase with
    | idle =>
      simp only [hph] at hs
      split_ifs at hs <;> simp only [Except.ok.injEq, Option.some.injEq, reduceCtorEq] at hs
      subst hs
      exact ⟨.stay, rfl, fun c => by
        rw [fiber_setWakerPhase]
        refine kind_updateFiber ?_ c
        intro
        rfl, .inl rfl⟩
    | resume g' =>
      rcases hm : l.markReady g' .waiting with _ | _ | l₁
      · simp [hph, hm, Except.map] at hs
      · simp [hph, hm, Except.map] at hs
      simp only [hph, hm, Except.map, Option.map_some, Except.ok.injEq, Option.some.injEq] at hs
      subst hs
      rw [markReady_some hm]
      exact ⟨.stay, rfl, fun c => by
        rw [fiber_setWakerPhase]
        refine kind_updateFiber ?_ c
        intro
        rfl, .inl rfl⟩
    | push x =>
      simp only [hph] at hs
      rcases hpush : l.sched.push (l.waker r).thread x false with _ | s
      · simp [hpush] at hs
      simp only [hpush, Except.ok.injEq, Option.some.injEq] at hs
      subst hs
      refine ⟨.push hpush, rfl, fun c => rfl, ?_⟩
      have hmem : l.waker r ∈ l.wakers := by
        rw [waker, List.getD_eq_getElem _ _ hr]
        exact List.getElem_mem hr
      have hl' : ((l.setSched s).setWakerPhase r .idle).line = (l.master 0).phase.nextUp ++ s.line := rfl
      rw [hl']
      rcases Scheduler.push_line h.inv.sched h.sched hpush with ⟨A, B, hA, hB⟩ | hsame
      · refine .inr ⟨(l.master 0).phase.nextUp ++ A, B, x, by simp [line, hA], by simp [hB], ?_⟩
        exact List.mem_flatMap.mpr ⟨l.waker r, hmem, by simp [hph]⟩
      · exact .inl (by simp [line, hsame])
  · simp [hr] at hs

/-- **Every step of a group of one worker moves its line in one of four ways**: not at all;
an entity joins it, a new fiber's, a woken fiber's or the one its master queues again; one goes
to its front, from the reactor queue or a fiber started by dispatch; or the master launches
its front, and that is all a step launches. -/
theorem Single.step_line (h : l.Single) (hs : l.step a = .ok (some l')) :
    l.sched.Move l'.sched ∧ l'.crew = l.crew ∧ LineStep l (l.launched a) l'.line := by
  cases a with
  | master i =>
    have hs' := hs
    simp only [step, masterStep] at hs
    split_ifs at hs with hi
    · obtain rfl : i = 0 := by have := h.length; omega
      cases hp : (l.master 0).phase with
      | idle =>
        simp only [hp, Except.ok.injEq] at hs
        simpa [launched, hp] using h.seek_line hp hs
      | run e =>
        simp only [hp] at hs
        have hl : l.launched (.master 0) = [e] := by simp [launched, hp, hs']
        rw [hl]
        exact h.launch_line hp hs
      | running g =>
        simp only [hp, Except.ok.injEq] at hs
        simpa [launched, hp] using h.perform_line hp hs
      | suspending g st =>
        simp only [hp, Except.ok.injEq, Option.some.injEq] at hs
        subst hs
        simpa [launched, hp] using h.suspendStep_line hp
      | switched g act =>
        simp only [hp] at hs
        simpa [launched, hp] using h.afterSwitch_line hp hs
      | requeue g y next =>
        simp only [hp, Except.ok.injEq] at hs
        simpa [launched, hp] using h.requeue_line hp hs
    · simp at hs
  | waker r g =>
    obtain ⟨hm, hms, -, hline⟩ := h.wakerStep_line hs
    refine ⟨hm, by simp [Lifecycle.crew, hms], ?_⟩
    rcases hline with heq | ⟨A, B, x, hA, hB, hx⟩
    · exact .of_eq heq
    · rw [hB]
      exact .join hA (.inr (.inl hx))

/-- **A group of one worker stays one at every step.** -/
theorem Single.step (h : l.Single) (hs : l.step a = .ok (some l')) : l'.Single :=
  have hf := h.step_line hs
  ⟨h.inv.step hs, hf.2.1.trans h.crew, h.sched.move h.inv.sched hf.1⟩

theorem Single.next (h : l.Single) (a : Turn) : ∃ l', l.next a = .ok l' ∧ l'.Single := by
  obtain ⟨o, ho⟩ := h.inv.step_ok a
  cases o with
  | none => exact ⟨l, by simp [Lifecycle.next, ho], h⟩
  | some l₁ => exact ⟨l₁, by simp [Lifecycle.next, ho], h.step ho⟩

/-- **Every run of a group of one worker leaves a group of one worker.** -/
theorem Single.run (h : l.Single) {u : List Turn} (hr : l.run u = .ok l') : l'.Single := by
  induction u generalizing l with
  | nil =>
    simp only [Lifecycle.run, List.foldlM_nil, pure, Except.pure, Except.ok.injEq] at hr
    exact hr ▸ h
  | cons a rest ih =>
    obtain ⟨l₁, h₁, hs₁⟩ := h.next a
    simp only [Lifecycle.run, List.foldlM_cons, h₁] at hr
    exact ih hs₁ hr

/-- A group started with one worker is a group of one worker. -/
theorem Single.start {c : Config} {wakers : Nat} {root : List FiberOp}
    (h : Lifecycle.start c 1 wakers root = .ok l) : l.Single := by
  have hi := Inv.start h
  unfold Lifecycle.start at h
  rcases hc : Scheduler.create c 1 with a | s₀
  · simp [hc, bind, Except.bind] at h
  rcases he : s₀.enter 2 0 with a | s
  · simp [hc, he, bind, Except.bind, throw, throwThe, MonadExceptOf.throw] at h
  simp [hc, he, bind, Except.bind, pure, Except.pure] at h
  subst h
  refine ⟨hi, rfl, ?_⟩
  -- a shared queue, or one worker entered by thread `2`, which then queued the root fiber
  cases s₀ with
  | shared q =>
    simp only [Scheduler.enter, Except.ok.injEq] at he
    subst he
    simp only [Scheduler.startFiber]
    split <;> trivial
  | stealing st =>
    obtain ⟨rfl, -⟩ := Stealing.eq_create_of_scheduler hc
    rcases hen : (Stealing.create 1 c.localQueueCapacity).enter 2 0 with a | st₁
    · simp [Scheduler.enter, hen] at he
    simp [Scheduler.enter, hen] at he
    subst he
    obtain ⟨-, hd, hw₁⟩ := Stealing.enter_ok (Stealing.create_wf (by decide) _) hen
    have hsize : st₁.size = 1 := by
      unfold Stealing.enter at hen
      split_ifs at hen
      simp only [Except.ok.injEq] at hen
      rw [← hen]
      rfl
    have hsingle : st₁.Single :=
      ⟨hsize, by simp [Stealing.localIndex_enter hen], (Stealing.create_classes _ _).drawn hd⟩
    exact hsingle.pushReady hw₁ _ _

/-! ## 6. Every holder, counted once -/

/-- A fiber with a holder exists. -/
theorem Inv.lt_length (hi : l.Inv) (hg : 0 < l.holders.count g) : g < l.fibers.length := by
  by_contra hge
  obtain ⟨h0, hn, -⟩ := hi.absent g (by omega)
  simp only [look] at h0 hn
  rw [holders, List.count_append, count_handled, hn] at hg
  simp [h0] at hg

/-- **Every holder of a fiber in a group of one worker, counted once**: its line, its reactor
queue, what its master holds aside, what its wakers are about to queue, and its master when
it handles the fiber. -/
theorem Single.count_holders (h : l.Single) (g : Nat) :
    (l.line.map Entity.id).count g + (l.sched.reactorItems.map Entity.id).count g +
      (l.master 0).phase.spare.count g + l.woken.count g + (l.master 0).phase.on.toList.count g =
      l.holders.count g := by
  have hm := h.masters_eq
  have hids : l.sched.ids.count g =
      (l.sched.line.map Entity.id).count g + (l.sched.reactorItems.map Entity.id).count g := by
    rw [Scheduler.ids, ((Scheduler.entities_perm_line h.inv.sched h.sched).map Entity.id).count_eq g]
    simp [List.count_append]
  have hholds := ((l.master 0).phase.holds_perm).count_eq g
  rw [List.count_append] at hholds
  have hon : l.handled.count g = (l.master 0).phase.on.toList.count g := by
    rw [handled, hm]
    cases hon : (l.master 0).phase.on <;> simp [hon]
  have hmh : (l.masters.flatMap (·.phase.holds)).count g = (l.master 0).phase.holds.count g := by
    rw [hm]
    simp
  simp only [holders, readyHolds, List.count_append, hids, hon, hmh, hholds, line, List.map_append, woken]
  omega

/-- A fiber is held at most once, wherever it is held. -/
theorem Single.count_le (h : l.Single) (g : Nat) :
    (l.line.map Entity.id).count g + (l.sched.reactorItems.map Entity.id).count g +
      (l.master 0).phase.spare.count g + l.woken.count g + (l.master 0).phase.on.toList.count g ≤ 1 :=
  h.count_holders g ▸ h.inv.holders_le g

end Lifecycle

end Fibers
