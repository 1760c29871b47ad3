import Mathlib
import Fibers.Sched.Lifecycle
/-!
# Run queues neither lose nor duplicate an entity

The entities a scheduler holds are, with the shared queue, the queue itself, and with work
stealing the global queue, the reactor queue, every deque and every pinned queue. Queueing an
entity adds exactly that entity; taking one removes exactly the entity returned; moving a
batch from the global queue into a deque keeps them all (`Scheduler.push_perm`,
`Scheduler.take_perm`, `Scheduler.handOff_perm`).

With work stealing this needs the group to be well formed (`Stealing.WF`): one deque and one
pinned queue per worker, at least one worker, and every entered thread a worker of the group.
Otherwise an entity pushed to a deque or pinned queue past the end would be dropped. Every
operation keeps the group well formed.
-/

namespace Fibers

/-! ## 1. Lists of queues -/

section Queues

variable {α : Type}

theorem flatten_modify_append_perm (xs : List α) :
    ∀ {l : List (List α)} {i : Nat}, i < l.length → (l.modify i (· ++ xs)).flatten.Perm (xs ++ l.flatten)
  | [], _, h => absurd h (by simp)
  | q :: l, 0, _ => by
    simpa [List.modify_zero_cons] using (@List.perm_append_comm _ q xs).append_right _
  | q :: l, i + 1, h => by
    have ih := flatten_modify_append_perm xs (l := l) (i := i) (by simpa using h)
    simp only [List.modify_succ_cons, List.flatten_cons]
    refine (ih.append_left q).trans ?_
    simpa only [List.append_assoc] using
      (@List.perm_append_comm _ q xs).append_right l.flatten

theorem flatten_set_perm {x : α} {rest : List α} :
    ∀ {l : List (List α)} {i : Nat}, l.getD i [] = x :: rest → l.flatten.Perm (x :: (l.set i rest).flatten)
  | [], _, h => by simp at h
  | q :: l, 0, h => by
    simp only [List.getD_cons_zero] at h
    simp [h]
  | q :: l, i + 1, h => by
    have ih := flatten_set_perm (l := l) (i := i) (by simpa using h)
    simp only [List.set_cons_succ, List.flatten_cons]
    exact (ih.append_left q).trans List.perm_middle

theorem modify_self (l : List α) (i : Nat) : l.modify i (fun x => x) = l :=
  List.ext_getElem (by simp) (fun j _ _ => by simp [List.getElem_modify])

end Queues

/-! ## 2. Injectors -/

namespace Injector

variable {q q' : Injector} {e : Entity}

theorem items_push (e : Entity) : (q.push e).items = q.items ++ [e] := rfl

theorem steal_some (h : q.steal = (q', some e)) : q.items = e :: q'.items := by
  unfold steal at h
  split at h
  · simp at h
  · simp only [Prod.mk.injEq, Option.some.injEq] at h
    obtain ⟨rfl, rfl⟩ := h
    simp_all

theorem steal_none {o : Option Entity} (h : q.steal = (q', o)) (ho : o = none) : q' = q ∧ q.items = [] := by
  subst ho
  unfold steal at h
  split at h
  · simp_all
  · simp at h

/-- A batch steal of a non-empty injector takes at least the entity it returns. -/
theorem one_le_batchSize (h : q.items ≠ []) : 1 ≤ q.batchSize := by
  have hs : 0 < q.size := List.length_pos_iff.mpr h
  have hm := Nat.mod_lt q.taken (show 63 > 0 by decide)
  unfold batchSize
  simp only [blockCap, maxBatch]
  by_cases hc : q.taken / 63 = (q.taken + q.size) / 63 <;> simp [hc] <;> omega

theorem stealBatch_some {batch : List Entity} (h : q.stealBatch = (q', batch, some e)) :
    q.items = e :: (batch ++ q'.items) := by
  unfold stealBatch at h
  split at h
  · simp at h
  · rename_i x rest hq
    have hn := one_le_batchSize (q := q) (by simp [hq])
    simp only [Prod.mk.injEq, Option.some.injEq] at h
    obtain ⟨rfl, rfl, rfl⟩ := h
    obtain ⟨n, hn'⟩ : ∃ n, q.batchSize = n + 1 := ⟨q.batchSize - 1, by omega⟩
    simp [hq, hn']

theorem stealBatch_none {batch : List Entity} {o : Option Entity} (h : q.stealBatch = (q', batch, o))
    (ho : o = none) : q' = q ∧ batch = [] ∧ q.items = [] := by
  subst ho
  unfold stealBatch at h
  split at h
  · simp_all
  · simp at h

end Injector

/-! ## 3. Work stealing -/

namespace Stealing

/-- Every entity a work-stealing group holds. -/
def entities (s : Stealing) : List Entity :=
  s.global.items ++ s.reactor.items ++ s.deques.flatten ++ s.pinned.flatten

/-- A well-formed group: one deque and one pinned queue per worker, at least one worker, and
every entered thread one of its workers. -/
structure WF (s : Stealing) : Prop where
  deques : s.deques.length = s.size
  pinned : s.pinned.length = s.size
  pos : 0 < s.size
  slots : ∀ t i, s.localIndex t = some i → i < s.size

variable {s s' : Stealing} {t i : Nat} {e : Entity}

theorem pinnedIndex_lt (hw : s.WF) (e : Entity) : s.pinnedIndex t e < s.size := by
  unfold pinnedIndex
  have hloc : (s.localIndex t).getD 0 < s.size := by
    cases h : s.localIndex t with
    | none => simpa using hw.pos
    | some i => simpa using hw.slots t i h
  split
  · split
    · assumption
    · exact hloc
  · exact hloc

theorem coe_entities (s : Stealing) : (s.entities : Multiset Entity) =
    ↑s.global.items + ↑s.reactor.items + ↑s.deques.flatten + ↑s.pinned.flatten := by
  simp [entities]

/-- Making an entity ready adds exactly that entity. -/
theorem pushReady_perm (hw : s.WF) (e : Entity) (y : Bool) :
    (s.pushReady t e y).entities.Perm (e :: s.entities) := by
  rw [← Multiset.coe_eq_coe, ← Multiset.cons_coe, coe_entities, coe_entities]
  unfold pushReady
  split
  · simp only [Injector.items_push, ← Multiset.coe_add, Multiset.coe_singleton, ← Multiset.singleton_add]
    abel
  split
  · have hp := Multiset.coe_eq_coe.mpr (flatten_modify_append_perm [e] (l := s.pinned) (i := s.pinnedIndex t e)
      (by rw [hw.pinned]; exact pinnedIndex_lt hw e))
    simp only [← Multiset.coe_add, Multiset.coe_singleton] at hp
    simp only [hp, ← Multiset.singleton_add]
    abel
  split
  · simp only [Injector.items_push, ← Multiset.coe_add, Multiset.coe_singleton, ← Multiset.singleton_add]
    abel
  split
  · rename_i j hj
    split
    · have hd := Multiset.coe_eq_coe.mpr (flatten_modify_append_perm [e] (l := s.deques) (i := j)
        (by rw [hw.deques]; exact hw.slots t j hj))
      simp only [← Multiset.coe_add, Multiset.coe_singleton] at hd
      simp only [hd, ← Multiset.singleton_add]
      abel
    · simp only [Injector.items_push, ← Multiset.coe_add, Multiset.coe_singleton, ← Multiset.singleton_add]
      abel
  · simp only [Injector.items_push, ← Multiset.coe_add, Multiset.coe_singleton, ← Multiset.singleton_add]
    abel

theorem pushReady_wf (hw : s.WF) (e : Entity) (y : Bool) : (s.pushReady t e y).WF := by
  unfold pushReady
  split
  · exact ⟨hw.deques, hw.pinned, hw.pos, hw.slots⟩
  split
  · exact ⟨hw.deques, by simpa using hw.pinned, hw.pos, hw.slots⟩
  split
  · exact ⟨hw.deques, hw.pinned, hw.pos, hw.slots⟩
  split
  · split
    · exact ⟨by simpa using hw.deques, hw.pinned, hw.pos, hw.slots⟩
    · exact ⟨hw.deques, hw.pinned, hw.pos, hw.slots⟩
  · exact ⟨hw.deques, hw.pinned, hw.pos, hw.slots⟩

/-! ### Ticks move nothing -/

theorem lookup_tick (t u : Nat) (k : UInt32) : ∀ ps : List (Nat × WorkerSlot),
    ((ps.map (fun x => if x.1 = t then (x.1, { x.2 with ticks := k }) else x)).lookup u).map WorkerSlot.index
      = (ps.lookup u).map WorkerSlot.index
  | [] => rfl
  | (v, sl) :: ps => by
    have ih := lookup_tick t u k ps
    by_cases hu : u = v
    · subst hu
      by_cases hv : u = t <;> simp [List.lookup, hv]
    · have hb : (u == v) = false := by simpa using hu
      by_cases hv : v = t
      · subst hv
        simpa [List.lookup, hb] using ih
      · simpa [List.lookup, hb, hv] using ih

theorem localIndex_tick (t u : Nat) : (s.tick t).1.localIndex u = s.localIndex u := by
  unfold tick
  split
  · rfl
  · exact lookup_tick _ _ _ _

@[simp] theorem entities_tick (t : Nat) : (s.tick t).1.entities = s.entities := by
  unfold tick
  split <;> rfl

theorem tick_wf (hw : s.WF) (t : Nat) : (s.tick t).1.WF := by
  have hsame : (s.tick t).1.size = s.size ∧ (s.tick t).1.deques = s.deques ∧ (s.tick t).1.pinned = s.pinned := by
    unfold tick
    split <;> exact ⟨rfl, rfl, rfl⟩
  refine ⟨?_, ?_, ?_, ?_⟩
  · rw [hsame.2.1, hsame.1]; exact hw.deques
  · rw [hsame.2.2, hsame.1]; exact hw.pinned
  · rw [hsame.1]; exact hw.pos
  · intro u j hj
    rw [localIndex_tick] at hj
    rw [hsame.1]
    exact hw.slots u j hj

/-! ### Taking from one queue -/

/-- What a take that finds something leaves: the entity returned, and a well-formed group
holding the others. -/
def Took (s s' : Stealing) (e : Entity) : Prop :=
  s.entities.Perm (e :: s'.entities) ∧ s'.size = s.size ∧ s'.WF ∧ ∀ u, s'.localIndex u = s.localIndex u

/-- What a take that finds nothing leaves: the same entities in a well-formed group. -/
def Kept (s s' : Stealing) : Prop :=
  s'.entities = s.entities ∧ s'.size = s.size ∧ s'.WF ∧ ∀ u, s'.localIndex u = s.localIndex u

theorem popDeque_took (hw : s.WF) {j : Nat} (h : s.popDeque j = (s', some e)) : Took s s' e := by
  unfold popDeque at h
  split at h
  · simp at h
  · rename_i x rest hd
    simp only [Prod.mk.injEq, Option.some.injEq] at h
    obtain ⟨rfl, rfl⟩ := h
    refine ⟨?_, rfl, ⟨by simpa using hw.deques, hw.pinned, hw.pos, hw.slots⟩, fun _ => rfl⟩
    have hp := Multiset.coe_eq_coe.mpr (flatten_set_perm (l := s.deques) (i := j) hd)
    rw [← Multiset.coe_eq_coe, ← Multiset.cons_coe, coe_entities, coe_entities, hp, ← Multiset.cons_coe]
    simp only [← Multiset.singleton_add]
    abel

theorem popDeque_none {j : Nat} {o : Option Entity} (h : s.popDeque j = (s', o)) (ho : o = none) : s' = s := by
  subst ho
  unfold popDeque at h
  split at h <;> simp_all

theorem popPinned_took (hw : s.WF) {j : Nat} (h : s.popPinned j = (s', some e)) : Took s s' e := by
  unfold popPinned at h
  split at h
  · simp at h
  · rename_i x rest hd
    simp only [Prod.mk.injEq, Option.some.injEq] at h
    obtain ⟨rfl, rfl⟩ := h
    refine ⟨?_, rfl, ⟨hw.deques, by simpa using hw.pinned, hw.pos, hw.slots⟩, fun _ => rfl⟩
    have hp := Multiset.coe_eq_coe.mpr (flatten_set_perm (l := s.pinned) (i := j) hd)
    rw [← Multiset.coe_eq_coe, ← Multiset.cons_coe, coe_entities, coe_entities, hp, ← Multiset.cons_coe]
    simp only [← Multiset.singleton_add]
    abel

theorem popPinned_none {j : Nat} {o : Option Entity} (h : s.popPinned j = (s', o)) (ho : o = none) : s' = s := by
  subst ho
  unfold popPinned at h
  split at h <;> simp_all

theorem popLocal_took (hw : s.WF) (h : s.popLocal t = (s', some e)) : Took s s' e := by
  unfold popLocal at h
  split at h
  · exact popDeque_took hw h
  · simp at h

theorem popLocal_none {o : Option Entity} (h : s.popLocal t = (s', o)) (ho : o = none) : s' = s := by
  unfold popLocal at h
  split at h
  · exact popDeque_none h ho
  · simp_all

theorem acquireReactor_took (hw : s.WF) (h : s.acquireReactor = (s', some e)) : Took s s' e := by
  unfold acquireReactor at h
  rcases hsteal : s.reactor.steal with ⟨r, o⟩
  simp only [hsteal, Prod.mk.injEq] at h
  obtain ⟨rfl, rfl⟩ := h
  refine ⟨?_, rfl, ⟨hw.deques, hw.pinned, hw.pos, hw.slots⟩, fun _ => rfl⟩
  rw [← Multiset.coe_eq_coe, ← Multiset.cons_coe, coe_entities, coe_entities, Injector.steal_some hsteal,
    ← Multiset.cons_coe]
  simp only [← Multiset.singleton_add]
  abel

theorem acquireReactor_none {o : Option Entity} (h : s.acquireReactor = (s', o)) (ho : o = none) : s' = s := by
  unfold acquireReactor at h
  rcases hsteal : s.reactor.steal with ⟨r, o'⟩
  simp only [hsteal, Prod.mk.injEq] at h
  obtain ⟨rfl, rfl⟩ := h
  obtain ⟨rfl, -⟩ := Injector.steal_none hsteal ho
  rfl

theorem stealGlobal_took (hw : s.WF) (h : s.stealGlobal t = (s', some e)) : Took s s' e := by
  unfold stealGlobal at h
  split at h
  · rename_i j hj
    rcases hsteal : s.global.stealBatch with ⟨g, batch, o⟩
    simp only [hsteal, Prod.mk.injEq] at h
    obtain ⟨rfl, rfl⟩ := h
    refine ⟨?_, rfl, ⟨by simpa using hw.deques, hw.pinned, hw.pos, hw.slots⟩, fun _ => rfl⟩
    -- the batch leaves the global queue for the thief's deque
    have hd := Multiset.coe_eq_coe.mpr (flatten_modify_append_perm batch (l := s.deques) (i := j)
      (by rw [hw.deques]; exact hw.slots t j hj))
    rw [← Multiset.coe_eq_coe, ← Multiset.cons_coe, coe_entities, coe_entities, Injector.stealBatch_some hsteal]
    simp only [hd, ← Multiset.cons_coe, ← Multiset.coe_add, ← Multiset.singleton_add]
    abel
  · rcases hsteal : s.global.steal with ⟨g, o⟩
    simp only [hsteal, Prod.mk.injEq] at h
    obtain ⟨rfl, rfl⟩ := h
    refine ⟨?_, rfl, ⟨hw.deques, hw.pinned, hw.pos, hw.slots⟩, fun _ => rfl⟩
    rw [← Multiset.coe_eq_coe, ← Multiset.cons_coe, coe_entities, coe_entities, Injector.steal_some hsteal,
      ← Multiset.cons_coe]
    simp only [← Multiset.singleton_add]
    abel

theorem stealGlobal_none {o : Option Entity} (h : s.stealGlobal t = (s', o)) (ho : o = none) : s' = s := by
  subst ho
  unfold stealGlobal at h
  split at h
  · rcases hsteal : s.global.stealBatch with ⟨g, batch, o⟩
    simp only [hsteal, Prod.mk.injEq] at h
    obtain ⟨rfl, rfl⟩ := h
    obtain ⟨rfl, rfl, -⟩ := Injector.stealBatch_none hsteal rfl
    simp [modify_self]
  · rcases hsteal : s.global.steal with ⟨g, o⟩
    simp only [hsteal, Prod.mk.injEq] at h
    obtain ⟨rfl, rfl⟩ := h
    obtain ⟨rfl, -⟩ := Injector.steal_none hsteal rfl
    rfl

/-! ### Acquisitions -/

theorem Kept.refl (hw : s.WF) : Kept s s := ⟨rfl, rfl, hw, fun _ => rfl⟩

theorem Kept.trans {s₂ : Stealing} (h₁ : Kept s s') (h₂ : Kept s' s₂) : Kept s s₂ :=
  ⟨h₂.1.trans h₁.1, h₂.2.1.trans h₁.2.1, h₂.2.2.1, fun u => (h₂.2.2.2 u).trans (h₁.2.2.2 u)⟩

theorem Kept.took {s₂ : Stealing} (h₁ : Kept s s') (h₂ : Took s' s₂ e) : Took s s₂ e :=
  ⟨h₁.1 ▸ h₂.1, h₂.2.1.trans h₁.2.1, h₂.2.2.1, fun u => (h₂.2.2.2 u).trans (h₁.2.2.2 u)⟩

theorem tick_kept (hw : s.WF) (t : Nat) : Kept s (s.tick t).1 := by
  refine ⟨entities_tick t, ?_, tick_wf hw t, fun u => localIndex_tick t u⟩
  unfold tick
  split <;> rfl

/-- One acquisition that finds an entity took exactly it. -/
theorem acquire_took (hw : s.WF) (h : s.acquire t i = (s', some e)) : Took s s' e := by
  unfold acquire at h
  have hk := tick_kept hw t
  rcases ht : s.tick t with ⟨s₁, due⟩
  rw [ht] at hk
  simp only [ht] at h
  have hw₁ := hk.2.2.1
  -- the reactor queue when due, then the pinned queue, the own deque and the global queue
  rcases hr : (if due = true then s₁.acquireReactor else (s₁, none)) with ⟨s₂, _ | e₂⟩
  · have hk₂ : Kept s₁ s₂ := by
      split at hr
      · rw [acquireReactor_none hr rfl]; exact Kept.refl hw₁
      · simp only [Prod.mk.injEq] at hr; rw [← hr.1]; exact Kept.refl hw₁
    have hk' := hk.trans hk₂
    have hw₂ := hk₂.2.2.1
    simp only [hr] at h
    rcases hp : s₂.popPinned i with ⟨s₃, _ | e₃⟩
    · rw [popPinned_none hp rfl] at hp
      simp only [hp] at h
      rcases hl : s₂.popLocal t with ⟨s₄, _ | e₄⟩
      · rw [popLocal_none hl rfl] at hl
        simp only [hl] at h
        exact hk'.took (stealGlobal_took hw₂ h)
      · simp only [hl, Prod.mk.injEq, Option.some.injEq] at h
        obtain ⟨rfl, rfl⟩ := h
        exact hk'.took (popLocal_took hw₂ hl)
    · simp only [hp, Prod.mk.injEq, Option.some.injEq] at h
      obtain ⟨rfl, rfl⟩ := h
      exact hk'.took (popPinned_took hw₂ hp)
  · simp only [hr, Prod.mk.injEq, Option.some.injEq] at h
    obtain ⟨rfl, rfl⟩ := h
    split at hr
    · exact hk.took (acquireReactor_took hw₁ hr)
    · simp at hr

/-- One acquisition that finds nothing moves nothing. -/
theorem acquire_kept (hw : s.WF) (h : s.acquire t i = (s', none)) : Kept s s' := by
  unfold acquire at h
  have hk := tick_kept hw t
  rcases ht : s.tick t with ⟨s₁, due⟩
  rw [ht] at hk
  simp only [ht] at h
  have hw₁ := hk.2.2.1
  rcases hr : (if due = true then s₁.acquireReactor else (s₁, none)) with ⟨s₂, _ | e₂⟩
  · have hk₂ : Kept s₁ s₂ := by
      split at hr
      · rw [acquireReactor_none hr rfl]; exact Kept.refl hw₁
      · simp only [Prod.mk.injEq] at hr; rw [← hr.1]; exact Kept.refl hw₁
    have hk' := hk.trans hk₂
    simp only [hr] at h
    rcases hp : s₂.popPinned i with ⟨s₃, _ | e₃⟩
    · rw [popPinned_none hp rfl] at hp
      simp only [hp] at h
      rcases hl : s₂.popLocal t with ⟨s₄, _ | e₄⟩
      · rw [popLocal_none hl rfl] at hl
        simp only [hl] at h
        rw [stealGlobal_none h rfl]
        exact hk'
      · simp [hl] at h
    · simp [hp] at h
  · simp [hr] at h

theorem stealFromPeers_took (hw : s.WF) (h : s.stealFromPeers i = (s', some e)) : Took s s' e := by
  unfold stealFromPeers at h
  dsimp only at h
  split at h
  · exact popDeque_took hw h
  · simp at h

theorem stealFromPeers_none {o : Option Entity} (h : s.stealFromPeers i = (s', o)) (ho : o = none) : s' = s := by
  unfold stealFromPeers at h
  dsimp only at h
  split at h
  · exact popDeque_none h ho
  · simp_all

end Stealing

/-! ## 4. Schedulers -/

namespace Scheduler

/-- Every entity a scheduler holds. -/
def entities : Scheduler → List Entity
  | .shared q => q.queue
  | .stealing st => st.entities

/-- A well-formed scheduler: with work stealing, a well-formed group. -/
def WF : Scheduler → Prop
  | .shared _ => True
  | .stealing st => st.WF

variable {s s' : Scheduler} {t i : Nat} {e : Entity}

/-- Queueing an entity adds exactly that entity. -/
theorem push_perm (hw : s.WF) {y : Bool} (h : s.push t e y = some s') :
    s'.entities.Perm (e :: s.entities) ∧ s'.WF := by
  cases s with
  | shared q =>
    simp only [push, Option.map_eq_some_iff] at h
    obtain ⟨q', hq, rfl⟩ := h
    unfold SharedQueue.push at hq
    split at hq
    · simp at hq
    · simp only [Option.some.injEq] at hq
      subst hq
      exact ⟨by simp [entities], trivial⟩
  | stealing st =>
    simp only [push, Option.some.injEq] at h
    subst h
    exact ⟨Stealing.pushReady_perm hw e y, Stealing.pushReady_wf hw e y⟩

/-- A take that finds an entity removes exactly it. -/
theorem take_perm (hw : s.WF) (h : s.take t i = (s', some e)) :
    s.entities.Perm (e :: s'.entities) ∧ s'.WF := by
  cases s with
  | shared q =>
    simp only [take] at h
    unfold SharedQueue.pop at h
    split at h
    · simp at h
    · rename_i x rest hq
      simp only [Prod.mk.injEq, Option.some.injEq] at h
      obtain ⟨rfl, rfl⟩ := h
      exact ⟨by simp [entities, hq], trivial⟩
  | stealing st =>
    simp only [take] at h
    rcases ha : st.acquire t i with ⟨st₁, _ | e₁⟩
    · have hk := Stealing.acquire_kept hw ha
      simp only [ha] at h
      rcases hp : st₁.stealFromPeers i with ⟨st₂, _ | e₂⟩
      · rw [Stealing.stealFromPeers_none hp rfl] at hp
        simp only [hp] at h
        rcases hr : st₁.acquireReactor with ⟨st₃, o⟩
        simp only [hr, Prod.mk.injEq] at h
        obtain ⟨rfl, rfl⟩ := h
        have := hk.took (Stealing.acquireReactor_took hk.2.2.1 hr)
        exact ⟨this.1, this.2.2.1⟩
      · simp only [hp, Prod.mk.injEq, Option.some.injEq] at h
        obtain ⟨rfl, rfl⟩ := h
        have := hk.took (Stealing.stealFromPeers_took hk.2.2.1 hp)
        exact ⟨this.1, this.2.2.1⟩
    · simp only [ha, Prod.mk.injEq, Option.some.injEq] at h
      obtain ⟨rfl, rfl⟩ := h
      have := Stealing.acquire_took hw ha
      exact ⟨this.1, this.2.2.1⟩

/-- A suspending fiber's hand-off removes exactly the entity it takes, if any. -/
theorem handOff_perm {o : Option Entity} (hw : s.WF) (h : s.handOff = (s', o)) :
    s.entities.Perm (o.toList ++ s'.entities) ∧ s'.WF := by
  cases s with
  | shared q =>
    simp only [handOff] at h
    unfold SharedQueue.pop at h
    split at h
    · simp only [Prod.mk.injEq] at h
      obtain ⟨rfl, rfl⟩ := h
      exact ⟨by simp [entities], trivial⟩
    · rename_i x rest hq
      simp only [Prod.mk.injEq] at h
      obtain ⟨rfl, rfl⟩ := h
      exact ⟨by simp [entities, hq], trivial⟩
  | stealing st =>
    simp only [handOff, Prod.mk.injEq] at h
    obtain ⟨rfl, rfl⟩ := h
    exact ⟨by simp, hw⟩

end Scheduler

end Fibers
