import Mathlib
import Fibers.Proofs.LiveChanges
/-!
# Starting a batch on one shared run queue

A group that schedules on one shared run queue starts a batch of fiber descriptions by
pushing them in order until the queue is full; the ones that found no room come back, in
order. A group of `n` workers is then woken with the number pushed: all parked workers once
that number reaches `n`, one parked worker per entity pushed otherwise. The thread that
started the batch counted every fiber live before the first push, and it tries the ones
that came back again after a pause, until none is left.

This module states what each part does, for every queue, batch and world:

* a push of a batch onto a queue with `f` free slots queues its first `f` entities (all of
  them when there are fewer) at the tail, in order, and hands back the others, in order
  (`SharedQueue.pushAll_eq`);
* pushing `k` entities into a group wakes every parked worker when `k` reaches the group's
  size and `k` of them, as far as there are, otherwise (`World.pushAll_shared`);
* one round of the retry loop queues the first entities that fit and leaves exactly the
  others, in order, for the next round, without touching the live count
  (`World.perform_startRest`);
* however other threads drain the queue between the rounds, the rounds together queue every
  fiber of the batch exactly once and in order (`World.Retries.flatten_eq`).

## Contents
1. The free slots of a run queue.
2. Waking parked workers.
3. Pushing a batch into a group.
4. One round of the retry loop.
5. The rounds of a batch.
-/

namespace Fibers

namespace SharedQueue

variable {q : SharedQueue} {e : Entity}

/-! ## 1. The free slots of a run queue -/

/-- The free slots of a run queue. -/
def free (q : SharedQueue) : Nat := q.capacity - q.queue.length

theorem push_of_free (h : 0 < q.free) (e : Entity) : q.push e = some { q with queue := q.queue ++ [e] } := by
  unfold push isFull
  rw [if_neg]
  unfold free at h
  simp only [ge_iff_le, decide_eq_true_eq, not_le]
  omega

theorem push_of_full (h : q.free = 0) (e : Entity) : q.push e = none := by
  unfold push isFull
  rw [if_pos]
  unfold free at h
  simp only [ge_iff_le, decide_eq_true_eq]
  omega

theorem free_append (e : Entity) : ({ q with queue := q.queue ++ [e] } : SharedQueue).free = q.free - 1 := by
  simp only [free, List.length_append, List.length_singleton]
  omega

/-- A batch push queues the first entities of the batch that fit, in order, at the tail, and
hands back the others, in order. -/
theorem pushAll_eq (q : SharedQueue) : ∀ es : List Entity,
    q.pushAll es = ({ q with queue := q.queue ++ es.take q.free }, es.drop q.free)
  | [] => by simp [pushAll]
  | e :: es => by
    rw [pushAll]
    by_cases hf : q.free = 0
    · rw [push_of_full hf]
      simp [hf]
    · -- the entity fits: the rest of the batch goes onto a queue with one slot less
      obtain ⟨k, hk⟩ : ∃ k, q.free = k + 1 := ⟨q.free - 1, by omega⟩
      rw [push_of_free (by omega)]
      dsimp only
      rw [pushAll_eq _ es, free_append, hk]
      simp

end SharedQueue

namespace Phase

/-- Whether a worker is parked. -/
def isParked : Phase → Bool
  | .parked _ => true
  | _ => false

end Phase

namespace World

variable {w w' : World}

/-! ## 2. Waking parked workers -/

/-- What waking workers reads and changes: the parked set of each group, and of each worker
its group, its index and whether it is parked. -/
def parking (w : World) : List (List Nat) × List (Nat × Nat × Bool) :=
  (w.groups.map (·.idle), w.workers.map fun x => (x.group, x.index, x.phase.isParked))

theorem idle_eq_getD (w : World) (g : Nat) : (w.group g).idle = (w.groups.map (·.idle)).getD g [] := by
  simp only [group, List.getD_eq_getElem?_getD, List.getElem?_map]
  cases w.groups[g]? <;> rfl

theorem isParked_eq_getD (w : World) (k : Nat) :
    (w.worker k).phase.isParked =
      ((w.workers.map fun x => (x.group, x.index, x.phase.isParked)).getD k (0, 0, false)).2.2 := by
  simp only [worker, List.getD_eq_getElem?_getD, List.getElem?_map]
  cases w.workers[k]? <;> rfl

theorem idle_eq_of_parking (h : w'.parking = w.parking) (g : Nat) : (w'.group g).idle = (w.group g).idle := by
  have h₁ : w'.groups.map (·.idle) = w.groups.map (·.idle) := congrArg Prod.fst h
  rw [idle_eq_getD, idle_eq_getD, h₁]

theorem isParked_eq_of_parking (h : w'.parking = w.parking) (k : Nat) :
    (w'.worker k).phase.isParked = (w.worker k).phase.isParked := by
  have h₂ : w'.workers.map (fun x => (x.group, x.index, x.phase.isParked)) =
      w.workers.map (fun x => (x.group, x.index, x.phase.isParked)) := congrArg Prod.snd h
  rw [isParked_eq_getD, isParked_eq_getD, h₂]

theorem workerOf_eq_of_keys
    (h : w'.workers.map (fun x => (x.group, x.index)) = w.workers.map (fun x => (x.group, x.index))) :
    w'.workerOf = w.workerOf := by
  funext g i
  have hf := congrArg (List.findIdx? (fun p : Nat × Nat => p.1 == g && p.2 == i)) h
  simpa only [List.findIdx?_map, Function.comp_def, workerOf] using hf

theorem workerOf_eq_of_parking (h : w'.parking = w.parking) : w'.workerOf = w.workerOf := by
  apply workerOf_eq_of_keys
  have h₂ := congrArg (List.map (fun p : Nat × Nat × Bool => (p.1, p.2.1))) (congrArg Prod.snd h)
  simpa only [parking, List.map_map, Function.comp_def] using h₂

theorem parking_modifyGroup_of {g : Nat} {F : GroupState → GroupState} (hF : ∀ x, (F x).idle = x.idle) :
    (w.modifyGroup g F).parking = w.parking := by
  simp only [modifyGroup, parking]
  rw [map_modify_of_eq hF]

theorem parking_modifyWorker_of {k : Nat} {F : Worker → Worker}
    (hF : ∀ x, ((F x).group, (F x).index, (F x).phase.isParked) = (x.group, x.index, x.phase.isParked)) :
    (w.modifyWorker k F).parking = w.parking := by
  simp only [modifyWorker, parking]
  rw [map_modify_of_eq hF]

@[simp] theorem parking_setTasks (h : Holder) (ts : List Task) : (w.setTasks h ts).parking = w.parking := by
  cases h <;> rfl

@[simp] theorem parking_pushTasks (h : Holder) (ts : List Task) : (w.pushTasks h ts).parking = w.parking := by
  simp [pushTasks]

@[simp] theorem parking_setSched (g : Nat) (s : Scheduler) : (w.setSched g s).parking = w.parking := by
  exact parking_modifyGroup_of (fun _ => rfl)

@[simp] theorem parking_sleepFor (a : Actor) (ns : Nat) : (w.sleepFor a ns).parking = w.parking := by
  cases a with
  | worker k => exact parking_modifyWorker_of (fun _ => rfl)
  | thread t => rfl
  | timer g => exact parking_modifyGroup_of (fun _ => rfl)

/-- Unparking takes the index out of the group's parked set. -/
theorem idle_unpark (g i : Nat) (nx : Phase) : ((w.unpark g i nx).group g).idle = (w.group g).idle.erase i := by
  have hg : (w.unpark g i nx).groups = (w.modifyGroup g (fun gs => { gs with idle := gs.idle.erase i })).groups := by
    unfold unpark
    dsimp only
    split
    · split <;> rfl
    · rfl
  rw [idle_eq_getD, hg, idle_eq_getD]
  simp only [modifyGroup]
  rw [map_modify_view (g := fun x : GroupState => x.idle) (k := fun l => l.erase i) (fun _ => rfl)]
  simp only [List.getD_eq_getElem?_getD, List.getElem?_modify]
  cases (w.groups.map (·.idle))[g]? <;> simp

theorem workerOf_unpark (g i : Nat) (nx : Phase) : (w.unpark g i nx).workerOf = w.workerOf := by
  apply workerOf_eq_of_keys
  unfold unpark
  dsimp only
  split
  · split
    · simp only [modifyWorker, modifyGroup]
      exact map_modify_of_eq (fun _ => rfl)
    · rfl
  · rfl

/-- After unparking, the worker named is not parked, and no worker became parked. -/
theorem not_parked_unpark {g i k : Nat} {nx : Phase} (hnx : nx.isParked = false)
    (hk : (w.worker k).phase.isParked = false ∨ w.workerOf g i = some k) :
    ((w.unpark g i nx).worker k).phase.isParked = false := by
  have hw : ∀ j, (w.modifyGroup g (fun gs => { gs with idle := gs.idle.erase i })).worker j = w.worker j :=
    fun _ => rfl
  have ho : (w.modifyGroup g (fun gs => { gs with idle := gs.idle.erase i })).workerOf = w.workerOf := rfl
  unfold unpark
  dsimp only
  rw [ho]
  split
  · rename_i j hj
    rw [hw]
    split
    · rename_i d hp
      -- worker `j` was parked and goes on in phase `nx`
      by_cases hkj : k = j
      · subst hkj
        have hlt : k < w.workers.length := by
          rcases List.findIdx?_eq_some_iff_getElem.1 hj with ⟨hlt, -⟩
          exact hlt
        simp [modifyWorker, worker, modifyGroup, List.getD_eq_getElem?_getD, hlt, hnx]
      · have hsame : ((w.modifyGroup g (fun gs => { gs with idle := gs.idle.erase i })).modifyWorker j
            (fun x => { x with phase := nx })).worker k = w.worker k := by
          simp [modifyWorker, worker, modifyGroup, List.getD_eq_getElem?_getD, Ne.symm hkj]
        rw [hsame]
        rcases hk with hk | hk
        · exact hk
        · exact absurd (Option.some.inj (hk.symm.trans hj)) hkj
    · rename_i hp
      rw [hw]
      rcases hk with hk | hk
      · exact hk
      · rw [Option.some.inj (hk.symm.trans hj)]
        cases hph : (w.worker j).phase with
        | parked d => exact absurd hph (hp d)
        | _ => rfl
  · rename_i hj
    rw [hw]
    rcases hk with hk | hk
    · exact hk
    · rw [hj] at hk
      cases hk

/-- Waking every parked worker empties the parked set. -/
theorem idle_foldl_unpark (g : Nat) (nx : Phase) : ∀ (L : List Nat) (w : World),
    ((L.foldl (fun w i => w.unpark g i nx) w).group g).idle = L.foldl List.erase (w.group g).idle
  | [], _ => rfl
  | i :: L, w => by
    rw [List.foldl_cons, idle_foldl_unpark g nx L, idle_unpark, List.foldl_cons]

theorem foldl_erase_of_perm : ∀ {l m : List Nat}, l.Perm m → m.foldl List.erase l = []
  | _, [], h => h.eq_nil
  | _, a :: m, h => by
    rw [List.foldl_cons]
    apply foldl_erase_of_perm
    simpa using h.erase a

theorem idle_wakeAllShared (g : Nat) : ((w.wakeAllShared g).group g).idle = [] := by
  unfold wakeAllShared
  rw [idle_foldl_unpark]
  exact foldl_erase_of_perm (List.Perm.refl _)

theorem not_parked_foldl_unpark {g : Nat} {nx : Phase} (hnx : nx.isParked = false) :
    ∀ (L : List Nat) (w : World) (k : Nat),
      ((w.worker k).phase.isParked = false ∨ ∃ i ∈ L, w.workerOf g i = some k) →
      ((L.foldl (fun w i => w.unpark g i nx) w).worker k).phase.isParked = false
  | [], _, _, h => h.resolve_right (by simp)
  | i :: L, w, k, h => by
    rw [List.foldl_cons]
    apply not_parked_foldl_unpark hnx L
    rcases h with h | ⟨j, hj, hjk⟩
    · exact .inl (not_parked_unpark hnx (.inl h))
    · rcases List.mem_cons.1 hj with rfl | hj
      · exact .inl (not_parked_unpark hnx (.inr hjk))
      · exact .inr ⟨j, hj, by rw [workerOf_unpark]; exact hjk⟩

/-- Waking all leaves no worker of the parked set parked. -/
theorem not_parked_wakeAllShared {g i k : Nat} (hi : i ∈ (w.group g).idle) (hk : w.workerOf g i = some k) :
    ((w.wakeAllShared g).worker k).phase.isParked = false :=
  not_parked_foldl_unpark rfl _ w k (.inr ⟨i, hi, hk⟩)

/-- Waking one takes one index out of a parked set that has one. -/
theorem length_idle_wakeOneShared (g : Nat) :
    ((w.wakeOneShared g).group g).idle.length = (w.group g).idle.length - 1 := by
  unfold wakeOneShared
  split
  · rename_i i hi
    rw [idle_unpark, List.length_erase_of_mem (List.min?_mem hi)]
  · rename_i hi
    rw [List.min?_eq_none_iff.1 hi]
    rfl

theorem length_idle_foldl_wakeOneShared (g : Nat) : ∀ (L : List Nat) (w : World),
    ((L.foldl (fun w _ => w.wakeOneShared g) w).group g).idle.length = (w.group g).idle.length - L.length
  | [], _ => rfl
  | _ :: L, w => by
    rw [List.foldl_cons, length_idle_foldl_wakeOneShared g L, length_idle_wakeOneShared, List.length_cons]
    omega

/-! ## 3. Pushing a batch into a group -/

theorem group_setSched_self {g : Nat} (hg : g < w.groups.length) (s : Scheduler) :
    (w.setSched g s).group g = { w.group g with sched := s } := by
  simp [setSched, modifyGroup, group, List.getD_eq_getElem?_getD, hg]

/-- What pushing the batch `es` into group `g`, whose run queue was `q`, leaves. -/
structure PushedShared (w : World) (g : Nat) (q : SharedQueue) (es : List Entity) (w' : World) : Prop where
  /-- The first entities that fit are queued at the tail, in order. -/
  sched : (w'.group g).sched = .shared { q with queue := q.queue ++ es.take q.free }
  /-- Nothing else the live-fiber accounting reads changes. -/
  census : w'.census = w.census.setSched g (.shared { q with queue := q.queue ++ es.take q.free })
  /-- As many as the group has workers wake every parked one. -/
  wakeAll : (w.group g).plan.workers ≤ min es.length q.free →
    (w'.group g).idle = [] ∧
      ∀ i ∈ (w.group g).idle, ∀ k, w.workerOf g i = some k → (w'.worker k).phase.isParked = false
  /-- Fewer wake one parked worker each, as far as there are. -/
  wakeSome : min es.length q.free < (w.group g).plan.workers →
    (w'.group g).idle.length = (w.group g).idle.length - min es.length q.free

/-- Pushing a batch into a group on one run queue queues the first entities that fit and hands
back the others, in order, and wakes the group's workers with the number queued. -/
theorem pushAll_shared {g : Nat} {q : SharedQueue} (hg : g < w.groups.length)
    (hq : (w.group g).sched = .shared q) (t : Nat) (es : List Entity) :
    (w.pushAll t g es).2 = es.drop q.free ∧ PushedShared w g q es (w.pushAll t g es).1 := by
  have hpush := SharedQueue.pushAll_eq q es
  unfold pushAll
  rw [hq]
  dsimp only
  rw [hpush]
  dsimp only
  -- the group with its new queue, before any worker is woken
  set q' : SharedQueue := { q with queue := q.queue ++ es.take q.free }
  set w₁ := w.setSched g (.shared q')
  have hpushed : es.length - (es.drop q.free).length = min es.length q.free := by
    rw [List.length_drop]
    omega
  have hg₁ : w₁.group g = { w.group g with sched := .shared q' } := group_setSched_self hg _
  have hpark : w₁.parking = w.parking := parking_setSched g _
  have hidle : (w₁.group g).idle = (w.group g).idle := by rw [hg₁]
  rw [hpushed, hg₁]
  refine ⟨rfl, ?_⟩
  split
  · rename_i hall
    refine ⟨?_, ?_, fun _ => ⟨idle_wakeAllShared g, fun i hi k hk => ?_⟩, fun hlt => ?_⟩
    · rw [← census_sched, census_wakeAllShared, census_sched, hg₁]
    · rw [census_wakeAllShared, census_setSched]
    · rw [← hidle] at hi
      rw [← workerOf_eq_of_parking hpark] at hk
      exact not_parked_wakeAllShared hi hk
    · exact absurd hall (Nat.not_le.2 hlt)
  · rename_i hsome
    refine ⟨?_, ?_, fun hall => absurd hall hsome, fun _ => ?_⟩
    · rw [← census_sched, census_foldl_wakeOneShared, census_sched, hg₁]
    · rw [census_foldl_wakeOneShared, census_setSched]
    · rw [length_idle_foldl_wakeOneShared, List.length_range, hidle]

/-! ## 4. One round of the retry loop -/

/-- Changing a holder's tasks changes no fiber but in its tasks. -/
theorem fiber_setTasks (h : Holder) (ts : List Task) (i : Nat) :
    ∃ tks, (w.setTasks h ts).fiber i = { w.fiber i with tasks := tks } := by
  cases h with
  | thread t => exact ⟨(w.fiber i).tasks, rfl⟩
  | fiber f k =>
    simp only [setTasks, modifyFiber, fiber, List.getD_eq_getElem?_getD, List.getElem?_modify]
    rcases hx : w.fibers[i]? with _ | x
    · exact ⟨(default : FiberRec).tasks, rfl⟩
    · by_cases hi : f = i
      · exact ⟨ts, by simp [hi]⟩
      · exact ⟨x.tasks, by simp [hi]⟩

theorem entity_setTasks (h : Holder) (ts : List Task) (i : Nat) :
    ((w.setTasks h ts).fiber i).entity i = (w.fiber i).entity i := by
  obtain ⟨tks, htk⟩ := fiber_setTasks (w := w) h ts i
  rw [htk]
  rfl

theorem group_fiber_setTasks (h : Holder) (ts : List Task) (i : Nat) :
    ((w.setTasks h ts).fiber i).group = (w.fiber i).group := by
  obtain ⟨tks, htk⟩ := fiber_setTasks (w := w) h ts i
  rw [htk]

@[simp] theorem groups_setTasks (h : Holder) (ts : List Task) : (w.setTasks h ts).groups = w.groups := by
  cases h <;> rfl

theorem group_setTasks (h : Holder) (ts : List Task) (g : Nat) : (w.setTasks h ts).group g = w.group g := by
  cases h <;> rfl

@[simp] theorem id_entity (r : FiberRec) (i : Nat) : (r.entity i).id = i := rfl

theorem Census.tasksOf_setSched (v : Census) (g : Nat) (s : Scheduler) (h : Holder) :
    (v.setSched g s).tasksOf h = v.tasksOf h := by
  cases h <;> rfl

@[simp] theorem Census.live_setSched (v : Census) (g : Nat) (s : Scheduler) : (v.setSched g s).live = v.live :=
  rfl

@[simp] theorem Census.live_setTasks (v : Census) (h : Holder) (ts : List Task) : (v.setTasks h ts).live = v.live := by
  cases h <;> rfl

theorem Census.has_setSched (v : Census) (g : Nat) (s : Scheduler) (h : Holder) : (v.setSched g s).Has h ↔ v.Has h := by
  cases h <;> rfl

theorem Census.sched_setTasks (v : Census) (h : Holder) (ts : List Task) (g : Nat) :
    (v.setTasks h ts).sched g = v.sched g := by
  cases h <;> rfl

/-- What one round of starting a batch does, with `fs` the fibers still to start, `ts` the
holder's tasks after the round and `q` the run queue of the fibers' group `g`. -/
structure BatchRound (w : World) (h : Holder) (g : Nat) (q : SharedQueue) (fs : List Nat)
    (ts : List Task) (w' : World) : Prop where
  /-- The first fibers that fit are queued at the tail, in order. -/
  queued : (w'.group g).sched =
    .shared { q with queue := q.queue ++ (fs.take q.free).map (fun i => (w.fiber i).entity i) }
  /-- The others, in order, are left for the next round; the loop ends when none is left. -/
  tasks : w'.tasksOf h = if fs.length ≤ q.free then ts else .startRest (fs.drop q.free) :: ts
  /-- The fibers were counted live before the first round. -/
  live : w'.live = w.live
  wakeAll : (w.group g).plan.workers ≤ min fs.length q.free →
    (w'.group g).idle = [] ∧
      ∀ i ∈ (w.group g).idle, ∀ k, w.workerOf g i = some k → (w'.worker k).phase.isParked = false
  wakeSome : min fs.length q.free < (w.group g).plan.workers →
    (w'.group g).idle.length = (w.group g).idle.length - min fs.length q.free

/-- One round of the retry loop: the first fibers of the batch that fit are queued and the
others are left, in order, for the next round. -/
theorem perform_startRest {h : Holder} {f : Nat} {fs : List Nat} {ts : List Task} {q : SharedQueue}
    (ht : w.tasksOf h = .startRest (f :: fs) :: ts) (hg : (w.fiber f).group < w.groups.length)
    (hq : (w.group (w.fiber f).group).sched = .shared q) :
    ∃ w', w.perform h = .ok (w', .next) ∧ BatchRound w h (w.fiber f).group q (f :: fs) ts w' := by
  have hh : w.census.Has h := Census.has_of_tasksOf (by rw [census_tasksOf, ht]; simp)
  unfold perform
  rw [ht]
  dsimp only
  set w₀ := w.setTasks h ts with hw₀
  set g := (w.fiber f).group
  set es := (f :: fs).map (fun i => (w.fiber i).entity i)
  have hes : (f :: fs).map (fun i => (w₀.fiber i).entity i) = es :=
    List.map_congr_left (fun i _ => entity_setTasks h ts i)
  rw [group_fiber_setTasks, hes]
  have hpark₀ : w₀.parking = w.parking := parking_setTasks h ts
  have hg₀ : w₀.group g = w.group g := group_setTasks h ts g
  have hts₀ : w₀.census.tasksOf h = ts := by
    rw [census_setTasks, Census.tasksOf_setTasks hh]
  obtain ⟨hrest, hp⟩ := pushAll_shared (w := w₀) (by rw [groups_setTasks]; exact hg) (by rw [hg₀]; exact hq)
    (w₀.threadNo h) es
  rcases hpa : w₀.pushAll (w₀.threadNo h) g es with ⟨w₁, rest⟩
  rw [hpa] at hrest hp
  dsimp only at hrest hp ⊢
  subst hrest
  obtain ⟨hsched₁, hcen₁, hall₁, hsome₁⟩ := hp
  rw [hg₀, workerOf_eq_of_parking hpark₀] at hall₁
  rw [hg₀] at hsome₁
  have htake : es.take q.free = ((f :: fs).take q.free).map (fun i => (w.fiber i).entity i) := by
    simp only [es, List.map_take]
  have hdrop : (es.drop q.free).map Entity.id = (f :: fs).drop q.free := by
    simp [es, List.map_drop, Function.comp_def]
  have hlen : es.length = (f :: fs).length := List.length_map _
  have hlive : w₁.live = w.live := by
    have hl := congrArg Census.live hcen₁
    simp only [w₀, census_setTasks, Census.live_setSched, Census.live_setTasks] at hl
    exact hl
  rw [htake] at hsched₁ hcen₁
  rw [hlen] at hall₁ hsome₁
  split
  · -- everything fitted: the loop ends
    rename_i hnil
    have hfit : (f :: fs).length ≤ q.free := by
      simpa [hlen] using List.isEmpty_iff.1 hnil
    refine ⟨w₁, rfl, hsched₁, ?_, hlive, hall₁, hsome₁⟩
    rw [if_pos hfit, ← census_tasksOf, hcen₁, Census.tasksOf_setSched, hts₀]
  · -- some came back: they are tried again after a pause
    rename_i hnil
    have hfit : ¬ (f :: fs).length ≤ q.free := by
      intro hle
      exact hnil (List.isEmpty_iff.2 (List.drop_eq_nil_of_le (by rw [hlen]; exact hle)))
    set w₂ := (w₁.sleepFor h.actor retryDelay).pushTasks h [.startRest ((es.drop q.free).map Entity.id)]
    have hpark₂ : w₂.parking = w₁.parking := by simp [w₂]
    have hcen₂ : w₂.census =
        w₁.census.setTasks h ([.startRest ((es.drop q.free).map Entity.id)] ++ w₁.census.tasksOf h) := by
      simp [w₂]
    have hh₁ : w₁.census.Has h := by
      rw [hcen₁, Census.has_setSched, hw₀, census_setTasks]
      exact Census.has_setTasks.2 hh
    refine ⟨w₂, rfl, ?_, ?_, ?_, ?_, ?_⟩
    · rw [← census_sched, hcen₂, Census.sched_setTasks, census_sched, hsched₁]
    · rw [if_neg hfit, ← census_tasksOf, hcen₂, Census.tasksOf_setTasks hh₁, hcen₁, Census.tasksOf_setSched,
        hts₀, hdrop]
      rfl
    · rw [← hlive]
      have hl := congrArg Census.live hcen₂
      simp only [Census.live_setTasks] at hl
      exact hl
    · intro hall
      obtain ⟨hidle, hparked⟩ := hall₁ hall
      refine ⟨by rw [idle_eq_of_parking hpark₂]; exact hidle, fun i hi k hk => ?_⟩
      rw [isParked_eq_of_parking hpark₂]
      exact hparked i hi k hk
    · intro hsome
      rw [idle_eq_of_parking hpark₂]
      exact hsome₁ hsome

/-! ## 5. The rounds of a batch -/

/-- A batch describes its fibers up front: they count as live at once, and get the next
numbers. -/
theorem describeAll_spec (w : World) (g : Nat) (ds : List Nat) :
    (w.describeAll g ds).1.live = w.live + ds.length ∧
      (w.describeAll g ds).2 = List.range' w.fibers.length ds.length ∧
      (w.describeAll g ds).1.fibers.length = w.fibers.length + ds.length := by
  unfold describeAll
  -- from the end of the list, so that the fold starts from the same world at every step
  induction ds using List.reverseRecOn with
  | nil => simp
  | append_singleton ds d ih =>
    rw [List.foldl_append, List.foldl_cons, List.foldl_nil]
    generalize List.foldl _ (w, []) ds = acc at ih ⊢
    obtain ⟨x, fs⟩ := acc
    dsimp only at ih ⊢
    simp only [describe, Bool.false_eq_true, ↓reduceIte, List.length_append, List.length_singleton,
      List.range'_concat] at ih ⊢
    obtain ⟨h₁, rfl, h₃⟩ := ih
    refine ⟨?_, ?_, by omega⟩
    · simp only [List.length_range'] at h₁ ⊢
      omega
    · rw [h₃, Nat.one_mul]

/-- The rounds of holder `h`'s batch start, from the fibers `fs` still to start, with `ts` the
holder's tasks after the loop; `chunks` are the fibers each round queued at the tail of the
run queue, as the queue shows them. Each round is the holder's first task performed on the
world that other threads left, which may have taken from the queue in between. -/
inductive Retries (h : Holder) (ts : List Task) : List Nat → List (List Nat) → Prop
  | finished : Retries h ts [] []
  | round {w w' : World} {f : Nat} {fs rest chunk : List Nat} {chunks : List (List Nat)}
      {q q' : SharedQueue} :
      w.tasksOf h = .startRest (f :: fs) :: ts →
      (w.fiber f).group < w.groups.length →
      (w.group (w.fiber f).group).sched = .shared q →
      w.perform h = .ok (w', .next) →
      (w'.group (w.fiber f).group).sched = .shared q' →
      q'.queue = q.queue ++ chunk.map (fun i => (w.fiber i).entity i) →
      (rest = [] ∧ w'.tasksOf h = ts ∨ w'.tasksOf h = .startRest rest :: ts) →
      Retries h ts rest chunks →
      Retries h ts (f :: fs) (chunk :: chunks)

/-- The rounds of a batch start queue every fiber of the batch once, in order. -/
theorem Retries.flatten_eq {h : Holder} {ts : List Task} {fs : List Nat} {chunks : List (List Nat)}
    (hr : Retries h ts fs chunks) : chunks.flatten = fs := by
  induction hr with
  | finished => rfl
  | @round w w' f fs rest chunk chunks q q' ht hg hq hp hq' hqueue hnext _ ih =>
    obtain ⟨w'', hp', hround⟩ := perform_startRest ht hg hq
    rw [hp] at hp'
    obtain rfl : w' = w'' := by simpa using hp'
    -- what the queue shows is the first fibers that fit
    have hchunk : chunk = (f :: fs).take q.free := by
      rw [hround.queued] at hq'
      have hqq := congrArg SharedQueue.queue (Scheduler.shared.inj hq')
      rw [hqueue] at hqq
      have hids := congrArg (List.map Entity.id) (List.append_cancel_left hqq.symm)
      simpa [Function.comp_def] using hids
    -- and the next round starts from the others
    have hrest : rest = (f :: fs).drop q.free := by
      have htasks := hround.tasks
      split at htasks
      · rename_i hfit
        rcases hnext with ⟨rfl, -⟩ | hnext
        · exact (List.drop_eq_nil_of_le hfit).symm
        · rw [hnext] at htasks
          exact absurd htasks (List.cons_ne_self _ _)
      · rcases hnext with ⟨-, hnext⟩ | hnext
        · rw [hnext] at htasks
          exact absurd htasks.symm (List.cons_ne_self _ _)
        · rw [hnext] at htasks
          exact (Task.startRest.inj (List.cons.inj htasks).1)
    rw [List.flatten_cons, ih, hchunk, hrest, List.take_append_drop]

/-- **A batch start on one run queue loses and repeats no fiber.** A push of a batch onto a run
queue with `f` free slots queues the first `f` entities of the batch (all of them when there
are fewer) at the tail, in order, and hands back the others, in order, none exactly when the
batch fits. Pushed into a group, the number queued wakes every parked worker of the group when
it reaches the group's size, and that many parked workers otherwise. One round of the retry
loop does that with the fibers still to start and leaves the others, in order, to the next
round; the fibers were counted live when the batch was described, and the rounds together
queue each fiber of the batch once, in order. -/
theorem batch_start_queues_each_once :
    (∀ (q : SharedQueue) (es : List Entity),
      q.pushAll es = ({ q with queue := q.queue ++ es.take q.free }, es.drop q.free) ∧
        (es.drop q.free = [] ↔ es.length ≤ q.free)) ∧
    (∀ (w : World) (t g : Nat) (q : SharedQueue) (es : List Entity), g < w.groups.length →
      (w.group g).sched = .shared q →
      (w.pushAll t g es).2 = es.drop q.free ∧ PushedShared w g q es (w.pushAll t g es).1) ∧
    (∀ (w : World) (h : Holder) (f : Nat) (fs : List Nat) (ts : List Task) (q : SharedQueue),
      w.tasksOf h = .startRest (f :: fs) :: ts → (w.fiber f).group < w.groups.length →
      (w.group (w.fiber f).group).sched = .shared q →
      ∃ w', w.perform h = .ok (w', .next) ∧ BatchRound w h (w.fiber f).group q (f :: fs) ts w') ∧
    (∀ (w : World) (g : Nat) (ds : List Nat),
      (w.describeAll g ds).1.live = w.live + ds.length ∧
        (w.describeAll g ds).2 = List.range' w.fibers.length ds.length) ∧
    (∀ (h : Holder) (ts : List Task) (fs : List Nat) (chunks : List (List Nat)),
      Retries h ts fs chunks → chunks.flatten = fs) :=
  ⟨fun q es => ⟨SharedQueue.pushAll_eq q es, List.drop_eq_nil_iff⟩,
    fun _ t _ _ es hg hq => pushAll_shared hg hq t es,
    fun _ _ _ _ _ _ ht hg hq => perform_startRest ht hg hq,
    fun w g ds => ⟨(describeAll_spec w g ds).1, (describeAll_spec w g ds).2.1⟩,
    fun _ _ _ _ hr => hr.flatten_eq⟩

set_option maxRecDepth 10000 in
/-- A batch of two fibers on a queue with one slot: the first round queues fiber 0 and leaves
fiber 1, another worker takes fiber 0 off the queue, and the second round queues fiber 1. -/
theorem batch_start_queues_each_once_two_rounds :
    Retries (.thread 0) [] [0, 1] [[0], [1]] ∧ ([[0], [1]] : List (List Nat)).flatten = [0, 1] := by
  let plan : GroupPlan := { nodeId := 0, workers := 1, affinity := [] }
  let w₀ : World :=
    { (default : World) with
      groups := [{ plan, sched := .shared { size := 1, capacity := 1 }, timer := default }],
      threads := [{ label := "main", thread := 0, tasks := [.startRest [0, 1]] }],
      fibers := [{ body := 0, group := 0 }, { body := 0, group := 0 }] }
  -- after the first round: fiber 0 queued, fiber 1 to be tried again after a pause
  let w₁ : World :=
    { w₀ with
      groups := [{ plan, sched := .shared { size := 1, capacity := 1, queue := [{ id := 0 }] }, timer := default }],
      threads := [{ label := "main", thread := 0, tasks := [.startRest [1]], sleepUntil := some retryDelay }] }
  -- another worker took fiber 0
  let w₂ : World := { w₁ with groups := w₀.groups }
  -- after the second round: fiber 1 queued, nothing left
  let w₃ : World :=
    { w₂ with
      groups := [{ plan, sched := .shared { size := 1, capacity := 1, queue := [{ id := 1 }] }, timer := default }],
      threads := [{ label := "main", thread := 0, tasks := [], sleepUntil := some retryDelay }] }
  have hr₂ : Retries (.thread 0) [] [1] [[1]] :=
    Retries.round (show w₂.tasksOf (.thread 0) = [.startRest [1]] from rfl) (by decide)
      (show (w₂.group (w₂.fiber 1).group).sched = .shared { size := 1, capacity := 1 } from rfl)
      (show w₂.perform (.thread 0) = .ok (w₃, .next) from rfl)
      (show (w₃.group (w₂.fiber 1).group).sched =
        .shared { size := 1, capacity := 1, queue := [(w₂.fiber 1).entity 1] } from rfl)
      rfl (.inl ⟨rfl, rfl⟩) .finished
  have hr : Retries (.thread 0) [] [0, 1] [[0], [1]] :=
    Retries.round (show w₀.tasksOf (.thread 0) = [.startRest [0, 1]] from rfl) (by decide)
      (show (w₀.group (w₀.fiber 0).group).sched = .shared { size := 1, capacity := 1 } from rfl)
      (show w₀.perform (.thread 0) = .ok (w₁, .next) from rfl)
      (show (w₁.group (w₀.fiber 0).group).sched =
        .shared { size := 1, capacity := 1, queue := [(w₀.fiber 0).entity 0] } from rfl)
      rfl (.inr rfl) hr₂
  exact ⟨hr, batch_start_queues_each_once.2.2.2.2 _ _ _ _ hr⟩

end World

end Fibers
