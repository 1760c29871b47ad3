import Mathlib
import Fibers.Proofs.LiveChanges
import Fibers.Proofs.TimerArithmetic
/-!
# The steps of a holder keep the live-fiber accounting

A fiber running on a worker, or a plain thread, carries out its first task (`World.perform`):
a step of its body, a call of the main thread, or a task the world inserted. Every task keeps
the invariant `Census.Inv` of the live-fiber accounting, as long as the run has not ended quiet
and the holder is ready to take on tasks (`Census.Ready`): a fiber with its stack and work left,
or a thread of the world. `World.leaves_perform` says so, together with what the task leaves the
workers holding and where a fiber may go on (`Census.Leaves`). A fiber's last task, the end of its body, is the
worker's business (`Fibers.Proofs.LiveAccounting`).

What each task does to the census is said once (section 1); which change of
`Fibers.Proofs.LiveChanges` it is, and why its side conditions hold, per kind of task:

* a spawn describes a fiber that counts as live at once, and names it in a task of the spawner
  that hands it to a run queue or launches it;
* handing a fiber to a run queue, launching it and keeping its handle take it out of flight;
  a joinable spawn that gives up drops it, and it counts no more;
* waits queue blocks of waiters that have stacks, and wakes make ready only such fibers.

## Contents
1. What the world's operations do to the census.
2. Holders, waits and wakes.
3. Steps and calls.
4. Tasks.
-/

namespace Fibers

/-- The tasks that do not end a body are all but the two that do. -/
theorem Task.ends_eq_false {t : Task} : t.ends = false ↔ t ≠ .finish ∧ t ≠ .exit := by
  cases t <;> simp [Task.ends]

namespace Census

variable {v v₁ v' : Census} {h : Holder}

/-- A holder in a position to take on tasks: a fiber with its stack and work left, or a thread
of the world. -/
def Ready (v : Census) : Holder → Prop
  | .fiber f _ => (v.fiber f).started = true ∧ (v.fiber f).busy = true
  | .thread t => t < v.threads.length

theorem Ready.has (hr : v.Ready h) : v.Has h := by
  cases h with
  | fiber f k => exact lt_of_busy hr.2
  | thread t => exact hr

theorem Ready.busy (hr : v.Ready h) : ∀ f k, h = .fiber f k → (v.fiber f).busy = true := by
  rintro f k rfl
  exact hr.2

theorem Ready.started (hr : v.Ready h) : ∀ f k, h = .fiber f k → (v.fiber f).started = true := by
  rintro f k rfl
  exact hr.1

theorem Ready.congr (hr : v.Ready h) {v' : Census} (hf : v'.fibers = v.fibers) (ht : v'.threads = v.threads) :
    v'.Ready h := by
  cases h with
  | fiber f k => simpa [Ready, fiber, hf] using hr
  | thread t => simpa [Ready, ht] using hr

theorem Ready.waiter (hr : v.Ready h) : ∀ f, World.waiterOf h = .fiber f → (v.fiber f).started = true := by
  cases h with
  | fiber f k =>
    intro g hg
    cases hg
    exact hr.1
  | thread t => intro g hg; cases hg

/-! ### One holder changed twice -/

variable {hs : List (Nat × Nat)} {ts ts' : List Task}

@[simp] theorem loads_setTasks : (v.setTasks h ts).loads = v.loads := by
  cases h <;> rfl

@[simp] theorem loads_setHandles : (v.setHandles h hs).loads = v.loads := by
  cases h <;> rfl

@[simp] theorem loads_setChores (a : Actor) (cs : List Chore) : (v.setChores a cs).loads = v.loads := by
  cases a <;> rfl

@[simp] theorem loads_setSched (g : Nat) (s : Scheduler) : (v.setSched g s).loads = v.loads := rfl

@[simp] theorem setTasks_setTasks : (v.setTasks h ts).setTasks h ts' = v.setTasks h ts' := by
  cases h <;> simp only [setTasks, List.modify_modify_eq] <;> rfl

theorem setTasks_setHandles : (v.setHandles h hs).setTasks h ts = (v.setTasks h ts).setHandles h hs := by
  cases h <;> simp only [setTasks, setHandles, List.modify_modify_eq] <;> rfl

@[simp] theorem tasksOf_setHandles : (v.setHandles h hs).tasksOf h = v.tasksOf h := by
  cases h with
  | fiber f k =>
    simp only [setHandles, tasksOf, fiber, List.getD_eq_getElem?_getD, List.getElem?_modify_eq]
    cases v.fibers[f]? <;> rfl
  | thread t =>
    simp only [setHandles, tasksOf, thread, List.getD_eq_getElem?_getD, List.getElem?_modify_eq]
    cases v.threads[t]? <;> rfl

/-- Giving a holder back the handles it keeps changes nothing. -/
@[simp] theorem setHandles_handlesOf : v.setHandles h (v.handlesOf h) = v := by
  cases h with
  | fiber f k =>
    simp only [setHandles, handlesOf]
    congr
    apply List.ext_getElem (by simp)
    intro i h₁ h₂
    simp only [List.getElem_modify]
    split
    · next hi => subst hi; simp [fiber, List.getD_eq_getElem?_getD, List.getElem?_eq_getElem h₂]
    · rfl
  | thread t =>
    simp only [setHandles, handlesOf]
    congr
    apply List.ext_getElem (by simp)
    intro i h₁ h₂
    simp only [List.getElem_modify]
    split
    · next hi => subst hi; simp [thread, List.getD_eq_getElem?_getD, List.getElem?_eq_getElem h₂]
    · rfl

@[simp] theorem placed_setTasks : (v.setTasks h ts).placed = v.placed := by
  cases h <;> rfl

/-! ### Carrying out a task -/

/-- A fiber past the census's fibers is named by nothing. -/
theorem Inv.not_mem_of_le (hi : v.Inv) {f : Nat} (hf : v.fibers.length ≤ f) :
    f ∉ v.spawning ∧ f ∉ v.placed ∧ f ∉ v.trying ∧ f ∉ v.adopting := by
  have hs : f ∉ v.spawning := fun h => absurd (lt_of_busy (hi.places.spawning f h).2) (by omega)
  exact ⟨hs, fun h => absurd (lt_of_not_dropped (hi.places.placed f h)) (by omega),
    fun h => hs ((trying_subperm_spawning v).subset h),
    fun h => absurd (lt_of_not_dropped (hi.handles.adopting f h).2) (by omega)⟩

/-- Every handle names an exit barrier that exists. -/
theorem Inv.handle_lt (hi : v.Inv) {d : Nat × Nat} (hd : d ∈ v.handles) : d.2 < v.latches.length := by
  obtain ⟨f, hf⟩ := hi.handles.latch d hd
  exact (hi.latches.range f _ hf).2

/-- A holder's first task carried out, with `v₁` the census left: the invariant holds and the
holder stays ready; the fibers whose spawn the task carried are named by nothing now and have
work and no stack, those whose spawn may give up are adopted by no dispatch and named by no
handle, and a fiber the task was to adopt can no longer give up. -/
structure Popped (v v₁ : Census) (h : Holder) (t : Task) : Prop where
  inv : v₁.Inv
  ready : v₁.Ready h
  spawning : ∀ f ∈ t.spawning,
    f ∉ v₁.spawning ∧ f ∉ v₁.placed ∧ (v₁.fiber f).started = false ∧ (v₁.fiber f).busy = true
  nodup : t.spawning.Nodup
  trying : ∀ f ∈ t.trying,
    f ∉ v₁.adopting ∧ ∀ b, (v₁.fiber f).latch = some b → ∀ d ∈ v₁.handles, d.2 ≠ b
  adopting : ∀ f ∈ t.adopting, f ∉ v₁.trying ∧ (v₁.fiber f).dropped = false

/-- Carrying out the first task of a ready holder, one that does not end a fiber's body. -/
theorem Inv.pop (hi : v.Inv) (hr : v.Ready h) {t : Task} {rest : List Task} (ht : v.tasksOf h = t :: rest)
    (hend : ∀ f k, h = .fiber f k → t.ends = false) : Popped v (v.setTasks h rest) h t := by
  have hh := hr.has
  -- a fiber holder keeps work, so every fiber keeps its status
  have hs : (v.setTasks h rest).statuses = v.statuses := by
    refine statuses_setTasks fun f k hfk => ?_
    subst hfk
    have ht' : (v.fiber f).tasks = t :: rest := ht
    have hne := ((ht' ▸ hi.counts.ends f).tail (hend f k rfl)).1
    simp [ht', hne]
  have old : ∀ {F : Task → List Nat} {x : Nat}, x ∈ (v.setTasks h rest).tasks.flatMap F →
      x ∈ v.tasks.flatMap F := fun hx => (refs_pop_perm _ hh ht).subset (List.mem_append_left _ hx)
  have named : ∀ {F : Task → List Nat} {x : Nat}, x ∈ F t → x ∈ v.tasks.flatMap F :=
    fun hx => (refs_pop_perm _ hh ht).subset (List.mem_append_right _ hx)
  -- the spawns the task carried are in flight nowhere else
  have hnd := List.nodup_append.mp ((refs_pop_perm Task.spawning hh ht).nodup_iff.mpr hi.places.nodup)
  have hi₁ : (v.setTasks h ([] ++ rest)).Inv :=
    hi.replaceFirst hh ht (fun f k hfk => ⟨hend f k hfk, by simp⟩) (by simp) (by simp) (by simp)
  refine ⟨by simpa using hi₁, ?_, fun f hf => ?_, hnd.2.1, fun f hf => ?_, fun f hf => ?_⟩
  · cases h with
    | fiber f k => exact ⟨(started_of_statuses hs f).trans hr.1, (busy_of_statuses hs f).trans hr.2⟩
    | thread t' => exact has_setTasks.mpr hh
  · have hv := hi.places.spawning f (named hf)
    refine ⟨fun h' => hnd.2.2 f h' f hf rfl, ?_, ?_, ?_⟩
    · rw [placed_setTasks]
      exact hi.places.apart f (named hf)
    · rw [started_of_statuses hs]; exact hv.1
    · rw [busy_of_statuses hs]; exact hv.2
  · have htr : f ∈ v.trying := named hf
    refine ⟨fun ha => (hi.handles.adopting f (old ha)).1 htr, fun b hb d hd => ?_⟩
    rw [latch_of_statuses hs] at hb
    rw [handles_setTasks] at hd
    exact hi.handles.free f b hb (.inl htr) d hd
  · obtain ⟨hnt, hnd'⟩ := hi.handles.adopting f (named hf)
    exact ⟨fun ht' => hnt (old ht'), by rw [dropped_of_statuses hs]; exact hnd'⟩

/-- Putting back in front of the holder's tasks what is left of a popped task: tasks that name
only spawns in flight it named, in its order, and adopt nothing. -/
theorem Popped.repush {t : Task} (P : Popped v v₁ h t) {ps : List Task} (hend : ∀ p ∈ ps, p.ends = false)
    (hsp : (ps.flatMap Task.spawning).Sublist t.spawning) (htry : ∀ f ∈ ps.flatMap Task.trying, f ∈ t.trying)
    (had : ps.flatMap Task.adopting = []) : (v₁.setTasks h (ps ++ v₁.tasksOf h)).Inv :=
  P.inv.push P.ready.has (fun f k hfk => ⟨P.ready.busy f k hfk, hend⟩) (fun f hf => P.spawning f (hsp.subset hf))
    (P.nodup.sublist hsp) (fun f hf => P.trying f (htry f hf)) (fun f hf => by simp [had] at hf)

/-- What a census places after a group's scheduler is replaced: what it placed, or what the new
scheduler holds. -/
theorem mem_placed_setSched {g f : Nat} {s : Scheduler} (hf : f ∈ (v.setSched g s).placed) :
    f ∈ v.placed ∨ f ∈ s.entities.map Entity.id := by
  simp only [placed, List.mem_append] at hf
  rcases hf with hf | hf
  · rcases mem_flatMap_set hf with hf | hf
    · exact .inl (List.mem_append_left _ hf)
    · exact .inr hf
  · exact .inl (List.mem_append_right _ hf)

/-- Handing a first part of the fibers a popped task names to a run queue: the census keeps the
invariant, and a task naming the rest could be put back. -/
theorem Popped.queue {t : Task} (P : Popped v v₁ h t) {g : Nat} {s : Scheduler} {pre rest : List Entity}
    (hids : (pre ++ rest).map Entity.id = t.spawning)
    (hs : (v₁.sched g).Sound → s.entities.Perm (pre ++ (v₁.sched g).entities) ∧ s.Sound) :
    Popped v (v₁.setSched g s) h (.startRest (rest.map Entity.id)) := by
  have named : ∀ e ∈ pre ++ rest, e.id ∈ t.spawning := fun e he => hids ▸ List.mem_map_of_mem he
  have hperm := hs (P.inv.places.sound g)
  have hnd : (pre.map Entity.id ++ rest.map Entity.id).Nodup := by
    rw [← List.map_append, hids]
    exact P.nodup
  refine ⟨P.inv.setSched (fun _ => hperm.2) fun e he => ?_, P.ready.congr rfl rfl, fun f hf => ?_,
    hnd.sublist (List.sublist_append_right _ _), fun f hf => (by simp [Task.trying] at hf),
    fun f hf => (by simp [Task.adopting] at hf)⟩
  · -- a queued entity was queued before, or is of the first part
    rcases List.mem_append.mp (hperm.1.subset he) with he | he
    · obtain ⟨hsp, -, hst, hb⟩ := P.spawning e.id (named e (List.mem_append_left _ he))
      exact .inr ⟨hsp, by simp [FiberView.dropped_eq, hst, hb]⟩
    · exact .inl he
  · -- the rest is placed by no old scheduler and is not of the first part
    obtain ⟨hsp, hp, hst, hb⟩ := P.spawning f (by rw [← hids, List.map_append]; exact List.mem_append_right _ hf)
    refine ⟨hsp, fun hp' => ?_, hst, hb⟩
    rcases mem_placed_setSched hp' with hp' | hp'
    · exact hp hp'
    · obtain ⟨e, he, rfl⟩ := List.mem_map.mp hp'
      rcases List.mem_append.mp (hperm.1.subset he) with he | he
      · exact List.disjoint_of_nodup_append hnd (List.mem_map_of_mem he) hf
      · exact hp (mem_placed_of_sched he)

/-- What a holder does next is something the run can go on with: it does not return, and a fiber
it switches to has its stack. -/
def Continues (v : Census) : Outcome → Prop
  | .exit => False
  | .switchTo f => (v.fiber f).started = true
  | _ => True

/-- What a task leaves of the accounting, from the census `v` before it: the invariant holds
again, every worker holds what it held, and the holder goes on. -/
structure Leaves (v v' : Census) (o : Outcome) : Prop where
  inv : v'.Inv
  loads : v'.loads = v.loads
  continues : v'.Continues o

theorem Leaves.trans {o : Outcome} (h₁ : v.Leaves v₁ .next) (h₂ : v₁.Leaves v' o) : v.Leaves v' o :=
  ⟨h₂.inv, h₂.loads.trans h₁.loads, h₂.continues⟩

theorem Leaves.of_loads {o : Outcome} (hl : v₁.Leaves v' o) (he : v₁.loads = v.loads) : v.Leaves v' o :=
  ⟨hl.inv, hl.loads.trans he, hl.continues⟩

theorem Ready.append (hr : v.Ready h) {xs : List FiberView} : ({ v with fibers := v.fibers ++ xs } : Census).Ready h := by
  cases h with
  | fiber f k =>
    have hf := lt_of_busy hr.2
    simp only [Ready]
    rw [fiber_append, if_pos hf]
    exact hr
  | thread t => exact hr

/-- A fiber past the old ones of a census that a spawn extended by fresh fibers: named by nothing,
with work and no stack. -/
theorem Inv.fresh_described (hi : v.Inv) {xs : List FiberView} (hxs : ∀ x ∈ xs, Fresh x) {f : Nat}
    (hf : v.fibers.length ≤ f) (hf' : f < v.fibers.length + xs.length) :
    f ∉ ({ v with fibers := v.fibers ++ xs } : Census).spawning ∧
      f ∉ ({ v with fibers := v.fibers ++ xs } : Census).placed ∧
      f ∉ ({ v with fibers := v.fibers ++ xs } : Census).trying ∧
      f ∉ ({ v with fibers := v.fibers ++ xs } : Census).adopting ∧
      (({ v with fibers := v.fibers ++ xs } : Census).fiber f).started = false ∧
      (({ v with fibers := v.fibers ++ xs } : Census).fiber f).busy = true := by
  obtain ⟨hs, hp, ht, ha⟩ := hi.not_mem_of_le hf
  -- the fiber is one of those described
  have hx : ∃ x ∈ xs, ({ v with fibers := v.fibers ++ xs } : Census).fiber f = x := by
    have hlt : f - v.fibers.length < xs.length := by omega
    refine ⟨xs[f - v.fibers.length], List.getElem_mem hlt, ?_⟩
    rw [fiber_append, if_neg (by omega), List.getD_eq_getElem?_getD, List.getElem?_eq_getElem hlt]
    rfl
  obtain ⟨x, hxm, hfx⟩ := hx
  rw [hfx]
  refine ⟨by rwa [spawning_describe hxs], hp, by rwa [trying_describe hxs], by rwa [adopting_describe hxs],
    (hxs x hxm).started, ?_⟩
  simpa [FiberView.busy] using (hxs x hxm).busy

/-- Waking the waiters of blocks held: the chores go to the actor, and make ready only fibers
with stacks. -/
theorem Inv.addWakes (hi₁ : v₁.Inv) (hi : v.Inv) (hf : v₁.fibers = v.fibers) {cs : List Chore}
    (hw : v.Wakes cs) (a : Actor) : (v₁.setChores a (v₁.choresOf a ++ cs)).Inv := by
  refine hi₁.setChores fun f hf' => ?_
  rw [List.flatMap_append, List.mem_append] at hf'
  rcases hf' with hf' | hf'
  · exact hi₁.places.chores f (mem_choreFibers_of_choresOf hf')
  · simpa [fiber, hf] using hw.started hi f hf'

@[simp] theorem fibers_setChores (a : Actor) (cs : List Chore) : (v.setChores a cs).fibers = v.fibers := by
  cases a <;> rfl

@[simp] theorem threads_setChores (a : Actor) (cs : List Chore) : (v.setChores a cs).threads = v.threads := by
  cases a <;> rfl

@[simp] theorem waiters_setChores (a : Actor) (cs : List Chore) : (v.setChores a cs).waiters = v.waiters := by
  cases a <;> rfl

theorem Ready.of_statuses (hr : v.Ready h) (hs : v'.statuses = v.statuses)
    (hl : v'.threads.length = v.threads.length) : v'.Ready h := by
  cases h with
  | fiber f k => exact ⟨(started_of_statuses hs f).trans hr.1, (busy_of_statuses hs f).trans hr.2⟩
  | thread t =>
    show t < v'.threads.length
    rw [hl]
    exact hr

end Census

namespace World

/-! ## 1. What the world's operations do to the census -/

section Equations

variable (w : World)

@[simp] theorem census_live (n : Nat) : ({ w with live := n } : World).census = { w.census with live := n } :=
  rfl

@[simp] theorem census_ending (e : Option Ending) :
    ({ w with ending := e } : World).census = { w.census with ending := e } :=
  rfl

@[simp] theorem census_current (a : Option Actor) : ({ w with current := a } : World).census = w.census :=
  rfl

@[simp] theorem census_counters (cs : List Int) : ({ w with counters := cs } : World).census = w.census :=
  rfl

@[simp] theorem census_tallies (ts : List Tally) : ({ w with tallies := ts } : World).census = w.census :=
  rfl

@[simp] theorem census_newEvent : w.newEvent.1.census = w.census := by
  simp [newEvent, census, blockRefs]

@[simp] theorem census_pool (p : Pool) :
    ({ w with pool := p } : World).census = { w.census with outstanding := p.outstanding } := rfl

@[simp] theorem census_appendTimeout (t : Timeout) :
    ({ w with timeouts := w.timeouts ++ [t] } : World).census =
      { w.census with blockRefs := w.census.blockRefs ++ [t.block], timeouts := w.census.timeouts + 1 } := by
  simp [census, blockRefs]

/-- Marking a timeout record keeps the block it names. -/
theorem census_modifyTimeout {r : Nat} {F : Timeout → Timeout} (hF : ∀ x, (F x).block = x.block) :
    ({ w with timeouts := w.timeouts.modify r F } : World).census = w.census := by
  simp only [census, blockRefs, List.length_modify]
  rw [map_modify_of_eq hF]

@[simp] theorem census_newTimer (g e : Nat) (iv : Option Nat) (cb : Callback) :
    (w.newTimer g e iv cb).1.census = { w.census with timeoutRefs := w.census.timeoutRefs ++ cb.timeoutRefs } := by
  simp [newTimer, census, blockRefs]

/-- Arming a timer records what its callback serves and nothing else. -/
theorem armTimer_census {g p e : Nat} {iv : Option Nat} {cb : Callback} {w' : World} {t : Nat}
    (h : w.armTimer g p e iv cb = .ok (w', t)) :
    w'.census = { w.census with timeoutRefs := w.census.timeoutRefs ++ cb.timeoutRefs } := by
  unfold armTimer at h
  rcases hn : w.newTimer g e iv cb with ⟨w₁, t₁⟩
  rw [hn] at h
  obtain ⟨⟨tt, timers⟩, -, h⟩ := except_bind_eq_ok h
  simp only [pure, Except.pure, Except.ok.injEq, Prod.mk.injEq] at h
  obtain ⟨rfl, -⟩ := h
  rw [← census_newTimer w g e iv cb, hn]
  exact census_setTimerThread w₁ g tt

/-- A spawn that nobody joins describes a fiber with its body's work. -/
theorem census_describe_detached (d g : Nat) (gl r : Bool) :
    (w.describe d g gl r false).1.census =
      { w.census with fibers := w.census.fibers ++ [{ tasks := w.bodyTasks d }] } := by
  simp [describe, census, blockRefs, FiberRec.view]

/-- A joinable spawn describes a fiber with its body's work and a new exit barrier of count one. -/
theorem census_describe_joinable (d g : Nat) (gl r : Bool) :
    (w.describe d g gl r true).1.census =
      { w.census with
        fibers := w.census.fibers ++ [{ latch := some w.census.latches.length, tasks := w.bodyTasks d }]
        latches := w.census.latches ++ [1] } := by
  simp [describe, newLatch, census, blockRefs, FiberRec.view, bodyTasks]

@[simp] theorem describe_snd (d g : Nat) (gl r j : Bool) : (w.describe d g gl r j).2 = w.census.fibers.length := by
  cases j <;> simp [describe, newLatch, census]

/-- Describing a batch appends its fibers, in order, and counts them live. -/
theorem describeAll_eq (g : Nat) (ds : List Nat) :
    w.describeAll g ds =
      ({ w with
          fibers := w.fibers ++ ds.map (fun d => ({ body := d, group := g, tasks := w.bodyTasks d } : FiberRec))
          live := w.live + ds.length }, List.range' w.fibers.length ds.length) := by
  unfold describeAll
  -- from the end of the list, so that the fold starts from the same world at every step
  suffices h : ds.foldl (fun acc d => ((acc.1.describe d g false false false).1,
      acc.2 ++ [(acc.1.describe d g false false false).2])) (w, []) =
      ({ w with fibers := w.fibers ++ ds.map (fun d => ({ body := d, group := g, tasks := w.bodyTasks d } : FiberRec)) },
        List.range' w.fibers.length ds.length) by
    rw [h]
    simp
  induction ds using List.reverseRecOn with
  | nil => simp
  | append_singleton ds d ih =>
    rw [List.foldl_append, ih]
    simp [describe, bodyTasks, List.range'_concat]

/-- A stack for a fiber: handed out, the fiber has its stack and one more is outstanding. -/
theorem instantiate_census {k f : Nat} {w' : World} {ok : Bool} (h : w.instantiate k f = .ok (w', ok)) :
    (ok = false ∧ w'.census = w.census) ∨
      (ok = true ∧ w'.census = { w.census with
        fibers := w.census.fibers.modify f (fun y => { y with started := true })
        outstanding := w.census.outstanding + 1 }) := by
  unfold instantiate at h
  split at h
  · cases h
  · next p hp =>
    simp only [Except.ok.injEq, Prod.mk.injEq] at h
    obtain ⟨rfl, rfl⟩ := h
    refine .inl ⟨rfl, ?_⟩
    rw [census_pool, Pool.allocate_outstanding hp]
    rfl
  · next p s hp =>
    simp only [Except.ok.injEq, Prod.mk.injEq] at h
    obtain ⟨rfl, rfl⟩ := h
    refine .inr ⟨rfl, ?_⟩
    simp only [census, modifyFiber, blockRefs, Pool.setOwner_outstanding, Pool.allocate_outstanding hp]
    congr 1
    exact map_modify_view fun _ => rfl

/-- A joinable spawn gives up: its fiber drops its work. -/
theorem census_dropTasks (f n : Nat) :
    ({ w.modifyFiber f (fun x => { x with tasks := [] }) with live := n } : World).census =
      { w.census with fibers := w.census.fibers.modify f (fun y => { y with tasks := [] }), live := n } := by
  simp only [census, modifyFiber, blockRefs]
  congr 1
  exact map_modify_view fun _ => rfl

/-- A frame that keeps the handles of the holder's frame. -/
theorem census_setFrame_of_handles {h : Holder} {fr : Frame} (hf : fr.handles = (w.frameOf h).handles) :
    (w.setFrame h fr).census = w.census := by
  rw [census_setFrame, hf, ← census_handlesOf, Census.setHandles_handlesOf]

end Equations

/-! ## 2. Holders, waits and wakes -/

section Holder

variable {w w₁ w' : World} {h : Holder} {o : Outcome}

/-- Tasks that name no spawn and no adoption, put in front of a ready holder's tasks. -/
theorem inv_pushPlain (hi : w.census.Inv) (hr : w.census.Ready h) {ps : List Task}
    (hps : ∀ p ∈ ps, p.ends = false ∧ p.spawning = [] ∧ p.adopting = []) : (w.pushTasks h ps).census.Inv := by
  rw [census_pushTasks]
  exact hi.pushPlain hr.has (fun f k hfk => hr.busy f k hfk) hps

/-- A ready holder's frame keeps some of its handles. -/
theorem inv_setFrame (hi : w.census.Inv) (hr : w.census.Ready h) {fr : Frame}
    (hf : ∀ d ∈ fr.handles, d ∈ (w.frameOf h).handles) : (w.setFrame h fr).census.Inv := by
  rw [census_setFrame]
  exact hi.setHandles hr.has fun d hd => .inl (by rw [census_handlesOf]; exact hf d hd)

/-- What a wait leaves the holder to do, woken or not. -/
theorem leaves_follow (hi : w.census.Inv) (hr : w.census.Ready h) (s : Sequel) (woken : Bool) :
    w.census.Leaves (w.follow h s woken).census .next := by
  cases s with
  | none => exact ⟨hi, rfl, trivial⟩
  | own m =>
    rw [follow, census_setFrame_of_handles w]
    · exact ⟨hi, rfl, trivial⟩
    · rfl
  | reportWait e => exact ⟨by simpa [follow] using hi, by simp [follow], trivial⟩
  | relock m =>
    exact ⟨inv_pushPlain hi hr (by simp [Task.ends, Task.spawning, Task.adopting]), by simp [follow], trivial⟩
  | relockReport c m =>
    exact ⟨inv_pushPlain hi hr (by simp [Task.ends, Task.spawning, Task.adopting]), by simp [follow], trivial⟩

/-- The holder blocks: a fiber suspends, to be resumed; a thread waits on its slot. -/
theorem leaves_blockOn (hi : w.census.Inv) (hr : w.census.Ready h) (b : Nat) (d : Option Nat) (s : Sequel)
    (r : Option (Nat × Nat)) : w.census.Leaves (w.blockOn h b d s r).1.census (w.blockOn h b d s r).2 := by
  cases h with
  | fiber f k =>
    exact ⟨inv_pushPlain hi hr (by simp [Task.ends, Task.spawning, Task.adopting]), by simp [blockOn], trivial⟩
  | thread t => exact ⟨by simpa [blockOn] using hi, by simp [blockOn], trivial⟩

/-- Queueing a block of a waiter that is a plain thread or a fiber with a stack: only the blocks
change. -/
theorem enqueue_some (hi : w.census.Inv) {x : Waiter} (hx : ∀ f, x = .fiber f → (w.census.fiber f).started = true)
    {s : Site} {b : Nat} (he : w.enqueue x s = (w₁, some b)) :
    w₁.census.Inv ∧ w₁.census = { w.census with waiters := w.census.waiters ++ [x], blockRefs := w₁.census.blockRefs } ∧
      b = w.census.waiters.length := by
  rcases enqueue_census w he with ⟨h₁, -⟩ | ⟨h₁, hr⟩
  · cases h₁
  · exact ⟨hi.enqueue hx hr, hr.1, Option.some.inj h₁⟩

/-- Queueing the holder's block and blocking on it, or going on when the waitable is open for
good. -/
theorem leaves_enqueue_blockOn (hi : w.census.Inv) (hr : w.census.Ready h) (s : Site) (sq : Sequel) :
    w.census.Leaves
      (match w.enqueue (waiterOf h) s with
        | (w, some b) => w.blockOn h b none sq none
        | (w, none) => (w, Outcome.next)).1.census
      (match w.enqueue (waiterOf h) s with
        | (w, some b) => w.blockOn h b none sq none
        | (w, none) => (w, Outcome.next)).2 := by
  rcases he : w.enqueue (waiterOf h) s with ⟨w₁, _ | b⟩
  · rcases enqueue_census w he with ⟨-, rfl⟩ | ⟨h₁, -⟩
    · exact ⟨hi, rfl, trivial⟩
    · cases h₁
  · obtain ⟨hi₁, e₁, -⟩ := enqueue_some hi hr.waiter he
    exact (leaves_blockOn hi₁ (hr.congr (by rw [e₁]) (by rw [e₁])) b none sq none).of_loads (by rw [e₁])

theorem leaves_awaitEvent (hi : w.census.Inv) (hr : w.census.Ready h) (e : Nat) :
    w.census.Leaves (w.awaitEvent h e).1.census (w.awaitEvent h e).2 := by
  have hw : w.awaitEvent h e = match w.enqueue (waiterOf h) (.event e) with
      | (w, some b) => w.blockOn h b none .none none
      | (w, none) => (w, Outcome.next) := by
    cases h <;> rfl
  rw [hw]
  exact leaves_enqueue_blockOn hi hr _ _

theorem leaves_awaitLatch (hi : w.census.Inv) (hr : w.census.Ready h) (b : Nat) :
    w.census.Leaves (w.awaitLatch h b).1.census (w.awaitLatch h b).2 := by
  unfold awaitLatch
  split
  · exact ⟨hi, rfl, trivial⟩
  · exact leaves_enqueue_blockOn hi hr _ _

/-- The holder blocks for a while: a fiber arms a timeout on its group's timer thread. -/
theorem leaves_blockFor (hi : w.census.Inv) (hr : w.census.Ready h) {b ms : Nat} {s : Sequel}
    (hb : b < w.census.waiters.length)
    (hw : ∀ f, w.census.waiter b = .fiber f → (w.census.fiber f).started = true)
    (hf : w.blockFor h b ms s = .ok (w', o)) : w.census.Leaves w'.census o := by
  cases h with
  | fiber f k =>
    unfold blockFor at hf
    obtain ⟨⟨w₂, t⟩, ha, hf⟩ := except_bind_eq_ok hf
    simp only [pure, Except.pure, Except.ok.injEq] at hf
    have e₂ := armTimer_census _ ha
    rw [census_appendTimeout] at e₂
    have hi₂ : w₂.census.Inv := by
      rw [e₂]
      exact (hi.addTimeout hb hw).addTimeoutRef (by simp [Callback.timeoutRefs, census])
    have hl := leaves_blockOn hi₂ (hr.congr (by rw [e₂]) (by rw [e₂])) b none s (some (w.timeouts.length, t))
    rw [hf] at hl
    exact hl.of_loads (by rw [e₂])
  | thread t =>
    simp only [blockFor, pure, Except.pure, Except.ok.injEq] at hf
    have hl := leaves_blockOn hi hr b (some (w.now + millis ms)) s none
    rwa [hf] at hl

/-- Waking the waiters of blocks a waitable held, as chores of an actor. -/
theorem inv_addChores_of_wakes (hi : w.census.Inv) (hr : w.census.Rewaited w₁.census []) {cs : List Chore}
    (hw : w.census.Wakes cs) (a : Actor) : (w₁.addChores a cs).census.Inv := by
  rw [census_addChores]
  exact (hi.rewaited hr (by simp)).addWakes hi (by rw [hr.1]) hw a

/-! ### Spawns -/

/-- A fiber a spawn describes has its body's work, ending it once, and names nothing. -/
theorem fresh_bodyTasks (w : World) (l : Option Nat) (d : Nat) :
    Census.Fresh ({ latch := l, tasks := w.bodyTasks d } : FiberView) where
  started := rfl
  handles := rfl
  busy := by simp [bodyTasks]
  ends := Task.Ends.of_last (by simp [Task.ends]) rfl
  spawning := by simp [bodyTasks, Task.spawning]
  adopting := by simp [bodyTasks, Task.adopting]

/-- A spawn that nobody joins: the fiber counts live at once, and the holder is to queue it. -/
theorem leaves_startDetached (hi : w.census.Inv) (hr : w.census.Ready h) (hq : w.ending ≠ some .quiet)
    {d g f : Nat} (hd : w.describe d g false false false = (w₁, f)) :
    w.census.Leaves ({ w₁ with live := w₁.live + 1 }.pushTasks h [.startForever f]).census .next := by
  set v := w.census
  set x : FiberView := { tasks := w.bodyTasks d }
  have e₁ : ({ w₁ with live := w₁.live + 1 } : World).census =
      { v with fibers := v.fibers ++ [x], live := v.live + [x].length } := by
    obtain rfl : (w.describe d g false false false).1 = w₁ := congrArg Prod.fst hd
    rw [census_live, census_describe_detached]
    simp [describe, v, x, census]
  have hf : f = v.fibers.length := by simpa [hd] using describe_snd w d g false false false
  have hxs : ∀ y ∈ [x], Census.Fresh y := by simpa using fresh_bodyTasks w none d
  obtain ⟨hsp, hpl, -, -, hst, hb⟩ := hi.fresh_described hxs (f := f) (by omega) (by simp; omega)
  have hr₁ : ({ v with fibers := v.fibers ++ [x] } : Census).Ready h := hr.append
  rw [census_pushTasks, e₁]
  refine ⟨(hi.describe hq hxs (by simp [x])).push hr₁.has (fun g k hgk => ⟨hr₁.busy g k hgk, by simp [Task.ends]⟩)
    ?_ (by simp [Task.spawning]) (by simp [Task.trying]) (by simp [Task.adopting]), by simp, trivial⟩
  simp only [List.flatMap_cons, List.flatMap_nil, Task.spawning, List.append_nil, List.mem_singleton]
  rintro _ rfl
  exact ⟨hsp, hpl, hst, hb⟩

/-- Describing a batch: the fibers count live at once, and the holder is to queue them. -/
theorem leaves_startBatch (hi : w.census.Inv) (hr : w.census.Ready h) (hq : w.ending ≠ some .quiet)
    (g : Nat) (ds : List Nat) :
    w.census.Leaves ((w.describeAll g ds).1.pushTasks h [.startRest (w.describeAll g ds).2]).census .next := by
  set v := w.census
  set xs : List FiberView := ds.map (fun d => { tasks := w.bodyTasks d })
  have e₁ : (w.describeAll g ds).1.census = { v with fibers := v.fibers ++ xs, live := v.live + xs.length } := by
    rw [describeAll_eq]
    simp [census, blockRefs, FiberRec.view, v, xs, Function.comp_def]
  have hfs : (w.describeAll g ds).2 = List.range' v.fibers.length xs.length := by
    rw [describeAll_eq]
    simp [census, v, xs]
  have hxs : ∀ x ∈ xs, Census.Fresh x := by
    simp only [xs, List.mem_map]
    rintro _ ⟨d, -, rfl⟩
    exact fresh_bodyTasks w none d
  have hr₁ : ({ v with fibers := v.fibers ++ xs } : Census).Ready h := hr.append
  rw [census_pushTasks, e₁, hfs]
  refine ⟨(hi.describe hq hxs (by simp [xs])).push hr₁.has (fun g k hgk => ⟨hr₁.busy g k hgk, by simp [Task.ends]⟩)
    ?_ (by simpa [Task.spawning] using List.nodup_range' (s := v.fibers.length) (n := xs.length))
    (by simp [Task.trying]) (by simp [Task.adopting]), by simp, trivial⟩
  simp only [List.flatMap_cons, List.flatMap_nil, Task.spawning, List.append_nil, List.mem_range'_1]
  rintro f ⟨hf₁, hf₂⟩
  obtain ⟨hsp, hpl, -, -, hst, hb⟩ := hi.fresh_described hxs hf₁ hf₂
  exact ⟨hsp, hpl, hst, hb⟩

/-- A joinable spawn: the fiber counts live at once, with an exit barrier of its own, and the
holder is to queue it, or to launch it and then keep its handle. -/
theorem leaves_describeJoinable (hi : w.census.Inv) (hr : w.census.Ready h) (hq : w.ending ≠ some .quiet)
    {d g f : Nat} {gl r : Bool} (hd : w.describe d g gl r true = (w₁, f)) {ps : List Task}
    (hps : ps = [.launch f, .adopt f] ∨ ∃ fatal, ps = [.attempt f 0 fatal]) :
    w.census.Leaves ({ w₁ with live := w₁.live + 1 }.pushTasks h ps).census .next := by
  set v := w.census
  set x : FiberView := { latch := some v.latches.length, tasks := w.bodyTasks d }
  have e₁ : ({ w₁ with live := w₁.live + 1 } : World).census =
      { v with fibers := v.fibers ++ [x], latches := v.latches ++ [1], live := v.live + 1 } := by
    obtain rfl : (w.describe d g gl r true).1 = w₁ := congrArg Prod.fst hd
    rw [census_live, census_describe_joinable]
    simp [describe, newLatch, v, x, census]
  have hf : f = v.fibers.length := by simpa [hd] using describe_snd w d g gl r true
  have hxs : ∀ y ∈ [x], Census.Fresh y := by simpa using fresh_bodyTasks w _ d
  obtain ⟨hsp, hpl, htr, had, hst, hb⟩ := hi.fresh_described hxs (f := f) (by omega) (by simp; omega)
  have hlatch : (({ v with fibers := v.fibers ++ [x] } : Census).fiber f).latch = some v.latches.length := by
    rw [Census.fiber_append, if_neg (by omega), hf]
    simp [x]
  have hr₁ : ({ v with fibers := v.fibers ++ [x] } : Census).Ready h := hr.append
  -- no handle names the new exit barrier
  have hfree : ∀ b, (({ v with fibers := v.fibers ++ [x] } : Census).fiber f).latch = some b →
      ∀ d ∈ ({ v with fibers := v.fibers ++ [x] } : Census).handles, d.2 ≠ b := by
    intro b hb d hd
    rw [hlatch, Option.some.injEq] at hb
    rw [Census.handles_describe hxs] at hd
    have := hi.handle_lt hd
    omega
  rw [census_pushTasks, e₁]
  have hi₁ := hi.describeJoinable hq (fresh_bodyTasks w _ d) rfl
  have hdrop : (({ v with fibers := v.fibers ++ [x] } : Census).fiber f).dropped = false := by
    simp [FiberView.dropped_eq, hb]
  rcases hps with rfl | ⟨fatal, rfl⟩
  · -- a dispatch launches the fiber, then keeps its handle
    refine ⟨hi₁.push hr₁.has (fun g k hgk => ⟨hr₁.busy g k hgk, by simp [Task.ends]⟩) ?_
      (by simp [Task.spawning]) (by simp [Task.trying]) ?_, by simp, trivial⟩
    · simp only [List.flatMap_cons, List.flatMap_nil, Task.spawning, List.append_nil, List.mem_singleton]
      rintro _ rfl
      exact ⟨hsp, hpl, hst, hb⟩
    · simp only [List.flatMap_cons, List.flatMap_nil, Task.adopting, Task.trying, List.append_nil,
        List.nil_append, List.mem_singleton]
      rintro _ rfl
      exact ⟨List.not_mem_nil, htr, hdrop⟩
  · -- a post queues the fiber, trying again while the run queue is full
    refine ⟨hi₁.push hr₁.has (fun g k hgk => ⟨hr₁.busy g k hgk, by simp [Task.ends]⟩) ?_
      (by simp [Task.spawning]) ?_ (by simp [Task.adopting]), by simp, trivial⟩
    · simp only [List.flatMap_cons, List.flatMap_nil, Task.spawning, List.append_nil, List.mem_singleton]
      rintro _ rfl
      exact ⟨hsp, hpl, hst, hb⟩
    · simp only [List.flatMap_cons, List.flatMap_nil, Task.trying, List.append_nil, List.mem_singleton]
      rintro _ rfl
      exact ⟨had, hfree⟩

/-- Keeping the handle of a fiber whose spawn can no longer give up. -/
theorem inv_keepHandle (hi : w.census.Inv) (hh : w.census.Has h) {f : Nat} (hf : f ∉ w.census.trying)
    (hd : (w.census.fiber f).dropped = false) :
    (w.keepHandle h f).census.Inv ∧ (w.keepHandle h f).census.loads = w.census.loads := by
  unfold keepHandle
  split
  · next b hb =>
    rw [census_setFrame]
    refine ⟨hi.setHandles hh fun d hd' => ?_, by simp⟩
    rcases List.mem_append.mp hd' with hd' | hd'
    · exact .inl (by rwa [census_handlesOf])
    · rw [List.mem_singleton] at hd'
      subst hd'
      exact .inr ⟨f, by simpa [FiberRec.view] using hb, hf, hd⟩
  · exact ⟨hi, rfl⟩

/-! ### Frames, queues and timers -/

theorem leaves_say (hi : w.census.Inv) (text : String) : w.census.Leaves (w.say h text).census .next :=
  ⟨by simpa using hi, by simp, trivial⟩

/-- Waking the waiters of blocks a waitable held, as chores of an actor. -/
theorem leaves_wakes (hi : w.census.Inv) (hr : w.census.Rewaited w₁.census []) {cs : List Chore}
    (hw : w.census.Wakes cs) (a : Actor) : w.census.Leaves (w₁.addChores a cs).census .next :=
  ⟨inv_addChores_of_wakes hi hr hw a, by rw [census_addChores, Census.loads_setChores, hr.1], trivial⟩

/-- A frame that kept some of a ready holder's handles, then tasks that name no spawn in front. -/
theorem leaves_setFrame_push (hi : w.census.Inv) (hr : w.census.Ready h) {fr : Frame}
    (hf : ∀ d ∈ fr.handles, d ∈ (w.frameOf h).handles) {ps : List Task}
    (hps : ∀ p ∈ ps, p.ends = false ∧ p.spawning = [] ∧ p.adopting = []) :
    w.census.Leaves ((w.setFrame h fr).pushTasks h ps).census .next := by
  have hr₁ : (w.setFrame h fr).census.Ready h := by
    rw [census_setFrame]
    exact hr.of_statuses (Census.statuses_setHandles _) (by cases h <;> simp [Census.setHandles])
  exact ⟨inv_pushPlain (inv_setFrame hi hr hf) hr₁ hps, by simp, trivial⟩

theorem Frame.handles_takeHandle (fr : Frame) (d : Nat) : ∀ x ∈ (fr.takeHandle d).2.handles, x ∈ fr.handles := by
  unfold Frame.takeHandle
  split
  · exact fun x hx => List.mem_of_mem_erase hx
  · exact fun x hx => hx

theorem Frame.handles_takeHandles (fr : Frame) (d : Nat) : ∀ x ∈ (fr.takeHandles d).2.handles, x ∈ fr.handles :=
  fun _ hx => List.mem_of_mem_filter hx

theorem Frame.handles_dropGuard {fr fr' : Frame} {m : Nat} (h : fr.dropGuard m = some fr') :
    fr'.handles = fr.handles := by
  unfold Frame.dropGuard at h
  split at h
  · cases h
    rfl
  · cases h

/-- Queueing the holder's block: the invariant holds, the holder stays ready, the block is the
holder's, and no worker holds anything else. -/
theorem enqueue_holder (hi : w.census.Inv) (hr : w.census.Ready h) {s : Site} {b : Nat}
    (he : w.enqueue (waiterOf h) s = (w₁, some b)) :
    w₁.census.Inv ∧ w₁.census.Ready h ∧ w₁.census.loads = w.census.loads ∧ b < w₁.census.waiters.length ∧
      ∀ f, w₁.census.waiter b = .fiber f → (w₁.census.fiber f).started = true := by
  obtain ⟨hi₁, e₁, rfl⟩ := enqueue_some hi hr.waiter he
  refine ⟨hi₁, hr.congr (by rw [e₁]) (by rw [e₁]), by rw [e₁], by rw [e₁]; simp, fun f hf => ?_⟩
  rw [e₁] at hf ⊢
  simp only [Census.waiter, List.getD_eq_getElem?_getD, List.getElem?_append_right (Nat.le_refl _),
    Nat.sub_self, List.getElem?_cons_zero, Option.getD_some] at hf
  exact hr.waiter f hf

/-- Arming a timer that serves no timeout record. -/
theorem armTimer_census_of {g p e : Nat} {iv : Option Nat} {cb : Callback} {t : Nat}
    (ha : w.armTimer g p e iv cb = .ok (w', t)) (hc : cb.timeoutRefs = []) : w'.census = w.census := by
  rw [armTimer_census w ha, hc, List.append_nil]

/-- A joinable spawn through the runtime: reported when its group does not exist, and otherwise
counted live at once with an exit barrier of its own. -/
theorem leaves_spawnJoinable (hi : w.census.Inv) (hr : w.census.Ready h) (hq : w.ending ≠ some .quiet)
    {s : SpawnSpec} (hs : w.spawnJoinable h s = .ok (w', o)) : w.census.Leaves w'.census o := by
  unfold spawnJoinable at hs
  dsimp only at hs
  split at hs
  · -- no such group: a checked spawn reports it, any other aborts
    split at hs
    · simp only [Bool.false_eq_true, ↓reduceIte, Except.ok.injEq, Prod.mk.injEq] at hs
      obtain ⟨rfl, rfl⟩ := hs
      exact leaves_say hi _
    · simp at hs
  · next g _ =>
    rcases hd : w.describe s.effective.target g s.effective.groupLocal s.effective.reactor true with ⟨w₁, f⟩
    rw [hd] at hs
    dsimp only at hs
    -- a fiber of the target group may dispatch: launch the fiber at once; anything else queues it
    split at hs <;> split at hs <;> obtain ⟨rfl, rfl⟩ := Prod.mk.inj (Except.ok.inj hs)
    · exact leaves_describeJoinable hi hr hq hd (.inl rfl)
    · exact leaves_describeJoinable hi hr hq hd (.inr ⟨_, rfl⟩)
    · exact leaves_describeJoinable hi hr hq hd (.inl rfl)
    · exact leaves_describeJoinable hi hr hq hd (.inr ⟨_, rfl⟩)

/-- Tasks that name no spawn put in front of a holder's tasks, after changes that kept the
invariant, the holder ready and what every worker holds. -/
theorem leaves_push (hi₁ : w₁.census.Inv) (hr₁ : w₁.census.Ready h) (hl : w₁.census.loads = w.census.loads)
    {ps : List Task} (hps : ∀ p ∈ ps, p.ends = false ∧ p.spawning = [] ∧ p.adopting = []) :
    w.census.Leaves (w₁.pushTasks h ps).census .next :=
  ⟨inv_pushPlain hi₁ hr₁ hps, by simp [hl], trivial⟩

/-- Waking the waiters of blocks a waitable held changes no fiber, thread, block or worker. -/
theorem wakes_frame (hr : w.census.Rewaited w₁.census []) (cs : List Chore) (a : Actor) :
    (w₁.addChores a cs).census.fibers = w.census.fibers ∧ (w₁.addChores a cs).census.threads = w.census.threads ∧
      (w₁.addChores a cs).census.waiters = w.census.waiters ∧
      (w₁.addChores a cs).census.loads = w.census.loads := by
  simp only [census_addChores, Census.fibers_setChores, Census.threads_setChores, Census.waiters_setChores,
    Census.loads_setChores]
  rw [hr.1]
  exact ⟨rfl, rfl, rfl, rfl⟩

/-- Waiting on a condition variable: the holder gives up its guard and queues its block on the
condition variable, then the mutex lets go of its waiters. The holder is still ready, and its
block is one of a fiber with a stack. -/
theorem cvWait_release (hi : w.census.Inv) (hr : w.census.Ready h) {m c b : Nat} {fr : Frame} {w₂ : World}
    (hd : (w.frameOf h).dropGuard (shared m) = some fr)
    (he : (w.setFrame h fr).enqueue (waiterOf h) (.condvar (shared c)) = (w₂, some b)) :
    ((w₂.unlockMutex (shared m)).1.addChores h.actor (w₂.unlockMutex (shared m)).2).census.Inv ∧
      ((w₂.unlockMutex (shared m)).1.addChores h.actor (w₂.unlockMutex (shared m)).2).census.Ready h ∧
      ((w₂.unlockMutex (shared m)).1.addChores h.actor (w₂.unlockMutex (shared m)).2).census.loads =
        w.census.loads ∧
      b < ((w₂.unlockMutex (shared m)).1.addChores h.actor (w₂.unlockMutex (shared m)).2).census.waiters.length ∧
      ∀ f, ((w₂.unlockMutex (shared m)).1.addChores h.actor (w₂.unlockMutex (shared m)).2).census.waiter b =
        .fiber f →
        (((w₂.unlockMutex (shared m)).1.addChores h.actor (w₂.unlockMutex (shared m)).2).census.fiber f).started =
          true := by
  have e₁ := census_setFrame_of_handles w (Frame.handles_dropGuard hd)
  obtain ⟨hi₂, hr₂, hl₂, hb, hw⟩ := enqueue_holder (e₁ ▸ hi) (e₁ ▸ hr) he
  rcases hu : w₂.unlockMutex (shared m) with ⟨w₃, cs⟩
  obtain ⟨hrw, hwk⟩ := unlockMutex_census w₂ hu
  obtain ⟨hf₃, ht₃, hw₃, hl₃⟩ := wakes_frame hrw cs h.actor
  refine ⟨inv_addChores_of_wakes hi₂ hrw hwk h.actor, hr₂.congr hf₃ ht₃, by rw [hl₃, hl₂, e₁],
    by rw [hw₃]; exact hb, ?_⟩
  simpa only [Census.waiter, Census.fiber, hw₃, hf₃] using hw

/-- A condition variable that takes no block leaves the holder as it was, its guard given up. -/
theorem leaves_cvWait_none (hi : w.census.Inv) {m c : Nat} {fr : Frame} {w₂ : World}
    (hd : (w.frameOf h).dropGuard (shared m) = some fr)
    (he : (w.setFrame h fr).enqueue (waiterOf h) (.condvar (shared c)) = (w₂, none)) :
    w.census.Leaves w₂.census .next := by
  have e₁ := census_setFrame_of_handles w (Frame.handles_dropGuard hd)
  rcases enqueue_census _ he with ⟨-, rfl⟩ | ⟨h₁, -⟩
  · exact ⟨e₁ ▸ hi, by rw [e₁], trivial⟩
  · cases h₁

end Holder

/-! ## 3. Steps and calls -/

section Steps

variable {w w₁ w' : World} {h : Holder} {o : Outcome}

/-- Every step of a ready holder keeps the accounting. -/
theorem leaves_runStep (hi : w.census.Inv) (hr : w.census.Ready h) (hq : w.ending ≠ some .quiet)
    {s : Step} (hs : w.runStep h s = .ok (w', o)) : w.census.Leaves w'.census o := by
  have plain : ∀ {ps : List Task}, (∀ p ∈ ps, p.ends = false ∧ p.spawning = [] ∧ p.adopting = []) →
      w.census.Leaves (w.pushTasks h ps).census .next := fun hps => leaves_push hi hr rfl hps
  cases s with
  | yield =>
    obtain ⟨rfl, rfl⟩ := Prod.mk.inj (Except.ok.inj hs)
    exact ⟨hi, rfl, by cases h <;> trivial⟩
  | context | currentGroup | groupDebug | timersFired | log _ | isSet _ | joinable _ =>
    obtain ⟨rfl, rfl⟩ := Prod.mk.inj (Except.ok.inj hs)
    exact leaves_say hi _
  | spawn sp =>
    cases h with
    | fiber f k => exact leaves_spawnJoinable hi hr hq hs
    | thread t =>
      simp only [runStep] at hs
      split at hs
      · obtain ⟨rfl, rfl⟩ := Prod.mk.inj (Except.ok.inj hs)
        exact leaves_say hi _
      · cases hs
  | startDetached d =>
    cases h with
    | fiber f k =>
      simp only [runStep] at hs
      rcases hd : w.describe d (w.worker k).group false false false with ⟨w₁, f'⟩
      rw [hd] at hs
      obtain ⟨rfl, rfl⟩ := Prod.mk.inj (Except.ok.inj hs)
      exact leaves_startDetached hi hr hq hd
    | thread t => cases hs
  | batch ds =>
    cases h with
    | fiber f k =>
      simp only [runStep] at hs
      split at hs
      · obtain ⟨rfl, rfl⟩ := Prod.mk.inj (Except.ok.inj hs)
        exact ⟨hi, rfl, trivial⟩
      · obtain ⟨rfl, rfl⟩ := Prod.mk.inj (Except.ok.inj hs)
        exact leaves_startBatch hi hr hq _ ds
    | thread t => cases hs
  | join d =>
    simp only [runStep] at hs
    rcases ht : (w.frameOf h).takeHandle d with ⟨_ | b, fr⟩ <;> rw [ht] at hs <;>
      obtain ⟨rfl, rfl⟩ := Prod.mk.inj (Except.ok.inj hs)
    · exact leaves_say hi _
    · exact leaves_setFrame_push hi hr (fun x hx => Frame.handles_takeHandle _ d x (by rw [ht]; exact hx))
        (by simp [Task.ends, Task.spawning, Task.adopting])
  | joinAll d =>
    obtain ⟨rfl, rfl⟩ := Prod.mk.inj (Except.ok.inj hs)
    exact leaves_setFrame_push hi hr (Frame.handles_takeHandles _ d) (by simp [Task.ends, Task.spawning, Task.adopting])
  | detach d =>
    obtain ⟨rfl, rfl⟩ := Prod.mk.inj (Except.ok.inj hs)
    exact ⟨inv_setFrame hi hr (Frame.handles_takeHandle _ d), by simp, trivial⟩
  | drop d =>
    simp only [runStep] at hs
    split at hs
    · cases hs
    · obtain ⟨rfl, rfl⟩ := Prod.mk.inj (Except.ok.inj hs)
      exact ⟨hi, rfl, trivial⟩
  | lock m =>
    simp only [runStep] at hs
    rcases hl : w.lockMutex (shared m) (waiterOf h) with ⟨w₁, _ | b⟩ <;> rw [hl] at hs <;>
      obtain ⟨rfl, rfl⟩ := Prod.mk.inj (Except.ok.inj hs)
    · -- taken at once: the holder keeps a guard
      rcases lockMutex_census w hl with ⟨-, e₁⟩ | ⟨h₁, -⟩
      · exact (leaves_follow (e₁ ▸ hi) (e₁ ▸ hr) _ _).of_loads (by rw [e₁])
      · cases h₁
    · -- the holder queues its block and blocks
      rcases lockMutex_census w hl with ⟨h₁, -⟩ | ⟨-, hrw⟩
      · cases h₁
      · exact (leaves_blockOn (hi.enqueue hr.waiter hrw) (hr.congr (by rw [hrw.1]) (by rw [hrw.1])) b none _
          none).of_loads (by rw [hrw.1])
  | unlock m =>
    simp only [runStep] at hs
    rcases hd : (w.frameOf h).dropGuard (shared m) with _ | fr <;> rw [hd] at hs <;> dsimp only at hs
    · obtain ⟨rfl, rfl⟩ := Prod.mk.inj (Except.ok.inj hs)
      exact leaves_say hi _
    · rcases hu : (w.setFrame h fr).unlockMutex (shared m) with ⟨w₂, cs⟩
      rw [hu] at hs
      obtain ⟨rfl, rfl⟩ := Prod.mk.inj (Except.ok.inj hs)
      obtain ⟨hrw, hw⟩ := unlockMutex_census _ hu
      rw [census_setFrame_of_handles w (Frame.handles_dropGuard hd)] at hrw hw
      exact leaves_wakes hi hrw hw _
  | tryLock m =>
    simp only [runStep] at hs
    rcases ht : w.tryLockMutex (shared m) with ⟨w₁, ok⟩
    rw [ht] at hs
    obtain ⟨rfl, rfl⟩ := Prod.mk.inj (Except.ok.inj hs)
    have e₁ : w₁.census = w.census := by rw [← census_tryLockMutex w (shared m), ht]
    rw [census_say]
    split
    · exact (leaves_follow (e₁ ▸ hi) (e₁ ▸ hr) _ _).of_loads (by rw [e₁])
    · exact ⟨e₁ ▸ hi, by rw [e₁], trivial⟩
  | set e =>
    simp only [runStep] at hs
    rcases he : w.setEvent (shared e) with ⟨w₁, cs⟩
    rw [he] at hs
    obtain ⟨rfl, rfl⟩ := Prod.mk.inj (Except.ok.inj hs)
    obtain ⟨hrw, hw⟩ := setEvent_census w he
    exact leaves_wakes hi hrw hw _
  | wait e =>
    have hl := leaves_awaitEvent hi hr (shared e)
    rwa [Except.ok.inj hs] at hl
  | waitFor e ms =>
    simp only [runStep] at hs
    rcases he : w.enqueue (waiterOf h) (.event (shared e)) with ⟨w₁, _ | b⟩ <;> rw [he] at hs
    · obtain ⟨rfl, rfl⟩ := Prod.mk.inj (Except.ok.inj hs)
      rcases enqueue_census w he with ⟨-, rfl⟩ | ⟨h₁, -⟩
      · exact leaves_follow hi hr _ _
      · cases h₁
    · obtain ⟨hi₁, hr₁, hl, hb, hw⟩ := enqueue_holder hi hr he
      exact (leaves_blockFor hi₁ hr₁ hb hw hs).of_loads hl
  | cvWait c m =>
    simp only [runStep] at hs
    rcases hd : (w.frameOf h).dropGuard (shared m) with _ | fr <;> rw [hd] at hs <;> dsimp only at hs
    · obtain ⟨rfl, rfl⟩ := Prod.mk.inj (Except.ok.inj hs)
      exact leaves_say hi _
    rcases he : (w.setFrame h fr).enqueue (waiterOf h) (.condvar (shared c)) with ⟨w₂, _ | b⟩ <;>
      rw [he] at hs <;> dsimp only at hs
    · obtain ⟨rfl, rfl⟩ := Prod.mk.inj (Except.ok.inj hs)
      exact leaves_cvWait_none hi hd he
    obtain ⟨hi₃, hr₃, hl, -, -⟩ := cvWait_release hi hr hd he
    obtain ⟨rfl, rfl⟩ := Prod.mk.inj (Except.ok.inj hs)
    exact (leaves_blockOn hi₃ hr₃ b none _ none).of_loads hl
  | cvWaitFor c m ms =>
    simp only [runStep] at hs
    rcases hd : (w.frameOf h).dropGuard (shared m) with _ | fr <;> rw [hd] at hs <;> dsimp only at hs
    · obtain ⟨rfl, rfl⟩ := Prod.mk.inj (Except.ok.inj hs)
      exact leaves_say hi _
    rcases he : (w.setFrame h fr).enqueue (waiterOf h) (.condvar (shared c)) with ⟨w₂, _ | b⟩ <;>
      rw [he] at hs <;> dsimp only at hs
    · obtain ⟨rfl, rfl⟩ := Prod.mk.inj (Except.ok.inj hs)
      exact leaves_cvWait_none hi hd he
    obtain ⟨hi₃, hr₃, hl, hb, hw⟩ := cvWait_release hi hr hd he
    exact (leaves_blockFor hi₃ hr₃ hb hw hs).of_loads hl
  | notifyOne c | notifyAll c =>
    all_goals
      simp only [runStep] at hs
      rcases hn : w.notifyCondvar (shared c) _ with ⟨w₁, cs⟩
      rw [hn] at hs
      obtain ⟨rfl, rfl⟩ := Prod.mk.inj (Except.ok.inj hs)
      obtain ⟨hrw, hw⟩ := notifyCondvar_census w hn
      exact leaves_wakes hi hrw hw _
  | countDown b =>
    simp only [runStep] at hs
    split at hs
    · next hb =>
      obtain ⟨⟨w₁, cs⟩, hc, hs⟩ := except_bind_eq_ok hs
      obtain ⟨rfl, rfl⟩ := Prod.mk.inj (Except.ok.inj hs)
      obtain ⟨-, hrw, hw⟩ := countDownLatch_census w hc
      have hi₁ := (hi.setBarrier (n := (w.latch b).count - 1) (by simpa [hasBarrier, census] using hb)).rewaited
        hrw (by simp)
      rw [census_addChores]
      exact ⟨hi₁.addWakes hi (by rw [hrw.1]) hw _, by rw [Census.loads_setChores, hrw.1], trivial⟩
    · obtain ⟨rfl, rfl⟩ := Prod.mk.inj (Except.ok.inj hs)
      exact leaves_say hi _
  | barrierWait b =>
    simp only [runStep] at hs
    split at hs
    · have hl := leaves_awaitLatch hi hr b
      rwa [Except.ok.inj hs] at hl
    · obtain ⟨rfl, rfl⟩ := Prod.mk.inj (Except.ok.inj hs)
      exact leaves_say hi _
  | isOpen b =>
    simp only [runStep] at hs
    split at hs <;> obtain ⟨rfl, rfl⟩ := Prod.mk.inj (Except.ok.inj hs) <;> exact leaves_say hi _
  | sleep ms =>
    simp only [runStep] at hs
    split at hs
    · obtain ⟨rfl, rfl⟩ := Prod.mk.inj (Except.ok.inj hs)
      exact ⟨hi, rfl, trivial⟩
    · cases h with
      | fiber f k =>
        obtain ⟨⟨w₂, t⟩, ha, hs⟩ := except_bind_eq_ok hs
        obtain ⟨rfl, rfl⟩ := Prod.mk.inj (Except.ok.inj hs)
        have e₂ : w₂.census = w.census := by rw [armTimer_census_of ha rfl, census_newEvent]
        exact leaves_push (e₂ ▸ hi) (e₂ ▸ hr) (by rw [e₂]) (by simp [Task.ends, Task.spawning, Task.adopting])
      | thread t =>
        obtain ⟨rfl, rfl⟩ := Prod.mk.inj (Except.ok.inj hs)
        exact ⟨by simpa using hi, by simp, trivial⟩
  | inc k =>
    obtain ⟨rfl, rfl⟩ := Prod.mk.inj (Except.ok.inj hs)
    exact ⟨by simpa using hi, by simp, trivial⟩
  | rmw k =>
    obtain ⟨rfl, rfl⟩ := Prod.mk.inj (Except.ok.inj hs)
    exact ⟨(plain (by simp [Task.ends, Task.spawning, Task.adopting])).inv, by simp, by cases h <;> trivial⟩
  | loop n body =>
    cases n with
    | zero =>
      obtain ⟨rfl, rfl⟩ := Prod.mk.inj (Except.ok.inj hs)
      exact ⟨hi, rfl, trivial⟩
    | succ n =>
      obtain ⟨rfl, rfl⟩ := Prod.mk.inj (Except.ok.inj hs)
      refine plain fun p hp => ?_
      simp only [List.mem_append, List.mem_map, List.mem_singleton] at hp
      rcases hp with ⟨a, -, rfl⟩ | rfl <;> exact ⟨rfl, rfl, rfl⟩
  | panic text =>
    obtain ⟨rfl, rfl⟩ := Prod.mk.inj (Except.ok.inj hs)
    -- the body is cut short: what is left is its end
    rw [census_setTasks, census_say]
    exact ⟨hi.setTasks hr.has (fun f k hfk => ⟨hr.busy f k hfk, by simp, .last rfl⟩) (by simp [Task.spawning])
      (by simp [Task.spawning]) (by simp [Task.trying]) (by simp [Task.adopting]), by simp, trivial⟩
  | oneshot ms early =>
    cases h with
    | fiber f k =>
      simp only [runStep] at hs
      obtain ⟨⟨w₂, t⟩, ha, hs⟩ := except_bind_eq_ok hs
      obtain ⟨rfl, rfl⟩ := Prod.mk.inj (Except.ok.inj hs)
      have e₂ : w₂.census = w.census := by rw [armTimer_census_of ha rfl, census_newEvent]
      split
      · -- an early set only lets go of blocks
        have hrw := (setEvent_census w₂ (Prod.mk.eta (p := w₂.setEvent w.newEvent.2)).symm).1
        rw [e₂] at hrw
        exact leaves_push (hi.rewaited hrw (by simp)) (hr.congr (by rw [hrw.1]) (by rw [hrw.1]))
          (by rw [hrw.1]) (by simp [Task.ends, Task.spawning, Task.adopting])
      · exact leaves_push (e₂ ▸ hi) (e₂ ▸ hr) (by rw [e₂]) (by simp [Task.ends, Task.spawning, Task.adopting])
    | thread t => cases hs
  | block ms =>
    obtain ⟨rfl, rfl⟩ := Prod.mk.inj (Except.ok.inj hs)
    exact ⟨by simpa using hi, by simp, trivial⟩
  | waitableTimer ms =>
    cases h with
    | fiber f k =>
      simp only [runStep] at hs
      obtain ⟨⟨w₂, t⟩, ha, hs⟩ := except_bind_eq_ok hs
      obtain ⟨rfl, rfl⟩ := Prod.mk.inj (Except.ok.inj hs)
      have e₂ : w₂.census = w.census := by rw [armTimer_census_of ha rfl, census_newEvent]
      exact leaves_push (e₂ ▸ hi) (e₂ ▸ hr) (by rw [e₂]) (by simp [Task.ends, Task.spawning, Task.adopting])
    | thread t => cases hs
  | groupTimer ms iv limit cancel =>
    cases h with
    | fiber f k =>
      simp only [runStep] at hs
      obtain ⟨⟨w₂, t⟩, ha, hs⟩ := except_bind_eq_ok hs
      have e₂ : w₂.census = w.census := by rw [armTimer_census_of ha rfl, census_newEvent]
      split at hs <;> obtain ⟨rfl, rfl⟩ := Prod.mk.inj (Except.ok.inj hs)
      · exact ⟨by simpa [e₂] using hi, by simp [e₂], trivial⟩
      · refine leaves_push ?_ ?_ (by simp [e₂]) (by simp [Task.ends, Task.spawning, Task.adopting])
        · simpa [e₂] using hi
        · exact hr.congr (by simp [e₂]) (by simp [e₂])
    | thread t =>
      obtain ⟨rfl, rfl⟩ := Prod.mk.inj (Except.ok.inj hs)
      exact leaves_say hi _

/-- Every call of the main thread keeps the accounting. -/
theorem leaves_runCall (hi : w.census.Inv) (hr : w.census.Ready h) (hq : w.ending ≠ some .quiet)
    {c : Call} (hs : w.runCall h c = .ok (w', o)) : w.census.Leaves w'.census o := by
  cases c with
  | info | unknown =>
    obtain ⟨rfl, rfl⟩ := Prod.mk.inj (Except.ok.inj hs)
    exact leaves_say hi _
  | spawn s => exact leaves_spawnJoinable hi hr hq hs
  | join d =>
    simp only [runCall] at hs
    rcases ht : (w.frameOf h).takeHandle d with ⟨_ | b, fr⟩ <;> rw [ht] at hs <;>
      obtain ⟨rfl, rfl⟩ := Prod.mk.inj (Except.ok.inj hs)
    · exact leaves_say hi _
    · exact leaves_setFrame_push hi hr (fun x hx => Frame.handles_takeHandle _ d x (by rw [ht]; exact hx))
        (by simp [Task.ends, Task.spawning, Task.adopting])
  | joinAll d =>
    obtain ⟨rfl, rfl⟩ := Prod.mk.inj (Except.ok.inj hs)
    refine leaves_setFrame_push hi hr (Frame.handles_takeHandles _ d) fun p hp => ?_
    simp only [List.mem_append, List.mem_map, List.mem_singleton] at hp
    rcases hp with ⟨b, -, rfl⟩ | rfl <;> exact ⟨rfl, rfl, rfl⟩
  | detach d =>
    obtain ⟨rfl, rfl⟩ := Prod.mk.inj (Except.ok.inj hs)
    exact ⟨inv_setFrame hi hr (Frame.handles_takeHandle _ d), by simp, trivial⟩
  | startDetached d =>
    simp only [runCall] at hs
    rcases hd : w.describe d 0 false false false with ⟨w₁, f⟩
    rw [hd] at hs
    obtain ⟨rfl, rfl⟩ := Prod.mk.inj (Except.ok.inj hs)
    exact leaves_startDetached hi hr hq hd
  | batch ds =>
    simp only [runCall] at hs
    split at hs <;> obtain ⟨rfl, rfl⟩ := Prod.mk.inj (Except.ok.inj hs)
    · exact ⟨hi, rfl, trivial⟩
    · exact leaves_startBatch hi hr hq 0 ds

end Steps

/-! ## 4. Tasks -/

section Tasks

variable {v : Census} {w w₁ w₂ w' : World} {h : Holder} {t : Task} {o : Outcome}

/-- A wait that timed out takes its block back from the waitable, and the holder goes on. -/
theorem leaves_withdraw_follow (hi : w.census.Inv) (hr : w.census.Ready h) (b : Nat) (s : Sequel) (woken : Bool) :
    w.census.Leaves ((w.withdraw b).follow h s woken).census .next := by
  have hrw := withdraw_census w b
  exact (leaves_follow (hi.rewaited hrw (by simp)) (hr.congr (by rw [hrw.1]) (by rw [hrw.1])) s woken).of_loads
    (by rw [hrw.1])

/-- A popped task put back after a pause of its actor. -/
theorem leaves_repush (P : Census.Popped v w₁.census h t) (a : Actor) (ns : Nat) {ps : List Task}
    (hend : ∀ p ∈ ps, p.ends = false) (hsp : (ps.flatMap Task.spawning).Sublist t.spawning)
    (htry : ∀ f ∈ ps.flatMap Task.trying, f ∈ t.trying) (had : ps.flatMap Task.adopting = []) :
    w₁.census.Leaves ((w₁.sleepFor a ns).pushTasks h ps).census .next :=
  ⟨by simpa using P.repush hend hsp htry had, by simp, trivial⟩

/-- Handing the one fiber a popped task names to a run queue that takes it: the census keeps the
invariant, the fiber can no longer give up, and it was not dropped. -/
theorem inv_push_popped (P : Census.Popped v w₁.census h t) {f tn g : Nat} {y : Bool} (hf : t.spawning = [f])
    (hp : w₁.push tn g ((w₁.fiber f).entity f) y = (w₂, true)) :
    w₂.census.Inv ∧ w₂.census.Ready h ∧ w₂.census.loads = w₁.census.loads ∧ f ∉ w₂.census.trying ∧
      (w₂.census.fiber f).dropped = false := by
  rcases push_census w₁ hp with ⟨h₁, -⟩ | ⟨-, s', hs', e₂⟩
  · cases h₁
  rw [e₂]
  have hids : ([(w₁.fiber f).entity f] ++ []).map Entity.id = t.spawning := by simp [hf, FiberRec.entity]
  have Q := P.queue hids fun hs => by
    rw [census_sched] at hs ⊢
    exact Scheduler.push_sound hs hs'
  obtain ⟨hsp, -, hst, hb⟩ := P.spawning f (by simp [hf])
  exact ⟨Q.inv, Q.ready, by simp, fun ht => hsp ((Census.trying_subperm_spawning _).subset ht),
    by simp [Census.fiber, Census.setSched, FiberView.dropped_eq] at hst hb ⊢; simp [hst, hb]⟩

/-- A holder's body ends: it lets go of its handles, and its guards are released before a fiber
exits. -/
theorem leaves_finish (hi : w.census.Inv) (hr : w.census.Ready h) {rest : List Task}
    (ht : w.tasksOf h = .finish :: rest) (ms : List Nat) {ends : List Task} (hx : ∀ p ∈ ends, p = .exit)
    (hf : ∀ f k, h = .fiber f k → ends = [.exit]) :
    w.census.Leaves (((w.setTasks h rest).setFrame h {}).pushTasks h (ms.map Task.release ++ ends)).census .next := by
  have hps : ∀ p ∈ ms.map Task.release ++ ends, p.spawning = [] ∧ p.trying = [] ∧ p.adopting = [] := by
    intro p hp
    rcases List.mem_append.mp hp with hp | hp
    · obtain ⟨m, -, rfl⟩ := List.mem_map.mp hp
      exact ⟨rfl, rfl, rfl⟩
    · rw [hx p hp]
      exact ⟨rfl, rfl, rfl⟩
  have hends : ∀ f k, h = .fiber f k → ms.map Task.release ++ ends ≠ [] ∧ Task.Ends (ms.map Task.release ++ ends) := by
    intro f k hfk
    rw [hf f k hfk]
    refine ⟨by simp, .of_last (fun p hp => ?_) rfl⟩
    obtain ⟨m, -, rfl⟩ := List.mem_map.mp hp
    rfl
  generalize ms.map Task.release ++ ends = ps at hps hends
  have hh := hr.has
  have ht' : w.census.tasksOf h = .finish :: rest := by rw [census_tasksOf, ht]
  -- the holder's tasks are replaced at once, and its handles let go of
  have e : (((w.setTasks h rest).setFrame h {}).pushTasks h ps).census =
      (w.census.setTasks h (ps ++ rest)).setHandles h [] := by
    simp only [census_pushTasks, census_setFrame, census_setTasks, Census.tasksOf_setHandles,
      Census.tasksOf_setTasks hh]
    rw [Census.setTasks_setHandles, Census.setTasks_setTasks]
  have hi₁ : (w.census.setTasks h (ps ++ rest)).Inv := by
    cases h with
    | fiber f k =>
      -- a fiber's end is its last task but the exit
      have hf : (w.census.fiber f).tasks = .finish :: rest := ht'
      have hnil : rest = [] := (hf ▸ hi.counts.ends f).eq_nil rfl
      subst hnil
      obtain ⟨hne, hend⟩ := hends f k rfl
      rw [List.append_nil]
      refine hi.setTasks hh (fun f' k' hfk => ?_) (fun x hx => ?_) ?_ (fun x hx => ?_) (fun x hx => ?_)
      · cases hfk
        exact ⟨hr.2, hne, hend⟩
      all_goals simp_all [List.flatMap_eq_nil_iff.mpr fun p hp => (hps p hp).1,
        List.flatMap_eq_nil_iff.mpr fun p hp => (hps p hp).2.1, List.flatMap_eq_nil_iff.mpr fun p hp => (hps p hp).2.2]
    | thread t' =>
      exact hi.replaceFirst hh ht' (fun _ _ h => by cases h) (by simp [List.flatMap_eq_nil_iff.mpr fun p hp => (hps p hp).1])
        (fun x hx => by simp [List.flatMap_eq_nil_iff.mpr fun p hp => (hps p hp).2.1] at hx)
        (fun x hx => by simp [List.flatMap_eq_nil_iff.mpr fun p hp => (hps p hp).2.2] at hx)
  rw [e]
  exact ⟨hi₁.setHandles (Census.has_setTasks.mpr hh) (by simp), by simp, trivial⟩

/-- Every task of a ready holder but a fiber's exit keeps the accounting, while the run has not
ended quiet: the invariant holds again, every worker holds what it held, and a fiber the holder
switches to has its stack. -/
theorem leaves_perform (hi : w.census.Inv) (hr : w.census.Ready h) (hq : w.ending ≠ some .quiet)
    (hx : ∀ rest, w.tasksOf h ≠ .exit :: rest) (hs : w.perform h = .ok (w', o)) : w.census.Leaves w'.census o := by
  unfold perform at hs
  rcases ht : w.tasksOf h with _ | ⟨t, rest⟩ <;> rw [ht] at hs <;> dsimp only at hs
  · obtain ⟨rfl, rfl⟩ := Prod.mk.inj (Except.ok.inj hs)
    exact ⟨hi, rfl, trivial⟩
  have ht' : w.census.tasksOf h = t :: rest := by rw [census_tasksOf, ht]
  -- the end of a body is the one task that is more than a pop
  by_cases hfin : t = .finish
  · subst hfin
    obtain ⟨rfl, rfl⟩ := Prod.mk.inj (Except.ok.inj hs)
    cases h with
    | fiber f k => exact leaves_finish hi hr ht _ (by simp) fun _ _ _ => rfl
    | thread t' => exact leaves_finish hi hr ht _ (by simp) fun _ _ h => by cases h
  have P : Census.Popped w.census (w.setTasks h rest).census h t := by
    rw [census_setTasks]
    exact hi.pop hr ht' fun _ _ _ => Task.ends_eq_false.mpr ⟨hfin, fun he => hx rest (he ▸ ht)⟩
  have hq₁ : (w.setTasks h rest).ending ≠ some .quiet := by cases h <;> exact hq
  have hl₁ : (w.setTasks h rest).census.loads = w.census.loads := by rw [census_setTasks, Census.loads_setTasks]
  refine Census.Leaves.of_loads ?_ hl₁
  generalize w.setTasks h rest = w₁ at P hq₁ hs
  have plain : ∀ {ps : List Task}, (∀ p ∈ ps, p.ends = false ∧ p.spawning = [] ∧ p.adopting = []) →
      w₁.census.Leaves (w₁.pushTasks h ps).census .next := fun hps => leaves_push P.inv P.ready rfl hps
  cases t with
  | finish => exact absurd rfl hfin
  | exit => exact absurd ht (hx rest)
  | step s => exact leaves_runStep P.inv P.ready hq₁ hs
  | call c => exact leaves_runCall P.inv P.ready hq₁ hs
  | resumed sq r =>
    rcases r with _ | ⟨r, tm⟩ <;> obtain ⟨rfl, rfl⟩ := Prod.mk.inj (Except.ok.inj hs)
    · exact leaves_follow P.inv P.ready _ _
    -- the timeout's record is done with and its timer cancelled; a wait that timed out takes its
    -- block back from the waitable
    have e₂ : (({ w₁ with timeouts := w₁.timeouts.modify r fun x => { x with gone := true } } : World).cancelTimer
        tm).census = w₁.census := by
      rw [census_cancelTimer]
      exact census_modifyTimeout w₁ fun _ => rfl
    generalize (({ w₁ with timeouts := w₁.timeouts.modify r fun x => { x with gone := true } } : World).cancelTimer
      tm) = w₂ at e₂ ⊢
    split
    · exact (leaves_withdraw_follow (e₂ ▸ P.inv) (e₂ ▸ P.ready) _ _ _).of_loads (by rw [e₂])
    · exact (leaves_follow (e₂ ▸ P.inv) (e₂ ▸ P.ready) _ _).of_loads (by rw [e₂])
  | settled sq woken =>
    obtain ⟨rfl, rfl⟩ := Prod.mk.inj (Except.ok.inj hs)
    exact leaves_follow P.inv P.ready _ _
  | store k x =>
    obtain ⟨rfl, rfl⟩ := Prod.mk.inj (Except.ok.inj hs)
    exact ⟨by simpa using P.inv, by simp, trivial⟩
  | note text | noteSet text e | reportTally c =>
    obtain ⟨rfl, rfl⟩ := Prod.mk.inj (Except.ok.inj hs)
    exact leaves_say P.inv _
  | awaitEvent e =>
    have hl := leaves_awaitEvent P.inv P.ready e
    rwa [Except.ok.inj hs] at hl
  | awaitLatch b =>
    have hl := leaves_awaitLatch P.inv P.ready b
    rwa [Except.ok.inj hs] at hl
  | dropTimer tm =>
    obtain ⟨rfl, rfl⟩ := Prod.mk.inj (Except.ok.inj hs)
    exact ⟨by simpa using P.inv, by simp, trivial⟩
  | attempt f n fatal =>
    dsimp only at hs
    rcases hp : w₁.push (w₁.threadNo h) (w₁.fiber f).group ((w₁.fiber f).entity f) false with ⟨w₂, _ | _⟩ <;>
      rw [hp] at hs <;> dsimp only at hs
    · -- the run queue is full: try again after a pause, or give up
      rcases push_census w₁ hp with ⟨-, rfl⟩ | ⟨h₁, -⟩
      · split at hs <;> obtain ⟨rfl, rfl⟩ := Prod.mk.inj (Except.ok.inj hs) <;>
          exact leaves_repush P _ _ (by simp [Task.ends]) (by simp [Task.spawning]) (by simp [Task.trying]) rfl
      · cases h₁
    · -- queued: the spawner keeps the handle
      obtain ⟨rfl, rfl⟩ := Prod.mk.inj (Except.ok.inj hs)
      obtain ⟨hi₂, hr₂, hl₂, hnt, hnd⟩ := inv_push_popped P rfl hp
      obtain ⟨hi₃, hl₃⟩ := inv_keepHandle hi₂ hr₂.has hnt hnd
      exact ⟨hi₃, hl₃.trans hl₂, trivial⟩
  | giveUp f fatal =>
    dsimp only at hs
    obtain ⟨hsp, hp, hst, hb⟩ := P.spawning f (by simp [Task.spawning])
    obtain ⟨had, hfree⟩ := P.trying f (by simp [Task.trying])
    have hi₂ := P.inv.giveUp hst hb hsp hp had hfree
    split at hs
    · cases hs
    · obtain ⟨rfl, rfl⟩ := Prod.mk.inj (Except.ok.inj hs)
      refine ⟨?_, ?_, trivial⟩ <;> rw [census_say, census_dropTasks]
      · exact hi₂
  | startForever f =>
    dsimp only at hs
    rcases hp : w₁.push (w₁.threadNo h) (w₁.fiber f).group ((w₁.fiber f).entity f) false with ⟨w₂, _ | _⟩ <;>
      rw [hp] at hs <;> obtain ⟨rfl, rfl⟩ := Prod.mk.inj (Except.ok.inj hs)
    · rcases push_census w₁ hp with ⟨-, rfl⟩ | ⟨h₁, -⟩
      · exact leaves_repush P _ _ (by simp [Task.ends]) (by simp [Task.spawning]) (by simp [Task.trying]) rfl
      · cases h₁
    · obtain ⟨hi₂, -, hl₂, -⟩ := inv_push_popped P rfl hp
      exact ⟨hi₂, hl₂, trivial⟩
  | startRest fs =>
    cases fs with
    | nil =>
      obtain ⟨rfl, rfl⟩ := Prod.mk.inj (Except.ok.inj hs)
      exact ⟨P.inv, rfl, trivial⟩
    | cons f fs =>
      dsimp only at hs
      rcases hp : w₁.pushAll (w₁.threadNo h) (w₁.fiber f).group
          ((f :: fs).map fun i => (w₁.fiber i).entity i) with ⟨w₂, rest'⟩
      rw [hp] at hs
      dsimp only at hs
      obtain ⟨s', pre, e₂, hes, hsnd⟩ := pushAll_census w₁ hp
      -- the first part is queued; what the run queue left is put back to try again
      have Q := P.queue (by rw [← hes]; simp [Task.spawning, FiberRec.entity, Function.comp_def]) (by rwa [census_sched])
      rw [← e₂] at Q
      have hl₂ : w₂.census.loads = w₁.census.loads := by rw [e₂, Census.loads_setSched]
      split at hs <;> obtain ⟨rfl, rfl⟩ := Prod.mk.inj (Except.ok.inj hs)
      · exact ⟨Q.inv, hl₂, trivial⟩
      · exact (leaves_repush Q _ _ (by simp [Task.ends]) (by simp [Task.spawning]) (by simp [Task.trying])
          rfl).of_loads hl₂
  | launch f =>
    cases h with
    | fiber f' k =>
      dsimp only at hs
      obtain ⟨⟨w₂, ok⟩, hl, hs⟩ := except_bind_eq_ok hs
      obtain ⟨hsp, -, hst, hb⟩ := P.spawning f (by simp [Task.spawning])
      rcases instantiate_census w₁ hl with ⟨rfl, e₂⟩ | ⟨rfl, e₂⟩ <;>
        obtain ⟨rfl, rfl⟩ := Prod.mk.inj (Except.ok.inj hs)
      · -- no stack to be had: try again after a pause
        rw [← e₂] at P
        exact (leaves_repush P _ _ (by simp [Task.ends]) (by simp [Task.spawning]) (by simp [Task.trying])
          rfl).of_loads (by rw [e₂])
      · -- the fiber gets its stack and runs at once
        refine ⟨by rw [e₂]; exact P.inv.instantiate hst hb hsp, by rw [e₂], ?_⟩
        simp only [Census.Continues, e₂]
        rw [Census.fiber_modify (v := { w₁.census with outstanding := w₁.census.outstanding + 1 }) _
          (Census.lt_of_busy hb), if_pos rfl]
    | thread t' =>
      obtain ⟨rfl, rfl⟩ := Prod.mk.inj (Except.ok.inj hs)
      exact ⟨P.inv, rfl, trivial⟩
  | adopt f =>
    obtain ⟨rfl, rfl⟩ := Prod.mk.inj (Except.ok.inj hs)
    obtain ⟨hnt, hnd⟩ := P.adopting f (by simp [Task.adopting])
    obtain ⟨hi₂, hl₂⟩ := inv_keepHandle P.inv P.ready.has hnt hnd
    exact ⟨hi₂, hl₂, trivial⟩
  | release m =>
    dsimp only at hs
    rcases hu : w₁.unlockMutex m with ⟨w₂, cs⟩
    rw [hu] at hs
    obtain ⟨rfl, rfl⟩ := Prod.mk.inj (Except.ok.inj hs)
    obtain ⟨hrw, hw⟩ := unlockMutex_census w₁ hu
    exact leaves_wakes P.inv hrw hw _
  | startPlain =>
    obtain ⟨rfl, rfl⟩ := Prod.mk.inj (Except.ok.inj hs)
    exact ⟨by simpa using P.inv, by simp, trivial⟩
  | watch =>
    obtain ⟨rfl, rfl⟩ := Prod.mk.inj (Except.ok.inj hs)
    exact plain (by simp [Task.ends, Task.spawning, Task.adopting])
  | observe deadline =>
    dsimp only at hs
    split at hs
    · -- quiet: no fiber is live
      next hquiet =>
      obtain ⟨rfl, rfl⟩ := Prod.mk.inj (Except.ok.inj hs)
      simp only [quiet, Bool.and_eq_true, beq_iff_eq] at hquiet
      exact ⟨by simpa using P.inv.setEnding fun _ => hquiet.1, by simp, trivial⟩
    split at hs <;> obtain ⟨rfl, rfl⟩ := Prod.mk.inj (Except.ok.inj hs)
    · exact ⟨by simpa using P.inv.setEnding (e := some .stuck) (by simp), by simp, trivial⟩
    · exact plain (by simp [Task.ends, Task.spawning, Task.adopting])
  | shutdown =>
    dsimp only at hs
    split at hs <;> obtain ⟨rfl, rfl⟩ := Prod.mk.inj (Except.ok.inj hs)
    · next hlive =>
      exact ⟨by simpa using P.inv.setEnding fun _ => beq_iff_eq.mp hlive, by simp, trivial⟩
    · exact plain (by simp [Task.ends, Task.spawning, Task.adopting])

end Tasks

end World

end Fibers
