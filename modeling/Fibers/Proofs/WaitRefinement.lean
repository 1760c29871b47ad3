import Mathlib
import Fibers.Sync.Bench
import Fibers.Proofs.WaitQueue
/-!
# The waitable bench refines its reference model

The reference model of one waitable with `n` wait blocks, each block's waiter a thread with
its own wait slot, keeps a first-in first-out list of blocks, the awakened-for-good flag, the
set of claimed blocks, and for each slot the wakes it holds and whether it is persistent
(`WaitModel`). In it:

* queueing appends unless the waitable is awakened for good; removing deletes the first
  occurrence;
* waking one drops the front of the queue up to and including the first unclaimed block,
  claims that block and returns it;
* waking all, and awakening for good, return the unclaimed blocks in queue order, each once,
  claim them and leave the queue empty;
* delivering adds one wake to the slot of each block returned;
* a poll of a slot succeeds iff the slot is persistent or holds a wake, and takes one wake
  unless the slot is persistent.

The bench (`Fibers.Sync.Bench`) keeps claims as a list, claims blocks one at a time while it
pops the queue, and delivers wakes by a fold over the slots. `Bench.Agrees` says that a bench
shows a state of the model; every command keeps it and gives the same reply on both sides
(`Bench.Agrees.step`), so every sequence of commands does (`Bench.replies_eq_model`).

## Contents
1. The reference model.
2. The waitable's operations in closed form.
3. Lists of blocks below `n`.
4. The simulation.
-/

namespace Fibers

/-! ## 1. The reference model -/

/-- A command on a bench of `n` blocks, naming blocks by their index. -/
inductive WaitCommand (n : Nat) where
  | add (b : Fin n)
  | remove (b : Fin n)
  | claim (b : Fin n)
  | wakeOne (deliver : Bool)
  | wakeAll (deliver : Bool)
  | persist (deliver : Bool)
  | isEmpty
  | isPersistent
  | slotWake (b : Fin n)
  | slotPersist (b : Fin n)
  | slotPoll (b : Fin n)
  deriving Repr

namespace WaitCommand

variable {n : Nat}

/-- The same command on the bench, blocks named by number. -/
def toBench : WaitCommand n → BenchCommand
  | .add b => .add b
  | .remove b => .remove b
  | .claim b => .claim b
  | .wakeOne d => .wakeOne d
  | .wakeAll d => .wakeAll d
  | .persist d => .persist d
  | .isEmpty => .isEmpty
  | .isPersistent => .isPersistent
  | .slotWake b => .slotWake b
  | .slotPersist b => .slotPersist b
  | .slotPoll b => .slotPoll b

end WaitCommand

/-- The reference model of a waitable with `n` blocks and their slots. -/
structure WaitModel (n : Nat) where
  queue : List (Fin n) := []
  persistent : Bool := false
  claimed : Finset (Fin n) := ∅
  /-- The wakes each slot holds. -/
  wakes : Fin n → Nat := fun _ => 0
  slotPersistent : Fin n → Bool := fun _ => false

namespace WaitModel

variable {n : Nat}

/-- The first unclaimed block of the queue. -/
def firstUnclaimed (m : WaitModel n) : Option (Fin n) :=
  m.queue.find? (fun b => decide (b ∉ m.claimed))

/-- The unclaimed blocks of the queue, in queue order, each once. -/
def unclaimed (m : WaitModel n) : List (Fin n) :=
  (m.queue.filter (fun b => decide (b ∉ m.claimed))).eraseDups

/-- Claims blocks `ws`; with `deliver`, each one's slot gets a wake. -/
def wake (m : WaitModel n) (ws : List (Fin n)) (deliver : Bool) : WaitModel n :=
  { m with claimed := m.claimed ∪ ws.toFinset,
           wakes := if deliver then fun b => m.wakes b + ws.count b else m.wakes }

/-- One command: the model after it, and its reply. -/
def step (m : WaitModel n) : WaitCommand n → WaitModel n × Reply
  | .add b =>
    if m.persistent then (m, .flag false) else ({ m with queue := m.queue ++ [b] }, .flag true)
  | .remove b => ({ m with queue := m.queue.erase b }, .flag (decide (b ∈ m.queue)))
  | .claim b => ({ m with claimed := insert b m.claimed }, .flag (decide (b ∉ m.claimed)))
  | .wakeOne d =>
    ({ m.wake m.firstUnclaimed.toList d with
        queue := (m.queue.dropWhile (fun b => decide (b ∈ m.claimed))).tail },
      .ofIndex (m.firstUnclaimed.map Fin.val))
  | .wakeAll d => ({ m.wake m.unclaimed d with queue := [] }, .indices (m.unclaimed.map Fin.val))
  | .persist d =>
    ({ m.wake m.unclaimed d with queue := [], persistent := true },
      .indices (m.unclaimed.map Fin.val))
  | .isEmpty => (m, .flag m.queue.isEmpty)
  | .isPersistent => (m, .flag m.persistent)
  | .slotWake b => ({ m with wakes := Function.update m.wakes b (m.wakes b + 1) }, .unit)
  | .slotPersist b => ({ m with slotPersistent := Function.update m.slotPersistent b true }, .unit)
  | .slotPoll b =>
    if m.slotPersistent b then (m, .flag true)
    else if 0 < m.wakes b then
      ({ m with wakes := Function.update m.wakes b (m.wakes b - 1) }, .flag true)
    else (m, .flag false)

/-- Runs commands one after another: their replies in order. -/
def replies (m : WaitModel n) : List (WaitCommand n) → List Reply
  | [] => []
  | c :: cs => (m.step c).2 :: (m.step c).1.replies cs

end WaitModel

/-! ## 2. The waitable's operations in closed form -/

namespace Waitable

/-- Waking one leaves the queue behind the first unclaimed block. -/
theorem popClaim_rest (claimed l : List Nat) :
    (popClaim claimed l).1 = (l.dropWhile (fun x => decide (x ∈ claimed))).tail := by
  induction l with
  | nil => rfl
  | cons b rest ih =>
    by_cases hb : b ∈ claimed
    · rw [popClaim_cons_of_mem rest hb, ih, List.dropWhile_cons_of_pos (by simpa using hb)]
    · rw [popClaim_cons_of_not_mem rest hb, List.dropWhile_cons_of_neg (by simpa using hb)]
      rfl

/-- Waking one in closed form: the rest of the queue behind the first unclaimed block, the
claims with that block added, and the block. -/
theorem popClaim_eq (claimed l : List Nat) :
    popClaim claimed l =
      ((l.dropWhile (fun x => decide (x ∈ claimed))).tail,
        (l.find? (fun x => !decide (x ∈ claimed))).toList ++ claimed,
        l.find? (fun x => !decide (x ∈ claimed))) := by
  rw [← popClaim_rest, ← popClaim_found, ← popClaim_claims]

/-- **Waking all claims the first occurrence of each unclaimed block, in queue order**; the
claims grow by them, the last claimed in front. Blocks may be queued more than once. -/
theorem claimAll_eq_eraseDups (claimed l : List Nat) :
    claimAll claimed l =
      (((l.filter (fun x => !decide (x ∈ claimed))).eraseDups).reverse ++ claimed,
        (l.filter (fun x => !decide (x ∈ claimed))).eraseDups) := by
  induction l generalizing claimed with
  | nil => rfl
  | cons b rest ih =>
    by_cases hb : b ∈ claimed
    · simp [claimAll, hb, ih]
    · -- once `b` is claimed, what stays unclaimed of the rest is what was, less `b`
      have hrest : (rest.filter (fun x => !decide (x ∈ claimed))).filter (fun x => !x == b) =
          rest.filter (fun x => !decide (x ∈ b :: claimed)) := by
        rw [List.filter_filter]
        refine List.filter_congr (fun x _ => ?_)
        by_cases hx : x = b <;> simp [hx]
      rw [List.filter_cons_of_pos (by simpa using hb), List.eraseDups_cons, hrest]
      simp [claimAll, hb, ih]

end Waitable

/-! ## 3. Lists of blocks below `n` -/

section Blocks

variable {n : Nat}

theorem eraseDups_map_val : ∀ (q : List (Fin n)), (q.map Fin.val).eraseDups = q.eraseDups.map Fin.val
  | [] => rfl
  | b :: rest => by
    have hb : ((fun x : Nat => !x == b.val) ∘ Fin.val) = fun x : Fin n => !x == b := by
      funext x
      simp [Fin.val_inj]
    rw [List.map_cons, List.eraseDups_cons, List.eraseDups_cons, List.filter_map, hb,
      eraseDups_map_val (rest.filter (fun x => !x == b)), List.map_cons]
termination_by q => q.length
decreasing_by exact Nat.lt_succ_of_le (List.length_filter_le _ _)

variable {claimed : List Nat} {R : Finset (Fin n)}

/-- Claims kept as a list of numbers agree with a set of blocks on every block. -/
def SameClaims (claimed : List Nat) (R : Finset (Fin n)) : Prop := ∀ b : Fin n, (b : Nat) ∈ claimed ↔ b ∈ R

theorem SameClaims.mem_comp (h : SameClaims claimed R) :
    ((fun x : Nat => decide (x ∈ claimed)) ∘ Fin.val) = fun b => decide (b ∈ R) := by
  funext b
  simp [h b]

theorem SameClaims.not_mem_comp (h : SameClaims claimed R) :
    ((fun x : Nat => !decide (x ∈ claimed)) ∘ Fin.val) = fun b => decide (b ∉ R) := by
  funext b
  simp [h b]

/-- Claiming one more block on both sides keeps the claims the same. -/
theorem SameClaims.cons (h : SameClaims claimed R) (b : Fin n) :
    SameClaims ((b : Nat) :: claimed) (insert b R) := by
  intro x
  simp [h x, Fin.val_inj]

/-- Claiming more blocks on both sides keeps the claims the same. -/
theorem SameClaims.add (h : SameClaims claimed R) (ws : List (Fin n)) :
    SameClaims ((ws.map Fin.val).reverse ++ claimed) (R ∪ ws.toFinset) := by
  intro b
  simp [h b, or_comm, Fin.val_inj]

/-- Delivering a wake to each block of `ws` adds to each slot the times its block occurs. -/
theorem getD_foldl_wake (ws : List (Fin n)) (slots : List WaitSlot) (hl : slots.length = n)
    (b : Fin n) :
    ((ws.map Fin.val).foldl (fun ss x => ss.modify x WaitSlot.wake) slots).getD b {} =
      { slots.getD b {} with wakeups := (slots.getD b {}).wakeups + ws.count b } := by
  induction ws generalizing slots with
  | nil => simp
  | cons x xs ih =>
    rw [List.map_cons, List.foldl_cons, ih _ (by simpa using hl)]
    have hx : (x : Nat) < slots.length := hl ▸ x.isLt
    by_cases hxb : x = b
    · subst hxb
      simp [List.getD_eq_getElem?_getD, List.getElem?_eq_getElem hx, WaitSlot.wake]
      omega
    · have hv : (x : Nat) ≠ b := fun h => hxb (Fin.ext h)
      simp [List.getD_eq_getElem?_getD, hv, hxb]

/-- Delivering wakes keeps the slots. -/
theorem length_foldl_wake (ws : List Nat) (slots : List WaitSlot) :
    (ws.foldl (fun ss x => ss.modify x WaitSlot.wake) slots).length = slots.length := by
  induction ws generalizing slots with
  | nil => rfl
  | cons x xs ih => rw [List.foldl_cons, ih, List.length_modify]

end Blocks

/-! ## 4. The simulation -/

namespace Bench

variable {n : Nat} {bench : Bench} {m : WaitModel n}

/-- A bench shows a state of the reference model: the same queue, flag and claims, and each
slot holding the same wakes and flag. -/
structure Agrees (bench : Bench) (m : WaitModel n) : Prop where
  queue : bench.waitable.queue = m.queue.map Fin.val
  persistent : bench.waitable.persistent = m.persistent
  claimed : SameClaims bench.claimed m.claimed
  length : bench.slots.length = n
  slot : ∀ b : Fin n, bench.slots.getD b {} = ⟨m.wakes b, m.slotPersistent b⟩

theorem agrees_create (n : Nat) : (Bench.create n).Agrees ({} : WaitModel n) where
  queue := rfl
  persistent := rfl
  claimed := fun b => by simp [Bench.create]
  length := by simp [Bench.create]
  slot := fun b => by simp [Bench.create, List.getD_eq_getElem?_getD, b.isLt]

/-- Claiming blocks `ws` on both sides, delivering their wakes when asked, and leaving the
queue `q`. -/
theorem Agrees.wake (h : bench.Agrees m) {ws : List (Fin n)} {d p : Bool} {w : Waitable}
    {q : List (Fin n)} {claimed : List Nat} (hq : w.queue = q.map Fin.val) (hp : w.persistent = p)
    (hc : SameClaims claimed (m.claimed ∪ ws.toFinset)) :
    ({ bench with waitable := w, claimed }.deliver d (ws.map Fin.val)).Agrees
      { m.wake ws d with queue := q, persistent := p } where
  queue := by cases d <;> exact hq
  persistent := by cases d <;> exact hp
  claimed := by cases d <;> exact hc
  length := by cases d <;> simp [deliver, length_foldl_wake, h.length]
  slot := fun b => by
    cases d
    · simpa [deliver, WaitModel.wake] using h.slot b
    · simp only [deliver, if_true]
      rw [getD_foldl_wake ws _ h.length, h.slot b]
      simp [WaitModel.wake]

/-- Replacing the slots on both sides. -/
theorem Agrees.slots (h : bench.Agrees m) {slots : List WaitSlot} {k : Fin n → Nat}
    {p : Fin n → Bool} (hl : slots.length = n) (hs : ∀ b : Fin n, slots.getD b {} = ⟨k b, p b⟩) :
    ({ bench with slots } : Bench).Agrees { m with wakes := k, slotPersistent := p } where
  queue := h.queue
  persistent := h.persistent
  claimed := h.claimed
  length := hl
  slot := hs

/-- Changing one slot by `f` on both sides. -/
theorem Agrees.modifySlot (h : bench.Agrees m) (b : Fin n) (f : WaitSlot → WaitSlot) :
    ({ bench with slots := bench.slots.modify b f } : Bench).Agrees
      { m with wakes := Function.update m.wakes b (f ⟨m.wakes b, m.slotPersistent b⟩).wakeups,
               slotPersistent := Function.update m.slotPersistent b
                 (f ⟨m.wakes b, m.slotPersistent b⟩).persistent } := by
  refine h.slots (by simp [h.length]) (fun x => ?_)
  have hx : (x : Nat) < bench.slots.length := h.length ▸ x.isLt
  by_cases hxb : x = b
  · subst hxb
    have := h.slot x
    simp only [List.getD_eq_getElem?_getD, List.getElem?_eq_getElem hx, Option.getD_some] at this
    simp [List.getD_eq_getElem?_getD, List.getElem?_eq_getElem hx, this]
  · have hv : (b : Nat) ≠ x := fun e => hxb (Fin.ext e).symm
    simpa [List.getD_eq_getElem?_getD, hv, hxb] using h.slot x

/-- Waking one on the bench, in the words of the model. -/
theorem Agrees.wakeOne_eq (h : bench.Agrees m) :
    bench.waitable.wakeOne bench.claimed =
      ({ bench.waitable with
          queue := ((m.queue.dropWhile (fun b => decide (b ∈ m.claimed))).tail).map Fin.val },
        (m.firstUnclaimed.toList.map Fin.val).reverse ++ bench.claimed,
        m.firstUnclaimed.map Fin.val) := by
  have hrev : (m.firstUnclaimed.toList.map Fin.val).reverse = (m.firstUnclaimed.map Fin.val).toList := by
    cases m.firstUnclaimed <;> rfl
  rw [Waitable.wakeOne, Waitable.popClaim_eq, h.queue, List.dropWhile_map, h.claimed.mem_comp,
    List.find?_map, h.claimed.not_mem_comp, hrev, List.map_tail]
  rfl

/-- Waking all on the bench, in the words of the model. -/
theorem Agrees.wakeAll_eq (h : bench.Agrees m) :
    bench.waitable.wakeAll bench.claimed =
      ({ bench.waitable with queue := [] }, (m.unclaimed.map Fin.val).reverse ++ bench.claimed,
        m.unclaimed.map Fin.val) := by
  rw [Waitable.wakeAll, Waitable.claimAll_eq_eraseDups, h.queue, List.filter_map,
    h.claimed.not_mem_comp, eraseDups_map_val]
  rfl

/-- **Every command keeps the bench and the model in agreement and gives the same reply on
both.** -/
theorem Agrees.step (h : bench.Agrees m) (c : WaitCommand n) :
    (bench.step c.toBench).1.Agrees (m.step c).1 ∧ (bench.step c.toBench).2 = (m.step c).2 := by
  have hlt : ∀ b : Fin n, (b : Nat) < bench.slots.length := fun b => h.length ▸ b.isLt
  cases c with
  | add b =>
    simp only [WaitCommand.toBench, Bench.step, onBlock, hlt b, if_true, WaitModel.step,
      Waitable.add, h.persistent]
    by_cases hp : m.persistent = true
    · simp only [hp, if_true, and_true]
      exact h
    · simp only [hp, Bool.false_eq_true, if_false, and_true]
      exact ⟨by simp [h.queue], by simp, h.claimed, h.length, h.slot⟩
  | remove b =>
    simp only [WaitCommand.toBench, Bench.step, onBlock, hlt b, if_true, WaitModel.step,
      Waitable.remove, h.queue, List.mem_map_of_injective Fin.val_injective]
    by_cases hb : b ∈ m.queue
    · simp only [hb, if_true, decide_true, and_true]
      exact ⟨(List.map_erase Fin.val_injective _).symm, h.persistent, h.claimed, h.length, h.slot⟩
    · simp only [hb, if_false, decide_false, and_true]
      exact ⟨by rw [List.erase_of_not_mem hb, h.queue], h.persistent, h.claimed, h.length, h.slot⟩
  | claim b =>
    simp only [WaitCommand.toBench, Bench.step, onBlock, hlt b, if_true, WaitModel.step,
      Waitable.claim, h.claimed b]
    by_cases hb : b ∈ m.claimed
    · simp only [hb, if_true, not_true_eq_false, decide_false, and_true,
        Finset.insert_eq_of_mem hb]
      exact h
    · simp only [hb, if_false, not_false_eq_true, decide_true, and_true]
      exact ⟨h.queue, h.persistent, h.claimed.cons b, h.length, h.slot⟩
  | wakeOne d =>
    simp only [WaitCommand.toBench, Bench.step, h.wakeOne_eq, WaitModel.step, and_true,
      Option.toList_map]
    exact h.wake rfl h.persistent (h.claimed.add _)
  | wakeAll d =>
    simp only [WaitCommand.toBench, Bench.step, h.wakeAll_eq, WaitModel.step, and_true]
    exact h.wake rfl h.persistent (h.claimed.add _)
  | persist d =>
    -- awakening for good is waking all on the waitable with its flag set
    have hp : ({ bench with waitable := { bench.waitable with persistent := true } } : Bench).Agrees
        { m with persistent := true } := ⟨h.queue, rfl, h.claimed, h.length, h.slot⟩
    have he := hp.wakeAll_eq
    simp only [WaitCommand.toBench, Bench.step, Waitable.persist, WaitModel.step]
    simp only at he
    rw [he]
    dsimp only
    refine ⟨?_, rfl⟩
    refine h.wake ?_ ?_ (h.claimed.add _) <;> rfl
  | isEmpty => exact ⟨h, by simp [WaitCommand.toBench, Bench.step, WaitModel.step, Waitable.isEmpty, h.queue]⟩
  | isPersistent => exact ⟨h, by simp [WaitCommand.toBench, Bench.step, WaitModel.step, h.persistent]⟩
  | slotWake b =>
    simp only [WaitCommand.toBench, Bench.step, onBlock, hlt b, if_true, WaitModel.step, and_true]
    simpa [WaitSlot.wake] using h.modifySlot b WaitSlot.wake
  | slotPersist b =>
    simp only [WaitCommand.toBench, Bench.step, onBlock, hlt b, if_true, WaitModel.step, and_true]
    simpa [WaitSlot.persistentWake] using h.modifySlot b WaitSlot.persistentWake
  | slotPoll b =>
    simp only [WaitCommand.toBench, Bench.step, onBlock, hlt b, if_true, WaitModel.step, h.slot b,
      WaitSlot.poll]
    rw [List.set_eq_modify]
    by_cases hs : m.slotPersistent b = true
    · have e : Function.update m.slotPersistent b true = m.slotPersistent :=
        Function.update_eq_self_iff.mpr hs.symm
      simp only [hs, if_true, and_true]
      simpa [e] using h.modifySlot b (fun _ => ⟨m.wakes b, true⟩)
    · have e : Function.update m.slotPersistent b false = m.slotPersistent :=
        Function.update_eq_self_iff.mpr (by simpa using hs)
      by_cases hw : 0 < m.wakes b
      · simp only [hs, hw, Bool.false_eq_true, if_false, if_true, and_true]
        simpa [e] using h.modifySlot b (fun _ => ⟨m.wakes b - 1, false⟩)
      · simp only [hs, hw, Bool.false_eq_true, if_false, and_true]
        simpa [e] using h.modifySlot b (fun _ => ⟨m.wakes b, false⟩)

/-- Agreeing states give the same replies to every sequence of commands. -/
theorem Agrees.replies (h : bench.Agrees m) (cs : List (WaitCommand n)) :
    bench.replies (cs.map WaitCommand.toBench) = m.replies cs := by
  induction cs generalizing bench m with
  | nil => rfl
  | cons c cs ih =>
    obtain ⟨hstep, hreply⟩ := h.step c
    simp only [List.map_cons, Bench.replies, WaitModel.replies, hreply, ih hstep]

/-- **The bench behaves as the reference model**: from a fresh bench of `n` blocks and the
model's fresh state, every sequence of commands gets the same replies. -/
theorem replies_eq_model (n : Nat) (cs : List (WaitCommand n)) :
    (Bench.create n).replies (cs.map WaitCommand.toBench) = ({} : WaitModel n).replies cs :=
  (agrees_create n).replies cs

/-- A block queued twice is woken once, and only its slot gets the wake. -/
example : ({} : WaitModel 2).replies
    [.add 0, .add 0, .add 1, .claim 1, .wakeAll true, .slotPoll 0, .slotPoll 0, .slotPoll 1] =
    [.flag true, .flag true, .flag true, .flag true, .indices [0], .flag true, .flag false,
      .flag false] := by
  rfl

end Bench

end Fibers
