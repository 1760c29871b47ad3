import Fibers.Sync.Waitable
/-!
# What the wait-queue operations do

The laws every machine built on a waitable relies on: queueing appends at the tail unless
the waitable is awakened for good; waking one pops the blocks in front that are claimed
already and claims the first that is not; waking all claims every unclaimed block queued,
each once and in queue order, and empties the queue.
-/

namespace Fibers

namespace Waitable

variable {w : Waitable} {claimed : List Nat} {b : Nat}

/-! ## 1. Queueing -/

theorem add_of_not_persistent (h : w.persistent = false) (b : Nat) :
    w.add b = ({ w with queue := w.queue ++ [b] }, true) := by
  simp [add, h]

/-! ## 2. Removing -/

@[simp] theorem persistent_remove : (w.remove b).1.persistent = w.persistent := by
  unfold remove
  split <;> rfl

/-- Removing a block leaves the others queued. -/
theorem mem_remove_of_ne {q : Nat} (hq : q ≠ b) : q ∈ (w.remove b).1.queue ↔ q ∈ w.queue := by
  unfold remove
  split
  · exact List.mem_erase_of_ne hq
  · exact Iff.rfl

/-- In a queue holding no block twice, a removed block is no longer queued. -/
theorem not_mem_remove (hn : w.queue.Nodup) : b ∉ (w.remove b).1.queue := by
  unfold remove
  split
  · exact fun h => (hn.mem_erase_iff.mp h).1 rfl
  · assumption

theorem nodup_remove (hn : w.queue.Nodup) : (w.remove b).1.queue.Nodup := by
  unfold remove
  split
  · exact hn.erase b
  · exact hn

/-! ## 3. Waking one -/

@[simp] theorem popClaim_nil : popClaim claimed [] = ([], claimed, none) := rfl

theorem popClaim_cons_of_not_mem (rest : List Nat) (h : b ∉ claimed) :
    popClaim claimed (b :: rest) = (rest, b :: claimed, some b) := by
  simp [popClaim, h]

theorem popClaim_cons_of_mem (rest : List Nat) (h : b ∈ claimed) :
    popClaim claimed (b :: rest) = popClaim claimed rest := by
  simp [popClaim, h]

/-- Waking one with an unclaimed block in front claims exactly that block. -/
theorem wakeOne_of_head {rest : List Nat} (hq : w.queue = b :: rest) (hb : b ∉ claimed) :
    w.wakeOne claimed = ({ w with queue := rest }, b :: claimed, some b) := by
  simp [wakeOne, hq, popClaim_cons_of_not_mem rest hb]

section PopClaim

variable (claimed : List Nat) (l : List Nat)

/-- **Waking one claims the first unclaimed block queued.** -/
theorem popClaim_found : (popClaim claimed l).2.2 = l.find? (fun x => !decide (x ∈ claimed)) := by
  induction l with
  | nil => rfl
  | cons b rest ih =>
    by_cases hb : b ∈ claimed
    · rw [popClaim_cons_of_mem rest hb, ih, List.find?_cons]
      simp [hb]
    · rw [popClaim_cons_of_not_mem rest hb, List.find?_cons]
      simp [hb]

/-- Waking one adds the block it claims, and nothing else, to the claims. -/
theorem popClaim_claims : (popClaim claimed l).2.1 = (popClaim claimed l).2.2.toList ++ claimed := by
  induction l with
  | nil => rfl
  | cons b rest ih =>
    by_cases hb : b ∈ claimed
    · rwa [popClaim_cons_of_mem rest hb]
    · simp [popClaim_cons_of_not_mem rest hb]

/-- What stays queued is the end of the queue. -/
theorem popClaim_suffix : (popClaim claimed l).1 <:+ l := by
  induction l with
  | nil => exact List.suffix_refl []
  | cons b rest ih =>
    by_cases hb : b ∈ claimed
    · rw [popClaim_cons_of_mem rest hb]
      exact ih.trans (List.suffix_cons b rest)
    · rw [popClaim_cons_of_not_mem rest hb]
      exact List.suffix_cons b rest

variable {claimed l}

/-- A block taken off the queue was claimed already, or is the one claimed now. -/
theorem popClaim_dropped {q : Nat} (hq : q ∈ l) (hr : q ∉ (popClaim claimed l).1) :
    q ∈ claimed ∨ (popClaim claimed l).2.2 = some q := by
  induction l with
  | nil => simp at hq
  | cons b rest ih =>
    by_cases hb : b ∈ claimed
    · rw [popClaim_cons_of_mem rest hb] at hr ⊢
      rcases List.mem_cons.mp hq with rfl | hq
      · exact Or.inl hb
      · exact ih hq hr
    · rw [popClaim_cons_of_not_mem rest hb] at hr ⊢
      rcases List.mem_cons.mp hq with rfl | hq
      · exact Or.inr rfl
      · exact absurd hq hr

/-- In a queue holding no block twice, the block claimed is no longer queued. -/
theorem popClaim_found_not_mem {q : Nat} (hl : l.Nodup) (h : (popClaim claimed l).2.2 = some q) :
    q ∉ (popClaim claimed l).1 := by
  induction l with
  | nil => simp at h
  | cons b rest ih =>
    have hrest := (List.nodup_cons.mp hl).2
    by_cases hb : b ∈ claimed
    · rw [popClaim_cons_of_mem rest hb] at h ⊢
      exact ih hrest h
    · rw [popClaim_cons_of_not_mem rest hb] at h ⊢
      simp only [Option.some.injEq] at h
      exact h ▸ (List.nodup_cons.mp hl).1

end PopClaim

/-! ## 4. Waking all -/

/-- **Waking all claims the unclaimed blocks queued, in queue order**, when no block is queued
twice; the claims grow by them, the last claimed in front. -/
theorem claimAll_eq {l : List Nat} (hl : l.Nodup) :
    claimAll claimed l =
      ((l.filter (fun x => !decide (x ∈ claimed))).reverse ++ claimed,
        l.filter (fun x => !decide (x ∈ claimed))) := by
  induction l generalizing claimed with
  | nil => rfl
  | cons b rest ih =>
    obtain ⟨hbr, hrest⟩ := List.nodup_cons.mp hl
    by_cases hb : b ∈ claimed
    · simp [claimAll, hb, ih hrest]
    · -- the claim of b changes nothing for the rest, where b does not occur
      have hsame : rest.filter (fun x => !decide (x ∈ b :: claimed)) =
          rest.filter (fun x => !decide (x ∈ claimed)) :=
        List.filter_congr (fun x hx => by
          have hxb : x ≠ b := fun h => hbr (h ▸ hx)
          simp [hxb])
      have hrec := @ih (b :: claimed) hrest
      rw [hsame] at hrec
      simp only [claimAll, hb, if_false, hrec]
      simp [hb]

end Waitable

end Fibers
