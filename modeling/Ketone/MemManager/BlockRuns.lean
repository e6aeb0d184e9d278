import Ketone.MemManager.Allocator
import Mathlib.Data.List.Pairwise
import Mathlib.Data.List.Perm.Basic

/-! The block table as the picture of a live set. The live set is what the
callers hold; the table is what the allocator searches. -/

namespace Ketone.MemManager.BlockRuns
open Library Library.Loop Allocator

/-- An allocation a caller holds, with the size it asked for. -/
structure Live where
  start : Nat
  stop : Nat
  size : BitVec 64
deriving DecidableEq

abbrev Live.Holds (entry : Live) (k : Nat) : Prop := entry.start ≤ k ∧ k < entry.stop

def Live.Apart (first second : Live) : Prop :=
  first.stop ≤ second.start ∨ second.stop ≤ first.start

theorem Live.Apart.symm {first second : Live} (apart : Live.Apart first second) :
    Live.Apart second first := Or.symm apart

instance : Std.Symm Live.Apart := ⟨fun _ _ => Live.Apart.symm⟩

def Live.entry (entry : Live) : Allocation :=
  ⟨true, BitVec.ofNat 32 entry.start, BitVec.ofNat 32 entry.stop⟩

def picture (live : List Live) (k : Nat) : Allocation :=
  match live.find? (fun entry => decide (entry.Holds k)) with
  | some entry => entry.entry
  | none => .cleared

/-- The live set after a call. A pointer with no block behind it is not live. -/
def grow (size : BitVec 64) (call : Call) (live : List Live) : List Live :=
  match call.run with
  | some run => if run.start < run.stop then ⟨run.start, run.stop, size⟩ :: live else live
  | none => live

/-- The states of a heap and its live set over all finite runs of calls whose sizes
satisfy `asks` and whose `alloc` results satisfy `grants`. The memory behind the
table belongs to others and may change between any two calls. -/
inductive Reach (asks : Heap → BitVec 64 → Prop) (grants : Heap → Call → Prop) (first : Heap) :
    Heap → List Live → Prop where
  | initial : Reach asks grants first first []
  | alloc {heap : Heap} {live : List Live} {size : BitVec 64} {call : Call} :
      Reach asks grants first heap live → asks heap size → Allocator.alloc heap size = some call →
      grants heap call → Reach asks grants first call.heap (grow size call live)
  | allocAligned {heap : Heap} {live : List Live} {size alignment : BitVec 64} {call : Call} :
      Reach asks grants first heap live → asks heap size →
      Allocator.allocAligned heap size alignment = some call →
      Reach asks grants first call.heap (grow size call live)
  | free {heap : Heap} {live : List Live} {entry : Live} :
      Reach asks grants first heap live → entry ∈ live → heap.blockAddr entry.start ≠ 0 →
      Reach asks grants first (Allocator.free heap (heap.blockAddr entry.start)) (live.erase entry)
  | freeNull {heap : Heap} {live : List Live} :
      Reach asks grants first heap live → Reach asks grants first (Allocator.free heap 0) live
  | outside {heap : Heap} {live : List Live} {blocks : Nat → Allocation} :
      Reach asks grants first heap live → (∀ k, k < heap.total → blocks k = heap.blocks k) →
      Reach asks grants first { heap with blocks := blocks } live

def EndsInside (heap : Heap) (call : Call) : Prop :=
  ∀ run, call.run = some run → run.stop ≤ heap.total

section
variable {live : List Live}

theorem holds_unique (apart : live.Pairwise Live.Apart) {first second : Live} {k : Nat}
    (left : first ∈ live) (right : second ∈ live) (low : first.Holds k) (high : second.Holds k) :
    first = second := by
  by_contra different
  have separate := apart.forall left right different
  unfold Live.Apart at separate
  unfold Live.Holds at low high
  omega

theorem picture_of_holds (apart : live.Pairwise Live.Apart) {entry : Live} {k : Nat}
    (member : entry ∈ live) (holds : entry.Holds k) : picture live k = entry.entry := by
  unfold picture
  cases found : live.find? (fun entry => decide (entry.Holds k)) with
  | none =>
    have none := List.find?_eq_none.mp found entry member
    exact (none (decide_eq_true holds)).elim
  | some other =>
    have held := List.find?_some found
    have same := holds_unique apart (List.mem_of_find?_eq_some found) member
      (of_decide_eq_true held) holds
    rw [same]

theorem picture_of_free {k : Nat} (free : ∀ entry ∈ live, ¬ entry.Holds k) :
    picture live k = .cleared := by
  unfold picture
  have none : live.find? (fun entry => decide (entry.Holds k)) = none :=
    List.find?_eq_none.mpr (fun entry member => by simpa using free entry member)
  rw [none]

theorem picture_perm (apart : live.Pairwise Live.Apart) {other : List Live} (same : live.Perm other)
    (k : Nat) : picture live k = picture other k := by
  have apart' : other.Pairwise Live.Apart := (same.pairwise_iff Live.Apart.symm).mp apart
  by_cases held : ∃ entry ∈ live, entry.Holds k
  · obtain ⟨entry, member, holds⟩ := held
    rw [picture_of_holds apart member holds, picture_of_holds apart' (same.mem_iff.mp member) holds]
  · rw [picture_of_free (fun entry member holds => held ⟨entry, member, holds⟩),
      picture_of_free (fun entry member holds => held ⟨entry, same.mem_iff.mpr member, holds⟩)]

end

/-- The table is the picture of the live set. -/
structure Pictured (heap : Heap) (live : List Live) : Prop where
  apart : live.Pairwise Live.Apart
  inside : ∀ entry ∈ live, entry.start < entry.stop ∧ entry.stop ≤ heap.total
  enough : ∀ entry ∈ live, entry.size.toNat ≤ (entry.stop - entry.start) * heap.blockBytes.toNat
  table : ∀ k, k < heap.total → heap.blocks k = picture live k

section
variable {heap : Heap} {live : List Live}

theorem pictured_cleared (cleared : ∀ k, k < heap.total → heap.blocks k = .cleared) : Pictured heap [] := by
  constructor
  · exact List.Pairwise.nil
  · exact fun entry member => (List.not_mem_nil member).elim
  · exact fun entry member => (List.not_mem_nil member).elim
  · exact cleared

theorem not_holds_of_unused (pictured : Pictured heap live) {k : Nat}
    (unused : (heap.blocks k).isAllocated = false) {entry : Live} (member : entry ∈ live) :
    ¬ entry.Holds k := by
  intro holds
  have inside := pictured.inside entry member
  rw [pictured.table k (lt_of_lt_of_le holds.2 inside.2),
    picture_of_holds pictured.apart member holds] at unused
  simp [Live.entry] at unused

/-- Marking a run of unused blocks adds it to the picture. -/
theorem pictured_mark (pictured : Pictured heap live) (entry : Live)
    (unused : heap.Unused entry.start entry.stop) (some : entry.start < entry.stop)
    (inside : entry.stop ≤ heap.total)
    (enough : entry.size.toNat ≤ (entry.stop - entry.start) * heap.blockBytes.toNat) :
    Pictured (heap.mark entry.start entry.stop) (entry :: live) := by
  have separate : ∀ other ∈ live, Live.Apart entry other := by
    intro other member
    by_contra meets
    have bounds := pictured.inside other member
    unfold Live.Apart at meets
    have shared : entry.Holds (max entry.start other.start) := ⟨by omega, by omega⟩
    exact not_holds_of_unused pictured (unused _ shared.1 shared.2) member ⟨by omega, by omega⟩
  have apart : (entry :: live).Pairwise Live.Apart := List.pairwise_cons.mpr ⟨separate, pictured.apart⟩
  refine ⟨apart, ?_, ?_, ?_⟩
  · intro other member
    rcases List.mem_cons.mp member with rfl | old
    · exact ⟨some, inside⟩
    · exact pictured.inside other old
  · intro other member
    rcases List.mem_cons.mp member with rfl | old
    · exact enough
    · exact pictured.enough other old
  · intro k below
    by_cases holds : entry.Holds k
    · rw [picture_of_holds apart (List.mem_cons_self ..) holds]
      exact if_pos holds
    · have same : picture (entry :: live) k = picture live k := by
        simp only [picture, List.find?_cons, decide_eq_false holds]
      rw [same, ← pictured.table k below]
      exact if_neg holds

theorem cons_erase_pairwise (apart : live.Pairwise Live.Apart) {entry : Live} (member : entry ∈ live) :
    (entry :: live.erase entry).Pairwise Live.Apart :=
  ((List.perm_cons_erase member).pairwise_iff Live.Apart.symm).mp apart

/-- Clearing a live run takes it out of the picture. -/
theorem pictured_clear (pictured : Pictured heap live) {entry : Live} (member : entry ∈ live) :
    Pictured (heap.fill entry.start entry.stop .cleared) (live.erase entry) := by
  have whole := cons_erase_pairwise pictured.apart member
  refine ⟨(List.pairwise_cons.mp whole).2, ?_, ?_, ?_⟩
  · exact fun other old => pictured.inside other (List.mem_of_mem_erase old)
  · exact fun other old => pictured.enough other (List.mem_of_mem_erase old)
  · intro k below
    by_cases holds : entry.Holds k
    · have gone : picture (live.erase entry) k = .cleared := by
        apply picture_of_free
        intro other old taken
        have separate := (List.pairwise_cons.mp whole).1 other old
        unfold Live.Apart at separate
        unfold Live.Holds at taken
        omega
      rw [gone]
      exact if_pos holds
    · have same : picture live k = picture (live.erase entry) k := by
        rw [picture_perm pictured.apart (List.perm_cons_erase member)]
        simp only [picture, List.find?_cons, decide_eq_false holds]
      rw [← same, ← pictured.table k below]
      exact if_neg holds

theorem free_live (pictured : Pictured heap live) (small : heap.total < 2 ^ 32) {entry : Live}
    (member : entry ∈ live) (nonnull : heap.blockAddr entry.start ≠ 0) :
    free heap (heap.blockAddr entry.start) = heap.fill entry.start entry.stop .cleared := by
  have inside := pictured.inside entry member
  have first : heap.blocks entry.start = entry.entry := by
    rw [pictured.table _ (by omega), picture_of_holds pictured.apart member ⟨le_rfl, inside.1⟩]
  have stop : (heap.blocks entry.start).endBlock.toNat = entry.stop := by
    rw [first]
    exact Nat.mod_eq_of_lt (by omega)
  rw [free_blockAddr (by omega) nonnull, stop]

/-- What a call that hands out runs inside the table does to the picture. -/
theorem pictured_settled (pictured : Pictured heap live) {size : BitVec 64} {call : Call}
    {inside : Nat → Prop} (settled : Settled heap (heap.needed size) inside call)
    (ends : EndsInside heap call) (enough : size.toNat ≤ heap.needed size * heap.blockBytes.toNat) :
    Pictured call.heap (grow size call live) := by
  rcases settled with ⟨touched, rfl⟩ | ⟨start, touched, _, unused, rfl⟩
  · exact pictured
  · let entry : Live := ⟨start, start + heap.needed size, size⟩
    have inside' : entry.stop ≤ heap.total := ends ⟨start, start + heap.needed size⟩ rfl
    have enough' : size.toNat ≤ (entry.stop - entry.start) * heap.blockBytes.toNat := by
      simpa [entry] using enough
    simp only [grow, grant]
    by_cases some : start < start + heap.needed size
    · rw [if_pos some]
      exact pictured_mark pictured entry unused some inside' enough'
    · -- a call for no block at all marks nothing
      have none : heap.mark start (start + heap.needed size) = heap := fill_empty heap (by omega) _
      rw [if_neg some, none]
      exact pictured

theorem size_le_granted {size : BitVec 64} (noWrap : heap.NoWrap size) :
    size.toNat ≤ heap.needed size * heap.blockBytes.toNat := by
  by_cases zero : size = 0
  · rw [zero]
    exact Nat.zero_le _
  · exact size_le_needed noWrap zero

end

def SameRecord (first heap : Heap) : Prop :=
  heap.blockSize = first.blockSize ∧ heap.startAddr = first.startAddr ∧ heap.maxSize = first.maxSize

theorem SameRecord.total {first heap : Heap} (same : SameRecord first heap) :
    heap.total = first.total := by
  unfold Heap.total Heap.blockBytes
  rw [same.1, same.2.2]

theorem SameRecord.trans {first middle last : Heap} (left : SameRecord first middle)
    (right : SameRecord middle last) : SameRecord first last :=
  ⟨right.1.trans left.1, right.2.1.trans left.2.1, right.2.2.trans left.2.2⟩

theorem SameRecord.blockAddr {first heap : Heap} (same : SameRecord first heap) (block : Nat) :
    heap.blockAddr block = first.blockAddr block := by
  unfold Heap.blockAddr Heap.blockBytes
  rw [same.1, same.2.1]

theorem SameRecord.area {first heap : Heap} (same : SameRecord first heap)
    (area : first.startAddr.toNat + first.maxSize.toNat ≤ 2 ^ 64) :
    heap.startAddr.toNat + heap.maxSize.toNat ≤ 2 ^ 64 := by
  rw [same.2.1, same.2.2]
  exact area

theorem settled_record {heap : Heap} {n : Nat} {inside : Nat → Prop} {call : Call}
    (settled : Settled heap n inside call) : SameRecord heap call.heap := by
  rcases settled with ⟨_, rfl⟩ | ⟨_, _, _, _, rfl⟩
  · exact ⟨rfl, rfl, rfl⟩
  · exact ⟨rfl, rfl, rfl⟩

/-- In every reachable state the table is the picture of the live set. -/
theorem reach_pictured {first heap : Heap} {live : List Live} (small : first.total < 2 ^ 32)
    (fresh : ∀ k, k < first.total → first.blocks k = .cleared)
    (reach : Reach Heap.NoWrap EndsInside first heap live) :
    SameRecord first heap ∧ Pictured heap live := by
  induction reach with
  | initial =>
    exact ⟨⟨rfl, rfl, rfl⟩, pictured_cleared fresh⟩
  | alloc _ noWrap done ends ih =>
    obtain ⟨same, pictured⟩ := ih
    have settled := alloc_settled done
    exact ⟨SameRecord.trans same (settled_record settled),
      pictured_settled pictured settled ends (size_le_granted noWrap)⟩
  | allocAligned _ noWrap done ih =>
    obtain ⟨same, pictured⟩ := ih
    have total := same.total
    have settled := allocAligned_settled (by omega) done
    refine ⟨SameRecord.trans same (settled_record settled),
      pictured_settled pictured settled ?_ (size_le_granted noWrap)⟩
    rcases settled with ⟨_, rfl⟩ | ⟨start, _, inside, _, rfl⟩
    · intro run none
      simp [refuse] at none
    · intro run given
      obtain rfl := Option.some.inj given
      exact inside
  | free _ member nonnull ih =>
    obtain ⟨same, pictured⟩ := ih
    have total := same.total
    rw [free_live pictured (by omega) member nonnull]
    exact ⟨same, pictured_clear pictured member⟩
  | freeNull _ ih =>
    rw [Allocator.free, if_pos rfl]
    exact ih
  | outside _ kept ih =>
    obtain ⟨same, pictured⟩ := ih
    exact ⟨same, pictured.apart, pictured.inside, pictured.enough,
      fun k below => (kept k below).trans (pictured.table k below)⟩

def freeAll (heap : Heap) (gone : List Live) : Heap :=
  gone.foldl (fun heap entry => Allocator.free heap (heap.blockAddr entry.start)) heap

theorem pictured_freeAll {heap : Heap} {live : List Live} (pictured : Pictured heap live)
    (small : heap.total < 2 ^ 32) (gone kept : List Live) (parts : live.Perm (gone ++ kept))
    (nonnull : ∀ entry ∈ gone, heap.blockAddr entry.start ≠ 0) :
    ∃ left, Pictured (freeAll heap gone) left ∧ left.Perm kept ∧
      (freeAll heap gone).total = heap.total := by
  induction gone generalizing heap live with
  | nil => exact ⟨live, pictured, parts, rfl⟩
  | cons entry rest ih =>
    have member : entry ∈ live := parts.mem_iff.mpr (by simp)
    have freed := free_live pictured small member (nonnull entry (by simp))
    have parts' : (live.erase entry).Perm (rest ++ kept) :=
      List.perm_cons_erase member |>.symm.trans parts |>.cons_inv
    obtain ⟨left, final, same, total⟩ := ih (pictured_clear pictured member) small parts'
      (fun other old => nonnull other (by simp [old]))
    refine ⟨left, ?_, same, ?_⟩
    · simpa only [freeAll, List.foldl_cons, freed] using final
    · simp only [freeAll, List.foldl_cons, freed]
      exact total

/-- On a heap of fewer than `2^32` blocks that starts all free, after any run of the
three calls whose `alloc` results end inside the table: live allocations are disjoint and
as large as asked for, the table is exactly their picture, freeing any of them in any
order leaves the picture of the rest, and the next call returns. -/
theorem block_table_pictures_live_set (first : Heap) (small : first.total < 2 ^ 32)
    (fresh : ∀ k, k < first.total → first.blocks k = .cleared) (heap : Heap) (live : List Live)
    (reach : Reach Heap.NoWrap EndsInside first heap live) :
    live.Pairwise Live.Apart ∧
    (∀ entry ∈ live, entry.start < entry.stop ∧ entry.stop ≤ heap.total ∧
      entry.size.toNat ≤ (entry.stop - entry.start) * heap.blockBytes.toNat) ∧
    (∀ entry ∈ live, ∀ k, entry.Holds k → (heap.blocks k).isAllocated = true ∧
      (heap.blocks k).startBlock.toNat = entry.start ∧ (heap.blocks k).endBlock.toNat = entry.stop) ∧
    (∀ k, k < heap.total → (∀ entry ∈ live, ¬ entry.Holds k) → heap.blocks k = ⟨false, 0, 0⟩) ∧
    (∀ gone kept, live.Perm (gone ++ kept) → (∀ entry ∈ gone, heap.blockAddr entry.start ≠ 0) →
      ∀ k, k < heap.total → (freeAll heap gone).blocks k = picture kept k) ∧
    ∀ size alignment, (∃ call, alloc heap size = some call) ∧
      ∃ call, allocAligned heap size alignment = some call := by
  obtain ⟨same, pictured⟩ := reach_pictured small fresh reach
  have total := same.total
  refine ⟨pictured.apart, ?_, ?_, ?_, ?_, ?_⟩
  · intro entry member
    have inside := pictured.inside entry member
    exact ⟨inside.1, inside.2, pictured.enough entry member⟩
  · intro entry member k holds
    have inside := pictured.inside entry member
    have stored : heap.blocks k = entry.entry := by
      rw [pictured.table k (lt_of_lt_of_le holds.2 inside.2), picture_of_holds pictured.apart member holds]
    rw [stored]
    exact ⟨rfl, Nat.mod_eq_of_lt (by omega), Nat.mod_eq_of_lt (by omega)⟩
  · intro k below free
    rw [pictured.table k below]
    exact picture_of_free free
  · intro gone kept parts nonnull k below
    obtain ⟨left, final, perm, total'⟩ := pictured_freeAll pictured (by omega) gone kept parts nonnull
    rw [final.table k (by omega), picture_perm final.apart perm]
  · exact fun size alignment => ⟨alloc_returns heap size, allocAligned_returns (by omega) size alignment⟩

def fourBlocks : Heap := ⟨512, 0x200000, 2048, fun _ => .cleared, sector_pos⟩

def firstCall : Call := grant fourBlocks 0 2 [0, 0, 1]

def secondCall : Call := grant firstCall.heap 2 1 [0, 2]

theorem reach_secondCall :
    Reach Heap.NoWrap EndsInside fourBlocks secondCall.heap [⟨2, 3, 512⟩, ⟨0, 2, 600⟩] := by
  have first : Reach Heap.NoWrap EndsInside fourBlocks firstCall.heap [⟨0, 2, 600⟩] := by
    have done : alloc fourBlocks 600 = some firstCall := rfl
    refine Reach.alloc .initial (show _ ≤ _ by decide) done ?_
    intro run given
    obtain rfl := Option.some.inj given
    decide
  have done : allocAligned firstCall.heap 512 1024 = some secondCall := rfl
  exact Reach.allocAligned first (show _ ≤ _ by decide) done

/-- Two allocations on a fresh heap of four blocks: freeing the first one leaves the
picture of the second. -/
theorem block_table_pictures_four_blocks :
    (freeAll secondCall.heap [⟨0, 2, 600⟩]).blocks 1 = picture [⟨2, 3, 512⟩] 1 ∧
      (secondCall.heap.blocks 1).endBlock.toNat = 2 := by
  have pictured := block_table_pictures_live_set fourBlocks (by decide) (fun _ _ => rfl)
    secondCall.heap _ reach_secondCall
  have freed := pictured.2.2.2.2.1 [⟨0, 2, 600⟩] [⟨2, 3, 512⟩] (List.Perm.swap _ _ _) (by decide)
  have held := pictured.2.2.1 ⟨0, 2, 600⟩ (by decide) 1 (by decide)
  exact ⟨freed 1 (by decide), held.2.2⟩

end Ketone.MemManager.BlockRuns
