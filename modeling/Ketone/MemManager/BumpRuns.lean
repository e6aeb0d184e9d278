import Ketone.Library.Gap
import Ketone.MemManager.BumpAllocator

/-! The bump heap over whole runs of its two calls. -/

namespace Ketone.MemManager.BumpRuns
open Library.Align Library.Gap BumpAllocator

inductive Request where
  | bumpAlloc (size : BitVec 64)
  | bumpAllocAligned (size align : BitVec 64)

namespace Request

def size : Request → BitVec 64
  | bumpAlloc size => size
  | bumpAllocAligned size _ => size

def align : Request → BitVec 64
  | bumpAlloc _ => 1
  | bumpAllocAligned _ align => orOne align

def call (request : Request) (heap : BumpHeap) : BumpCall :=
  match request with
  | bumpAlloc size => BumpAllocator.bumpAlloc heap size
  | bumpAllocAligned size align => BumpAllocator.bumpAllocAligned heap size align

theorem call_eq (request : Request) (heap : BumpHeap) :
    ∃ align, request.align = orOne align ∧
      request.call heap = BumpAllocator.bumpAllocAligned heap request.size align := by
  cases request with
  | bumpAlloc size => exact ⟨1, rfl, rfl⟩
  | bumpAllocAligned size align => exact ⟨align, rfl, rfl⟩

end Request

/-- One call of a run, with the heap it finds. -/
structure Step where
  heap : BumpHeap
  request : Request

namespace Step

def call (step : Step) : BumpCall := step.request.call step.heap

def Granted (step : Step) : Prop := step.call.ptr ≠ 0

instance (step : Step) : Decidable step.Granted := by
  unfold Granted; infer_instance

def area (step : Step) : Span :=
  ⟨step.call.ptr.toNat, step.call.ptr.toNat + step.request.size.toNat⟩

/-- Some aligned range of the size asked for fits between `next` and the end of the heap. -/
def HasRoom (step : Step) : Prop :=
  ∃ addr, step.request.align.toNat ∣ addr ∧ step.heap.next.toNat ≤ addr ∧
    addr + step.request.size.toNat ≤ step.heap.stop

end Step

def run (heap : BumpHeap) : List Request → List Step
  | [] => []
  | request :: rest => ⟨heap, request⟩ :: run (request.call heap).heap rest

/-- What one call of a run gives and leaves, measured against the heap as it was set up. -/
structure Served (first : BumpHeap) (step : Step) : Prop where
  inside : step.Granted → first.start.toNat ≤ step.area.lo ∧ step.area.hi ≤ first.start.toNat + first.size.toNat
  aligned : step.Granted → step.request.align.toNat ∣ step.area.lo
  unchanged : ¬ step.Granted → step.call.heap = step.heap
  refused : ¬ step.Granted ↔
    step.request.size = 0 ∨ (¬ ∃ k, step.request.align.toNat = 2 ^ k) ∨ ¬ step.HasRoom
  stopSum : step.heap.start.toNat + step.heap.size.toNat < 2 ^ 64
  roundingSum : (∃ k, step.request.align.toNat = 2 ^ k) →
    step.heap.next.toNat + step.request.align.toNat < 2 ^ 64
  nextSum : step.Granted → step.call.ptr.toNat + step.request.size.toNat < 2 ^ 64

structure Later (first heap : BumpHeap) : Prop where
  within : heap.Within
  start : heap.start = first.start
  size : heap.size = first.size

section
variable {first : BumpHeap} {step : Step}

theorem later_call (later : Later first step.heap) :
    Later first step.call.heap ∧ step.heap.next ≤ step.call.heap.next := by
  obtain ⟨align, _, same⟩ := step.request.call_eq step.heap
  obtain ⟨within, start, size, forward⟩ := within_bump later.within step.request.size align
  rw [← same] at within start size forward
  exact ⟨⟨within, start.trans later.start, size.trans later.size⟩, forward⟩

/-- A call is granted the first aligned range behind `next` and moves `next` behind it, or it
leaves the heap alone for one of three reasons. -/
theorem call_cases (positive : 0 < step.heap.start) (within : step.heap.Within) :
    (¬ step.Granted ∧ step.call.heap = step.heap ∧
      (step.request.size = 0 ∨ (¬ ∃ k, step.request.align.toNat = 2 ^ k) ∨ ¬ step.HasRoom)) ∨
    (step.Granted ∧ step.request.size ≠ 0 ∧ (∃ k, step.request.align.toNat = 2 ^ k) ∧
      step.request.align.toNat ∣ step.area.lo ∧ step.heap.next.toNat ≤ step.area.lo ∧
      step.area.hi ≤ step.heap.stop ∧ step.call.heap.next.toNat = step.area.hi) := by
  obtain ⟨align, force, same⟩ := step.request.call_eq step.heap
  have low := within.low
  have area := within.area
  rw [BitVec.lt_def] at positive
  rw [BitVec.le_def] at low
  rcases bumpAllocAligned_cases within step.request.size align with ⟨null, why⟩ | ⟨k, addr, power, some, place, room, given⟩
  · have call : step.call = ⟨0, step.heap⟩ := same.trans null
    refine Or.inl ⟨not_not.mpr (congrArg BumpCall.ptr call), congrArg BumpCall.heap call, ?_⟩
    rw [← force] at why
    rcases why with zero | odd | full
    · exact Or.inl zero
    · exact Or.inr (Or.inl odd)
    · refine Or.inr (Or.inr ?_)
      rintro ⟨other, divides, behind, fits⟩
      have least := roundUp_le divides behind
      omega
  · have call : step.call = ⟨addr, { step.heap with next := addr + step.request.size }⟩ := same.trans given
    rw [← force] at power
    have up := le_roundUp (n := step.heap.next.toNat) (Nat.two_pow_pos k)
    have lo : step.area.lo = addr.toNat := congrArg (fun call => call.ptr.toNat) call
    have hi : step.area.hi = addr.toNat + step.request.size.toNat := by
      change step.call.ptr.toNat + _ = _
      rw [call]
    have next : step.call.heap.next = addr + step.request.size := congrArg (fun call => call.heap.next) call
    have sum := toNat_next within room
    refine Or.inr ⟨?_, some, ⟨k, power⟩, ?_, ?_, ?_, ?_⟩
    · intro null
      have zero : addr = 0 := (congrArg BumpCall.ptr call).symm.trans null
      rw [zero] at place
      change 0 = _ at place
      change 0 < _ at positive
      omega
    · rw [lo, place, power]
      exact dvd_roundUp
    · rw [lo, place]
      exact up
    · rw [hi]
      exact room
    · rw [next, sum, hi]

theorem served_call (positive : 0 < first.start) (later : Later first step.heap) : Served first step := by
  have within := later.within
  have area := within.area
  have high := within.high
  have stop : step.heap.stop = first.start.toNat + first.size.toNat := by
    rw [BumpHeap.stop, later.start, later.size]
  have low := within.low
  rw [BitVec.le_def, later.start] at low
  have roundingSum : (∃ k, step.request.align.toNat = 2 ^ k) →
      step.heap.next.toNat + step.request.align.toNat < 2 ^ 64 := by
    rintro ⟨k, power⟩
    have width := power_le power
    omega
  rw [← later.start] at positive
  rcases call_cases positive within with ⟨null, same, why⟩ | ⟨granted, some, power, aligned, behind, room, next⟩
  · exact ⟨fun granted => (null granted).elim, fun granted => (null granted).elim, fun _ => same,
      iff_of_true null why, by omega, roundingSum, fun granted => (null granted).elim⟩
  · have fits : step.HasRoom := ⟨step.area.lo, aligned, behind, room⟩
    refine ⟨fun _ => ⟨by omega, by omega⟩, fun _ => aligned, fun null => (null granted).elim, ?_, by omega,
      roundingSum, ?_⟩
    · refine iff_of_false (not_not.mpr granted) ?_
      rintro (zero | odd | full)
      · exact some zero
      · exact odd power
      · exact full fits
    · intro _
      change step.area.hi < 2 ^ 64
      unfold BumpHeap.stop at room
      omega

end

section
variable {first heap : BumpHeap} {requests : List Request} {step : Step}

theorem later_run (later : Later first heap) (member : step ∈ run heap requests) :
    Later first step.heap ∧ heap.next ≤ step.heap.next := by
  induction requests generalizing heap with
  | nil => simp [run] at member
  | cons request rest ih =>
    rcases List.mem_cons.mp member with rfl | later'
    · exact ⟨later, BitVec.le_refl _⟩
    · obtain ⟨after, forward⟩ := @later_call first ⟨heap, request⟩ later
      obtain ⟨same, behind⟩ := ih after later'
      exact ⟨same, BitVec.le_trans forward behind⟩

def granted (heap : BumpHeap) (requests : List Request) : List Step :=
  (run heap requests).filter (·.Granted)

/-- A later range starts behind an earlier one. -/
theorem granted_ascending (positive : 0 < first.start) (later : Later first heap) :
    (granted heap requests).Pairwise fun earlier late =>
      earlier.area.lo < late.area.lo ∧ Span.Apart earlier.area late.area := by
  induction requests generalizing heap with
  | nil => exact List.Pairwise.nil
  | cons request rest ih =>
    have start : 0 < heap.start := by
      rw [later.start]
      exact positive
    obtain ⟨after, _⟩ := @later_call first ⟨heap, request⟩ later
    unfold granted run
    rw [List.filter_cons]
    split
    next some =>
      refine List.pairwise_cons.mpr ⟨fun late member => ?_, ih after⟩
      obtain ⟨called, given⟩ := List.mem_filter.mp member
      obtain ⟨same, behind⟩ := later_run after called
      have start' : 0 < late.heap.start := by
        rw [same.start]
        exact positive
      rcases @call_cases ⟨heap, request⟩ start later.within with ⟨null, _⟩ | ⟨_, size, _, _, _, _, next⟩
      · exact (null (by simpa using some)).elim
      rcases call_cases start' same.within with ⟨null, _⟩ | ⟨_, _, _, _, low, _, _⟩
      · exact (null (by simpa using given)).elim
      have positive' := BitVec.toNat_pos_of_ne_zero size
      change (Step.mk heap request).call.heap.next ≤ _ at behind
      rw [BitVec.le_def, next] at behind
      have whole : (Step.mk heap request).area.hi = (Step.mk heap request).area.lo + request.size.toNat := rfl
      change 0 < request.size.toNat at positive'
      rw [Span.apart_iff]
      omega
    next => exact ih after

/-- Over every run from a fresh heap below 4 GiB: each call is served exactly, no sum wraps, and the ranges
granted ascend and are apart. -/
theorem bump_runs_exact (heap : BumpHeap) (requests : List Request) (positive : 0 < heap.start)
    (below : heap.start.toNat + heap.size.toNat ≤ 2 ^ 32) (fresh : heap.next = heap.start) :
    (granted heap requests).Pairwise (fun earlier late =>
        earlier.area.lo < late.area.lo ∧ Span.Apart earlier.area late.area) ∧
      ∀ step ∈ run heap requests, Served heap step := by
  have within : heap.Within := by
    refine ⟨below, ?_, ?_⟩
    · rw [fresh]
      exact BitVec.le_refl _
    · rw [fresh]
      omega
  have later : Later heap heap := ⟨within, rfl, rfl⟩
  exact ⟨granted_ascending positive later, fun step member =>
    served_call positive (later_run later member).1⟩

/-- A megabyte from which three ranges are taken, with two refused calls between them. -/
def fiveRequests : List Request :=
  [.bumpAllocAligned 0x1000 0x1000, .bumpAlloc 0, .bumpAlloc 0x10, .bumpAllocAligned 0x100 3,
    .bumpAllocAligned 0x2000 0x2000]

theorem bump_runs_five_requests :
    (granted ⟨0x100800, 0x100800, 0x100000⟩ fiveRequests).map (·.area) =
      [⟨0x101000, 0x102000⟩, ⟨0x102000, 0x102010⟩, ⟨0x104000, 0x106000⟩] ∧
    (granted ⟨0x100800, 0x100800, 0x100000⟩ fiveRequests).Pairwise fun earlier late =>
      earlier.area.lo < late.area.lo ∧ Span.Apart earlier.area late.area :=
  ⟨by decide, (bump_runs_exact _ fiveRequests (by decide) (by decide) rfl).1⟩

end

end Ketone.MemManager.BumpRuns
