import Ketone.MemManager.BumpRuns
import Ketone.Pcie.Assign

/-! What the kernel's wrappers of the bump heap hand to their callers, and so to the driver that
places the base address registers. -/

namespace Ketone.Pcie.OfferedAddresses
open MemManager MemManager.BumpAllocator MemManager.BumpRuns Probe Assign

/-- The value a caller receives and the heap that is left. A function that ends without a return
statement hands over no value. -/
structure KCall where
  value : Option (BitVec 64)
  heap : BumpHeap

def kBumpAlloc (heap : BumpHeap) (size : BitVec 64) : KCall :=
  let call := bumpAlloc heap size
  ⟨some call.ptr, call.heap⟩

/-- The wrapper drops the address that its call reserved. -/
def kBumpAllocAligned (heap : BumpHeap) (size align : BitVec 64) : KCall :=
  let call := bumpAllocAligned heap size align
  ⟨none, call.heap⟩

def kCall (request : Request) (heap : BumpHeap) : KCall :=
  match request with
  | .bumpAlloc size => kBumpAlloc heap size
  | .bumpAllocAligned size align => kBumpAllocAligned heap size align

def kRun (heap : BumpHeap) : List Request → List (Step × Option (BitVec 64))
  | [] => []
  | request :: rest =>
      let call := kCall request heap
      (⟨heap, request⟩, call.value) :: kRun call.heap rest

/-- Every caller receives the address that its call reserved, and the null pointer if there is none. -/
def Delivered (heap : BumpHeap) (requests : List Request) : Prop :=
  ∀ taken ∈ kRun heap requests, taken.2 = some taken.1.call.ptr

/-- A call as the driver sees it, when `left` is what it happens to find in place of a missing value. -/
def asSeen (left : BumpHeap → BitVec 64 → BitVec 64 → BitVec 64) : KBumpAllocAligned :=
  fun heap size align =>
    let call := kBumpAllocAligned heap size align
    ⟨call.value.getD (left heap size align), call.heap⟩

section
variable {heap : BumpHeap} {requests : List Request}

theorem kCall_heap (request : Request) (heap : BumpHeap) : (kCall request heap).heap = (request.call heap).heap := by
  cases request <;> rfl

theorem kCall_value (request : Request) (heap : BumpHeap) :
    (kCall request heap).value = some (request.call heap).ptr ↔ ∃ size, request = .bumpAlloc size := by
  cases request with
  | bumpAlloc size => exact iff_of_true rfl ⟨size, rfl⟩
  | bumpAllocAligned size align => simp [kCall, kBumpAllocAligned]

theorem kRun_eq : kRun heap requests =
    (run heap requests).map fun step => (step, (kCall step.request step.heap).value) := by
  induction requests generalizing heap with
  | nil => rfl
  | cons request rest ih =>
    rw [kRun, run, List.map_cons, ih, kCall_heap]

theorem run_requests : (run heap requests).map (·.request) = requests := by
  induction requests generalizing heap with
  | nil => rfl
  | cons request rest ih => rw [run, List.map_cons, ih]

theorem delivered_iff : Delivered heap requests ↔ ∀ request ∈ requests, ∃ size, request = .bumpAlloc size := by
  have each : Delivered heap requests ↔
      ∀ step ∈ run heap requests, ∃ size, step.request = .bumpAlloc size := by
    unfold Delivered
    rw [kRun_eq, List.forall_mem_map]
    exact forall₂_congr fun step _ => kCall_value step.request step.heap
  rw [each]
  conv_rhs => rw [← @run_requests heap requests, List.forall_mem_map]

end

section
variable {left : BumpHeap → BitVec 64 → BitVec 64 → BitVec 64}

theorem offer_skipped (kBump : KBumpAllocAligned) (heap : BumpHeap) {record : BarRecord}
    (skipped : ¬ record.isValid ∨ record.barSize = 0) : offer kBump heap record = (none, heap) :=
  if_pos skipped

theorem plan_skipped {all : List BarRecord} (skipped : ∀ record ∈ all, ¬ record.isValid ∨ record.barSize = 0)
    (kBump : KBumpAllocAligned) (heap : BumpHeap) :
    plan kBump heap all = (List.replicate all.length none, heap) := by
  induction all with
  | nil => rfl
  | cons record rest ih =>
    rw [plan, offer_skipped kBump heap (skipped record (by simp)),
      ih fun other member => skipped other (List.mem_cons_of_mem _ member)]
    rfl

theorem offer_astray (heap : BumpHeap) {record : BarRecord} (asks : ¬ (¬ record.isValid ∨ record.barSize = 0)) :
    (offer (asSeen fun heap size align => (bumpAllocAligned heap size align).ptr + 1) heap record).1 ≠
      (offer bumpAllocAligned heap record).1 := by
  unfold offer
  rw [if_neg asks, if_neg asks]
  generalize reserved : (bumpAllocAligned heap record.barSize record.barSize).ptr = ptr
  have seen : (asSeen (fun heap size align => (bumpAllocAligned heap size align).ptr + 1) heap
      record.barSize record.barSize).ptr = ptr + 1 := by
    rw [← reserved]
    rfl
  dsimp only
  rw [seen, reserved]
  have next : ptr + 1 ≠ ptr := by bv_omega
  by_cases null : ptr = 0
  · rw [if_pos null, null]
    decide
  · rw [if_neg null]
    split
    · exact (Option.some_ne_none ptr).symm
    · exact fun same => next (Option.some.inj same)

/-- The offers of a table of registers are the reserved ranges, whatever stands in place of the missing values,
exactly if no register of the table asks for room. -/
theorem plan_reserved_iff (heap : BumpHeap) (all : List BarRecord) :
    (∀ left, (plan (asSeen left) heap all).1 = (plan bumpAllocAligned heap all).1) ↔
      ∀ record ∈ all, ¬ record.isValid ∨ record.barSize = 0 := by
  constructor
  · intro same
    induction all generalizing heap with
    | nil => simp
    | cons record rest ih =>
      have heads (left) := (List.cons.inj (same left)).1
      have skipped : ¬ record.isValid ∨ record.barSize = 0 := by
        by_contra asks
        exact offer_astray heap asks (heads _)
      have tails : ∀ left, (plan (asSeen left) heap rest).1 = (plan bumpAllocAligned heap rest).1 := by
        intro left
        have tail := (List.cons.inj (same left)).2
        rwa [offer_skipped _ heap skipped, offer_skipped _ heap skipped] at tail
      exact List.forall_mem_cons.mpr ⟨skipped, ih heap tails⟩
  · intro skipped left
    rw [plan_skipped skipped, plan_skipped skipped]

end

/-- For every heap and every run, each caller receives what its call reserved exactly if the run makes no
`k_bump_alloc_aligned` call; and the driver's registers are offered their reserved ranges, whatever it finds in
place of the values, exactly if none of them asks for room. -/
theorem reserved_delivered_iff (heap : BumpHeap) (requests : List Request) (all : List BarRecord) :
    (Delivered heap requests ↔ ∀ request ∈ requests, ∃ size, request = .bumpAlloc size) ∧
    ((∀ left, (plan (asSeen left) heap all).1 = (plan bumpAllocAligned heap all).1) ↔
      ∀ record ∈ all, ¬ record.isValid ∨ record.barSize = 0) :=
  ⟨delivered_iff, plan_reserved_iff heap all⟩

/-- A page is reserved at the start of the heap, and the caller is not told. -/
theorem reserved_page_not_delivered :
    (bumpAllocAligned ⟨0x80000000, 0x80000000, 0x10000000⟩ 0x1000 0x1000).ptr = 0x80000000 ∧
      ¬ Delivered ⟨0x80000000, 0x80000000, 0x10000000⟩ [.bumpAllocAligned 0x1000 0x1000] := by
  refine ⟨by decide, fun delivered => ?_⟩
  have received := delivered _ (List.mem_singleton.mpr rfl)
  simp [kCall, kBumpAllocAligned] at received

end Ketone.Pcie.OfferedAddresses
