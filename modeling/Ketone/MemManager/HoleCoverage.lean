import Ketone.MemManager.InputMap

/-! Whether the hole stays clear of the memory the firmware reported. The search
reads the rewritten map, which may have lost the end of the chosen entry. -/

namespace Ketone.MemManager.HoleCoverage
open Library.Gap Acpi.Mcfg E820 MmioHole Manager Layout InputMap

/-- The hole meets no range of the map as it was before the set-up. -/
def Uncovered (boot : Boot) (layout : Layout) : Prop :=
  ∀ e ∈ boot.map.entries, Span.Apart (hole layout) e.span

/-- The map has a free slot, or what lies behind the root heap in its entry is no part of the largest gap between
the ranges that are known to be taken. -/
def RestKept (boot : Boot) : Prop :=
  boot.map.entries.length < E820_MAX_ENTRIES ∨ ∀ before chosen behind, RootEntry boot before chosen behind →
    Shadowed (2 ^ 32) (takenRanges boot before chosen behind) ⟨rootStop boot chosen, chosen.span.hi⟩

theorem apart_join {gap : Span} {low middle high : Nat} (nonempty : gap.lo < gap.hi) (le : low < middle)
    (first : Span.Apart gap ⟨low, middle⟩) (second : Span.Apart gap ⟨middle, high⟩) :
    Span.Apart gap ⟨low, high⟩ := by
  rw [Span.apart_iff] at first second ⊢
  dsimp only at first second ⊢
  omega

/-- For every map without wrapping entries, the hole of a completed set-up is clear of the
original map exactly when the end of the chosen entry was kept or lies outside the largest gap. -/
theorem hole_uncovered_iff (boot : Boot) (straight : ∀ e ∈ boot.map.entries, e.NoWrap) (layout : Layout)
    (done : memManagerInit boot = .ok layout) : Uncovered boot layout ↔ RestKept boot := by
  obtain ⟨place, copy, record, region, gap, completed⟩ := memManagerInit_ok done
  have noWrap := straight place.chosen ((mem_map place).mpr (Or.inr rfl))
  have inside := root_inside noWrap completed.nonnull completed.mapped
  have largest := hole_largest completed.holeFound
  have same := hole_eq completed
  have ranges := holeRanges_reserved noWrap completed.nonnull completed.mapped
  have stop := toNat_heapEnd noWrap completed.nonnull completed.mapped
  have listed : ∀ e ∈ (boot.reserved place).entries, Span.Apart gap e.span := fun e member =>
    hole_apart_entry completed.holeFound member (reserved_noWrap straight inside member)
  have table := inside.table
  have data := inside.data
  have low := inside.low
  have first : place.chosen.span.lo = place.chosen.base.toNat := rfl
  have last : place.chosen.span.hi = place.chosen.base.toNat + place.chosen.length.toNat := rfl
  unfold Uncovered
  rw [same]
  constructor
  · intro clear
    refine Or.inr fun before chosen behind entry => ?_
    obtain ⟨rfl, rfl, rfl⟩ := rootEntry_unique (rootEntry_of place) entry
    rw [← ranges, ← stop]
    apply (largest.apart_iff_shadowed _).mp
    exact (clear place.chosen ((mem_map place).mpr (Or.inr rfl))).mono le_rfl le_rfl (by dsimp only; omega) le_rfl
  · intro kept e member
    rcases (mem_map place).mp member with other | rfl
    · exact listed e ((mem_reserved noWrap).mpr (Or.inl other))
    · have cutClear := listed _ ((mem_reserved noWrap).mpr (Or.inr (Or.inl rfl)))
      rw [cut_span inside] at cutClear
      refine apart_join largest.free.nonempty (by omega) cutClear ?_
      rcases kept with slot | shadowed
      · by_cases some : (heapEnd place.start boot).toNat < place.chosen.span.hi
        · have restClear := listed _ ((mem_reserved noWrap).mpr (Or.inr (Or.inr ⟨rfl, slot, some⟩)))
          rwa [rest_span noWrap inside] at restClear
        · rw [Span.apart_iff]
          dsimp only
          omega
      · have kept := shadowed _ _ _ (rootEntry_of place)
        rw [← ranges, ← stop] at kept
        exact (largest.apart_iff_shadowed _).mpr kept

def emptyMcfg : Table := fun k => if k = 4 then 44 else 0

def fullMap : E820Map where
  entries := ⟨0x1000, 0x9E000, 1, 1⟩ :: ⟨0x100000, 0x7FF00000, 1, 1⟩ ::
    (List.range 62).map fun i => ⟨0x100000000 + BitVec.ofNat 64 (0x1000 * i), 0x1000, 2, 1⟩
  count_le := by decide

def fullBoot : Boot :=
  ⟨fullMap, 0x10000, 64, 0x10000, emptyMcfg, fun _ => .cleared, fun _ => .cleared⟩

/-- With a full map the hole starts right behind the root heap, inside the memory reported. -/
theorem hole_covers_memory_of_full_map : ∃ layout, memManagerInit fullBoot = .ok layout ∧
    fullMap.entries.Pairwise (fun a b => Span.Apart a.span b.span) ∧
    (∀ e ∈ fullMap.entries, e.NoWrap) ∧ ¬ Uncovered fullBoot layout := by
  refine ⟨_, rfl, by decide +kernel, by decide +kernel, fun clear => ?_⟩
  have meets := clear ⟨0x100000, 0x7FF00000, 1, 1⟩ (List.mem_cons_of_mem _ (List.mem_cons_self ..))
  revert meets
  decide +kernel

def shortBoot : Boot :=
  { fullBoot with map := ⟨[⟨0x1000, 0x9E000, 1, 1⟩, ⟨0x100000, 0x7FF00000, 1, 1⟩], by decide⟩ }

theorem hole_uncovered_short_map : ∃ layout, memManagerInit shortBoot = .ok layout ∧
    Uncovered shortBoot layout :=
  ⟨_, rfl, (hole_uncovered_iff shortBoot (by decide) _ rfl).mpr (Or.inl (by decide))⟩

end Ketone.MemManager.HoleCoverage
