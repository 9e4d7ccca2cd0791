import Mathlib.Data.List.Nodup
import Mathlib.Data.List.Perm.Subperm

/-! Events that keep a distance in time: how many of them an interval can hold. -/

namespace TinyLb.Spacing

variable {width low high : Nat} {times : List Nat}

def Apart (width first second : Nat) : Prop := first + width ≤ second ∨ second + width ≤ first

theorem Apart.symm {first second : Nat} (apart : Apart width first second) :
    Apart width second first := Or.symm apart

/-- Events that are apart lie in different pieces of the time line, cut at every `width`. -/
theorem Apart.piece_ne {first second : Nat} (apart : Apart width first second) (positive : 0 < width) :
    first / width ≠ second / width := by
  intro same
  have below := Nat.lt_mul_div_succ first positive
  have beneath := Nat.lt_mul_div_succ second positive
  have floor := Nat.mul_div_le first width
  have ground := Nat.mul_div_le second width
  rw [← same] at beneath ground
  rw [Nat.mul_succ] at below beneath
  unfold Apart at apart
  omega

theorem length_le_of_apart (apart : times.Pairwise (Apart width)) (positive : 0 < width)
    (within : ∀ time ∈ times, low ≤ time ∧ time ≤ high) :
    times.length ≤ (high - low) / width + 1 := by
  let pieces := times.map fun time => (time - low) / width
  have distinct : pieces.Nodup := by
    apply List.pairwise_map.mpr
    apply apart.imp_of_mem
    intro first second here there between
    obtain ⟨after, -⟩ := within first here
    obtain ⟨later, -⟩ := within second there
    have shifted : Apart width (first - low) (second - low) := by
      unfold Apart at between ⊢
      omega
    exact shifted.piece_ne positive
  have bounded : pieces ⊆ List.range ((high - low) / width + 1) := by
    intro piece member
    obtain ⟨time, here, rfl⟩ := List.mem_map.mp member
    obtain ⟨-, before⟩ := within time here
    have below : (time - low) / width ≤ (high - low) / width :=
      Nat.div_le_div_right (Nat.sub_le_sub_right before low)
    exact List.mem_range.mpr (Nat.lt_succ_of_le below)
  calc times.length = pieces.length := (List.length_map ..).symm
    _ ≤ (List.range ((high - low) / width + 1)).length := (distinct.subperm bounded).length_le
    _ = (high - low) / width + 1 := List.length_range

end TinyLb.Spacing
