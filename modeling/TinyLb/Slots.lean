import Mathlib.Logic.Basic

/-! A resource with a shared counter that is read first and increased later. A party
reserves the resource when it has found room, and holds it from the moment it has
increased the counter; between the two its reservation is not counted. -/

namespace TinyLb.Slots

structure Slot where
  counter : UInt64
  held : Nat
  reserved : Nat
  cap : UInt64
  shut : Bool
  deriving DecidableEq, Repr

inductive Step (before after : Slot) : Prop
  | keep (next : after = before)
  | reserve (isOpen : before.shut = false) (room : before.counter < before.cap)
      (next : after = { before with reserved := before.reserved + 1 })
  | acquire (pending : 0 < before.reserved) (few : before.held + 1 < UInt64.size)
      (next : after = { before with
        counter := before.counter + 1, held := before.held + 1, reserved := before.reserved - 1 })
  | abandon (pending : 0 < before.reserved)
      (next : after = { before with reserved := before.reserved - 1 })
  | release (live : 0 < before.held)
      (next : after = { before with counter := before.counter - 1, held := before.held - 1 })
  | retune (cap : UInt64) (shut : Bool) (next : after = { before with cap := cap, shut := shut })

def Balanced (slot : Slot) : Prop := slot.counter.toNat = slot.held

theorem toNat_add_one {n : UInt64} (few : n.toNat + 1 < UInt64.size) : (n + 1).toNat = n.toNat + 1 := by
  rw [UInt64.toNat_add, UInt64.toNat_one, Nat.mod_eq_of_lt few]

theorem toNat_sub_one {n : UInt64} (positive : 0 < n.toNat) : (n - 1).toNat = n.toNat - 1 := by
  have one : 1 ≤ n := by
    rw [UInt64.le_iff_toNat_le, UInt64.toNat_one]
    exact positive
  rw [UInt64.toNat_sub_of_le _ _ one, UInt64.toNat_one]

/-- The counter is exact: it never wraps, in either direction. -/
theorem Step.balanced {before after : Slot} (taken : Step before after)
    (balanced : Balanced before) : Balanced after := by
  unfold Balanced at balanced ⊢
  cases taken with
  | keep next => rw [next, balanced]
  | reserve isOpen room next => rw [next, balanced]
  | acquire pending few next => rw [next, toNat_add_one (by omega), balanced]
  | abandon pending next => rw [next, balanced]
  | release live next => rw [next, toNat_sub_one (by omega), balanced]
  | retune cap shut next => rw [next, balanced]

/-- Reservations are within the cap as well. -/
def Within (slot : Slot) : Prop := slot.held + slot.reserved ≤ slot.cap.toNat

/-- Reserving only while the reservations leave room, and never moving the cap of a
resource that is in use, keeps everything within the cap. -/
theorem Step.within {before after : Slot} (taken : Step before after)
    (fixed : after.cap = before.cap ∨ before.held = 0 ∧ before.reserved = 0)
    (admitted : before.reserved < after.reserved → before.held + before.reserved < before.cap.toNat)
    (within : Within before) : Within after := by
  unfold Within at within ⊢
  cases taken with
  | keep next => rw [next]; exact within
  | reserve isOpen room next =>
    subst next
    have admitted : before.held + before.reserved < before.cap.toNat := admitted (Nat.lt_succ_self _)
    exact admitted
  | acquire pending few next => subst next; dsimp only; omega
  | abandon pending next => subst next; dsimp only; omega
  | release live next => subst next; dsimp only; omega
  | retune cap shut next =>
    subst next
    rcases fixed with same | ⟨idle, free⟩
    · dsimp only at same ⊢
      rw [same]
      exact within
    · dsimp only
      omega

theorem Step.committed {before after : Slot} (taken : Step before after) :
    after.held + after.reserved ≤ before.held + before.reserved ∨
      after.held = before.held ∧ before.reserved < after.reserved := by
  cases taken with
  | keep next => exact Or.inl (next ▸ Nat.le_refl _)
  | reserve isOpen room next => exact Or.inr (next ▸ ⟨rfl, Nat.lt_succ_self _⟩)
  | acquire pending few next => subst next; dsimp only; omega
  | abandon pending next => subst next; dsimp only; omega
  | release live next => subst next; dsimp only; omega
  | retune cap shut next => exact Or.inl (next ▸ Nat.le_refl _)

structure Quiet (slot : Slot) : Prop where
  shut : slot.shut = true
  idle : slot.held = 0
  free : slot.reserved = 0

theorem Step.quiet {before after : Slot} (taken : Step before after) (stays : after.shut = true)
    (quiet : Quiet before) : Quiet after := by
  obtain ⟨shut, idle, free⟩ := quiet
  cases taken with
  | keep next => exact next ▸ ⟨shut, idle, free⟩
  | reserve isOpen room next =>
    rw [shut] at isOpen
    cases isOpen
  | acquire pending few next => omega
  | abandon pending next => omega
  | release live next => omega
  | retune cap shut next =>
    subst next
    exact ⟨stays, idle, free⟩

end TinyLb.Slots
