import TinyLb.Tally
import Mathlib.Logic.Function.Basic

/-! Jobs that go one at a time to a least loaded server among those with room. Loads stay even up to
one job and up to servers that are full. -/

namespace TinyLb.Greedy
open Tally

universe u
variable {ι : Type u} [DecidableEq ι] {servers : List ι} {cap load : ι → Nat} {i : ι}

structure Chosen (servers : List ι) (cap load : ι → Nat) (i : ι) : Prop where
  member : i ∈ servers
  room : load i < cap i
  least : ∀ j ∈ servers, load j < cap j → load i ≤ load j

structure Balanced (servers : List ι) (cap load : ι → Nat) : Prop where
  even : ∀ i ∈ servers, ∀ j ∈ servers, load i ≤ load j + 1 ∨ load j = cap j
  within : ∀ i ∈ servers, load i ≤ cap i

def assign (load : ι → Nat) (i : ι) : ι → Nat := Function.update load i (load i + 1)

theorem assign_self (load : ι → Nat) (i : ι) : assign load i i = load i + 1 := Function.update_self ..

theorem assign_of_ne {j : ι} (apart : j ≠ i) (load : ι → Nat) : assign load i j = load j :=
  Function.update_of_ne apart ..

omit [DecidableEq ι] in
theorem balanced_idle (cap : ι → Nat) {load : ι → Nat} (idle : ∀ i ∈ servers, load i = 0) :
    Balanced servers cap load where
  even i member j _ := Or.inl (by rw [idle i member]; exact Nat.zero_le _)
  within i member := by rw [idle i member]; exact Nat.zero_le _

theorem Chosen.balanced (chosen : Chosen servers cap load i) (balanced : Balanced servers cap load) :
    Balanced servers cap (assign load i) := by
  refine ⟨fun a here b there => ?_, fun a here => ?_⟩
  · by_cases left : a = i
    · subst left
      by_cases right : b = a
      · subst right
        exact Or.inl (Nat.le_succ _)
      · rw [assign_self, assign_of_ne right]
        -- another server has room and then at least as many jobs, or is full
        by_cases room : load b < cap b
        · exact Or.inl (Nat.succ_le_succ (chosen.least b there room))
        · exact Or.inr (Nat.le_antisymm (balanced.within b there) (Nat.le_of_not_lt room))
    · rw [assign_of_ne left]
      by_cases right : b = i
      · subst right
        rw [assign_self]
        rcases balanced.even a here b there with close | full
        · exact Or.inl (Nat.le_succ_of_le close)
        · exact absurd full (Nat.ne_of_lt chosen.room)
      · rw [assign_of_ne right]
        exact balanced.even a here b there
  · by_cases same : a = i
    · subst same
      rw [assign_self]
      exact chosen.room
    · rw [assign_of_ne same]
      exact balanced.within a here

theorem total_assign (distinct : servers.Nodup) (member : i ∈ servers) (load : ι → Nat) :
    total (assign load i) servers = total load servers + 1 := by
  induction servers with
  | nil => cases member
  | cons x rest ih =>
    obtain ⟨fresh, later⟩ := List.nodup_cons.mp distinct
    rw [total_cons, total_cons]
    rcases List.mem_cons.mp member with rfl | there
    · have others : total (assign load i) rest = total load rest := by
        refine total_congr fun j inside => assign_of_ne (fun same => fresh ?_) load
        exact same ▸ inside
      rw [assign_self, others]
      omega
    · have apart : x ≠ i := fun same => fresh (same ▸ there)
      rw [assign_of_ne apart, ih later there]
      omega

omit [DecidableEq ι] in
theorem Balanced.full_iff (balanced : Balanced servers cap load) :
    (∀ i ∈ servers, load i = cap i) ↔ total cap servers ≤ total load servers := by
  have within := balanced.within
  clear balanced
  induction servers with
  | nil => simp
  | cons x rest ih =>
    obtain ⟨head, tail⟩ := List.forall_mem_cons.mp within
    have below := total_le tail
    rw [List.forall_mem_cons, total_cons, total_cons]
    constructor
    · rintro ⟨first, others⟩
      have rest := (ih tail).mp others
      omega
    · intro enough
      exact ⟨by omega, (ih tail).mpr (by omega)⟩

end TinyLb.Greedy
