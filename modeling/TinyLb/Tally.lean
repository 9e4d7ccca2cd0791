import Mathlib.Algebra.BigOperators.Group.List.Basic
import Mathlib.Algebra.GroupWithZero.Nat

/-! Sums over the parties of a system. A ledger compares what all parties have done with a
shared counter, and a step of one party changes one entry of the list. -/

namespace TinyLb.Tally

universe u
variable {α β : Type u} {f g : α → Nat}

def total (f : α → Nat) (l : List α) : Nat := (l.map f).sum

@[simp] theorem total_nil : total f [] = 0 := rfl

@[simp] theorem total_cons (x : α) (rest : List α) : total f (x :: rest) = f x + total f rest := by
  rw [total, total, List.map_cons, List.sum_cons]

@[simp] theorem total_append (first second : List α) :
    total f (first ++ second) = total f first + total f second := by
  rw [total, total, total, List.map_append, List.sum_append]

theorem total_singleton (x : α) : total f [x] = f x := by rw [total_cons, total_nil, Nat.add_zero]

theorem total_congr {l : List α} (same : ∀ x ∈ l, f x = g x) : total f l = total g l := by
  rw [total, total, List.map_congr_left same]

theorem total_eq_zero {l : List α} (zero : ∀ x ∈ l, f x = 0) : total f l = 0 := by
  induction l with
  | nil => rfl
  | cons x rest ih =>
    obtain ⟨head, tail⟩ := List.forall_mem_cons.mp zero
    rw [total_cons, head, ih tail]

theorem total_pos_iff {l : List α} : 0 < total f l ↔ ∃ x ∈ l, 0 < f x := by
  induction l with
  | nil => simp
  | cons x rest ih => rw [total_cons, Nat.add_pos_iff_pos_or_pos, ih, List.exists_mem_cons_iff]

theorem total_le_length {l : List α} (small : ∀ x, f x ≤ 1) : total f l ≤ l.length := by
  induction l with
  | nil => exact Nat.le_refl _
  | cons x rest ih =>
    have one := small x
    rw [total_cons, List.length_cons]
    omega

theorem total_le {l : List α} (below : ∀ x ∈ l, f x ≤ g x) : total f l ≤ total g l := by
  induction l with
  | nil => exact Nat.le_refl _
  | cons x rest ih =>
    obtain ⟨head, tail⟩ := List.forall_mem_cons.mp below
    exact Nat.add_le_add head (ih tail)

theorem total_add (l : List α) : total (fun x => f x + g x) l = total f l + total g l := by
  induction l with
  | nil => rfl
  | cons x rest ih =>
    rw [total_cons, total_cons, total_cons, ih]
    omega

theorem total_map (h : β → α) (l : List β) : total f (l.map h) = total (fun x => f (h x)) l := by
  rw [total, List.map_map, total]
  rfl

theorem total_filter (p : α → Bool) (l : List α) :
    total f (l.filter p) = total (fun x => if p x then f x else 0) l := by
  induction l with
  | nil => rfl
  | cons x rest ih =>
    rw [total_cons, ← ih]
    by_cases kept : p x
    · rw [List.filter_cons_of_pos kept, total_cons, if_pos kept]
    · rw [List.filter_cons_of_neg kept, if_neg kept, Nat.zero_add]

theorem total_comm (f : α → β → Nat) (l : List α) (m : List β) :
    total (fun x => total (f x) m) l = total (fun y => total (fun x => f x y) l) m := by
  induction l with
  | nil => exact (total_eq_zero fun _ _ => rfl).symm
  | cons x rest ih =>
    rw [total_cons, ih, ← total_add]
    rfl

theorem total_single [DecidableEq α] {keys : List α} (distinct : keys.Nodup) (key : α) (n : Nat) :
    total (fun k => if key = k then n else 0) keys = if key ∈ keys then n else 0 := by
  induction keys with
  | nil => rfl
  | cons k rest ih =>
    obtain ⟨fresh, later⟩ := List.nodup_cons.mp distinct
    rw [total_cons, ih later]
    by_cases same : key = k
    · subst same
      rw [if_pos rfl, if_neg fresh, if_pos (List.mem_cons_self ..), Nat.add_zero]
    · rw [if_neg same, Nat.zero_add]
      simp [same]

theorem total_set {l : List α} {i : Nat} {x : α} (here : l[i]? = some x) (y : α) :
    total f (l.set i y) + f x = total f l + f y := by
  induction l generalizing i with
  | nil => cases here
  | cons z rest ih =>
    cases i with
    | zero =>
      cases here
      rw [List.set_cons_zero, total_cons, total_cons]
      omega
    | succ i =>
      have tail := ih here
      rw [List.set_cons_succ, total_cons, total_cons]
      omega

end TinyLb.Tally
