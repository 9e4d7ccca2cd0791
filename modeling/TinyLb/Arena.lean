import Mathlib.Data.List.Basic

/-! Shared mutable objects. An arena holds every object ever allocated, at the
index it was given; an index is a shared pointer. Objects are mutated in place
and never move, so two holders of one index see each other's writes. -/

namespace TinyLb

universe u v

structure Arena (α : Type u) where
  cells : List α
  deriving DecidableEq, Repr

namespace Arena
variable {α : Type u} {β : Type v}

def empty : Arena α := ⟨[]⟩

def size (a : Arena α) : Nat := a.cells.length

def get [Inhabited α] (a : Arena α) (i : Nat) : α := a.cells.getD i default

def alloc (a : Arena α) (x : α) : Arena α := ⟨a.cells ++ [x]⟩

def modify (a : Arena α) (i : Nat) (f : α → α) : Arena α := ⟨a.cells.modify i f⟩

@[simp] theorem size_alloc (a : Arena α) (x : α) : (a.alloc x).size = a.size + 1 := by
  simp [alloc, size]

@[simp] theorem size_modify (a : Arena α) (i : Nat) (f : α → α) :
    (a.modify i f).size = a.size := by
  simp [modify, size]

variable [Inhabited α]

theorem get_of_size_le (a : Arena α) {i : Nat} (outside : a.size ≤ i) : a.get i = default := by
  rw [get, List.getD_eq_getElem?_getD, List.getElem?_eq_none outside]
  rfl

@[simp] theorem get_alloc_self (a : Arena α) (x : α) : (a.alloc x).get a.size = x := by
  simp [get, alloc, size]

theorem get_alloc_of_ne (a : Arena α) (x : α) {i : Nat} (old : i ≠ a.size) :
    (a.alloc x).get i = a.get i := by
  simp only [get, alloc, List.getD_eq_getElem?_getD]
  rcases Nat.lt_or_gt_of_ne old with inside | beyond
  · rw [List.getElem?_append_left inside]
  · rw [List.getElem?_eq_none (by simpa [size] using Nat.succ_le_of_lt beyond),
      List.getElem?_eq_none (Nat.le_of_lt beyond)]

theorem get_alloc_of_lt (a : Arena α) (x : α) {i : Nat} (old : i < a.size) :
    (a.alloc x).get i = a.get i :=
  get_alloc_of_ne a x (Nat.ne_of_lt old)

theorem get_modify_self (a : Arena α) (f : α → α) {i : Nat} (inside : i < a.size) :
    (a.modify i f).get i = f (a.get i) := by
  have bound : i < a.cells.length := inside
  simp [get, modify, List.getD_eq_getElem?_getD, List.getElem?_eq_getElem bound]

theorem get_modify_of_ne (a : Arena α) (f : α → α) {i j : Nat} (other : i ≠ j) :
    (a.modify i f).get j = a.get j := by
  simp [get, modify, List.getD_eq_getElem?_getD, other]

theorem get_modify_field (field : α → β) (a : Arena α) {f : α → α}
    (kept : ∀ x, field (f x) = field x) (i j : Nat) :
    field ((a.modify i f).get j) = field (a.get j) := by
  by_cases same : i = j
  · subst same
    by_cases inside : i < a.size
    · rw [get_modify_self a f inside, kept]
    · rw [get_of_size_le a (Nat.le_of_not_lt inside),
        get_of_size_le _ (by simpa using Nat.le_of_not_lt inside)]
  · rw [get_modify_of_ne a f same]

theorem modify_congr (a : Arena α) {f g : α → α} {i : Nat} (same : f (a.get i) = g (a.get i)) :
    a.modify i f = a.modify i g := by
  refine congrArg Arena.mk (List.ext_getElem? fun j => ?_)
  rw [List.getElem?_modify, List.getElem?_modify]
  by_cases here : i = j
  · subst here
    rw [get, List.getD_eq_getElem?_getD] at same
    cases found : a.cells[i]? with
    | none => rfl
    | some x =>
      rw [found] at same
      simpa using same
  · simp only [if_neg here]

end Arena

end TinyLb
