import Mathlib.Logic.Function.Basic
import Mathlib.Data.List.Basic

/-! A directory of files, with the operations that move whole files. A chain of renames along a
sequence of names shifts every file by one. -/

namespace TinyLb.Files

universe u v
variable {π : Type u} {β : Type v} [DecidableEq π]

def Directory (π : Type u) (β : Type v) : Type (max u v) := π → Option (List β)

def Directory.empty : Directory π β := fun _ => none

def set (path : π) (content : Option (List β)) (files : Directory π β) : Directory π β :=
  fun other => if other = path then content else files other

def remove (path : π) (files : Directory π β) : Directory π β := set path none files

/-- The file replaces what is at its new name; renaming a missing file does nothing. -/
def rename (src dst : π) (files : Directory π β) : Directory π β :=
  match files src with
  | none => files
  | some content => set dst (some content) (set src none files)

def create (path : π) (files : Directory π β) : Directory π β := set path (some ((files path).getD [])) files

def append (path : π) (more : List β) (files : Directory π β) : Directory π β :=
  set path ((files path).map (· ++ more)) files

/-- An operation that may fail; it changes nothing then. -/
def attempt (fails : Bool) (operation : Directory π β → Directory π β) (files : Directory π β) : Directory π β :=
  if fails then files else operation files

omit [DecidableEq π] in
@[simp] theorem attempt_false (operation : Directory π β → Directory π β) (files : Directory π β) :
    attempt false operation files = operation files := rfl

variable {files : Directory π β} {path other src dst : π}

@[simp] theorem set_self (content : Option (List β)) : set path content files path = content :=
  if_pos rfl

theorem set_of_ne (content : Option (List β)) (apart : other ≠ path) :
    set path content files other = files other :=
  if_neg apart

theorem rename_missing (missing : files src = none) : rename src dst files = files := by
  rw [rename, missing]

theorem rename_here {content : List β} (here : files src = some content) :
    rename src dst files = set dst (some content) (set src none files) := by
  rw [rename, here]

theorem rename_source (apart : src ≠ dst) : rename src dst files src = none := by
  cases here : files src with
  | none => rw [rename_missing here, here]
  | some content => rw [rename_here here, set_of_ne _ apart, set_self]

theorem rename_other (notSource : other ≠ src) (notTarget : other ≠ dst) :
    rename src dst files other = files other := by
  cases here : files src with
  | none => rw [rename_missing here]
  | some content => rw [rename_here here, set_of_ne _ notTarget, set_of_ne _ notSource]

/-- Renames the files `n - 1`, …, `0` of a sequence of names to the next name, in this order. -/
def shift (name : Nat → π) : Nat → Directory π β → Directory π β
  | 0, files => files
  | n + 1, files => shift name n (rename (name n) (name (n + 1)) files)

section Shift
variable {name : Nat → π}

/-- The same renames where some of them fail. -/
def shiftSome (fails : Nat → Bool) (name : Nat → π) : Nat → Directory π β → Directory π β
  | 0, files => files
  | n + 1, files =>
      shiftSome fails name n (attempt (fails n) (rename (name n) (name (n + 1))) files)

/-- The `n`-th file exists and its rename succeeds. -/
def Moves (fails : Nat → Bool) (name : Nat → π) (files : Directory π β) (n : Nat) : Prop :=
  files (name n) ≠ none ∧ fails n = false

omit [DecidableEq π] in
theorem moves_congr {fails : Nat → Bool} {files other : Directory π β} {n : Nat}
    (same : files (name n) = other (name n)) : Moves fails name files n ↔ Moves fails name other n := by
  rw [Moves, Moves, same]

section Attempt
variable (fails : Nat → Bool) (files : Directory π β) (n : Nat)

theorem attempt_target_moved (moves : Moves fails name files n) :
    attempt (fails n) (rename (name n) (name (n + 1))) files (name (n + 1)) = files (name n) := by
  obtain ⟨content, here⟩ := Option.ne_none_iff_exists'.mp moves.1
  rw [moves.2, attempt_false, rename_here here, set_self, here]

theorem attempt_source_moved (apart : Function.Injective name) (moves : Moves fails name files n) :
    attempt (fails n) (rename (name n) (name (n + 1))) files (name n) = none := by
  rw [moves.2, attempt_false]
  exact rename_source (apart.ne (Nat.ne_of_lt (Nat.lt_succ_self n)))

theorem attempt_stuck (stuck : ¬Moves fails name files n) :
    attempt (fails n) (rename (name n) (name (n + 1))) files = files := by
  unfold attempt
  split
  next => rfl
  next succeeds =>
    apply rename_missing
    by_contra here
    exact stuck ⟨here, Bool.eq_false_iff.mpr succeeds⟩

theorem attempt_other {path : π} (notSource : path ≠ name n) (notTarget : path ≠ name (n + 1)) :
    attempt (fails n) (rename (name n) (name (n + 1))) files path = files path := by
  unfold attempt
  split
  next => rfl
  next => exact rename_other notSource notTarget

end Attempt

theorem shiftSome_above (fails : Nat → Bool) (n : Nat) {path : π} (above : ∀ i ≤ n, path ≠ name i)
    (files : Directory π β) : shiftSome fails name n files path = files path := by
  induction n generalizing files with
  | zero => rfl
  | succ n ih =>
    rw [shiftSome, ih fun i le => above i (Nat.le_succ_of_le le)]
    exact attempt_other _ _ _ (above n (Nat.le_succ n)) (above (n + 1) (Nat.le_refl _))

open Classical in
theorem shiftSome_spec (apart : Function.Injective name) (fails : Nat → Bool) (n : Nat)
    (files : Directory π β) (k : Nat) (le : k ≤ n) :
    shiftSome fails name n files (name k) =
      if 0 < k ∧ Moves fails name files (k - 1) then files (name (k - 1))
      else if k < n ∧ Moves fails name files k then none
      else files (name k) := by
  induction n generalizing files with
  | zero =>
    obtain rfl := Nat.le_zero.mp le
    rw [if_neg fun both => Nat.lt_irrefl _ both.1, if_neg fun both => Nat.lt_irrefl _ both.1]
    rfl
  | succ n ih =>
    rw [shiftSome]
    -- the first rename touches the last two files only
    have below : ∀ i < n,
        attempt (fails n) (rename (name n) (name (n + 1))) files (name i) = files (name i) :=
      fun i small => attempt_other _ _ _ (apart.ne (by omega)) (apart.ne (by omega))
    rcases Nat.lt_or_ge n k with top | within
    · obtain rfl : k = n + 1 := by omega
      rw [shiftSome_above fails n fun i small => apart.ne (by omega)]
      rw [if_neg fun both : n + 1 < n + 1 ∧ _ => Nat.lt_irrefl _ both.1, Nat.add_sub_cancel]
      by_cases moves : Moves fails name files n
      · rw [if_pos ⟨Nat.succ_pos n, moves⟩, attempt_target_moved fails files n moves]
      · rw [if_neg fun both => moves both.2, attempt_stuck fails files n moves]
    · rw [ih _ within]
      have before : 0 < k → (Moves fails name
          (attempt (fails n) (rename (name n) (name (n + 1))) files) (k - 1) ↔
            Moves fails name files (k - 1)) :=
        fun positive => moves_congr (below (k - 1) (by omega))
      by_cases comes : 0 < k ∧ Moves fails name files (k - 1)
      · rw [if_pos ⟨comes.1, (before comes.1).mpr comes.2⟩, if_pos comes, below (k - 1) (by omega)]
      · rw [if_neg fun both => comes ⟨both.1, (before both.1).mp both.2⟩, if_neg comes]
        rcases Nat.lt_or_ge k n with small | last
        · have same := @moves_congr _ _ name fails _ _ k (below k small)
          by_cases goes : Moves fails name files k
          · rw [if_pos ⟨small, same.mpr goes⟩, if_pos ⟨by omega, goes⟩]
          · rw [if_neg fun both => goes (same.mp both.2), if_neg fun both => goes both.2, below k small]
        · obtain rfl : k = n := by omega
          rw [if_neg fun both => Nat.lt_irrefl _ both.1]
          by_cases goes : Moves fails name files k
          · rw [if_pos ⟨Nat.lt_succ_self k, goes⟩, attempt_source_moved fails files k apart goes]
          · rw [if_neg fun both => goes both.2, attempt_stuck fails files k goes]

theorem shift_eq_shiftSome (n : Nat) (files : Directory π β) :
    shift name n files = shiftSome (fun _ => false) name n files := by
  induction n generalizing files with
  | zero => rfl
  | succ n ih => exact ih _

theorem shift_above (n : Nat) {path : π} (above : ∀ i ≤ n, path ≠ name i) (files : Directory π β) :
    shift name n files path = files path := by
  rw [shift_eq_shiftSome]
  exact shiftSome_above _ n above files

theorem shift_spec (apart : Function.Injective name) (n : Nat) {files : Directory π β}
    (vacant : files (name n) = none) :
    shift name n files (name 0) = none ∧
      ∀ i < n, shift name n files (name (i + 1)) = files (name i) := by
  classical
  -- a file that is not replaced has moved, if there was one
  have left : ∀ k ≤ n, (if k < n ∧ Moves (fun _ => false) name files k then none
      else files (name k)) = none := by
    intro k le
    by_cases here : files (name k) = none
    · rw [here, ite_self]
    · have small : k ≠ n := fun same => here (same ▸ vacant)
      exact if_pos ⟨by omega, here, rfl⟩
  rw [shift_eq_shiftSome]
  constructor
  · rw [shiftSome_spec apart _ n files 0 (Nat.zero_le n), if_neg fun both => Nat.lt_irrefl 0 both.1]
    exact left 0 (Nat.zero_le n)
  · intro i small
    rw [shiftSome_spec apart _ n files (i + 1) small, Nat.add_sub_cancel]
    by_cases here : files (name i) = none
    · rw [if_neg fun both => both.2.1 here, here]
      exact left (i + 1) small
    · exact if_pos ⟨Nat.succ_pos i, here, rfl⟩

end Shift

end TinyLb.Files
