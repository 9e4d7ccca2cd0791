import TinyLb.Balancing
import Mathlib.Data.List.MinMax

/-! `select_backend` on one snapshot of a group: the first backend with the fewest connections of
those that have room. -/

namespace TinyLb.Selection
open Backends Balancing

/-- The backends of the group a request may go to, in the order of the list. -/
def candidates (reg : BackendRegistry) (g : GroupId) : List BackendId :=
  (reg.group g).backends.filter (fits reg.backendAt)

theorem mem_candidates {reg : BackendRegistry} {g : GroupId} {b : BackendId} :
    b ∈ candidates reg g ↔ b ∈ (reg.group g).backends ∧ (reg.backend b).drain = false ∧
      (reg.backend b).healthy = true ∧
      (reg.backend b).activeConnections < (reg.backend b).maxConnections := by
  rw [candidates, List.mem_filter, fits, isEligible, hasRoom, Bool.and_eq_true, Bool.and_eq_true,
    Bool.not_eq_true', decide_eq_true_eq, and_assoc]
  exact Iff.rfl

section Minimum
variable {arena : Arena Backend}

def count (arena : Arena Backend) (b : BackendId) : Nat := (arena.get b).activeConnections.toNat

/-- A running minimum over two elements keeps the first unless the second is smaller. -/
theorem argmin_cons_cons {ι : Type} (f : ι → Nat) (x y : ι) (rest : List ι) :
    List.argmin f (x :: y :: rest) = List.argmin f ((if f y < f x then y else x) :: rest) := by
  simp only [List.argmin, List.foldl_cons, List.argAux]
  split <;> rfl

theorem scan_best (ids : List BackendId) (best : BackendId) :
    scan arena ids (some best) (arena.get best).activeConnections =
      (best :: ids.filter (fits arena)).argmin (count arena) := by
  induction ids generalizing best with
  | nil => rfl
  | cons x rest ih =>
    rw [scan_cons]
    by_cases fit : fits arena x = true
    · rw [fit, Bool.true_and, List.filter_cons_of_pos fit, argmin_cons_cons]
      by_cases fewer : (arena.get x).activeConnections < (arena.get best).activeConnections
      · rw [if_pos (decide_eq_true fewer), if_pos (show count arena x < count arena best from fewer), ih]
      · rw [if_neg (by simpa using fewer), if_neg (show ¬count arena x < count arena best from fewer), ih]
    · rw [Bool.eq_false_iff.mpr fit, Bool.false_and, if_neg Bool.false_ne_true,
        List.filter_cons_of_neg fit, ih]

theorem fits_below {b : BackendId} (fit : fits arena b = true) :
    (arena.get b).activeConnections < usizeMax := by
  have room : (arena.get b).activeConnections < (arena.get b).maxConnections :=
    decide_eq_true_eq.mp (Bool.and_eq_true_iff.mp fit).2
  have bound := (arena.get b).maxConnections.toNat_lt_size
  have top : usizeMax.toNat = UInt64.size - 1 := rfl
  rw [UInt64.lt_iff_toNat_lt] at room ⊢
  omega

theorem scan_eq_argmin (ids : List BackendId) :
    scan arena ids none usizeMax = (ids.filter (fits arena)).argmin (count arena) := by
  induction ids with
  | nil => rfl
  | cons x rest ih =>
    rw [scan_cons]
    by_cases fit : fits arena x = true
    · rw [fit, Bool.true_and, if_pos (decide_eq_true (fits_below fit)), List.filter_cons_of_pos fit,
        scan_best]
    · rw [Bool.eq_false_iff.mpr fit, Bool.false_and, if_neg Bool.false_ne_true,
        List.filter_cons_of_neg fit, ih]

end Minimum

theorem selectBackend_eq_argmin (reg : BackendRegistry) (g : GroupId) :
    reg.selectBackend g = (candidates reg g).argmin (count reg.backendAt) :=
  scan_eq_argmin _

/-- A request is turned away only when no backend may take it; otherwise it goes to the first of
those with the fewest connections. -/
theorem select_backend_least (reg : BackendRegistry) (g : GroupId) :
    (reg.selectBackend g = none ↔
      ∀ b ∈ (reg.group g).backends, ¬((reg.backend b).drain = false ∧ (reg.backend b).healthy = true ∧
        (reg.backend b).activeConnections < (reg.backend b).maxConnections)) ∧
    ∀ b, reg.selectBackend g = some b ↔ b ∈ candidates reg g ∧
      (∀ x ∈ candidates reg g,
        (reg.backend b).activeConnections ≤ (reg.backend x).activeConnections) ∧
      ∀ x ∈ candidates reg g, (reg.backend x).activeConnections ≤ (reg.backend b).activeConnections →
        (candidates reg g).idxOf b ≤ (candidates reg g).idxOf x := by
  rw [selectBackend_eq_argmin]
  refine ⟨?_, fun b => List.argmin_eq_some_iff⟩
  rw [List.argmin_eq_none, List.eq_nil_iff_forall_not_mem]
  exact forall_congr' fun b => by rw [mem_candidates, not_and]

end TinyLb.Selection
