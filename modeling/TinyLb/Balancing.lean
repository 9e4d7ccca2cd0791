import TinyLb.Backends
import TinyLb.Greedy
import TinyLb.Slots
import Mathlib.Data.List.Dedup

/-! Requests to one group, one after the other: each selects a backend and opens its connection
before the next one comes, and no connection is closed. -/

namespace TinyLb.Balancing
open Backends Tally Greedy

def isEligible (b : Backend) : Bool := !b.drain && b.healthy

def hasRoom (b : Backend) : Bool := b.activeConnections < b.maxConnections

/-- `select_backend` and then `ConnectionGuard::new`. -/
def serve (g : GroupId) (reg : BackendRegistry) : BackendRegistry :=
  match reg.selectBackend g with
  | some b => reg.write b Backend.connect
  | none => reg

def served (g : GroupId) (reg : BackendRegistry) : Nat → BackendRegistry
  | 0 => reg
  | k + 1 => serve g (served g reg k)

def eligible (reg : BackendRegistry) (g : GroupId) : List BackendId :=
  (reg.group g).backends.dedup.filter fun b => isEligible (reg.backend b)

def load (reg : BackendRegistry) (b : BackendId) : Nat := (reg.backend b).activeConnections.toNat

def cap (reg : BackendRegistry) (b : BackendId) : Nat := (reg.backend b).maxConnections.toNat

section Scan
variable {arena : Arena Backend} {ids : List BackendId} {best : Option BackendId} {bestCount : UInt64}
variable {b x : BackendId}

def fits (arena : Arena Backend) (b : BackendId) : Bool := isEligible (arena.get b) && hasRoom (arena.get b)

theorem scan_cons (arena : Arena Backend) (x : BackendId) (ids : List BackendId)
    (best : Option BackendId) (bestCount : UInt64) :
    scan arena (x :: ids) best bestCount =
      if fits arena x && decide ((arena.get x).activeConnections < bestCount) then
        scan arena ids (some x) (arena.get x).activeConnections
      else scan arena ids best bestCount := by
  rw [scan]
  unfold fits isEligible hasRoom
  cases (arena.get x).drain with
  | true => rfl
  | false =>
    cases (arena.get x).healthy with
    | false => rfl
    | true =>
      by_cases room : (arena.get x).activeConnections < (arena.get x).maxConnections
      · simp [room, UInt64.not_le.mpr room]
      · simp [room, UInt64.not_lt.mp room]

theorem scan_least (known : ∀ x, best = some x → (arena.get x).activeConnections = bestCount)
    (chosen : scan arena ids best bestCount = some b) :
    (arena.get b).activeConnections ≤ bestCount ∧
      ∀ x ∈ ids, fits arena x = true → (arena.get b).activeConnections ≤ (arena.get x).activeConnections := by
  induction ids generalizing best bestCount with
  | nil => exact ⟨UInt64.le_of_eq (known b chosen), fun x member => by cases member⟩
  | cons y rest ih =>
    rw [scan_cons] at chosen
    split at chosen
    next taken =>
      rw [Bool.and_eq_true, decide_eq_true_eq] at taken
      have fresh : ∀ x, some y = some x →
          (arena.get x).activeConnections = (arena.get y).activeConnections := by
        intro x same
        rw [Option.some.inj same]
      obtain ⟨below, others⟩ := ih fresh chosen
      exact ⟨UInt64.le_trans below (UInt64.le_of_lt taken.2),
        List.forall_mem_cons.mpr ⟨fun _ => below, others⟩⟩
    next skipped =>
      obtain ⟨below, others⟩ := ih known chosen
      refine ⟨below, List.forall_mem_cons.mpr ⟨fun fit => ?_, others⟩⟩
      rw [fit, Bool.true_and, decide_eq_true_eq] at skipped
      exact UInt64.le_trans below (UInt64.not_lt.mp skipped)

theorem scan_none (chosen : scan arena ids best bestCount = none) :
    best = none ∧ ∀ x ∈ ids, fits arena x = true → bestCount ≤ (arena.get x).activeConnections := by
  induction ids generalizing best bestCount with
  | nil => exact ⟨chosen, fun x member => by cases member⟩
  | cons y rest ih =>
    rw [scan_cons] at chosen
    split at chosen
    next => cases (ih chosen).1
    next skipped =>
      obtain ⟨unset, others⟩ := ih chosen
      refine ⟨unset, List.forall_mem_cons.mpr ⟨fun fit => ?_, others⟩⟩
      rw [fit, Bool.true_and, decide_eq_true_eq] at skipped
      exact UInt64.not_lt.mp skipped

end Scan

section Serving
variable {g : GroupId} {reg next : BackendRegistry} {b : BackendId}

theorem mem_eligible :
    b ∈ eligible reg g ↔ b ∈ (reg.group g).backends ∧ isEligible (reg.backend b) = true := by
  rw [eligible, List.mem_filter, List.mem_dedup]

theorem hasRoom_iff : hasRoom (reg.backend b) = true ↔ load reg b < cap reg b := by
  rw [hasRoom, decide_eq_true_eq]
  exact UInt64.lt_iff_toNat_lt

theorem selectBackend_chosen (found : reg.selectBackend g = some b) :
    Chosen (eligible reg g) (cap reg) (load reg) b := by
  obtain ⟨member, undrained, healthy, room⟩ := selectBackend_some found
  have least := (scan_least (fun x same => by cases same) found).2
  refine ⟨mem_eligible.mpr ⟨member, ?_⟩, UInt64.lt_iff_toNat_lt.mp room, fun x there open_ => ?_⟩
  · rw [isEligible, undrained, healthy]
    rfl
  · obtain ⟨listed, able⟩ := mem_eligible.mp there
    have fit : fits reg.backendAt x = true :=
      Bool.and_eq_true_iff.mpr ⟨able, hasRoom_iff.mpr open_⟩
    exact UInt64.le_iff_toNat_le.mp (least x listed fit)

theorem selectBackend_none (refused : reg.selectBackend g = none) :
    ∀ x ∈ eligible reg g, ¬load reg x < cap reg x := by
  intro x there room
  obtain ⟨listed, able⟩ := mem_eligible.mp there
  have fit : fits reg.backendAt x = true := Bool.and_eq_true_iff.mpr ⟨able, hasRoom_iff.mpr room⟩
  have most := UInt64.le_iff_toNat_le.mp ((scan_none refused).2 x listed fit)
  have bound : cap reg x < UInt64.size := (reg.backend x).maxConnections.toNat_lt_size
  have top : usizeMax.toNat = UInt64.size - 1 := rfl
  have here : (reg.backendAt.get x).activeConnections.toNat = load reg x := rfl
  omega

theorem load_connect (known : b < reg.backendAt.size) (few : load reg b + 1 < UInt64.size) :
    load (reg.write b Backend.connect) = assign (load reg) b := by
  funext x
  by_cases same : x = b
  · subst same
    rw [assign_self, load, BackendRegistry.backend_write_self reg _ known]
    exact Slots.toNat_add_one few
  · rw [assign_of_ne same, load, load, BackendRegistry.backend_write_of_ne reg _ (Ne.symm same)]

theorem serve_cases (reg : BackendRegistry) (g : GroupId) :
    (∃ b, reg.selectBackend g = some b ∧ Chosen (eligible reg g) (cap reg) (load reg) b ∧
        load (serve g reg) = assign (load reg) b) ∨
      reg.selectBackend g = none ∧ (∀ x ∈ eligible reg g, ¬load reg x < cap reg x) ∧
        serve g reg = reg := by
  cases found : reg.selectBackend g with
  | none => exact Or.inr ⟨rfl, selectBackend_none found, by rw [serve, found]⟩
  | some b =>
    have chosen := selectBackend_chosen found
    have bound : cap reg b < UInt64.size := (reg.backend b).maxConnections.toNat_lt_size
    have room := chosen.room
    have known : b < reg.backendAt.size := by
      by_contra outside
      have missing : reg.backend b = default := reg.backendAt.get_of_size_le (Nat.le_of_not_lt outside)
      rw [load, cap, missing] at room
      exact absurd room (by decide)
    refine Or.inl ⟨b, rfl, chosen, ?_⟩
    rw [serve, found]
    exact load_connect known (by omega)

theorem serve_limits (reg : BackendRegistry) (g g' : GroupId) :
    eligible (serve g reg) g' = eligible reg g' ∧ cap (serve g reg) = cap reg := by
  rw [serve]
  split
  next b found =>
    have flags : ∀ x, isEligible ((reg.write b Backend.connect).backend x) = isEligible (reg.backend x) :=
      fun x => Arena.get_modify_field isEligible reg.backendAt
        (fun y => (rfl : isEligible y.connect = isEligible y)) b x
    have caps : ∀ x, cap (reg.write b Backend.connect) x = cap reg x :=
      fun x => congrArg UInt64.toNat (Arena.get_modify_field Backend.maxConnections reg.backendAt
        (fun y => (rfl : y.connect.maxConnections = y.maxConnections)) b x)
    exact ⟨List.filter_congr fun x _ => flags x, funext caps⟩
  next => exact ⟨rfl, rfl⟩

theorem served_limits (reg : BackendRegistry) (g : GroupId) (k : Nat) :
    eligible (served g reg k) g = eligible reg g ∧ cap (served g reg k) = cap reg := by
  induction k with
  | zero => exact ⟨rfl, rfl⟩
  | succ k ih =>
    obtain ⟨sameEligible, sameCap⟩ := serve_limits (served g reg k) g g
    exact ⟨sameEligible.trans ih.1, sameCap.trans ih.2⟩

theorem nodup_eligible (reg : BackendRegistry) (g : GroupId) : (eligible reg g).Nodup :=
  (List.nodup_dedup _).filter _

theorem served_balanced (idle : ∀ b ∈ (reg.group g).backends, (reg.backend b).activeConnections = 0)
    (k : Nat) :
    Balanced (eligible reg g) (cap reg) (load (served g reg k)) ∧
      total (load (served g reg k)) (eligible reg g) = min k (total (cap reg) (eligible reg g)) := by
  induction k with
  | zero =>
    have start : ∀ b ∈ eligible reg g, load (served g reg 0) b = 0 := by
      intro b member
      exact congrArg UInt64.toNat (idle b (mem_eligible.mp member).1)
    refine ⟨balanced_idle _ start, ?_⟩
    rw [Nat.zero_min]
    exact total_eq_zero start
  | succ k ih =>
    obtain ⟨balanced, sum⟩ := ih
    obtain ⟨sameEligible, sameCap⟩ := served_limits reg g k
    have fullness := balanced.full_iff
    rcases serve_cases (served g reg k) g with ⟨b, -, chosen, next⟩ | ⟨-, full, next⟩
    · rw [sameEligible, sameCap] at chosen
      rw [served, next]
      refine ⟨chosen.balanced balanced, ?_⟩
      rw [total_assign (nodup_eligible reg g) chosen.member, sum]
      have room : ¬total (cap reg) (eligible reg g) ≤ total (load (served g reg k)) (eligible reg g) := by
        intro enough
        exact absurd (fullness.mpr enough b chosen.member) (Nat.ne_of_lt chosen.room)
      omega
    · rw [sameEligible, sameCap] at full
      rw [served, next]
      refine ⟨balanced, ?_⟩
      have enough := fullness.mp fun x there =>
        Nat.le_antisymm (balanced.within x there) (Nat.le_of_not_lt (full x there))
      omega

/-- After any number of requests two backends differ by one connection at most unless the emptier
one is full; a request finds no backend only when all are full, and exactly after as many requests
as the caps add up to. -/
theorem requests_stay_balanced
    (idle : ∀ b ∈ (reg.group g).backends, (reg.backend b).activeConnections = 0) (k : Nat) :
    (∀ i ∈ eligible reg g, ∀ j ∈ eligible reg g,
      load (served g reg k) i ≤ load (served g reg k) j + 1 ∨ load (served g reg k) j = cap reg j) ∧
    ((served g reg k).selectBackend g = none →
      ∀ b ∈ eligible reg g, load (served g reg k) b = cap reg b) ∧
    ((served g reg k).selectBackend g = none ↔ total (cap reg) (eligible reg g) ≤ k) := by
  obtain ⟨balanced, sum⟩ := served_balanced idle k
  obtain ⟨sameEligible, sameCap⟩ := served_limits reg g k
  have fullness := balanced.full_iff
  have none_iff : (served g reg k).selectBackend g = none ↔
      ∀ b ∈ eligible reg g, load (served g reg k) b = cap reg b := by
    rcases serve_cases (served g reg k) g with ⟨b, found, chosen, -⟩ | ⟨refused, full, -⟩
    · rw [sameEligible, sameCap] at chosen
      rw [found]
      refine ⟨fun none => (by cases none), fun full => ?_⟩
      exact absurd (full b chosen.member) (Nat.ne_of_lt chosen.room)
    · rw [sameEligible, sameCap] at full
      refine ⟨fun _ x there => ?_, fun _ => refused⟩
      exact Nat.le_antisymm (balanced.within x there) (Nat.le_of_not_lt (full x there))
  refine ⟨balanced.even, none_iff.mp, none_iff.trans (fullness.trans ?_)⟩
  rw [sum]
  omega

/-- Caps 1 and 3 and a drained backend: of the four connections three go to the second backend. -/
theorem requests_stay_balanced_unequal : ∃ reg,
    BackendRegistry.new 0 [⟨['a'], [⟨['u'], 1, false⟩, ⟨['v'], 3, false⟩, ⟨['w'], 9, true⟩]⟩] = .ok reg ∧
      ((served 0 reg 4).backend 1).activeConnections = 3 ∧
      ((served 0 reg 4).selectBackend 0 = none ↔ total (cap reg) (eligible reg 0) ≤ 4) := by
  have built : BackendRegistry.new 0
      [⟨['a'], [⟨['u'], 1, false⟩, ⟨['v'], 3, false⟩, ⟨['w'], 9, true⟩]⟩] = .ok _ := rfl
  exact ⟨_, built, rfl, (requests_stay_balanced (by decide) 4).2.2⟩

end Serving

end TinyLb.Balancing
