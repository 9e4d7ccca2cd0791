import Mathlib.Data.Nat.ModEq
import TinyLb.Machine
import TinyLb.Slots
import TinyLb.Tally

/-! Counters of events that someone else takes and resets. Every event is in what was taken or in
the counter, as long as the counter does not wrap, and up to whole turns of the counter in any case. -/

namespace TinyLb.Meters
open Tally Machine

structure Meter where
  counter : UInt64
  counted : Nat
  taken : Nat
  deriving DecidableEq, Repr

inductive Step (before after : Meter) : Prop
  | keep (next : after = before)
  | count (next : after = { before with counter := before.counter + 1, counted := before.counted + 1 })
  | take (next : after = { before with counter := 0, taken := before.taken + before.counter.toNat })

def Balanced (meter : Meter) : Prop := meter.counted = meter.taken + meter.counter.toNat

def Congruent (meter : Meter) : Prop :=
  meter.counted ≡ meter.taken + meter.counter.toNat [MOD UInt64.size]

theorem Balanced.congruent {meter : Meter} (balanced : Balanced meter) : Congruent meter := by
  rw [Congruent, balanced]

theorem count_modEq (counter : UInt64) : (counter + 1).toNat ≡ counter.toNat + 1 [MOD UInt64.size] := by
  rw [UInt64.toNat_add, UInt64.toNat_one]
  exact Nat.mod_modEq _ _

theorem Step.congruent {before after : Meter} (step : Step before after) (congruent : Congruent before) :
    Congruent after := by
  unfold Congruent at congruent ⊢
  cases step with
  | keep next => rwa [next]
  | count next =>
    subst next
    dsimp only
    calc before.counted + 1
      _ ≡ before.taken + before.counter.toNat + 1 [MOD UInt64.size] := congruent.add_right 1
      _ = before.taken + (before.counter.toNat + 1) := Nat.add_assoc ..
      _ ≡ before.taken + (before.counter + 1).toNat [MOD UInt64.size] :=
        (count_modEq _).symm.add_left _
  | take next =>
    subst next
    dsimp only
    rwa [UInt64.toNat_zero, Nat.add_zero]

/-- A step that counts at a counter below its largest value keeps the balance. -/
theorem Step.balanced {before after : Meter} (step : Step before after)
    (few : after.counted = before.counted + 1 → before.counter.toNat + 1 < UInt64.size)
    (balanced : Balanced before) : Balanced after := by
  unfold Balanced at balanced ⊢
  cases step with
  | keep next => rw [next, balanced]
  | count next =>
    subst next
    dsimp only
    rw [Slots.toNat_add_one (few rfl), balanced, Nat.add_assoc]
  | take next =>
    subst next
    dsimp only
    rw [UInt64.toNat_zero, Nat.add_zero, balanced]

/-- The counter of a meter that was taken when `seen` events had happened, after `counted` events. -/
structure Due (seen counted : Nat) (counter : UInt64) : Prop where
  later : seen ≤ counted
  congruent : counted ≡ seen + counter.toNat [MOD UInt64.size]

theorem Due.count {seen counted : Nat} {counter : UInt64} (due : Due seen counted counter) :
    Due seen (counted + 1) (counter + 1) := by
  refine ⟨Nat.le_succ_of_le due.later, ?_⟩
  calc counted + 1
    _ ≡ seen + counter.toNat + 1 [MOD UInt64.size] := due.congruent.add_right 1
    _ = seen + (counter.toNat + 1) := Nat.add_assoc ..
    _ ≡ seen + (counter + 1).toNat [MOD UInt64.size] := (count_modEq _).symm.add_left _

theorem Due.taken (counted : Nat) : Due counted counted 0 :=
  ⟨Nat.le_refl _, by rw [UInt64.toNat_zero, Nat.add_zero]⟩

theorem Due.exact_iff {seen counted : Nat} {counter : UInt64} (due : Due seen counted counter) :
    counter.toNat + seen = counted ↔ counted < seen + UInt64.size := by
  have small : counter.toNat < UInt64.size := counter.toNat_lt_size
  refine ⟨fun same => by omega, fun few => ?_⟩
  obtain ⟨gap, rfl⟩ := Nat.exists_eq_add_of_le due.later
  have same : gap ≡ counter.toNat [MOD UInt64.size] := Nat.ModEq.add_left_cancel' seen due.congruent
  rw [Nat.ModEq, Nat.mod_eq_of_lt small, Nat.mod_eq_of_lt (by omega)] at same
  rw [same, Nat.add_comm]

section Several
variable {ι : Type} {meter : ι → Meter} {keys : List ι}

theorem total_balanced (balanced : ∀ k, Balanced (meter k)) :
    total (fun k => (meter k).counted) keys =
      total (fun k => (meter k).taken) keys + total (fun k => (meter k).counter.toNat) keys := by
  rw [← total_add]
  exact total_congr fun k _ => balanced k

theorem total_congruent (congruent : ∀ k, Congruent (meter k)) :
    total (fun k => (meter k).counted) keys ≡
      total (fun k => (meter k).taken) keys + total (fun k => (meter k).counter.toNat) keys
      [MOD UInt64.size] := by
  rw [← total_add]
  induction keys with
  | nil => rfl
  | cons k rest ih =>
    rw [total_cons, total_cons]
    exact (congruent k).add ih

end Several

section Runs
variable {α σ ι : Type} {step : α → σ → Option σ} {meter : σ → ι → Meter} {I : σ → Prop}
  {actions : List α} {s t : σ}

/-- No event makes a counter wrap. -/
def Unwrapped (step : α → σ → Option σ) (meter : σ → ι → Meter) (a : α) (s : σ) : Prop :=
  ∀ t k, step a s = some t → (meter t k).counted = (meter s k).counted + 1 →
    (meter s k).counter.toNat + 1 < UInt64.size

/-- From the states of an invariant, every step of the machine is a step of every meter. -/
structure Metered (step : α → σ → Option σ) (meter : σ → ι → Meter) (I : σ → Prop) : Prop where
  keep : ∀ a s t, I s → step a s = some t → I t
  meters : ∀ a s t, I s → step a s = some t → ∀ k, Step (meter s k) (meter t k)

theorem Metered.congruent (metered : Metered step meter I) (initial : I s)
    (start : ∀ k, Congruent (meter s k)) (done : run step actions s = some t) :
    ∀ k, Congruent (meter t k) := by
  have keep : ∀ a s t, (I s ∧ ∀ k, Congruent (meter s k)) → step a s = some t →
      I t ∧ ∀ k, Congruent (meter t k) :=
    fun a s t ⟨holds, congruent⟩ taken =>
      ⟨metered.keep a s t holds taken, fun k => (metered.meters a s t holds taken k).congruent (congruent k)⟩
  exact (run_invariant keep ⟨initial, start⟩ done).2

theorem Metered.balanced (metered : Metered step meter I) (initial : I s)
    (start : ∀ k, Balanced (meter s k)) (unwrapped : Conforms step (Unwrapped step meter) actions s)
    (done : run step actions s = some t) : ∀ k, Balanced (meter t k) := by
  have keep : ∀ a s t, (I s ∧ ∀ k, Balanced (meter s k)) → Unwrapped step meter a s →
      step a s = some t → I t ∧ ∀ k, Balanced (meter t k) :=
    fun a s t ⟨holds, balanced⟩ unwrapped taken => ⟨metered.keep a s t holds taken,
      fun k => (metered.meters a s t holds taken k).balanced (unwrapped t k taken) (balanced k)⟩
  exact (run_invariant_of_conforms keep ⟨initial, start⟩ unwrapped done).2

/-- A run with fewer parties than a counter can count, each of which counts for one event at most,
wraps no counter. -/
theorem Metered.unwrapped_of_few (metered : Metered step meter I) {parties : σ → Nat}
    (most : ∀ s k, (meter s k).counted ≤ parties s)
    (grows : ∀ a s t, step a s = some t → parties s ≤ parties t) (initial : I s)
    (start : ∀ k, Balanced (meter s k)) (done : run step actions s = some t)
    (few : parties t < UInt64.size) : Conforms step (Unwrapped step meter) actions s := by
  induction actions generalizing s with
  | nil => trivial
  | cons a rest ih =>
    obtain ⟨mid, taken, later⟩ := run_cons_some.mp done
    have rising : parties mid ≤ parties t := by
      have keep : ∀ a x y, parties mid ≤ parties x → step a x = some y → parties mid ≤ parties y :=
        fun a x y before next => Nat.le_trans before (grows a x y next)
      exact run_invariant keep (Nat.le_refl _) later
    have unwrapped : Unwrapped step meter a s := by
      intro other k next more
      rw [taken] at next
      cases next
      have counted : (meter s k).counted = (meter s k).taken + (meter s k).counter.toNat := start k
      have bound := most mid k
      omega
    refine Conforms.cons unwrapped taken (ih (metered.keep a s mid initial taken) (fun k => ?_) later)
    exact (metered.meters a s mid initial taken k).balanced (unwrapped mid k taken) (start k)

end Runs

end TinyLb.Meters
