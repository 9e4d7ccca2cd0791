import TinyLb.Throttle
import Mathlib.Data.List.DropRight

/-! Calls of one `ErrorThrottle` that come one after the other, and the counts they report. The
windows may differ from call to call, as they do when the configuration is reloaded. -/

namespace TinyLb.SuppressedCounts
open Machine Tally Throttle

/-- A call without others between its operations: its answer, and the cells after it. -/
def answer (t : ErrorThrottle) : Method → Option UInt64 × ErrorThrottle
  | .onErrorAt now window =>
      if window = 0 then (some 0, { t with inError := true })
      else if t.lastLogMs = 0 ∨ saturatingSub now t.lastLogMs ≥ window then
        (some t.suppressed, ⟨true, now, 0⟩)
      else (none, { t with suppressed := t.suppressed + 1 })
  | .onSuccess =>
      if t.inError then (some t.suppressed, { t with inError := false, suppressed := 0 }) else (none, t)

def step (method : Method) (s : State) : Option State :=
  let answered := answer s.throttle method
  some ⟨answered.2, s.calls ++ [⟨method, .returned answered.1⟩]⟩

section Atomic

/-- The first operations of a call that nothing comes between. -/
def operate (method : Method) : Nat → ErrorThrottle → Phase → Option (Phase × ErrorThrottle)
  | 0, t, phase => some (phase, t)
  | n + 1, t, phase => (Call.step t ⟨method, phase⟩).bind fun next => operate method n next.2 next.1

theorem run_operate {method : Method} {n : Nat} {t t' : ErrorThrottle} {before after : Phase}
    (taken : operate method n t before = some (after, t')) (calls : List Call) :
    run Throttle.step (List.replicate n (.advance calls.length)) ⟨t, calls ++ [⟨method, before⟩]⟩ =
      some ⟨t', calls ++ [⟨method, after⟩]⟩ := by
  induction n generalizing t before with
  | zero =>
    cases taken
    rfl
  | succ n ih =>
    obtain ⟨⟨phase, mid⟩, first, later⟩ := Option.bind_eq_some_iff.mp taken
    have moved : Throttle.step (.advance calls.length) ⟨t, calls ++ [⟨method, before⟩]⟩ =
        some ⟨mid, calls ++ [⟨method, phase⟩]⟩ := by
      simp [Throttle.step, first]
    exact run_cons_some.mpr ⟨_, moved, ih later⟩

theorem operate_answer (t : ErrorThrottle) (method : Method) :
    ∃ n, operate method n t .entered = some (.returned (answer t method).1, (answer t method).2) := by
  cases method with
  | onErrorAt now window =>
    by_cases zero : window = 0
    · exact ⟨1, by simp [operate, Call.step, onErrorAt, answer, zero]⟩
    · by_cases late : t.lastLogMs = 0 ∨ saturatingSub now t.lastLogMs ≥ window
      · exact ⟨4, by simp [operate, Call.step, onErrorAt, answer, zero, late]⟩
      · exact ⟨2, by simp [operate, Call.step, onErrorAt, answer, zero, late]⟩
  | onSuccess =>
    by_cases flagged : t.inError = true
    · exact ⟨3, by simp [operate, Call.step, onSuccess, answer, flagged]⟩
    · exact ⟨1, by simp [operate, Call.step, onSuccess, answer, flagged]⟩

theorem alone_runs (method : Method) (s : State) :
    ∃ n, run Throttle.step (.call method :: List.replicate n (.advance s.calls.length)) s =
      step method s := by
  obtain ⟨n, whole⟩ := operate_answer s.throttle method
  exact ⟨n, run_cons_some.mpr ⟨_, rfl, run_operate whole s.calls⟩⟩

end Atomic

section Counts
variable {s next : State} {method : Method}

def reports : Call → Bool
  | ⟨_, .returned (some _)⟩ => true
  | _ => false

/-- The errors dropped since the last report. -/
def pending (calls : List Call) : Nat := total Call.dropped (calls.rtakeWhile fun call => !reports call)

/-- Every report gives the number of errors dropped since the one before. -/
def Exact (calls : List Call) : Prop :=
  ∀ before method suppressed after, calls = before ++ ⟨method, .returned (some suppressed)⟩ :: after →
    suppressed.toNat = pending before

theorem pending_report {call : Call} (reported : reports call = true) (calls : List Call) :
    pending (calls ++ [call]) = 0 := by
  simp [pending, reported]

theorem pending_silent {call : Call} (silent : reports call = false) (calls : List Call) :
    pending (calls ++ [call]) = pending calls + call.dropped := by
  simp [pending, silent]

theorem exact_nil : Exact [] := by
  intro before method suppressed after whole
  simp at whole

theorem exact_concat {calls : List Call} {call : Call} :
    Exact (calls ++ [call]) ↔ Exact calls ∧
      ∀ suppressed, call.phase = .returned (some suppressed) → suppressed.toNat = pending calls := by
  constructor
  · intro exact
    refine ⟨fun before method suppressed after whole => ?_, fun suppressed same => ?_⟩
    · exact exact before method suppressed (after ++ [call]) (by rw [whole]; simp)
    · obtain ⟨method, phase⟩ := call
      cases same
      exact exact calls method suppressed [] rfl
  · rintro ⟨earlier, last⟩ before method suppressed after whole
    rcases List.eq_nil_or_concat after with rfl | ⟨middle, final, rfl⟩
    · obtain ⟨rfl, same⟩ := List.append_inj' whole rfl
      cases same
      exact last suppressed rfl
    · have shape : calls ++ [call] =
          (before ++ ⟨method, .returned (some suppressed)⟩ :: middle) ++ [final] := by
        rw [whole]
        simp
      exact earlier before method suppressed middle (List.append_inj' shape rfl).1

theorem step_flow (taken : step method s = some next) :
    ∃ call, next.calls = s.calls ++ [call] ∧
      ((call.phase = .returned none ∧ call.dropped = 1 ∧
          next.throttle.suppressed = s.throttle.suppressed + 1) ∨
        (call.phase = .returned none ∧ call.dropped = 0 ∧
          next.throttle.suppressed = s.throttle.suppressed) ∨
        (call.phase = .returned (some s.throttle.suppressed) ∧ next.throttle.suppressed = 0) ∨
        ∃ now, method = .onErrorAt now 0 ∧ call.phase = .returned (some 0) ∧
          next.throttle.suppressed = s.throttle.suppressed) := by
  cases taken
  refine ⟨_, rfl, ?_⟩
  cases method with
  | onErrorAt now window =>
    rw [answer]
    split
    next zero => exact Or.inr (Or.inr (Or.inr ⟨now, zero ▸ rfl, rfl, rfl⟩))
    next =>
      split
      · exact Or.inr (Or.inr (Or.inl ⟨rfl, rfl⟩))
      · exact Or.inl ⟨rfl, rfl, rfl⟩
  | onSuccess =>
    rw [answer]
    split
    · exact Or.inr (Or.inr (Or.inl ⟨rfl, rfl⟩))
    · exact Or.inr (Or.inl ⟨rfl, rfl, rfl⟩)

/-- A call that is not to be throttled finds nothing in the counter. -/
def Drained : Method → State → Prop
  | .onErrorAt _ window, s => window = 0 → s.throttle.suppressed = 0
  | .onSuccess, _ => True

def Few (s : State) : Prop := pending s.calls < UInt64.size

instance : Decidable (Few s) := inferInstanceAs (Decidable (_ < _))

def Aligned (s : State) : Prop := s.throttle.suppressed.toNat = pending s.calls % UInt64.size

theorem Aligned.step (aligned : Aligned s) (drained : Drained method s)
    (taken : SuppressedCounts.step method s = some next) : Aligned next := by
  obtain ⟨call, appended, flow⟩ := step_flow taken
  obtain ⟨method', phase⟩ := call
  unfold Aligned at aligned ⊢
  rw [appended]
  rcases flow with ⟨silent, fell, more⟩ | ⟨silent, kept, same⟩ | ⟨told, reset⟩ | ⟨now, rfl, told, same⟩
  · cases silent
    rw [pending_silent rfl, fell, more, UInt64.toNat_add, aligned, UInt64.toNat_one]
    exact Nat.mod_add_mod ..
  · cases silent
    rw [pending_silent rfl, kept, same, Nat.add_zero, aligned]
  · cases told
    rw [pending_report rfl, reset]
    rfl
  · cases told
    rw [pending_report rfl, same, drained rfl]
    rfl

theorem exact_step (exact : Exact s.calls) (aligned : Aligned s) (drained : Drained method s)
    (few : Few s) (taken : step method s = some next) : Exact next.calls := by
  obtain ⟨call, appended, flow⟩ := step_flow taken
  unfold Aligned at aligned
  rw [Nat.mod_eq_of_lt few] at aligned
  rw [appended]
  refine exact_concat.mpr ⟨exact, fun suppressed reported => ?_⟩
  rcases flow with ⟨silent, -⟩ | ⟨silent, -⟩ | ⟨told, -⟩ | ⟨now, rfl, told, -⟩
  · rw [silent] at reported
    cases reported
  · rw [silent] at reported
    cases reported
  · rw [told] at reported
    cases reported
    exact aligned
  · rw [told] at reported
    cases reported
    rw [← aligned, drained rfl]

theorem exact_of_run {methods : List Method} (done : run step methods s = some next)
    (exact : Exact next.calls) : Exact s.calls := by
  induction methods generalizing s with
  | nil =>
    cases done
    exact exact
  | cons method rest ih =>
    obtain ⟨mid, taken, later⟩ := run_cons_some.mp done
    obtain ⟨call, appended, -⟩ := step_flow taken
    have after := ih later
    rw [appended] at after
    exact (exact_concat.mp after).1

/-- An exact report of a call that is not to be throttled says that nothing was dropped. -/
theorem drained_of_exact (aligned : Aligned s) (taken : step method s = some next)
    (exact : Exact next.calls) : Drained method s := by
  cases method with
  | onErrorAt now window =>
    intro zero
    subst zero
    cases taken
    have none := (exact_concat.mp exact).2 0 rfl
    unfold Aligned at aligned
    rw [← none] at aligned
    exact UInt64.toNat_inj.mp aligned
  | onSuccess => trivial

theorem drained_run (aligned : Aligned s) {methods : List Method}
    (done : run step methods s = some next) (exact : Exact next.calls) :
    Conforms step Drained methods s := by
  induction methods generalizing s with
  | nil => trivial
  | cons method rest ih =>
    obtain ⟨mid, taken, later⟩ := run_cons_some.mp done
    have drained := drained_of_exact aligned taken (exact_of_run later exact)
    exact .cons drained taken (ih (aligned.step drained taken) later)

/-- The counts are exact in runs where no call with a window of 0 comes while the counter is not 0,
and the counter does not wrap. Where they are exact no such call has come. -/
theorem suppressed_exact {methods : List Method} (done : run step methods .start = some s) :
    (Conforms step (fun method u => Drained method u ∧ Few u) methods .start → Exact s.calls) ∧
      (Exact s.calls → Conforms step Drained methods .start) := by
  have aligned : Aligned .start := rfl
  refine ⟨fun all => ?_, drained_run aligned done⟩
  have keep : ∀ method u v, Exact u.calls ∧ Aligned u → Drained method u ∧ Few u →
      step method u = some v → Exact v.calls ∧ Aligned v := by
    intro method u v before ok taken
    exact ⟨exact_step before.1 before.2 ok.1 ok.2 taken, before.2.step ok.1 taken⟩
  have initial : Exact State.start.calls ∧ Aligned .start := ⟨exact_nil, aligned⟩
  exact (run_invariant_of_conforms keep initial all done).1

/-- An error is logged, one is dropped, and the recovery reports it. -/
theorem suppressed_exact_recovery : ∃ s,
    run step [.onErrorAt 1 60000, .onErrorAt 2 60000, .onSuccess] .start = some s ∧
      s.calls = [⟨.onErrorAt 1 60000, .returned (some 0)⟩, ⟨.onErrorAt 2 60000, .returned none⟩,
        ⟨.onSuccess, .returned (some 1)⟩] ∧ Exact s.calls := by
  have done : run step [.onErrorAt 1 60000, .onErrorAt 2 60000, .onSuccess] .start = some _ := rfl
  refine ⟨_, done, rfl, (suppressed_exact done).1 ?_⟩
  have throttled : (60000 : UInt64) ≠ 0 := by decide
  exact .cons ⟨fun zero => absurd zero throttled, by decide⟩ rfl
    (.cons ⟨fun zero => absurd zero throttled, by decide⟩ rfl (.cons ⟨trivial, by decide⟩ rfl trivial))

def times (methods : List Method) : List UInt64 :=
  methods.filterMap fun
    | .onErrorAt now _ => some now
    | .onSuccess => none

def Timed (methods : List Method) : Prop :=
  (∀ now ∈ times methods, 1 ≤ now) ∧ (times methods).Pairwise (· ≤ ·)

/-- An error is dropped, then the throttling is switched off: the next error is reported with no
errors before it. -/
theorem suppressed_exact_switched_off : ¬ ∀ methods s, Timed methods →
    run step methods .start = some s → Exact s.calls := by
  intro claimed
  have clock : times [.onErrorAt 1 60000, .onErrorAt 2 60000, .onErrorAt 3 0] = [1, 2, 3] := rfl
  have timed : Timed [.onErrorAt 1 60000, .onErrorAt 2 60000, .onErrorAt 3 0] := by
    rw [Timed, clock]
    simp
  have exact := claimed _ _ timed rfl
  have none := exact [⟨.onErrorAt 1 60000, .returned (some 0)⟩, ⟨.onErrorAt 2 60000, .returned none⟩]
    (.onErrorAt 3 0) 0 [] rfl
  exact absurd none (by decide)

end Counts

end TinyLb.SuppressedCounts
