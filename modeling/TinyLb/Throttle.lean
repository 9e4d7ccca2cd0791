import TinyLb.Meters

/-! An `ErrorThrottle` that any number of calls use at once. A call is split into its atomic
operations on the three cells, and the calls take them in any order. -/

namespace TinyLb.Throttle
open Machine Tally

structure ErrorThrottle where
  inError : Bool
  lastLogMs : UInt64
  suppressed : UInt64
  deriving DecidableEq, Repr

def ErrorThrottle.new : ErrorThrottle := ⟨false, 0, 0⟩

/-- `u64::saturating_sub`. -/
def saturatingSub (a b : UInt64) : UInt64 := if b ≤ a then a - b else 0

/-- Which method was called; `on_error` reads the clock and the window first and calls
`on_error_at` with them. -/
inductive Method where
  | onErrorAt (now window : UInt64)
  | onSuccess
  deriving DecidableEq, Repr

/-- The next atomic operation of a call, or its answer. -/
inductive Phase where
  | entered
  | exchanging (last : UInt64)
  | marking
  | counting
  | clearing
  | collecting
  | returned (answer : Option UInt64)
  deriving DecidableEq, Repr

structure Call where
  method : Method
  phase : Phase
  deriving DecidableEq, Repr

/-- The operations of `on_error_at`. With a window of 0 the answer comes right after the only store;
the exchange fails if another call has exchanged since the load. -/
def onErrorAt (t : ErrorThrottle) (now window : UInt64) : Phase → Option (Phase × ErrorThrottle)
  | .entered =>
      if window = 0 then some (.returned (some 0), { t with inError := true })
      else if t.lastLogMs = 0 ∨ saturatingSub now t.lastLogMs ≥ window then
        some (.exchanging t.lastLogMs, t)
      else some (.counting, t)
  | .exchanging last =>
      if t.lastLogMs = last then some (.marking, { t with lastLogMs := now }) else some (.counting, t)
  | .marking => some (.collecting, { t with inError := true })
  | .counting => some (.returned none, { t with suppressed := t.suppressed + 1 })
  | .collecting => some (.returned (some t.suppressed), { t with suppressed := 0 })
  | .clearing => none
  | .returned _ => none

/-- The operations of `on_success`. -/
def onSuccess (t : ErrorThrottle) : Phase → Option (Phase × ErrorThrottle)
  | .entered => some (if t.inError then .clearing else .returned none, t)
  | .clearing => some (if t.inError then .collecting else .returned none, { t with inError := false })
  | .collecting => some (.returned (some t.suppressed), { t with suppressed := 0 })
  | _ => none

def Call.step (t : ErrorThrottle) (call : Call) : Option (Phase × ErrorThrottle) :=
  match call.method with
  | .onErrorAt now window => onErrorAt t now window call.phase
  | .onSuccess => onSuccess t call.phase

structure State where
  throttle : ErrorThrottle
  calls : List Call
  deriving DecidableEq, Repr

def State.start : State := ⟨.new, []⟩

inductive Action where
  | call (method : Method)
  | advance (i : Nat)
  deriving DecidableEq, Repr

def step : Action → State → Option State
  | .call method, s => some { s with calls := s.calls ++ [⟨method, .entered⟩] }
  | .advance i, s =>
      match s.calls[i]? with
      | none => none
      | some call =>
          match call.step s.throttle with
          | none => none
          | some (phase, throttle) => some ⟨throttle, s.calls.set i { call with phase := phase }⟩

inductive Operation (t : ErrorThrottle) : Method → Phase → Phase → ErrorThrottle → Prop
  | unthrottled (now : UInt64) :
      Operation t (.onErrorAt now 0) .entered (.returned (some 0)) { t with inError := true }
  | due (now window : UInt64) (throttled : window ≠ 0)
      (late : t.lastLogMs = 0 ∨ saturatingSub now t.lastLogMs ≥ window) :
      Operation t (.onErrorAt now window) .entered (.exchanging t.lastLogMs) t
  | early (now window : UInt64) : Operation t (.onErrorAt now window) .entered .counting t
  | won (now window : UInt64) :
      Operation t (.onErrorAt now window) (.exchanging t.lastLogMs) .marking { t with lastLogMs := now }
  | lost (now window last : UInt64) : Operation t (.onErrorAt now window) (.exchanging last) .counting t
  | mark (now window : UInt64) :
      Operation t (.onErrorAt now window) .marking .collecting { t with inError := true }
  | count (now window : UInt64) :
      Operation t (.onErrorAt now window) .counting (.returned none)
        { t with suppressed := t.suppressed + 1 }
  | check (flagged : t.inError = true) : Operation t .onSuccess .entered .clearing t
  | idle : Operation t .onSuccess .entered (.returned none) t
  | clear (flagged : t.inError = true) :
      Operation t .onSuccess .clearing .collecting { t with inError := false }
  | cleared (unset : t.inError = false) :
      Operation t .onSuccess .clearing (.returned none) { t with inError := false }
  | collect (method : Method) :
      Operation t method .collecting (.returned (some t.suppressed)) { t with suppressed := 0 }

variable {t t' : ErrorThrottle} {call : Call} {phase : Phase}

theorem operation_of_error {now window : UInt64} {before : Phase}
    (taken : onErrorAt t now window before = some (phase, t')) :
    Operation t (.onErrorAt now window) before phase t' := by
  cases before with
  | entered =>
    rw [onErrorAt] at taken
    split at taken
    next zero =>
      subst zero
      cases taken
      exact .unthrottled now
    next throttled =>
      split at taken
      next late => cases taken; exact .due now window throttled late
      next => cases taken; exact .early now window
  | exchanging last =>
    rw [onErrorAt] at taken
    split at taken
    next same =>
      subst same
      cases taken
      exact .won now window
    next => cases taken; exact .lost now window last
  | marking => cases taken; exact .mark now window
  | counting => cases taken; exact .count now window
  | collecting => cases taken; exact .collect _
  | clearing => cases taken
  | returned answer => cases taken

theorem operation_of_success {before : Phase} (taken : onSuccess t before = some (phase, t')) :
    Operation t .onSuccess before phase t' := by
  cases before with
  | entered =>
    rw [onSuccess] at taken
    cases flag : t.inError <;> rw [flag] at taken <;> cases taken
    · exact .idle
    · exact .check flag
  | clearing =>
    rw [onSuccess] at taken
    cases flag : t.inError <;> rw [flag] at taken <;> cases taken
    · exact .cleared flag
    · exact .clear flag
  | collecting => cases taken; exact .collect _
  | exchanging last => cases taken
  | marking => cases taken
  | counting => cases taken
  | returned answer => cases taken

theorem operation_of_step (taken : call.step t = some (phase, t')) :
    Operation t call.method call.phase phase t' := by
  obtain ⟨method, before⟩ := call
  cases method with
  | onErrorAt now window => exact operation_of_error taken
  | onSuccess => exact operation_of_success taken

theorem step_cases {action : Action} {s next : State} (taken : step action s = some next) :
    (∃ method, action = .call method ∧ next = { s with calls := s.calls ++ [⟨method, .entered⟩] }) ∨
      ∃ i call phase throttle, action = .advance i ∧ s.calls[i]? = some call ∧
        Operation s.throttle call.method call.phase phase throttle ∧
        next = ⟨throttle, s.calls.set i { call with phase := phase }⟩ := by
  cases action with
  | call method =>
    cases taken
    exact Or.inl ⟨method, rfl, rfl⟩
  | advance i =>
    rw [step] at taken
    split at taken
    next => cases taken
    next call here =>
      split at taken
      next => cases taken
      next phase throttle done =>
        cases taken
        exact Or.inr ⟨i, call, phase, throttle, rfl, here, operation_of_step done, rfl⟩

section Conservation

def Call.dropped : Call → Nat
  | ⟨.onErrorAt _ _, .returned none⟩ => 1
  | _ => 0

def Call.reported : Call → Nat
  | ⟨_, .returned (some suppressed)⟩ => suppressed.toNat
  | _ => 0

theorem dropped_le_one (call : Call) : call.dropped ≤ 1 := by
  unfold Call.dropped
  split <;> decide

def meterOf (s : State) (_ : Unit) : Meters.Meter :=
  ⟨s.throttle.suppressed, total Call.dropped s.calls, total Call.reported s.calls⟩

theorem Operation.unanswered (taken : Operation t call.method call.phase phase t') :
    call.dropped = 0 ∧ call.reported = 0 := by
  obtain ⟨method, before⟩ := call
  cases taken with
  | collect method => cases method <;> exact ⟨rfl, rfl⟩
  | _ => exact ⟨rfl, rfl⟩

/-- An operation drops its error and counts it, reports what is in the counter and resets it, or
leaves the counter alone. -/
theorem Operation.flow (taken : Operation t call.method call.phase phase t') :
    (Call.dropped { call with phase := phase } = 0 ∧ Call.reported { call with phase := phase } = 0 ∧
      t'.suppressed = t.suppressed) ∨
    (Call.dropped { call with phase := phase } = 1 ∧ Call.reported { call with phase := phase } = 0 ∧
      t'.suppressed = t.suppressed + 1) ∨
    (Call.dropped { call with phase := phase } = 0 ∧
      Call.reported { call with phase := phase } = t.suppressed.toNat ∧ t'.suppressed = 0) := by
  obtain ⟨method, before⟩ := call
  cases taken with
  | count now window => exact Or.inr (Or.inl ⟨rfl, rfl, rfl⟩)
  | collect method => cases method <;> exact Or.inr (Or.inr ⟨rfl, rfl, rfl⟩)
  | _ => exact Or.inl ⟨rfl, rfl, rfl⟩

theorem step_meter {action : Action} {s next : State} (taken : step action s = some next) :
    Meters.Step (meterOf s ()) (meterOf next ()) := by
  rcases step_cases taken with ⟨method, rfl, rfl⟩ | ⟨i, call, phase, throttle, rfl, here, done, rfl⟩
  · refine .keep ?_
    simp [meterOf, Call.dropped, Call.reported]
  · have dropped := @total_set _ Call.dropped _ _ _ here { call with phase := phase }
    have reported := @total_set _ Call.reported _ _ _ here { call with phase := phase }
    obtain ⟨fresh, silent⟩ := done.unanswered
    rw [fresh, Nat.add_zero] at dropped
    rw [silent, Nat.add_zero] at reported
    simp only [meterOf]
    rcases done.flow with ⟨kept, quiet, same⟩ | ⟨fell, quiet, more⟩ | ⟨kept, told, reset⟩
    · rw [kept, Nat.add_zero] at dropped
      rw [quiet, Nat.add_zero] at reported
      exact .keep (by rw [dropped, reported, same])
    · rw [fell] at dropped
      rw [quiet, Nat.add_zero] at reported
      exact .count (by rw [dropped, reported, more])
    · rw [kept, Nat.add_zero] at dropped
      rw [told] at reported
      exact .take (by rw [dropped, reported, reset])

theorem metered : Meters.Metered step meterOf fun _ => True :=
  ⟨fun _ _ _ _ _ => trivial, fun _ _ _ _ taken _ => step_meter taken⟩

theorem step_length {action : Action} {s next : State} (taken : step action s = some next) :
    s.calls.length ≤ next.calls.length := by
  rcases step_cases taken with ⟨method, rfl, rfl⟩ | ⟨i, call, phase, throttle, rfl, here, done, rfl⟩
  · simp
  · simp

def Unwrapped (action : Action) (s : State) : Prop :=
  ∀ t, step action s = some t → total Call.dropped t.calls = total Call.dropped s.calls + 1 →
    s.throttle.suppressed.toNat + 1 < UInt64.size

theorem balanced_start : ∀ k, Meters.Balanced (meterOf .start k) := fun _ => rfl

theorem meters_unwrapped {actions : List Action} {s : State} (done : run step actions .start = some s)
    (few : s.calls.length < UInt64.size) : Conforms step (Meters.Unwrapped step meterOf) actions .start :=
  metered.unwrapped_of_few (fun _ _ => total_le_length dropped_le_one) (fun _ _ _ taken => step_length taken)
    trivial balanced_start done few

theorem unwrapped_of_few {actions : List Action} {s : State} (done : run step actions .start = some s)
    (few : s.calls.length < UInt64.size) : Conforms step Unwrapped actions .start :=
  (meters_unwrapped done few).mono fun _ _ counts t => counts t ()

theorem conserved_of_few {actions : List Action} {s : State} (done : run step actions .start = some s)
    (few : s.calls.length < UInt64.size) :
    total Call.dropped s.calls = total Call.reported s.calls + s.throttle.suppressed.toNat :=
  metered.balanced trivial balanced_start (meters_unwrapped done few) done ()

/-- The errors that were dropped are those in the reports and those in the counter, for calls at
any times and with any windows. -/
theorem suppressed_conserved {actions : List Action} {s : State}
    (done : run step actions .start = some s) (unwrapped : Conforms step Unwrapped actions .start) :
    total Call.dropped s.calls = total Call.reported s.calls + s.throttle.suppressed.toNat := by
  have counts : Conforms step (Meters.Unwrapped step meterOf) actions .start :=
    unwrapped.mono fun _ _ few t _ => few t
  exact metered.balanced trivial balanced_start counts done ()

/-- Two errors are dropped, one is reported by a recovery and one is still in the counter. -/
theorem suppressed_conserved_recovery : ∃ s, Reachable step .start s ∧
    s.calls = [⟨.onErrorAt 1 60000, .returned (some 0)⟩, ⟨.onErrorAt 2 60000, .returned none⟩,
      ⟨.onSuccess, .returned (some 1)⟩, ⟨.onErrorAt 3 60000, .returned none⟩] ∧
    total Call.dropped s.calls = total Call.reported s.calls + s.throttle.suppressed.toNat := by
  let trace : List Action :=
    [.call (.onErrorAt 1 60000), .advance 0, .advance 0, .advance 0, .advance 0,
      .call (.onErrorAt 2 60000), .advance 1, .advance 1,
      .call .onSuccess, .advance 2, .advance 2, .advance 2,
      .call (.onErrorAt 3 60000), .advance 3, .advance 3]
  have done : run step trace .start = some _ := rfl
  exact ⟨_, ⟨trace, done⟩, rfl, suppressed_conserved done (unwrapped_of_few done (by decide))⟩

end Conservation

section RateLimit
variable {window : UInt64} {s next : State}

/-- Errors of one window, by a clock that starts at 1. -/
def Action.windowed (window : UInt64) : Action → Prop
  | .call (.onErrorAt now w) => w = window ∧ now ≠ 0
  | _ => True

/-- The time of an error that has won the exchange; it is reported when the call returns. -/
def Call.letThrough : Call → Option UInt64
  | ⟨.onErrorAt now _, .marking⟩ | ⟨.onErrorAt now _, .collecting⟩
  | ⟨.onErrorAt now _, .returned (some _)⟩ => some now
  | _ => none

def State.letThrough (s : State) (i : Nat) : Option UInt64 := s.calls[i]?.bind Call.letThrough

theorem le_of_saturatingSub {now last : UInt64} (positive : window ≠ 0)
    (late : saturatingSub now last ≥ window) : last.toNat + window.toNat ≤ now.toNat := by
  have nonzero : window.toNat ≠ 0 := fun zero => positive (UInt64.toNat_inj.mp zero)
  unfold saturatingSub at late
  split at late
  next after =>
    have gap := UInt64.le_iff_toNat_le.mp late
    rw [UInt64.toNat_sub_of_le _ _ after] at gap
    have order := UInt64.le_iff_toNat_le.mp after
    omega
  next =>
    have gap := UInt64.le_iff_toNat_le.mp late
    rw [UInt64.toNat_zero] at gap
    omega

theorem Operation.letThrough (taken : Operation t call.method call.phase phase t')
    (throttled : ∀ now w, call.method = .onErrorAt now w → w ≠ 0) :
    (Call.letThrough { call with phase := phase } = call.letThrough ∧ t'.lastLogMs = t.lastLogMs) ∨
      ∃ now w, call = ⟨.onErrorAt now w, .exchanging t.lastLogMs⟩ ∧ phase = .marking ∧
        t'.lastLogMs = now := by
  obtain ⟨method, before⟩ := call
  cases taken with
  | unthrottled now => exact absurd rfl (throttled now 0 rfl)
  | won now w => exact Or.inr ⟨now, w, rfl, rfl, rfl⟩
  | collect method => cases method <;> exact Or.inl ⟨rfl, rfl⟩
  | _ => exact Or.inl ⟨rfl, rfl⟩

theorem Operation.late (taken : Operation t call.method call.phase phase t') {now w last : UInt64}
    (method : call.method = .onErrorAt now w) (waiting : phase = .exchanging last) :
    last = 0 ∨ last.toNat + w.toNat ≤ now.toNat := by
  obtain ⟨called, before⟩ := call
  cases taken with
  | due time window throttled late =>
    cases method
    cases waiting
    exact late.imp id (le_of_saturatingSub throttled)
  | _ => cases waiting

/-- The errors let through are a window apart, and none is after `last_log_ms`. -/
structure Spaced (window : UInt64) (s : State) : Prop where
  windowed : ∀ call ∈ s.calls, ∀ now w, call.method = .onErrorAt now w → w = window ∧ now ≠ 0
  late : ∀ now w last, ⟨.onErrorAt now w, .exchanging last⟩ ∈ s.calls →
    last = 0 ∨ last.toNat + w.toNat ≤ now.toNat
  past : ∀ i now, s.letThrough i = some now → now ≠ 0 ∧ now.toNat ≤ s.throttle.lastLogMs.toNat
  apart : ∀ i j now now', i ≠ j → s.letThrough i = some now → s.letThrough j = some now' →
    now.toNat + window.toNat ≤ now'.toNat ∨ now'.toNat + window.toNat ≤ now.toNat

theorem spaced_start : Spaced window .start where
  windowed call member := by cases member
  late now w last member := by cases member
  past i now through := by cases through
  apart i j now now' other through := by cases through

theorem step_letThrough {action : Action} (taken : step action s = some next) (positive : window ≠ 0)
    (windowed : ∀ call ∈ s.calls, ∀ now w, call.method = .onErrorAt now w → w = window ∧ now ≠ 0) :
    (next.letThrough = s.letThrough ∧ next.throttle.lastLogMs = s.throttle.lastLogMs) ∨
      ∃ i now w, ⟨.onErrorAt now w, .exchanging s.throttle.lastLogMs⟩ ∈ s.calls ∧
        next.letThrough i = some now ∧ (∀ j, j ≠ i → next.letThrough j = s.letThrough j) ∧
        next.throttle.lastLogMs = now := by
  rcases step_cases taken with ⟨method, rfl, rfl⟩ | ⟨i, call, phase, throttle, rfl, here, done, rfl⟩
  · refine Or.inl ⟨funext fun j => ?_, rfl⟩
    simp only [State.letThrough, List.getElem?_append]
    split
    next => rfl
    next beyond =>
      rw [List.getElem?_eq_none (Nat.le_of_not_lt beyond)]
      cases spot : [(⟨method, .entered⟩ : Call)][j - s.calls.length]? with
      | none => rfl
      | some call =>
        rw [List.mem_singleton.mp (List.mem_of_getElem? spot)]
        cases method <;> rfl
  · have member := List.mem_of_getElem? here
    have inside : i < s.calls.length := (List.getElem?_eq_some_iff.mp here).1
    have others : ∀ j, j ≠ i → (s.calls.set i { call with phase := phase })[j]? = s.calls[j]? :=
      fun j other => List.getElem?_set_ne (Ne.symm other)
    rcases done.letThrough (fun now w method zero =>
        positive ((windowed call member now w method).1.symm.trans zero)) with
      ⟨same, kept⟩ | ⟨now, w, rfl, rfl, stamped⟩
    · refine Or.inl ⟨funext fun j => ?_, kept⟩
      simp only [State.letThrough]
      by_cases self : j = i
      · rw [self, List.getElem?_set_self inside, here]
        exact same
      · rw [others j self]
    · refine Or.inr ⟨i, now, w, member, ?_, fun j other => ?_, stamped⟩
      · simp only [State.letThrough, List.getElem?_set_self inside]
        rfl
      · simp only [State.letThrough, others j other]

/-- An error that wins the exchange is a window after all that were let through before it. -/
theorem Spaced.next_after (spaced : Spaced window s) {now w : UInt64}
    (winner : ⟨.onErrorAt now w, .exchanging s.throttle.lastLogMs⟩ ∈ s.calls) {i : Nat}
    {before : UInt64} (through : s.letThrough i = some before) :
    before.toNat + window.toNat ≤ now.toNat := by
  obtain ⟨nonzero, past⟩ := spaced.past i before through
  have same := (spaced.windowed _ winner now w rfl).1
  rcases spaced.late now w _ winner with never | late
  · rw [never, UInt64.toNat_zero] at past
    exact absurd (UInt64.toNat_inj.mp (Nat.eq_zero_of_le_zero past)) nonzero
  · rw [same] at late
    omega

theorem step_spaced {action : Action} (taken : step action s = some next) (positive : window ≠ 0)
    (timed : action.windowed window) (spaced : Spaced window s) : Spaced window next := by
  have moved := step_letThrough taken positive spaced.windowed
  have advanced : ∀ i now, next.letThrough i = some now →
      now ≠ 0 ∧ now.toNat ≤ next.throttle.lastLogMs.toNat := by
    intro i now through
    rcases moved with ⟨same, kept⟩ | ⟨k, time, w, winner, new, others, stamped⟩
    · rw [same] at through
      rw [kept]
      exact spaced.past i now through
    · rw [stamped]
      by_cases self : i = k
      · subst self
        cases new.symm.trans through
        exact ⟨(spaced.windowed _ winner now w rfl).2, Nat.le_refl _⟩
      · rw [others i self] at through
        have gap := spaced.next_after winner through
        exact ⟨(spaced.past i now through).1, by omega⟩
  have distant : ∀ i j now now', i ≠ j → next.letThrough i = some now →
      next.letThrough j = some now' →
      now.toNat + window.toNat ≤ now'.toNat ∨ now'.toNat + window.toNat ≤ now.toNat := by
    intro i j now now' other first second
    rcases moved with ⟨same, -⟩ | ⟨k, time, w, winner, new, others, -⟩
    · rw [same] at first second
      exact spaced.apart i j now now' other first second
    · by_cases left : i = k
      · subst left
        cases new.symm.trans first
        rw [others j (Ne.symm other)] at second
        exact Or.inr (spaced.next_after winner second)
      · rw [others i left] at first
        by_cases right : j = k
        · subst right
          cases new.symm.trans second
          exact Or.inl (spaced.next_after winner first)
        · rw [others j right] at second
          exact spaced.apart i j now now' other first second
  rcases step_cases taken with ⟨method, rfl, rfl⟩ | ⟨i, call, phase, throttle, rfl, here, done, rfl⟩
  · refine ⟨fun call member now w same => ?_, fun now w last member => ?_, advanced, distant⟩
    · rcases List.mem_append.mp member with old | new
      · exact spaced.windowed call old now w same
      · rw [List.mem_singleton.mp new] at same
        cases same
        exact timed
    · rcases List.mem_append.mp member with old | new
      · exact spaced.late now w last old
      · cases List.mem_singleton.mp new
  · have known := List.mem_of_getElem? here
    refine ⟨fun other member now w same => ?_, fun now w last member => ?_, advanced, distant⟩
    · rcases List.mem_or_eq_of_mem_set member with old | rfl
      · exact spaced.windowed other old now w same
      · exact spaced.windowed call known now w same
    · rcases List.mem_or_eq_of_mem_set member with old | new
      · exact spaced.late now w last old
      · obtain ⟨method, waiting⟩ := Call.mk.inj new
        exact done.late method.symm waiting.symm

theorem Spaced.lastLogMs {action : Action} (spaced : Spaced window s)
    (taken : step action s = some next) (positive : window ≠ 0) :
    next.throttle.lastLogMs = s.throttle.lastLogMs ∨
      s.throttle.lastLogMs < next.throttle.lastLogMs := by
  rcases step_letThrough taken positive spaced.windowed with ⟨-, kept⟩ | ⟨i, now, w, winner, -, -, stamped⟩
  · exact Or.inl kept
  · obtain ⟨same, nonzero⟩ := spaced.windowed _ winner now w rfl
    have wide : window.toNat ≠ 0 := fun zero => positive (UInt64.toNat_inj.mp zero)
    have started : now.toNat ≠ 0 := fun zero => nonzero (UInt64.toNat_inj.mp zero)
    rw [stamped, UInt64.lt_iff_toNat_lt]
    rcases spaced.late now w _ winner with never | late
    · rw [never, UInt64.toNat_zero]
      exact Or.inr (by omega)
    · rw [same] at late
      exact Or.inr (by omega)

def Call.logged : Call → Nat
  | ⟨.onErrorAt _ _, .returned (some _)⟩ => 1
  | _ => 0

/-- 1 for an error that has set `in_error` and only has to collect the suppressed count. -/
def Call.logging : Call → Nat
  | ⟨.onErrorAt _ _, .collecting⟩ => 1
  | _ => 0

def Call.recovered : Call → Nat
  | ⟨.onSuccess, .returned (some _)⟩ => 1
  | _ => 0

/-- 1 for a success that has cleared `in_error` and only has to collect the suppressed count. -/
def Call.recovering : Call → Nat
  | ⟨.onSuccess, .collecting⟩ => 1
  | _ => 0

def flag (t : ErrorThrottle) : Nat := if t.inError then 1 else 0

/-- Every recovery has used up the flag of another error. -/
def Alternating (s : State) : Prop :=
  total Call.recovered s.calls + total Call.recovering s.calls + flag s.throttle ≤
    total Call.logged s.calls + total Call.logging s.calls

/-- An operation sets the flag with an error and clears it with a recovery. -/
theorem Operation.alternating (taken : Operation t call.method call.phase phase t') :
    Call.recovered { call with phase := phase } + Call.recovering { call with phase := phase } + flag t' +
        call.logged + call.logging ≤
      Call.logged { call with phase := phase } + Call.logging { call with phase := phase } +
        call.recovered + call.recovering + flag t := by
  obtain ⟨method, before⟩ := call
  cases taken with
  | unthrottled | mark =>
    simp only [Call.recovered, Call.recovering, Call.logged, Call.logging, flag, if_true]
    omega
  | clear flagged => simp [Call.recovered, Call.recovering, Call.logged, Call.logging, flag, flagged]
  | collect method =>
    cases method <;> simp only [Call.recovered, Call.recovering, Call.logged, Call.logging, flag] <;> omega
  | _ => simp [Call.recovered, Call.recovering, Call.logged, Call.logging, flag]

theorem step_alternating {action : Action} (taken : step action s = some next)
    (alternating : Alternating s) : Alternating next := by
  unfold Alternating at alternating ⊢
  rcases step_cases taken with ⟨method, rfl, rfl⟩ | ⟨i, call, phase, throttle, rfl, here, done, rfl⟩
  · simpa [Call.recovered, Call.recovering, Call.logged, Call.logging] using alternating
  · have recovered := @total_set _ Call.recovered _ _ _ here { call with phase := phase }
    have recovering := @total_set _ Call.recovering _ _ _ here { call with phase := phase }
    have logged := @total_set _ Call.logged _ _ _ here { call with phase := phase }
    have logging := @total_set _ Call.logging _ _ _ here { call with phase := phase }
    have flow := done.alternating
    simp only
    omega

theorem spaced_of_run {actions : List Action} (done : run step actions .start = some s)
    (positive : window ≠ 0) (timed : ∀ action ∈ actions, action.windowed window) : Spaced window s := by
  have keep : ∀ action before after, Spaced window before → action.windowed window →
      step action before = some after → Spaced window after :=
    fun _ _ _ before timed taken => step_spaced taken positive timed before
  exact run_invariant_of_forall keep spaced_start timed done

theorem alternating_of_run {actions : List Action} (done : run step actions .start = some s) :
    Alternating s := by
  have keep : ∀ action before after, Alternating before → step action before = some after →
      Alternating after :=
    fun _ _ _ before taken => step_alternating taken before
  have fresh : Alternating .start := Nat.le_refl 0
  exact run_invariant keep fresh done

/-- Errors are logged a window apart, `last_log_ms` only moves forward, and no more recoveries are
reported than errors are logged or about to be. -/
theorem logged_errors_spaced {window : UInt64} {actions : List Action} {s : State} (positive : window ≠ 0)
    (timed : ∀ action ∈ actions, action.windowed window) (done : run step actions .start = some s) :
    (∀ (i j : Nat) (now now' w w' count count' : UInt64), i ≠ j →
      s.calls[i]? = some ⟨.onErrorAt now w, .returned (some count)⟩ →
      s.calls[j]? = some ⟨.onErrorAt now' w', .returned (some count')⟩ →
      now.toNat + window.toNat ≤ now'.toNat ∨ now'.toNat + window.toNat ≤ now.toNat) ∧
    (∀ action next, action.windowed window → step action s = some next →
      next.throttle.lastLogMs = s.throttle.lastLogMs ∨
        s.throttle.lastLogMs < next.throttle.lastLogMs) ∧
    total Call.recovered s.calls ≤ total Call.logged s.calls + total Call.logging s.calls := by
  have spaced := spaced_of_run done positive timed
  refine ⟨fun i j now now' w w' count count' other first second => ?_,
    fun action next _ taken => spaced.lastLogMs taken positive, ?_⟩
  · refine spaced.apart i j now now' other ?_ ?_
    · rw [State.letThrough, first]
      rfl
    · rw [State.letThrough, second]
      rfl
  · have alternating := alternating_of_run done
    unfold Alternating at alternating
    omega

/-- A backend that flaps: two errors are logged, a window apart, and one recovery. -/
theorem logged_errors_spaced_flapping : ∃ s : State,
    s.calls = [⟨.onErrorAt 1 100, .returned (some 0)⟩, ⟨.onSuccess, .returned (some 0)⟩,
      ⟨.onErrorAt 50 100, .returned none⟩, ⟨.onErrorAt 101 100, .returned (some 1)⟩] ∧
    total Call.recovered s.calls ≤ total Call.logged s.calls + total Call.logging s.calls := by
  let trace : List Action :=
    [.call (.onErrorAt 1 100), .advance 0, .advance 0, .advance 0, .advance 0,
      .call .onSuccess, .advance 1, .advance 1, .advance 1,
      .call (.onErrorAt 50 100), .advance 2, .advance 2,
      .call (.onErrorAt 101 100), .advance 3, .advance 3, .advance 3, .advance 3]
  have done : run step trace .start = some _ := rfl
  have timed : ∀ action ∈ trace, action.windowed 100 := by
    simp [trace, Action.windowed]
  exact ⟨_, rfl, (logged_errors_spaced (by decide) timed done).2.2⟩

/-- A recovery is reported before the error it recovers from is: that error has set the flag and has
not collected the suppressed count. -/
theorem recovered_before_logged : ¬ ∀ window actions s, window ≠ 0 →
    (∀ action ∈ actions, Action.windowed window action) → run step actions .start = some s →
    total Call.recovered s.calls ≤ total Call.logged s.calls := by
  intro claimed
  let trace : List Action :=
    [.call (.onErrorAt 1 100), .advance 0, .advance 0, .advance 0,
      .call .onSuccess, .advance 1, .advance 1, .advance 1]
  have done : run step trace .start = some _ := rfl
  have timed : ∀ action ∈ trace, action.windowed 100 := by
    simp [trace, Action.windowed]
  exact absurd (claimed 100 trace _ (by decide) timed done) (by decide)

end RateLimit

end TinyLb.Throttle
