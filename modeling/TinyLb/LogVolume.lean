import TinyLb.Spacing
import TinyLb.Throttle

/-! How many lines a throttle lets through. Reloads change the window while calls are under way; the
bound holds for the least window there has been. -/

namespace TinyLb.LogVolume
open Machine Tally Throttle Spacing

variable {least : UInt64} {t t' : ErrorThrottle} {s next : State}

/-- A window of at least `least`, and a clock that starts at 1. -/
def Timed (least : UInt64) : Method → Prop
  | .onErrorAt now window => least ≤ window ∧ now ≠ 0
  | .onSuccess => True

def loggedAt : Call → Option Nat
  | ⟨.onErrorAt now _, .returned (some _)⟩ => some now.toNat
  | _ => none

def passedAt (call : Call) : Option Nat := call.letThrough.map UInt64.toNat

def passed (s : State) : List Nat := s.calls.filterMap passedAt

theorem passedAt_of_loggedAt (call : Call) (time : Nat) (logged : loggedAt call = some time) :
    passedAt call = some time := by
  unfold loggedAt at logged
  split at logged
  next => exact logged
  next => cases logged

theorem filterMap_sublist {α β : Type} {f g : α → Option β} (more : ∀ x y, f x = some y → g x = some y)
    (l : List α) : (l.filterMap f).Sublist (l.filterMap g) := by
  induction l with
  | nil => exact List.Sublist.slnil
  | cons x rest ih =>
    cases found : f x with
    | some y =>
      rw [List.filterMap_cons_some found, List.filterMap_cons_some (more x y found)]
      exact ih.cons_cons y
    | none =>
      rw [List.filterMap_cons_none found]
      cases also : g x with
      | none =>
        rw [List.filterMap_cons_none also]
        exact ih
      | some y =>
        rw [List.filterMap_cons_some also]
        exact ih.cons y

theorem exists_parts {α : Type} {l : List α} {i : Nat} {x : α} (here : l[i]? = some x) :
    ∃ before after, l = before ++ x :: after ∧ ∀ y, l.set i y = before ++ y :: after := by
  obtain ⟨inside, rfl⟩ := List.getElem?_eq_some_iff.mp here
  refine ⟨l.take i, l.drop (i + 1), by simp, fun y => ?_⟩
  rw [List.set_eq_take_append_cons_drop, if_pos inside]

theorem total_le_length_filterMap {α β : Type} {f : α → Nat} {g : α → Option β}
    (counted : ∀ x, f x ≤ (g x).toList.length) (l : List α) :
    total f l ≤ (l.filterMap g).length := by
  induction l with
  | nil => exact Nat.le_refl 0
  | cons x rest ih =>
    have first := counted x
    rw [total_cons]
    cases found : g x with
    | some y =>
      rw [found] at first
      rw [List.filterMap_cons_some found, List.length_cons]
      simp only [Option.toList_some, List.length_singleton] at first
      omega
    | none =>
      rw [found] at first
      rw [List.filterMap_cons_none found]
      simp only [Option.toList_none, List.length_nil] at first
      omega

theorem total_logging_le (s : State) :
    total Call.logged s.calls + total Call.logging s.calls ≤ (passed s).length := by
  rw [← total_add]
  apply total_le_length_filterMap
  rintro ⟨method, phase⟩
  cases method with
  | onErrorAt now window =>
    cases phase with
    | returned answer => cases answer <;> exact Nat.le_refl _
    | marking => exact Nat.zero_le _
    | _ => exact Nat.le_refl _
  | onSuccess => exact Nat.zero_le _

/-- Every error let through is `least` or more away from every other, and none is after
`last_log_ms`. -/
structure Paced (least : UInt64) (s : State) : Prop where
  timed : ∀ call ∈ s.calls, Timed least call.method
  late : ∀ now window last, ⟨.onErrorAt now window, .exchanging last⟩ ∈ s.calls →
    last = 0 ∨ last.toNat + window.toNat ≤ now.toNat
  past : ∀ time ∈ passed s, 0 < time ∧ time ≤ s.throttle.lastLogMs.toNat
  apart : (passed s).Pairwise (Apart least.toNat)

theorem paced_start : Paced least .start where
  timed call member := by cases member
  late now window last member := by cases member
  past time member := by cases member
  apart := List.Pairwise.nil

theorem step_passed {action : Throttle.Action} (taken : step action s = some next) (positive : least ≠ 0)
    (timed : ∀ call ∈ s.calls, Timed least call.method) :
    (passed next = passed s ∧ next.throttle.lastLogMs = s.throttle.lastLogMs) ∨
      ∃ now window before after, ⟨.onErrorAt now window, .exchanging s.throttle.lastLogMs⟩ ∈ s.calls ∧
        passed s = before ++ after ∧ passed next = before ++ now.toNat :: after ∧
        next.throttle.lastLogMs = now := by
  rcases step_cases taken with ⟨method, rfl, rfl⟩ | ⟨i, call, phase, throttle, rfl, here, done, rfl⟩
  · have silent : passedAt ⟨method, .entered⟩ = none := by cases method <;> rfl
    exact Or.inl ⟨by simp [passed, silent], rfl⟩
  · have member := List.mem_of_getElem? here
    obtain ⟨first, rest, parts, changed⟩ := exists_parts here
    let before := first.filterMap passedAt
    let after := rest.filterMap passedAt
    have around : ∀ call, (first ++ call :: rest).filterMap passedAt =
        before ++ ((passedAt call).toList ++ after) := by
      intro call
      rw [List.filterMap_append, List.filterMap_cons]
      cases passedAt call <;> rfl
    have old : passed s = before ++ ((passedAt call).toList ++ after) := by rw [passed, parts, around]
    have new : ∀ phase, (s.calls.set i { call with phase := phase }).filterMap passedAt =
        before ++ ((passedAt { call with phase := phase }).toList ++ after) :=
      fun phase => by rw [changed, around]
    have throttled : ∀ now window, call.method = .onErrorAt now window → window ≠ 0 := by
      intro now window called zero
      have wide := timed call member
      rw [called, zero] at wide
      exact positive (UInt64.le_antisymm wide.1 UInt64.zero_le)
    rcases done.letThrough throttled with ⟨same, kept⟩ | ⟨now, window, rfl, rfl, stamped⟩
    · apply Or.inl
      have still : passedAt { call with phase := phase } = passedAt call :=
        congrArg (Option.map UInt64.toNat) same
      exact ⟨by rw [passed, new, still, old], kept⟩
    · exact Or.inr ⟨now, window, before, after, member, old, new .marking, stamped⟩

theorem Paced.next_after (paced : Paced least s) {now window : UInt64}
    (winner : ⟨.onErrorAt now window, .exchanging s.throttle.lastLogMs⟩ ∈ s.calls) {time : Nat}
    (through : time ∈ passed s) : time + least.toNat ≤ now.toNat := by
  obtain ⟨positive, past⟩ := paced.past time through
  have wide := UInt64.le_iff_toNat_le.mp (paced.timed _ winner).1
  rcases paced.late now window _ winner with never | late
  · rw [never, UInt64.toNat_zero] at past
    omega
  · omega

theorem step_paced {action : Throttle.Action} (taken : step action s = some next) (positive : least ≠ 0)
    (called : ∀ method, action = .call method → Timed least method) (paced : Paced least s) :
    Paced least next := by
  have timed : ∀ call ∈ next.calls, Timed least call.method := by
    rcases step_cases taken with ⟨method, rfl, rfl⟩ | ⟨i, call, phase, throttle, rfl, here, -, rfl⟩
    · intro call member
      rcases List.mem_append.mp member with old | new
      · exact paced.timed call old
      · rw [List.mem_singleton.mp new]
        exact called method rfl
    · intro other member
      rcases List.mem_or_eq_of_mem_set member with old | rfl
      · exact paced.timed other old
      · exact paced.timed call (List.mem_of_getElem? here)
  have late : ∀ now window last, ⟨.onErrorAt now window, .exchanging last⟩ ∈ next.calls →
      last = 0 ∨ last.toNat + window.toNat ≤ now.toNat := by
    rcases step_cases taken with ⟨method, rfl, rfl⟩ | ⟨i, call, phase, throttle, rfl, here, done, rfl⟩
    · intro now window last member
      rcases List.mem_append.mp member with old | new
      · exact paced.late now window last old
      · cases List.mem_singleton.mp new
    · intro now window last member
      rcases List.mem_or_eq_of_mem_set member with old | new
      · exact paced.late now window last old
      · obtain ⟨method, waiting⟩ := Call.mk.inj new
        exact done.late method.symm waiting.symm
  rcases step_passed taken positive paced.timed with
    ⟨same, kept⟩ | ⟨now, window, before, after, winner, old, new, stamped⟩
  · exact ⟨timed, late, by rw [same, kept]; exact paced.past, by rw [same]; exact paced.apart⟩
  · have gap : ∀ time ∈ before ++ after, time + least.toNat ≤ now.toNat := by
      rw [← old]
      exact fun time => paced.next_after winner
    have started : 0 < now.toNat := by
      apply Nat.pos_of_ne_zero
      intro zero
      exact (paced.timed _ winner).2 (UInt64.toNat_inj.mp zero)
    refine ⟨timed, late, ?_, ?_⟩
    · intro time member
      rw [new] at member
      rw [stamped]
      rcases List.mem_cons.mp (List.perm_middle.mem_iff.mp member) with rfl | earlier
      · exact ⟨started, Nat.le_refl _⟩
      · have known := paced.past time (by rw [old]; exact earlier)
        have behind := gap time earlier
        exact ⟨known.1, by omega⟩
    · have apart := paced.apart
      rw [old] at apart
      rw [new, List.pairwise_middle Apart.symm, List.pairwise_cons]
      exact ⟨fun time member => Or.inr (gap time member), apart⟩

theorem paced_of_run {actions : List Throttle.Action} (positive : least ≠ 0)
    (timed : ∀ method, .call method ∈ actions → Timed least method)
    (done : run step actions .start = some s) : Paced least s := by
  let called (action : Throttle.Action) : Prop := ∀ method, action = .call method → Timed least method
  have keep : ∀ action before after, Paced least before → called action →
      step action before = some after → Paced least after :=
    fun _ _ _ before called taken => step_paced taken positive called before
  have all : ∀ action ∈ actions, called action := by
    intro action member method same
    exact timed method (same ▸ member)
  exact run_invariant_of_forall keep paced_start all done

/-- In any interval a throttle logs at most one error for each least window begun in it. Until any
time, errors and recoveries together are at most twice as many. -/
theorem lines_bounded {actions : List Throttle.Action} (positive : least ≠ 0)
    (timed : ∀ method, .call method ∈ actions → Timed least method)
    (done : run step actions .start = some s) :
    (∀ low high, ((s.calls.filterMap loggedAt).filter fun time => low ≤ time ∧ time ≤ high).length ≤
      (high - low) / least.toNat + 1) ∧
    ∀ latest, (∀ time ∈ passed s, time ≤ latest) →
      total Call.logged s.calls + total Call.recovered s.calls ≤
        2 * ((latest - 1) / least.toNat + 1) := by
  have paced := paced_of_run positive timed done
  have wide : 0 < least.toNat := by
    apply Nat.pos_of_ne_zero
    intro zero
    exact positive (UInt64.toNat_inj.mp zero)
  apply And.intro
  · intro low high
    have logged := filterMap_sublist passedAt_of_loggedAt s.calls
    have apart := paced.apart.sublist logged
    apply length_le_of_apart (apart.sublist List.filter_sublist) wide
    intro time member
    exact of_decide_eq_true (List.mem_filter.mp member).2
  · intro latest before
    have few : (passed s).length ≤ (latest - 1) / least.toNat + 1 := by
      apply length_le_of_apart paced.apart wide
      intro time member
      exact ⟨(paced.past time member).1, before time member⟩
    have counted := total_logging_le s
    have alternating := alternating_of_run done
    unfold Alternating at alternating
    omega

/-- A backend that flaps while a reload halves the window. -/
theorem lines_bounded_flapping : ∃ s : State,
    s.calls = [⟨.onErrorAt 1 100, .returned (some 0)⟩, ⟨.onSuccess, .returned (some 0)⟩,
      ⟨.onErrorAt 50 100, .returned none⟩, ⟨.onErrorAt 51 50, .returned (some 1)⟩] ∧
    total Call.logged s.calls + total Call.recovered s.calls ≤ 2 * ((51 - 1) / 50 + 1) := by
  let trace : List Throttle.Action :=
    [.call (.onErrorAt 1 100), .advance 0, .advance 0, .advance 0, .advance 0,
      .call .onSuccess, .advance 1, .advance 1, .advance 1,
      .call (.onErrorAt 50 100), .advance 2, .advance 2,
      .call (.onErrorAt 51 50), .advance 3, .advance 3, .advance 3, .advance 3]
  have done : run step trace .start = some _ := rfl
  have timed : ∀ method, .call method ∈ trace → Timed 50 method := by
    intro method member
    simp only [trace, List.mem_cons, Action.call.injEq, reduceCtorEq, false_or, List.not_mem_nil,
      or_false] at member
    rcases member with rfl | rfl | rfl | rfl <;> simp [Timed]
  exact ⟨_, rfl, (lines_bounded (by decide) timed done).2 51 (by decide)⟩

end TinyLb.LogVolume
