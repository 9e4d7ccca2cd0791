import TinyLb.ErrorLedger
import TinyLb.Throttle

/-! The requests for which there is no backend and what the log says of them. The throttle of a group is
called by every request that selects in it, with an error or with a success, and the operations of the calls
come next to requests and reloads. -/

namespace TinyLb.Outages
open Config Backends Traffic ConnectionLedger Tally Machine
open Throttle (Method Call)

/-- `noBackend g` is the throttle of the group with the calls that were made; `refused` records the groups
that had no backend to select. -/
structure State where
  traffic : System
  noBackend : GroupId → Throttle.State
  refused : List GroupId

def State.start (reg : BackendRegistry) (routes : List RouteConfig) : State :=
  ⟨.start reg routes, fun _ => .start, []⟩

/-- `now` and `window` are what `on_error` reads if it is called. -/
inductive Action where
  | traffic (action : Traffic.Action)
  | select (r : Nat) (now window : UInt64)
  | advance (g : GroupId) (i : Nat)

def isSelection : Traffic.Action → Bool
  | .advance _ .selectBackend => true
  | _ => false

/-- What `handle_request` calls once `select_backend` has answered. -/
def callFor (selected : Option BackendId) (now window : UInt64) : Method :=
  match selected with
  | some _ => .onSuccess
  | none => .onErrorAt now window

/-- A selection comes with the beginning of the call on the throttle of its group. -/
def step : Action → State → Option State
  | .traffic action, s =>
      if isSelection action then none
      else (Traffic.step action s.traffic).map fun next => { s with traffic := next }
  | .select r now window, s =>
      match (s.traffic.requests[r]?).map Request.phase with
      | some (.routed g) =>
          let selected := s.traffic.reg.selectBackend g
          (Traffic.step (.advance r .selectBackend) s.traffic).bind fun next =>
            (Throttle.step (.call (callFor selected now window)) (s.noBackend g)).map fun called =>
              ⟨next, Function.update s.noBackend g called,
                if selected.isNone then s.refused ++ [g] else s.refused⟩
      | _ => none
  | .advance g i, s =>
      (Throttle.step (.advance i) (s.noBackend g)).map fun next =>
        { s with noBackend := Function.update s.noBackend g next }

def unavailable (q : Request) : Bool := q.phase == .finished .serviceUnavailable

/-- No selection is to come for the request. -/
def decided (q : Request) : Bool :=
  match q.phase with
  | .received | .routed _ => false
  | _ => true

section Requests
variable {q q' : Request} {reg reg' : BackendRegistry} {locked : Bool} {refs : BackendId → Nat} {move : Move}
  {s t : System}

def Onwards (q q' : Request) : Prop := unavailable q' = false ∧ (decided q = true → decided q' = true)

theorem onwards_openGuard {b : BackendId} (taken : q.openGuard reg refs b = some (q', reg')) : Onwards q q' := by
  rw [Request.openGuard] at taken
  split at taken
  next =>
    cases taken
    exact ⟨rfl, fun _ => rfl⟩
  next => cases taken

theorem onwards_findGroup (taken : q.step reg locked refs .findGroup = some (q', reg')) : Onwards q q' := by
  cases here : q.phase with
  | received =>
    have before : decided q = false := by rw [decided, here]
    refine ⟨?_, fun after => absurd (before.symm.trans after) Bool.false_ne_true⟩
    simp only [Request.step, here] at taken
    split at taken
    next => cases taken; rfl
    next =>
      split at taken
      next => cases taken; rfl
      next =>
        split at taken
        next => cases taken
        next => split at taken <;> (cases taken; rfl)
  | _ => simp [Request.step, here] at taken

theorem onwards_step (taken : q.step reg locked refs move = some (q', reg')) (other : move ≠ .selectBackend) :
    Onwards q q' := by
  cases move with
  | findGroup => exact onwards_findGroup taken
  | selectBackend => exact absurd rfl other
  | _ =>
    unfold Request.step at taken
    split at taken
    all_goals try contradiction
    all_goals first
      | exact onwards_openGuard taken
      | split at taken <;> first
          | exact onwards_openGuard taken
          | cases taken
            done
          | cases taken
            exact ⟨rfl, fun _ => rfl⟩
      | cases taken
        exact ⟨rfl, fun _ => rfl⟩

theorem available_of_step (taken : q.step reg locked refs move = some (q', reg')) : unavailable q = false := by
  cases here : q.phase with
  | finished outcome => cases move <;> simp [Request.step, here] at taken
  | _ => simp [unavailable, here]

theorem traffic_counts {action : Traffic.Action} (other : isSelection action = false)
    (taken : Traffic.step action s = some t) :
    t.requests.countP unavailable = s.requests.countP unavailable ∧
      s.requests.countP decided ≤ t.requests.countP decided := by
  cases action with
  | arrive path host upgrade =>
    cases taken
    simp [List.countP_append, unavailable, decided]
  | advance r move =>
    obtain ⟨q, q', reg, here, moved, rfl⟩ := advance_cases taken
    have before := available_of_step moved
    obtain ⟨after, onwards⟩ := onwards_step moved (by rintro rfl; cases other)
    have answers := @countP_set_add _ unavailable _ _ _ here q'
    have decisions := @countP_set_add _ decided _ _ _ here q'
    rw [before, after] at answers
    refine ⟨by simpa using answers, ?_⟩
    dsimp only
    cases late : decided q with
    | false =>
      rw [late] at decisions
      simp only [Bool.false_eq_true, if_false] at decisions
      omega
    | true =>
      rw [late, onwards late] at decisions
      omega
  | probe b now healthy => cases taken; exact ⟨rfl, Nat.le_refl _⟩
  | sample b => cases taken; exact ⟨rfl, Nat.le_refl _⟩
  | reloadStart now routes =>
    rcases (reloadStart_cases taken).2 with ⟨e, -, rfl⟩ | ⟨-, rfl⟩ <;> exact ⟨rfl, Nat.le_refl _⟩
  | reloadRoute =>
    obtain ⟨now, routes, route, todo, newGroups, g, reg, -, -, rfl⟩ := reloadRoute_cases taken
    exact ⟨rfl, Nat.le_refl _⟩
  | reloadSwap =>
    obtain ⟨now, routes, newGroups, -, rfl⟩ := reloadSwap_cases taken
    exact ⟨rfl, Nat.le_refl _⟩

theorem select_counts {r : Nat} {g : GroupId} (here : (s.requests[r]?).map Request.phase = some (.routed g))
    (taken : Traffic.step (.advance r .selectBackend) s = some t) :
    t.requests.countP decided = s.requests.countP decided + 1 ∧
      t.requests.countP unavailable =
        s.requests.countP unavailable + if (s.reg.selectBackend g).isNone then 1 else 0 := by
  obtain ⟨q, q', reg, found, moved, rfl⟩ := advance_cases taken
  have phase : q.phase = .routed g := by
    rw [found] at here
    exact Option.some.inj here
  have answers := @countP_set_add _ unavailable _ _ _ found q'
  have decisions := @countP_set_add _ decided _ _ _ found q'
  have waiting : decided q = false := by rw [decided, phase]
  rw [available_of_step moved] at answers
  rw [waiting] at decisions
  simp only [Request.step, phase] at moved
  cases selected : s.reg.selectBackend g with
  | some b =>
    rw [selected] at moved
    dsimp only at moved
    split at moved
    next =>
      cases moved
      exact ⟨decisions, answers⟩
    next => cases moved
  | none =>
    rw [selected] at moved
    cases moved
    exact ⟨decisions, answers⟩

end Requests

section Noticed
variable {t t' : Throttle.ErrorThrottle} {call : Call} {phase : Throttle.Phase} {s next : Throttle.State}

def erring : Call → Nat
  | ⟨.onErrorAt _ _, _⟩ => 1
  | ⟨.onSuccess, _⟩ => 0

/-- 1 for an error that is neither logged nor dropped yet. -/
def underway : Call → Nat
  | ⟨.onErrorAt _ _, .returned _⟩ => 0
  | ⟨.onErrorAt _ _, _⟩ => 1
  | ⟨.onSuccess, _⟩ => 0

theorem erring_eq (call : Call) : erring call = call.logged + call.dropped + underway call := by
  obtain ⟨method, phase⟩ := call
  cases method with
  | onSuccess => cases phase <;> rfl
  | onErrorAt now window =>
    cases phase with
    | returned answer => cases answer <;> rfl
    | _ => rfl

theorem total_erring (calls : List Call) :
    total erring calls = total Call.logged calls + total Call.dropped calls + total underway calls := by
  rw [← total_add, ← total_add]
  exact total_congr fun call _ => erring_eq call

def through : Call → Nat
  | ⟨.onErrorAt _ _, .marking⟩ | ⟨.onErrorAt _ _, .collecting⟩ | ⟨.onErrorAt _ _, .returned (some _)⟩ => 1
  | _ => 0

def Outrun : Call → Prop
  | ⟨.onErrorAt _ _, .exchanging last⟩ => last ≠ 0
  | ⟨.onErrorAt _ _, .counting⟩ | ⟨.onErrorAt _ _, .returned none⟩ => True
  | _ => False

def Timed : Method → Prop
  | .onErrorAt now _ => now ≠ 0
  | .onSuccess => True

/-- Once an error has seen another one there is one that is logged or will be. -/
structure Noticed (s : Throttle.State) : Prop where
  timed : ∀ call ∈ s.calls, Timed call.method
  stamped : ∀ call ∈ s.calls, Outrun call → s.throttle.lastLogMs ≠ 0
  told : s.throttle.lastLogMs ≠ 0 → 0 < total through s.calls

theorem operation_noticed (taken : call.step t = some (phase, t')) (timed : Timed call.method)
    (stamped : Outrun call → t.lastLogMs ≠ 0) :
    (t'.lastLogMs = t.lastLogMs ∨ t'.lastLogMs ≠ 0 ∧ through { call with phase := phase } = 1) ∧
      through call ≤ through { call with phase := phase } ∧
      (Outrun { call with phase := phase } → t'.lastLogMs ≠ 0) := by
  obtain ⟨method, before⟩ := call
  cases method with
  | onSuccess =>
    cases before <;> cases taken <;> exact ⟨Or.inl rfl, Nat.zero_le _, False.elim⟩
  | onErrorAt now window =>
    cases before with
    | entered =>
      simp only [Call.step, Throttle.onErrorAt] at taken
      split at taken
      next =>
        cases taken
        exact ⟨Or.inl rfl, Nat.zero_le _, False.elim⟩
      next =>
        split at taken
        next =>
          cases taken
          exact ⟨Or.inl rfl, Nat.zero_le _, id⟩
        next soon =>
          cases taken
          exact ⟨Or.inl rfl, Nat.zero_le _, fun _ zero => soon (Or.inl zero)⟩
    | exchanging last =>
      simp only [Call.step, Throttle.onErrorAt] at taken
      split at taken
      next =>
        cases taken
        exact ⟨Or.inr ⟨timed, rfl⟩, Nat.zero_le _, False.elim⟩
      next beaten =>
        cases taken
        refine ⟨Or.inl rfl, Nat.zero_le _, fun _ zero => ?_⟩
        exact stamped (fun same => beaten (zero.trans same.symm)) zero
    | marking =>
      cases taken
      exact ⟨Or.inl rfl, Nat.le_refl _, False.elim⟩
    | counting =>
      cases taken
      exact ⟨Or.inl rfl, Nat.zero_le _, stamped⟩
    | collecting =>
      cases taken
      exact ⟨Or.inl rfl, Nat.le_refl _, False.elim⟩
    | clearing => cases taken
    | returned answer => cases taken

theorem noticed_start : Noticed .start := by
  constructor <;> simp [Throttle.State.start, Throttle.ErrorThrottle.new]

theorem noticed_call (noticed : Noticed s) {method : Method} (timed : Timed method)
    (called : Throttle.step (.call method) s = some next) : Noticed next := by
  cases called
  refine ⟨fun call member => ?_, fun call member => ?_, fun stamped => ?_⟩
  · rcases List.mem_append.mp member with old | new
    · exact noticed.timed call old
    · cases List.mem_singleton.mp new
      exact timed
  · rcases List.mem_append.mp member with old | new
    · exact noticed.stamped call old
    · cases List.mem_singleton.mp new
      cases method <;> exact False.elim
  · rw [total_append]
    exact Nat.add_pos_left (noticed.told stamped) _

theorem noticed_advance (noticed : Noticed s) {i : Nat} (moved : Throttle.step (.advance i) s = some next) :
    Noticed next := by
  simp only [Throttle.step] at moved
  split at moved
  next => cases moved
  next call here =>
    split at moved
    next => cases moved
    next phase throttle taken =>
      cases moved
      have member := List.mem_of_getElem? here
      obtain ⟨kept, grown, outrun⟩ :=
        operation_noticed taken (noticed.timed call member) (noticed.stamped call member)
      have stays : s.throttle.lastLogMs ≠ 0 → throttle.lastLogMs ≠ 0 := by
        intro nonzero
        rcases kept with same | ⟨later, -⟩
        · rwa [same]
        · exact later
      have counts := @total_set _ through _ _ _ here { call with phase := phase }
      refine ⟨fun c inside => ?_, fun c inside => ?_, fun stamped => ?_⟩
      · rcases List.mem_or_eq_of_mem_set inside with old | rfl
        · exact noticed.timed c old
        · exact noticed.timed call member
      · rcases List.mem_or_eq_of_mem_set inside with old | rfl
        · exact fun seen => stays (noticed.stamped c old seen)
        · exact outrun
      · dsimp only at stamped ⊢
        rcases kept with same | ⟨-, sure⟩
        · have told := noticed.told (same ▸ stamped)
          omega
        · have inside := (List.getElem?_eq_some_iff.mp here).1
          exact total_pos_iff.mpr ⟨_, List.mem_set inside _, sure ▸ Nat.zero_lt_one⟩

theorem Noticed.logged (noticed : Noticed s) (met : 0 < total erring s.calls)
    (quiet : total underway s.calls = 0) : 0 < total Call.logged s.calls := by
  have sure : total through s.calls ≤ total Call.logged s.calls := by
    have each : ∀ c, through c ≤ c.logged + underway c := by
      rintro ⟨method, phase⟩
      cases method with
      | onSuccess => cases phase <;> exact Nat.zero_le _
      | onErrorAt now window =>
        cases phase with
        | returned answer => cases answer <;> simp [through, Call.logged, underway]
        | _ => simp [through, Call.logged, underway]
    have below := total_le (f := through) fun c (_ : c ∈ s.calls) => each c
    rw [total_add, quiet] at below
    exact below
  rw [total_erring, quiet] at met
  by_contra none
  have dropped : 0 < total Call.dropped s.calls := by omega
  obtain ⟨c, member, fell⟩ := total_pos_iff.mp dropped
  have seen : Outrun c := by
    obtain ⟨method, phase⟩ := c
    cases method with
    | onSuccess => cases phase <;> cases fell
    | onErrorAt now window =>
      cases phase with
      | returned answer =>
        cases answer with
        | none => trivial
        | some suppressed => cases fell
      | _ => cases fell
  have told := noticed.told (noticed.stamped c member seen)
  omega

end Noticed

section Runs
variable {reg : BackendRegistry} {routes : List RouteConfig} {s t : State}

theorem step_cases {action : Action} (taken : step action s = some t) :
    (∃ a next, action = .traffic a ∧ isSelection a = false ∧ Traffic.step a s.traffic = some next ∧
      t = { s with traffic := next }) ∨
    (∃ r now window g next called, action = .select r now window ∧
      (s.traffic.requests[r]?).map Request.phase = some (.routed g) ∧
      Traffic.step (.advance r .selectBackend) s.traffic = some next ∧
      Throttle.step (.call (callFor (s.traffic.reg.selectBackend g) now window)) (s.noBackend g) = some called ∧
      t = ⟨next, Function.update s.noBackend g called,
        if (s.traffic.reg.selectBackend g).isNone then s.refused ++ [g] else s.refused⟩) ∨
    ∃ g i next, action = .advance g i ∧ Throttle.step (.advance i) (s.noBackend g) = some next ∧
      t = { s with noBackend := Function.update s.noBackend g next } := by
  cases action with
  | traffic a =>
    simp only [step] at taken
    split at taken
    next => cases taken
    next other =>
      obtain ⟨next, moved, rfl⟩ := Option.map_eq_some_iff.mp taken
      exact Or.inl ⟨a, next, rfl, by simpa using other, moved, rfl⟩
  | select r now window =>
    simp only [step] at taken
    split at taken
    next g here =>
      obtain ⟨next, moved, taken⟩ := Option.bind_eq_some_iff.mp taken
      obtain ⟨called, begun, rfl⟩ := Option.map_eq_some_iff.mp taken
      exact Or.inr (Or.inl ⟨r, now, window, g, next, called, rfl, here, moved, begun, rfl⟩)
    next => cases taken
  | advance g i =>
    obtain ⟨next, moved, rfl⟩ := Option.map_eq_some_iff.mp taken
    exact Or.inr (Or.inr ⟨g, i, next, rfl, moved, rfl⟩)

theorem noBackend_view (g : GroupId) {action : Action} (taken : step action s = some t) :
    t.noBackend g = s.noBackend g ∨ ∃ a, Throttle.step a (s.noBackend g) = some (t.noBackend g) := by
  have updated : ∀ (a : Throttle.Action) (g' : GroupId) (next : Throttle.State),
      Throttle.step a (s.noBackend g') = some next →
        Function.update s.noBackend g' next g = s.noBackend g ∨
          ∃ a, Throttle.step a (s.noBackend g) = some (Function.update s.noBackend g' next g) := by
    intro a g' next moved
    by_cases same : g = g'
    · subst same
      exact Or.inr ⟨a, by rw [Function.update_self, moved]⟩
    · exact Or.inl (Function.update_of_ne same ..)
  rcases step_cases taken with ⟨a, next, -, -, -, rfl⟩ |
    ⟨r, now, window, g', next, called, -, -, -, begun, rfl⟩ | ⟨g', i, next, -, moved, rfl⟩
  · exact Or.inl rfl
  · exact updated _ g' called begun
  · exact updated _ g' next moved

theorem throttle_reachable {actions : List Action} (done : run step actions s = some t) (g : GroupId) :
    Reachable Throttle.step (s.noBackend g) (t.noBackend g) :=
  @run_projection _ _ step _ _ Throttle.step (fun s => s.noBackend g)
    (fun _ _ _ taken => noBackend_view g taken) _ _ _ done

/-- Every 503 is an error that the throttle of the group was called with, and there are no more calls than
selections. -/
structure Accounted (s : State) : Prop where
  answers : s.traffic.requests.countP unavailable = s.refused.length
  errors : ∀ g, total erring (s.noBackend g).calls = s.refused.count g
  few : ∀ g, (s.noBackend g).calls.length ≤ s.traffic.requests.countP decided

theorem accounted_start (reg : BackendRegistry) (routes : List RouteConfig) : Accounted (.start reg routes) :=
  ⟨rfl, fun _ => rfl, fun _ => Nat.le_refl 0⟩

theorem step_accounted {action : Action} (taken : step action s = some t) (accounted : Accounted s) :
    Accounted t := by
  obtain ⟨answers, errors, few⟩ := accounted
  rcases step_cases taken with ⟨a, next, -, other, moved, rfl⟩ |
    ⟨r, now, window, g, next, called, -, here, moved, begun, rfl⟩ | ⟨g, i, next, -, moved, rfl⟩
  · obtain ⟨same, more⟩ := traffic_counts other moved
    exact ⟨same.trans answers, errors, fun g => Nat.le_trans (few g) more⟩
  · obtain ⟨decisions, refusals⟩ := select_counts here moved
    cases begun
    refine ⟨?_, ?_, ?_⟩
    · dsimp only
      rw [refusals, answers]
      split <;> simp
    · refine (Function.forall_update_iff _ fun g' (x : Throttle.State) => total erring x.calls = List.count g'
        (if (s.traffic.reg.selectBackend g).isNone then s.refused ++ [g] else s.refused)).mpr
          ⟨?_, fun g' other => ?_⟩
      · rw [total_append, errors, total_singleton]
        cases s.traffic.reg.selectBackend g <;> simp [callFor, erring]
      · rw [errors]
        split
        · rw [List.count_append, List.count_singleton, if_neg (by simpa using Ne.symm other), Nat.add_zero]
        · rfl
    · refine (Function.forall_update_iff _ fun _ (x : Throttle.State) =>
        x.calls.length ≤ next.requests.countP decided).mpr ⟨?_, fun g' _ => ?_⟩
      · rw [decisions, List.length_append]
        exact Nat.add_le_add_right (few g) 1
      · rw [decisions]
        exact Nat.le_succ_of_le (few g')
  · rcases Throttle.step_cases moved with ⟨m, differs, -⟩ | ⟨j, call, phase, throttle, -, there, -, rfl⟩
    · cases differs
    · have kept : erring { call with phase := phase } = erring call := by
        obtain ⟨m, before⟩ := call
        cases m <;> rfl
      have same := @total_set _ erring _ _ _ there { call with phase := phase }
      rw [kept] at same
      refine ⟨answers, (Function.forall_update_iff _ fun g' (x : Throttle.State) =>
        total erring x.calls = s.refused.count g').mpr ⟨?_, fun g' _ => errors g'⟩,
        (Function.forall_update_iff _ fun _ (x : Throttle.State) =>
          x.calls.length ≤ s.traffic.requests.countP decided).mpr ⟨?_, fun g' _ => few g'⟩⟩
      · rw [← errors]
        exact Nat.add_right_cancel same
      · rw [List.length_set]
        exact few g

def Action.timed : Action → Prop
  | .select _ now _ => now ≠ 0
  | .traffic _ | .advance _ _ => True

theorem step_noticed {action : Action} (taken : step action s = some t) (timed : action.timed)
    (noticed : ∀ g, Noticed (s.noBackend g)) : ∀ g, Noticed (t.noBackend g) := by
  rcases step_cases taken with ⟨a, next, -, -, -, rfl⟩ |
    ⟨r, now, window, g, next, called, rfl, -, -, begun, rfl⟩ | ⟨g, i, next, -, moved, rfl⟩
  · exact noticed
  · have clock : Timed (callFor (s.traffic.reg.selectBackend g) now window) := by
      cases s.traffic.reg.selectBackend g with
      | none => exact timed
      | some b => trivial
    exact (Function.forall_update_iff _ fun _ => Noticed).mpr
      ⟨noticed_call (noticed g) clock begun, fun g' _ => noticed g'⟩
  · exact (Function.forall_update_iff _ fun _ => Noticed).mpr
      ⟨noticed_advance (noticed g) moved, fun g' _ => noticed g'⟩

/-- Every 503 is in the log of its group: it has a line, it is in the suppressed count of a line or in the
counter, or its call is under way. A group that has answered with one has a line once no call is under way.
There are no more lines about a recovery than about an error. -/
theorem refusals_logged {actions : List Action} (done : run step actions (.start reg routes) = some s)
    (timed : ∀ action ∈ actions, action.timed) (few : s.traffic.requests.length < UInt64.size) :
    s.traffic.requests.countP unavailable = s.refused.length ∧
    ∀ g, s.refused.count g =
        total Call.logged (s.noBackend g).calls + total Call.reported (s.noBackend g).calls +
          (s.noBackend g).throttle.suppressed.toNat + total underway (s.noBackend g).calls ∧
      (g ∈ s.refused → total underway (s.noBackend g).calls = 0 →
        0 < total Call.logged (s.noBackend g).calls) ∧
      total Call.recovered (s.noBackend g).calls ≤
        total Call.logged (s.noBackend g).calls + total Call.logging (s.noBackend g).calls := by
  have accounted : Accounted s := by
    have keep : ∀ action before after, Accounted before → step action before = some after → Accounted after :=
      fun _ _ _ before taken => step_accounted taken before
    exact run_invariant keep (accounted_start reg routes) done
  have noticed : ∀ g, Noticed (s.noBackend g) := by
    have keep : ∀ action before after, (∀ g, Noticed (before.noBackend g)) → Action.timed action →
        step action before = some after → ∀ g, Noticed (after.noBackend g) :=
      fun _ _ _ before timed taken => step_noticed taken timed before
    exact run_invariant_of_forall keep (fun _ => noticed_start) timed done
  refine ⟨accounted.answers, fun g => ?_⟩
  obtain ⟨calls, ran⟩ := throttle_reachable done g
  have fits : (s.noBackend g).calls.length < UInt64.size :=
    Nat.lt_of_le_of_lt (Nat.le_trans (accounted.few g) List.countP_le_length) few
  have errors := accounted.errors g
  refine ⟨?_, fun member quiet => (noticed g).logged (errors ▸ List.count_pos_iff.mpr member) quiet, ?_⟩
  · have conserved := Throttle.conserved_of_few ran fits
    rw [← errors, total_erring, conserved]
    omega
  · have alternating := Throttle.alternating_of_run ran
    unfold Throttle.Alternating at alternating
    omega

/-- Two requests find a drained backend, a third one comes after a reload: a line about the first, one about
the recovery with the second in its count. -/
theorem refusals_logged_recovery : ∃ (reg : BackendRegistry) (s : State),
    BackendRegistry.new 0 [⟨['a'], [⟨['u'], 5, true⟩]⟩] = .ok reg ∧
    Reachable step (.start reg [⟨['a'], [⟨['u'], 5, true⟩]⟩]) s ∧ s.refused = [0, 0] ∧
    (s.noBackend 0).throttle.suppressed = 0 ∧ total Call.recovered (s.noBackend 0).calls = 1 ∧
    s.refused.count 0 =
      total Call.logged (s.noBackend 0).calls + total Call.reported (s.noBackend 0).calls +
        (s.noBackend 0).throttle.suppressed.toNat + total underway (s.noBackend 0).calls ∧
    0 < total Call.logged (s.noBackend 0).calls := by
  let arrival (r : Nat) : List Action :=
    [.traffic (.arrive ['/'] ['a'] false), .traffic (.advance r .findGroup)]
  let trace : List Action :=
    arrival 0 ++ arrival 1 ++ arrival 2 ++
      [.select 0 1 60000, .select 1 2 60000, .advance 0 0, .advance 0 1, .advance 0 0, .advance 0 0, .advance 0 0,
        .advance 0 1, .advance 0 1, .traffic (.reloadStart 1 [⟨['a'], [⟨['u'], 5, false⟩]⟩]),
        .traffic .reloadRoute, .traffic .reloadSwap, .select 2 3 60000, .advance 0 2, .advance 0 2, .advance 0 2]
  let reg : BackendRegistry :=
    ⟨⟨[⟨['u'], 5, true, true, 0, 0, 0⟩]⟩, ⟨[⟨['a'], .exact ['a'], [0], rfl⟩]⟩, [0]⟩
  have built : BackendRegistry.new 0 [⟨['a'], [⟨['u'], 5, true⟩]⟩] = .ok reg := rfl
  let final : Throttle.State :=
    ⟨⟨false, 1, 0⟩, [⟨.onErrorAt 1 60000, .returned (some 0)⟩, ⟨.onErrorAt 2 60000, .returned none⟩,
      ⟨.onSuccess, .returned (some 1)⟩]⟩
  have seen : (run step trace (.start reg [⟨['a'], [⟨['u'], 5, true⟩]⟩])).map
      (fun s => (s.refused, s.noBackend 0, s.traffic.requests.length)) = some ([0, 0], final, 3) := by
    decide +kernel
  obtain ⟨s, done, parts⟩ := Option.map_eq_some_iff.mp seen
  simp only [Prod.mk.injEq] at parts
  obtain ⟨refused, noBackend, requests⟩ := parts
  have timed : ∀ action ∈ trace, action.timed := by
    simp [trace, arrival, Action.timed]
  obtain ⟨-, each⟩ := refusals_logged done timed (by rw [requests]; decide)
  obtain ⟨conserved, noticed, -⟩ := each 0
  refine ⟨reg, s, built, ⟨trace, done⟩, refused, by rw [noBackend], by rw [noBackend]; rfl, conserved, ?_⟩
  exact noticed (by rw [refused]; decide) (by rw [noBackend]; rfl)

end Runs

end TinyLb.Outages
