import TinyLb.Sampling
import Mathlib.Data.List.Dedup

/-! How old the published samples are, in rounds of the sampler, while reloads add and remove
backends. A ring loses a sample only when its own URL is recorded again. -/

namespace TinyLb.Staleness
open Config Backends StatsStore Sampling Machine

section Rings
variable {older recent : List Sample}

theorem length_latest (samples : List Sample) :
    (latest samples).length = samples.length - (samples.length - maxSamples) :=
  List.length_drop ..

theorem latest_eq_nil {samples : List Sample} : latest samples = [] ↔ samples = [] := by
  have positive : 0 < maxSamples := by decide
  rw [← List.length_eq_zero_iff, ← List.length_eq_zero_iff, length_latest]
  omega

theorem latest_suffix_iff :
    latest (older ++ recent) <:+ recent ↔ older = [] ∨ maxSamples ≤ recent.length := by
  constructor
  · intro ends
    have short := ends.length_le
    rw [length_latest, List.length_append] at short
    rw [← List.length_eq_zero_iff]
    omega
  · rintro (rfl | enough)
    · exact List.drop_suffix _ _
    · have passed : (older ++ recent).length - maxSamples =
          older.length + (recent.length - maxSamples) := by
        rw [List.length_append]
        omega
      rw [latest, passed, List.drop_length_add_append]
      exact List.drop_suffix _ _

end Rings

def older (s : State) : List (Str × Sample) :=
  (s.past.take (s.past.length - maxSamples)).flatMap Tick.samples

def recent (s : State) : List (Str × Sample) :=
  (s.past.drop (s.past.length - maxSamples)).flatMap Tick.samples ++ s.current.samples

/-- The store has nothing but samples of the last 24 hours, of URLs that were configured then. -/
structure Fresh (s : State) : Prop where
  samples : ∀ entry ∈ s.stats.data, entry.2 <:+ recordedFor entry.1 (recent s)
  urls : ∀ url ∈ s.stats.data.map Prod.fst, url ∈ (recent s).map Prod.fst
  size : s.stats.data.length ≤ ((recent s).map Prod.fst).dedup.length

section States
variable {s t : State} {url : Str}

theorem recordedFor_recorded (s : State) (url : Str) :
    recordedFor url s.recorded = recordedFor url (older s) ++ recordedFor url (recent s) := by
  have whole : s.recorded = older s ++ recent s := by
    rw [State.recorded, older, recent, ← List.append_assoc, ← List.flatMap_append, List.take_append_drop]
  rw [whole, recordedFor, recordedFor, recordedFor, List.filter_append, List.map_append]

theorem mem_of_recordedFor {recorded : List (Str × Sample)} (some : recordedFor url recorded ≠ []) :
    url ∈ recorded.map Prod.fst := by
  obtain ⟨sample, member⟩ := List.exists_mem_of_ne_nil _ some
  obtain ⟨x, kept, -⟩ := List.mem_map.mp member
  obtain ⟨there, same⟩ := List.mem_filter.mp kept
  exact List.mem_map.mpr ⟨x, there, beq_iff_eq.mp same⟩

def Listed (s : State) : Prop := ∀ url ∈ s.stats.data.map Prod.fst, s.stats.series url ≠ []

theorem pushSample_ne_nil (ring : List Sample) (sample : Sample) : pushSample ring sample ≠ [] :=
  List.append_ne_nil_of_right_ne_nil _ (List.cons_ne_nil _ _)

theorem step_listed {action : Action} (taken : step action s = some t) (listed : Listed s) : Listed t := by
  cases step_change taken with
  | record time walk b c e here result =>
    intro other member
    rw [result] at member ⊢
    by_cases same : other = (s.traffic.reg.backend b).url
    · subst same
      rw [Stats.series_record_self]
      exact pushSample_ne_nil _ _
    · rw [Stats.series_record_of_ne _ same]
      exact listed other ((mem_upsert_names.mp member).resolve_left same)
  | traffic action next outside moved result => rw [result]; exact listed
  | wake here unlocked result => rw [result]; exact listed
  | enter walk after here entered result => rw [result]; exact listed
  | load walk after b here stepped result => rw [result]; exact listed
  | swap walk b c here result => rw [result]; exact listed
  | rest walk here finished result => rw [result]; exact listed

theorem samples_fresh_iff (published : Published s) :
    (∀ entry ∈ s.stats.data, entry.2 <:+ recordedFor entry.1 (recent s)) ↔
      ∀ url, recordedFor url (older s) = [] ∨ maxSamples ≤ (recordedFor url (recent s)).length := by
  have ring : ∀ url, s.stats.series url =
      latest (recordedFor url (older s) ++ recordedFor url (recent s)) :=
    fun url => (published url).trans (congrArg latest (recordedFor_recorded s url))
  constructor
  · intro fresh url
    by_cases listed : url ∈ s.stats.data.map Prod.fst
    · obtain ⟨entry, member, rfl⟩ := List.mem_map.mp listed
      rw [← latest_suffix_iff, ← ring, Stats.series, seriesOf_mem s.stats.distinct member]
      exact fresh entry member
    · have none := ring url
      rw [Stats.series, seriesOf_absent listed] at none
      exact Or.inl (List.append_eq_nil_iff.mp (latest_eq_nil.mp none.symm)).1
  · intro filled entry member
    rw [← seriesOf_mem s.stats.distinct member]
    change s.stats.series entry.1 <:+ _
    rw [ring, latest_suffix_iff]
    exact filled entry.1

theorem fresh_of_samples (listed : Listed s)
    (samples : ∀ entry ∈ s.stats.data, entry.2 <:+ recordedFor entry.1 (recent s)) : Fresh s := by
  have urls : ∀ url ∈ s.stats.data.map Prod.fst, url ∈ (recent s).map Prod.fst := by
    intro url known
    obtain ⟨entry, member, rfl⟩ := List.mem_map.mp known
    have filled := listed entry.1 known
    rw [Stats.series, seriesOf_mem s.stats.distinct member] at filled
    refine mem_of_recordedFor fun none => filled ?_
    have ends := samples entry member
    rw [none] at ends
    exact List.suffix_nil.mp ends
  refine ⟨samples, urls, ?_⟩
  have inside := s.stats.distinct.length_le_of_subset fun url known => List.mem_dedup.mpr (urls url known)
  rw [List.length_map] at inside
  exact inside

end States

section Runs
variable {now : Instant} {routes : List RouteConfig} {reg : BackendRegistry} {actions : List Action}
  {s : State}

/-- At every point of a run the store is fresh exactly if every URL with a sample from before the last
1440 rounds has got 1440 samples since. -/
theorem store_fresh_iff (done : run step actions (.start reg routes) = some s) :
    Fresh s ↔
      ∀ url, recordedFor url (older s) = [] ∨ maxSamples ≤ (recordedFor url (recent s)).length := by
  have initial : Listed (.start reg routes) := fun url none => (by cases none)
  have listed : Listed s :=
    run_invariant (fun _ _ _ listed taken => step_listed taken listed) initial done
  rw [← samples_fresh_iff (run_published done)]
  exact ⟨Fresh.samples, fresh_of_samples listed⟩

def site : BackendRegistry :=
  ⟨⟨[⟨['u'], 5, false, true, 0, 0, 0⟩]⟩, ⟨[⟨['s'], .exact ['s'], [0], rfl⟩]⟩, [0]⟩

def siteRoutes : List RouteConfig := [⟨['s'], [⟨['u'], 5, false⟩]⟩]

def siteRound : List Action := [.wake, .enter, .load, .swap, .record 60, .rest]

def siteTick : Tick := ⟨[⟨0, 0, 0, 0⟩], [(['u'], ⟨60, 0, 0⟩)]⟩

theorem site_rounds (n : Nat) : ∃ stats, run step (List.replicate n siteRound).flatten (.start site siteRoutes) =
    some ⟨.start site siteRoutes, stats, .asleep, List.replicate n siteTick, .empty⟩ := by
  induction n with
  | zero => exact ⟨_, rfl⟩
  | succ n ih =>
    obtain ⟨stats, done⟩ := ih
    rw [List.replicate_succ', List.flatten_append, List.flatten_singleton, List.replicate_succ']
    exact ⟨_, run_trans done rfl⟩

theorem site_recorded (n : Nat) :
    (List.replicate n siteTick).flatMap Tick.samples = List.replicate n (['u'], ⟨60, 0, 0⟩) := by
  induction n with
  | zero => rfl
  | succ n ih =>
    rw [List.replicate_succ, List.flatMap_cons, ih, List.replicate_succ]
    rfl

/-- More than a day of rounds for one backend: its first sample is too old, and has left the ring. -/
theorem store_fresh_iff_young : ∃ reg s, BackendRegistry.new 0 siteRoutes = .ok reg ∧
    Reachable step (.start reg siteRoutes) s ∧ s.past.length = maxSamples + 1 ∧
    recordedFor ['u'] (older s) = [⟨60, 0, 0⟩] ∧ Fresh s := by
  obtain ⟨stats, done⟩ := site_rounds (maxSamples + 1)
  let s : State := ⟨.start site siteRoutes, stats, .asleep, List.replicate (maxSamples + 1) siteTick, .empty⟩
  have passed : s.past.length - maxSamples = 1 := by
    rw [List.length_replicate, Nat.add_sub_cancel_left]
  have past : older s = List.replicate 1 (['u'], ⟨60, 0, 0⟩) := by
    rw [older, passed, ← site_recorded]
    rfl
  have late : recent s = List.replicate maxSamples (['u'], ⟨60, 0, 0⟩) := by
    rw [recent, passed, List.drop_replicate, Nat.add_sub_cancel, site_recorded]
    exact List.append_nil _
  refine ⟨site, s, rfl, ⟨_, done⟩, List.length_replicate, past ▸ rfl, (store_fresh_iff done).mpr fun url => ?_⟩
  by_cases same : url = ['u']
  · refine Or.inr (Nat.le_of_eq ?_)
    rw [late, recordedFor, same, List.length_map, List.filter_replicate, if_pos (beq_self_eq_true _),
      List.length_replicate]
  · refine Or.inl ?_
    have other : ¬(['u'] == url) = true := fun equal => same (beq_iff_eq.mp equal).symm
    rw [past, recordedFor, List.filter_replicate, if_neg other]
    rfl

theorem idle_round {s : State} (asleep : s.sampler = .asleep) (fresh : s.current = .empty)
    (unlocked : s.traffic.reload = none) (empty : s.traffic.reg.groups = []) :
    run step [.wake, .rest] s = some { s with past := s.past ++ [.empty] } := by
  have begun : Rounds.Walk.begin s.traffic.reg = ⟨[], [], []⟩ := congrArg (Rounds.Walk.mk · [] []) empty
  have woken : step .wake s = some { s with sampler := .walking ⟨[], [], []⟩ } := by
    simp [step, asleep, unlocked, begun]
  refine run_cons_some.mpr ⟨_, woken, run_single.mpr ?_⟩
  obtain ⟨traffic, stats, sampler, past, current⟩ := s
  simp only at asleep fresh
  rw [asleep, fresh]
  rfl

theorem idle_rounds {s : State} (asleep : s.sampler = .asleep) (fresh : s.current = .empty)
    (unlocked : s.traffic.reload = none) (empty : s.traffic.reg.groups = []) (n : Nat) :
    run step (List.replicate n [.wake, .rest]).flatten s =
      some { s with past := s.past ++ List.replicate n .empty } := by
  induction n with
  | zero => simp
  | succ n ih =>
    rw [List.replicate_succ', List.flatten_append, List.flatten_singleton]
    have next := @idle_round { s with past := s.past ++ List.replicate n .empty } asleep fresh unlocked
      empty
    rw [List.append_assoc, ← List.replicate_succ'] at next
    exact run_trans ih next

theorem recent_idle (s : State) (past : List Tick) :
    recent { s with past := past ++ List.replicate maxSamples .empty } = s.current.samples := by
  have passed : (past ++ List.replicate maxSamples Tick.empty).length - maxSamples = past.length := by
    rw [List.length_append, List.length_replicate, Nat.add_sub_cancel]
  have silent : (List.replicate maxSamples Tick.empty).flatMap Tick.samples = [] := by
    rw [List.flatMap_eq_nil_iff]
    intro tick member
    rw [List.eq_of_mem_replicate member]
    rfl
  rw [recent, passed, List.drop_left, silent, List.nil_append]

/-- All routes are removed after the first round: a day later its sample is still there. -/
theorem store_fresh_removed : ¬ ∀ now routes reg actions s, BackendRegistry.new now routes = .ok reg →
    run step actions (.start reg routes) = some s → Fresh s := by
  intro claimed
  let removed : List Action :=
    [.wake, .enter, .load, .swap, .record 60, .rest, .traffic (.reloadStart 0 []), .traffic .reloadSwap]
  have first : ∃ s, run step removed (.start site siteRoutes) = some s ∧ s.sampler = .asleep ∧
      s.current = .empty ∧ s.traffic.reload = none ∧ s.traffic.reg.groups = [] ∧
      s.stats.data = [(['u'], [⟨60, 0, 0⟩])] := ⟨_, rfl, rfl, rfl, rfl, rfl, rfl⟩
  obtain ⟨s, reached, asleep, current, unlocked, empty, data⟩ := first
  have done := run_trans reached (idle_rounds asleep current unlocked empty maxSamples)
  have listed : (['u'], [⟨60, 0, 0⟩]) ∈ s.stats.data := by
    rw [data]
    exact List.mem_singleton.mpr rfl
  have fresh := (claimed 0 siteRoutes site _ _ rfl done).samples _ listed
  rw [recent_idle, current] at fresh
  exact List.cons_ne_nil _ _ (List.suffix_nil.mp fresh)

end Runs

end TinyLb.Staleness
