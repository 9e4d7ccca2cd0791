import Mathlib.Logic.Basic

/-! Runs of a machine given by a partial step function. `step a s` is `none`
where the action `a` is not enabled in `s`, so a run is a list of actions that
are enabled one after the other. Concurrent components become machines whose
actions name the party that moves, and a schedule is such a list. -/

namespace TinyLb.Machine

universe u v
variable {α : Type u} {σ : Type v} {step : α → σ → Option σ}

def run (step : α → σ → Option σ) : List α → σ → Option σ
  | [], s => some s
  | a :: rest, s => (step a s).bind (run step rest)

@[simp] theorem run_nil (s : σ) : run step [] s = some s := rfl

theorem run_cons (a : α) (rest : List α) (s : σ) :
    run step (a :: rest) s = (step a s).bind (run step rest) := rfl

theorem run_cons_some {a : α} {rest : List α} {s t : σ} :
    run step (a :: rest) s = some t ↔ ∃ mid, step a s = some mid ∧ run step rest mid = some t := by
  rw [run_cons, Option.bind_eq_some_iff]

theorem run_append (before after : List α) (s : σ) :
    run step (before ++ after) s = (run step before s).bind (run step after) := by
  induction before generalizing s with
  | nil => rfl
  | cons a rest ih =>
    simp only [List.cons_append, run_cons, Option.bind_assoc]
    exact congrArg (Option.bind (step a s)) (funext ih)

theorem run_append_some {before after : List α} {s t : σ} :
    run step (before ++ after) s = some t ↔
      ∃ mid, run step before s = some mid ∧ run step after mid = some t := by
  rw [run_append, Option.bind_eq_some_iff]

theorem run_trans {before after : List α} {s mid t : σ} (first : run step before s = some mid)
    (second : run step after mid = some t) : run step (before ++ after) s = some t :=
  run_append_some.mpr ⟨mid, first, second⟩

theorem run_single {a : α} {s t : σ} : run step [a] s = some t ↔ step a s = some t := by
  simp [run_cons, Option.bind_eq_some_iff]

theorem run_snoc_some {actions : List α} {a : α} {s t : σ} :
    run step (actions ++ [a]) s = some t ↔
      ∃ mid, run step actions s = some mid ∧ step a mid = some t := by
  simp only [run_append_some, run_single]

def Visits (step : α → σ → Option σ) (actions : List α) (s v : σ) : Prop :=
  ∃ before after, actions = before ++ after ∧ run step before s = some v

theorem Visits.start (actions : List α) (s : σ) : Visits step actions s s :=
  ⟨[], actions, rfl, rfl⟩

theorem Visits.finish {actions : List α} {s t : σ} (done : run step actions s = some t) :
    Visits step actions s t :=
  ⟨actions, [], (List.append_nil _).symm, done⟩

theorem Visits.extend {actions : List α} {s v : σ} (seen : Visits step actions s v) (a : α) :
    Visits step (actions ++ [a]) s v := by
  obtain ⟨before, after, rfl, reached⟩ := seen
  exact ⟨before, after ++ [a], List.append_assoc .., reached⟩

theorem visits_nil {s v : σ} : Visits step [] s v ↔ v = s := by
  constructor
  · rintro ⟨before, after, whole, reached⟩
    obtain ⟨rfl, -⟩ := List.append_eq_nil_iff.mp whole.symm
    exact (Option.some.inj reached).symm
  · rintro rfl
    exact .start [] _

theorem visits_cons {a : α} {rest : List α} {s v : σ} :
    Visits step (a :: rest) s v ↔ v = s ∨ ∃ mid, step a s = some mid ∧ Visits step rest mid v := by
  constructor
  · rintro ⟨before, after, whole, reached⟩
    cases before with
    | nil => exact Or.inl (Option.some.inj reached).symm
    | cons a' before =>
      obtain ⟨rfl, rfl⟩ := List.cons.inj whole
      obtain ⟨mid, taken, later⟩ := run_cons_some.mp reached
      exact Or.inr ⟨mid, taken, before, after, rfl, later⟩
  · rintro (rfl | ⟨mid, taken, before, after, rfl, reached⟩)
    · exact .start _ _
    · exact ⟨a :: before, after, rfl, run_cons_some.mpr ⟨mid, taken, reached⟩⟩

/-- Every action of the run is taken in a state that satisfies `ok` for it. -/
def Conforms (step : α → σ → Option σ) (ok : α → σ → Prop) : List α → σ → Prop
  | [], _ => True
  | a :: rest, s => ok a s ∧ ∀ t, step a s = some t → Conforms step ok rest t

theorem Conforms.cons {ok : α → σ → Prop} {a : α} {rest : List α} {s t : σ} (first : ok a s)
    (taken : step a s = some t) (later : Conforms step ok rest t) : Conforms step ok (a :: rest) s := by
  refine ⟨first, fun other same => ?_⟩
  rw [taken] at same
  cases same
  exact later

theorem Conforms.append {ok : α → σ → Prop} {before after : List α} {s mid : σ}
    (all : Conforms step ok (before ++ after) s) (reached : run step before s = some mid) :
    Conforms step ok before s ∧ Conforms step ok after mid := by
  induction before generalizing s with
  | nil =>
    cases reached
    exact ⟨trivial, all⟩
  | cons a rest ih =>
    obtain ⟨next, first, later⟩ := run_cons_some.mp reached
    obtain ⟨tail, target⟩ := ih (all.2 next first) later
    refine ⟨⟨all.1, fun other taken => ?_⟩, target⟩
    rw [first] at taken
    cases taken
    exact tail

theorem Conforms.mono {ok weaker : α → σ → Prop} (imp : ∀ a s, ok a s → weaker a s) {actions : List α}
    {s : σ} (all : Conforms step ok actions s) : Conforms step weaker actions s := by
  induction actions generalizing s with
  | nil => trivial
  | cons a rest ih => exact ⟨imp a s all.1, fun t taken => ih (all.2 t taken)⟩

theorem Conforms.of_forall {ok : α → σ → Prop} {actions : List α} (each : ∀ a ∈ actions, ∀ s, ok a s) (s : σ) :
    Conforms step ok actions s := by
  induction actions generalizing s with
  | nil => trivial
  | cons a rest ih =>
    obtain ⟨head, tail⟩ := List.forall_mem_cons.mp each
    exact ⟨head s, fun t _ => ih tail t⟩

theorem Conforms.and_forall {ok : α → σ → Prop} {each : α → Prop} {actions : List α} {s : σ}
    (all : Conforms step ok actions s) (listed : ∀ a ∈ actions, each a) :
    Conforms step (fun a s => ok a s ∧ each a) actions s := by
  induction actions generalizing s with
  | nil => trivial
  | cons a rest ih =>
    obtain ⟨head, tail⟩ := List.forall_mem_cons.mp listed
    exact ⟨⟨all.1, head⟩, fun t taken => ih (all.2 t taken) tail⟩

/-- The invariant rule. -/
theorem run_invariant {I : σ → Prop} (keep : ∀ a s t, I s → step a s = some t → I t)
    {actions : List α} {s t : σ} (initial : I s) (done : run step actions s = some t) : I t := by
  induction actions generalizing s with
  | nil =>
    cases done
    exact initial
  | cons a rest ih =>
    obtain ⟨mid, first, later⟩ := run_cons_some.mp done
    exact ih (keep a s mid initial first) later

theorem run_invariant_of_forall {each : α → Prop} {I : σ → Prop}
    (keep : ∀ a s t, I s → each a → step a s = some t → I t)
    {actions : List α} {s t : σ} (initial : I s) (listed : ∀ a ∈ actions, each a)
    (done : run step actions s = some t) : I t := by
  induction actions generalizing s with
  | nil =>
    cases done
    exact initial
  | cons a rest ih =>
    obtain ⟨head, tail⟩ := List.forall_mem_cons.mp listed
    obtain ⟨mid, first, later⟩ := run_cons_some.mp done
    exact ih (keep a s mid initial head first) tail later

theorem run_invariant_of_conforms {ok : α → σ → Prop} {I : σ → Prop}
    (keep : ∀ a s t, I s → ok a s → step a s = some t → I t)
    {actions : List α} {s t : σ} (initial : I s) (all : Conforms step ok actions s)
    (done : run step actions s = some t) : I t := by
  induction actions generalizing s with
  | nil =>
    cases done
    exact initial
  | cons a rest ih =>
    obtain ⟨mid, first, later⟩ := run_cons_some.mp done
    exact ih (keep a s mid initial all.1 first) (all.2 mid first) later

def Reachable (step : α → σ → Option σ) (s t : σ) : Prop :=
  ∃ actions, run step actions s = some t

theorem Reachable.refl (s : σ) : Reachable step s s := ⟨[], rfl⟩

theorem Reachable.single {a : α} {s t : σ} (taken : step a s = some t) : Reachable step s t :=
  ⟨[a], run_single.mpr taken⟩

theorem Reachable.trans {s mid t : σ} (first : Reachable step s mid) (second : Reachable step mid t) :
    Reachable step s t := by
  obtain ⟨before, done⟩ := first
  obtain ⟨after, later⟩ := second
  exact ⟨before ++ after, run_trans done later⟩

theorem Reachable.invariant {I : σ → Prop} {s t : σ} (reached : Reachable step s t)
    (keep : ∀ a s t, I s → step a s = some t → I t) (initial : I s) : I t := by
  obtain ⟨actions, done⟩ := reached
  exact run_invariant keep initial done

section Paths
variable {P : σ → Prop} {s mid t : σ}

/-- A run from `s` to `t` that only visits states that satisfy `P`. -/
def Along (step : α → σ → Option σ) (P : σ → Prop) (s t : σ) : Prop :=
  ∃ actions, run step actions s = some t ∧ ∀ v, Visits step actions s v → P v

theorem Along.refl (here : P s) : Along step P s s :=
  ⟨[], rfl, fun _ seen => visits_nil.mp seen ▸ here⟩

theorem Along.cons {a : α} (here : P s) (taken : step a s = some mid) (later : Along step P mid t) :
    Along step P s t := by
  obtain ⟨actions, done, sound⟩ := later
  refine ⟨a :: actions, run_cons_some.mpr ⟨mid, taken, done⟩, fun v seen => ?_⟩
  rcases visits_cons.mp seen with rfl | ⟨mid', first, later⟩
  · exact here
  · cases taken.symm.trans first
    exact sound v later

theorem Along.trans (first : Along step P s mid) (second : Along step P mid t) : Along step P s t := by
  obtain ⟨actions, done, sound⟩ := first
  induction actions generalizing s with
  | nil =>
    cases done
    exact second
  | cons a rest ih =>
    obtain ⟨next, taken, later⟩ := run_cons_some.mp done
    apply Along.cons (sound s (.start ..)) taken
    exact ih later fun v seen => sound v (visits_cons.mpr (Or.inr ⟨next, taken, seen⟩))

theorem Along.invariant {I : σ → Prop} (along : Along step P s t)
    (keep : ∀ a s t, I s → P s → step a s = some t → I t) (initial : I s) : I t := by
  obtain ⟨actions, done, sound⟩ := along
  have conforms : ∀ {actions : List α} {s : σ}, (∀ v, Visits step actions s v → P v) →
      Conforms step (fun _ s => P s) actions s := by
    intro actions
    induction actions with
    | nil => intros; trivial
    | cons a rest ih =>
      intro s sound
      refine ⟨sound s (.start ..), fun mid taken => ih fun v seen => ?_⟩
      exact sound v (visits_cons.mpr (Or.inr ⟨mid, taken, seen⟩))
  exact run_invariant_of_conforms keep initial (conforms sound) done

end Paths

section Simulation
universe w x
variable {β : Type w} {τ : Type x} {move : β → τ → Option τ}

/-- The simulation rule: a step that the other machine answers with any number of its own. -/
theorem run_simulation {R : σ → τ → Prop}
    (answer : ∀ a s s' t, R s t → step a s = some s' → ∃ t', Reachable move t t' ∧ R s' t')
    {actions : List α} {s s' : σ} {t : τ} (initial : R s t) (done : run step actions s = some s') :
    ∃ t', Reachable move t t' ∧ R s' t' := by
  induction actions generalizing s t with
  | nil =>
    cases done
    exact ⟨t, .refl t, initial⟩
  | cons a rest ih =>
    obtain ⟨mid, first, later⟩ := run_cons_some.mp done
    obtain ⟨next, moved, related⟩ := answer a s mid t initial first
    obtain ⟨last, others, final⟩ := ih related later
    exact ⟨last, moved.trans others, final⟩

/-- The lockstep rule: two machines that make every action from related states to related states, or
both do not make it. -/
theorem run_lockstep {move : α → τ → Option τ} {R : σ → τ → Prop}
    (answer : ∀ a s t, R s t → Option.Rel R (step a s) (move a t)) {s : σ} {t : τ} (initial : R s t)
    (actions : List α) : Option.Rel R (run step actions s) (run move actions t) := by
  induction actions generalizing s t with
  | nil => exact .some initial
  | cons a rest ih =>
    rw [run_cons, run_cons]
    have moved := answer a s t initial
    revert moved
    generalize step a s = s'
    generalize move a t = t'
    rintro (related | _)
    · exact ih related
    · exact .none

/-- A part of the state that changes in steps of another machine, or not at all. -/
theorem run_projection {view : σ → τ}
    (answer : ∀ a s s', step a s = some s' → view s' = view s ∨ ∃ b, move b (view s) = some (view s'))
    {actions : List α} {s s' : σ} (done : run step actions s = some s') :
    Reachable move (view s) (view s') := by
  have simulated : ∀ a s s' t, t = view s → step a s = some s' → ∃ t', Reachable move t t' ∧ t' = view s' := by
    rintro a s s' _ rfl taken
    rcases answer a s s' taken with same | ⟨b, moved⟩
    · exact ⟨view s, .refl _, same.symm⟩
    · exact ⟨view s', .single moved, rfl⟩
  obtain ⟨last, reached, rfl⟩ := run_simulation simulated rfl done
  exact reached

end Simulation

end TinyLb.Machine
