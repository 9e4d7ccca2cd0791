import TinyLb.Completion
import TinyLb.LoadSteps

/-! By how much `max_connections` can be exceeded: the requests between the first load of a selection and
the opening of their connection are not counted, and nothing else is. -/

namespace TinyLb.Overshoot
open Config Backends Traffic ConnectionLedger Machine
open LoadSteps hiding step Action

section Bound
variable {s t : State} {b : BackendId} {most n : Nat} {actions : List LoadSteps.Action}

/-- A call that would return `b` has found it below the cap. -/
def Below (b : BackendId) (most : Nat) (c : Call) : Prop := c.best = some b → c.bestCount.toNat < most

theorem run_crowded (sound : Sound s) (done : run LoadSteps.step actions s = some t)
    (capped : ∀ v, Visits LoadSteps.step actions s v → (v.system.reg.backend b).maxConnections.toNat ≤ most)
    (few : ∀ v, Visits LoadSteps.step actions s v → v.considering b ≤ n)
    (crowded : Crowded (Below b most) b n most s) : Crowded (Below b most) b n most t := by
  induction actions generalizing s with
  | nil =>
    cases done
    exact crowded
  | cons action rest ih =>
    obtain ⟨mid, taken, later⟩ := run_cons_some.mp done
    have inside : ∀ v, Visits LoadSteps.step rest mid v → Visits LoadSteps.step (action :: rest) s v :=
      fun v seen => visits_cons.mpr (Or.inr ⟨mid, taken, seen⟩)
    have cap := capped s (.start ..)
    refine ih (step_sound action s mid sound taken) later (fun v seen => capped v (inside v seen))
      (fun v seen => few v (inside v seen)) ?_
    refine change_crowded sound (step_change taken) (few mid (inside mid (.start ..))) (Nat.le_refl n)
      (Nat.le_refl most) (fun _ _ below => below) nofun ?_ (fun c below _ best => below best) crowded
    intro c _ c' below visit best
    cases visit with
    | onward e rest field here next read => subst next; exact below best
    | skip e rest here next reason => subst next; exact below best
    | pick e rest active here read room fewer next =>
      subst next
      cases best
      exact Nat.lt_of_lt_of_le (UInt64.lt_iff_toNat_lt.mp room) cap

end Bound

section Crowd
variable {m : UInt64} {held r n : Nat}

theorem parse_host : Hosts.parse ['a'] = .ok (.exact ['a']) := rfl

/-- A proxy with one backend, that has `held` connections open. -/
def site (m : UInt64) (held : Nat) : BackendRegistry where
  backendAt := ⟨[{ Backend.new 0 ⟨['u'], m, false⟩ with activeConnections := UInt64.ofNat held }]⟩
  groupAt := ⟨[⟨['a'], .exact ['a'], [0], parse_host⟩]⟩
  groups := [0]

def routes (m : UInt64) : List RouteConfig := [⟨['a'], [⟨['u'], m, false⟩]⟩]

def request (phase : Phase) : Request := ⟨['/'], ['a'], false, phase, phase.counted⟩

/-- Of the requests before `later` each has its connection. -/
def crowd (m : UInt64) (held : Nat) (later : List Request) : System :=
  ⟨site m held, List.replicate held (request (.proxying ⟨0⟩)) ++ later, none, routes m⟩

def waiting (r : Nat) : List Request := List.replicate r (request (.chosen 0))

structure Under (m : UInt64) (n : Nat) (s : System) : Prop where
  cap : (s.reg.backend 0).maxConnections = m
  few : booked s 0 ≤ n

theorem crowd_booked (later : List Request) :
    booked (crowd m held later) 0 = later.countP fun q => mayConnect 0 q.phase := by
  rw [booked, crowd, List.countP_append, List.countP_replicate, if_neg (by decide), Nat.zero_add]

theorem crowd_under {later : List Request} (few : (later.countP fun q => mayConnect 0 q.phase) ≤ n) :
    Under m n (crowd m held later) :=
  ⟨rfl, crowd_booked later ▸ few⟩

theorem waiting_booked : ((waiting r).countP fun q => mayConnect 0 q.phase) = r := by
  rw [waiting, List.countP_replicate, if_pos (by decide)]

theorem crowd_refs {later : List Request} (few : 2 * (held + later.length) ≤ isizeMax) (b : BackendId) :
    (crowd m held later).refs b ≤ isizeMax := by
  apply Nat.le_trans (Completion.refs_le _ b)
  simpa [crowd] using few

theorem advance_at {s : System} {front back : List Request} {q q' : Request} {reg : BackendRegistry}
    {move : Move} (here : s.requests = front ++ q :: back)
    (moved : q.step s.reg s.reload.isSome s.refs move = some (q', reg)) :
    step (.advance front.length move) s = some { s with reg := reg, requests := front ++ q' :: back } := by
  have found : s.requests[front.length]? = some q := by simp [here]
  simp only [step, found, moved]
  rw [here, List.set_append_right _ _ (Nat.le_refl _), Nat.sub_self, List.set_cons_zero]

theorem ofNat_lt (below : held < m.toNat) : UInt64.ofNat held < m := by
  rw [UInt64.lt_iff_toNat_lt, UInt64.toNat_ofNat', Nat.mod_eq_of_lt (Nat.lt_trans below m.toNat_lt)]
  exact below

theorem site_selectBackend (below : UInt64.ofNat held < m) : (site m held).selectBackend 0 = some 0 := by
  have room : ¬ UInt64.ofNat held ≥ m := UInt64.not_le.mpr below
  have least : UInt64.ofNat held < usizeMax := by
    apply Nat.lt_of_lt_of_le below
    exact Nat.le_of_lt_succ m.toNat_lt
  simp [BackendRegistry.selectBackend, BackendRegistry.group, site, Arena.get, scan, Backend.new, room,
    least]

theorem site_connect : (site m held).write 0 Backend.connect = site m (held + 1) := by
  have next : UInt64.ofNat held + 1 = UInt64.ofNat (held + 1) := (UInt64.ofNat_add held 1).symm
  simp only [site, BackendRegistry.write, Arena.modify, List.modify_zero_cons, Backend.connect,
    Backend.new, next]

theorem request_select {reg : BackendRegistry} {refs : BackendId → Nat} {b : BackendId}
    (found : reg.selectBackend 0 = some b) (spare : refs b ≤ isizeMax) :
    (request (.routed 0)).step reg false refs .selectBackend = some (request (.chosen b), reg) := by
  simp only [Request.step, request, found, spare, if_true]
  rfl

theorem request_connect {reg : BackendRegistry} {refs : BackendId → Nat} {b : BackendId}
    (spare : refs b ≤ isizeMax) :
    (request (.chosen b)).step reg false refs .openGuard =
      some (request (.proxying ⟨b⟩), reg.write b Backend.connect) := by
  simp only [Request.step, request, Request.openGuard, spare, if_true]
  rfl

theorem newest_moves {phase phase' : Phase} {move : Move}
    (moved : (request phase).step (site m held) false
      (crowd m held (waiting r ++ [request phase])).refs move = some (request phase', site m held)) :
    ∃ i, step (.advance i move) (crowd m held (waiting r ++ [request phase])) =
      some (crowd m held (waiting r ++ [request phase'])) := by
  have last : (crowd m held (waiting r ++ [request phase])).requests =
      (crowd m held (waiting r)).requests ++ request phase :: [] := (List.append_assoc ..).symm
  refine ⟨_, (advance_at last moved).trans ?_⟩
  simp only [crowd, List.append_assoc]

theorem crowd_reserve (below : UInt64.ofNat held < m) (room : r < n)
    (few : 2 * (held + (r + 1)) ≤ isizeMax) :
    Along step (Under m n) (crowd m held (waiting r)) (crowd m held (waiting (r + 1))) := by
  have under (phase : Phase) : Under m n (crowd m held (waiting r ++ [request phase])) := by
    apply crowd_under
    have one : [request phase].countP (fun q => mayConnect 0 q.phase) ≤ 1 := List.countP_le_length
    rw [List.countP_append, waiting_booked]
    omega
  have arrived : step (.arrive ['/'] ['a'] false) (crowd m held (waiting r)) =
      some (crowd m held (waiting r ++ [request .received])) := by
    simp only [step, crowd, List.append_assoc]
    rfl
  obtain ⟨i, routed⟩ := @newest_moves m held r .received (.routed 0) .findGroup rfl
  have spare := @crowd_refs m held (waiting r ++ [request (.routed 0)]) (by simpa [waiting] using few) 0
  obtain ⟨j, chosen⟩ := newest_moves (request_select (site_selectBackend below) spare)
  apply Along.cons (crowd_under (by rw [waiting_booked]; exact Nat.le_of_lt room)) arrived
  apply Along.cons (under _) routed
  apply Along.cons (under _) chosen
  rw [waiting, waiting, List.replicate_succ']
  apply Along.refl
  apply crowd_under
  rw [← List.replicate_succ', ← waiting, waiting_booked]
  exact room

theorem crowd_open (room : r < n) (few : 2 * (held + (r + 1)) ≤ isizeMax) :
    Along step (Under m n) (crowd m held (waiting (r + 1))) (crowd m (held + 1) (waiting r)) := by
  have spare := @crowd_refs m held (waiting (r + 1)) (by simpa [waiting] using few) 0
  have opened : step (.advance _ .openGuard) (crowd m held (waiting (r + 1))) = _ :=
    advance_at rfl (request_connect spare)
  have shifted : List.replicate held (request (.proxying ⟨0⟩)) ++ request (.proxying ⟨0⟩) :: waiting r =
      List.replicate (held + 1) (request (.proxying ⟨0⟩)) ++ waiting r := by
    rw [List.replicate_succ', List.append_assoc]
    rfl
  apply Along.cons (crowd_under (by rw [waiting_booked]; exact room)) (opened.trans (congrArg some _))
  · exact .refl (crowd_under (by rw [waiting_booked]; exact Nat.le_of_lt room))
  · simp only [crowd, site_connect, ← shifted]
    rfl

theorem crowd_fill (below : held ≤ m.toNat) (positive : 0 < n) (few : 2 * (m.toNat + 1) ≤ isizeMax) :
    Along step (Under m n) (crowd m 0 []) (crowd m held []) := by
  induction held with
  | zero => exact .refl (crowd_under (Nat.zero_le n))
  | succ held ih =>
    apply (ih (by omega)).trans
    have reserved := crowd_reserve (r := 0) (ofNat_lt below) positive (by omega)
    exact reserved.trans (crowd_open positive (by omega))

/-- The first `n` of them are given the backend before any of them connects. -/
theorem crowd_overbook (below : UInt64.ofNat held < m) (few : 2 * (held + n) ≤ isizeMax) (r : Nat)
    (le : r ≤ n) :
    Along step (Under m n) (crowd m held []) (crowd m held (waiting r)) := by
  induction r with
  | zero => exact .refl (crowd_under (Nat.zero_le n))
  | succ r ih => exact (ih (by omega)).trans (crowd_reserve below (by omega) (by omega))

theorem crowd_connect (r : Nat) (le : r ≤ n) (few : 2 * (held + r) ≤ isizeMax) :
    Along step (Under m n) (crowd m held (waiting r)) (crowd m (held + r) []) := by
  induction r generalizing held with
  | zero => exact .refl (crowd_under (Nat.zero_le n))
  | succ r ih =>
    have shifted : held + 1 + r = held + (r + 1) := by omega
    rw [← shifted]
    exact (crowd_open le few).trans (ih (by omega) (by omega))

end Crowd

/-- While no more than `n` requests at a time may be given a backend, or have been given it and have not
connected to it, it has at most `n - 1` connections more than the highest `max_connections` on the way. No
smaller bound holds, whatever `max_connections` and `n` are. -/
theorem overshoot_exact :
    (∀ now routes reg, BackendRegistry.new now routes = .ok reg →
      ∀ actions s, run LoadSteps.step actions (.start reg routes) = some s → ∀ b most n,
        (∀ v, Visits LoadSteps.step actions (.start reg routes) v →
          (v.system.reg.backend b).maxConnections.toNat ≤ most ∧ v.considering b ≤ n) →
        (s.system.reg.backend b).activeConnections.toNat + s.system.pending b ≤ most + n - 1) ∧
    ∀ (m : UInt64) (n : Nat), 0 < m.toNat → 0 < n → 2 * (m.toNat + n) ≤ isizeMax →
      ∃ now routes reg, BackendRegistry.new now routes = .ok reg ∧
        ∃ actions s, run LoadSteps.step actions (.start reg routes) = some s ∧ ∃ b,
          (∀ v, Visits LoadSteps.step actions (.start reg routes) v →
            (v.system.reg.backend b).maxConnections = m ∧ v.considering b ≤ n) ∧
          (s.system.reg.backend b).activeConnections.toNat = m.toNat + n - 1 := by
  constructor
  · intro now routes reg built actions s done b most n bounded
    have initial : Crowded (Below b most) b n most (.start reg routes) := by
      refine ⟨[], [], rfl, nofun, fun limit _ => ?_⟩
      exact Nat.zero_le _
    have sound := sound_start built
    have crowded := run_crowded sound done (fun v seen => (bounded v seen).1) (fun v seen => (bounded v seen).2)
      initial
    have balanced : (s.system.reg.backend b).activeConnections.toNat = s.system.guards b :=
      (run_invariant step_sound sound done).ledger.balanced b
    rw [balanced]
    exact crowded.bound
  · intro m n positive several few
    let held := m.toNat - 1
    have below : held < m.toNat := Nat.sub_one_lt_of_lt positive
    have filled : Along step (Under m n) (crowd m 0 []) (crowd m held []) :=
      crowd_fill (Nat.le_of_lt below) several (by omega)
    have booked : Along step (Under m n) (crowd m held []) (crowd m held (waiting n)) :=
      crowd_overbook (ofNat_lt below) (by omega) n (Nat.le_refl n)
    have connected : Along step (Under m n) (crowd m held (waiting n)) (crowd m (held + n) []) :=
      crowd_connect n (Nat.le_refl n) (by omega)
    let P (v : State) : Prop := (v.system.reg.backend 0).maxConnections = m ∧ v.considering 0 ≤ n
    have whole : Along LoadSteps.step P ⟨crowd m 0 [], []⟩ ⟨crowd m (held + n) [], []⟩ := by
      refine along_of_traffic (fun v under => ?_) (fun v c q under here routed => ?_)
        ((filled.trans booked).trans connected)
      · exact ⟨under.cap, Nat.le_trans (considering_idle v 0) under.few⟩
      · exact ⟨under.cap, Nat.le_trans (considering_calling here routed 0) under.few⟩
    obtain ⟨actions, done, under⟩ := whole
    refine ⟨0, routes m, site m 0, rfl, actions, _, done, 0, under, ?_⟩
    have total : held + n = m.toNat + n - 1 := by omega
    have value : (UInt64.ofNat (held + n)).toNat = held + n := by
      apply UInt64.toNat_ofNat_of_lt'
      unfold isizeMax at few
      have size : UInt64.size = 2 ^ 64 := rfl
      omega
    exact value.trans total

end TinyLb.Overshoot
