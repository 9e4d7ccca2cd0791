import TinyLb.Overshoot
import TinyLb.ErrorLedger

/-! How uneven the load can get. A selection compares counters that leave out the requests which are
about to connect, and it reads them one after the other; no connection moves when others are closed. -/

namespace TinyLb.Imbalance
open Config Backends Traffic ConnectionLedger Machine
open LoadSteps hiding step Action
open Overshoot (request request_select request_connect advance_at parse_host)

/-- The connections of `b` that have been given up. -/
def ended (s : System) (b : BackendId) : Nat :=
  s.requests.countP fun q => q.ops.contains (.fetchSub b)

/-- The connections that have been opened on `b`. -/
def begun (s : System) (b : BackendId) : Nat :=
  s.requests.countP fun q => q.ops.contains (.fetchAdd b)

/-- A request that may be given `i` may be given `j` as well. -/
structure Rival (i j : BackendId) (s : System) : Prop where
  together : ∀ g, i ∈ (s.reg.group g).backends → j ∈ (s.reg.group g).backends
  undrained : (s.reg.backend j).drain = false
  healthy : (s.reg.backend j).healthy = true
  room : (s.reg.backend j).activeConnections < (s.reg.backend j).maxConnections

section Counts
variable {s t : System} {b : BackendId}

theorem countP_le_of_getElem? {α : Type} {p : α → Bool} {l m : List α}
    (kept : ∀ (r : Nat) (x : α), l[r]? = some x → p x = true → ∃ y, m[r]? = some y ∧ p y = true) :
    l.countP p ≤ m.countP p := by
  induction l generalizing m with
  | nil => exact Nat.zero_le _
  | cons x rest ih =>
    cases m with
    | nil =>
      have none : ∀ y ∈ x :: rest, ¬p y = true := by
        intro y member holds
        obtain ⟨r, here⟩ := List.mem_iff_getElem?.mp member
        obtain ⟨z, there, -⟩ := kept r y here holds
        cases there
      rw [List.countP_eq_zero.mpr none]
      exact Nat.zero_le _
    | cons y others =>
      have tail := @ih others fun r z here holds => kept (r + 1) z here holds
      have head : p x = true → p y = true := by
        intro holds
        obtain ⟨z, there, later⟩ := kept 0 x rfl holds
        cases there
        exact later
      rw [List.countP_cons, List.countP_cons]
      by_cases first : p x = true
      · rw [if_pos first, if_pos (head first)]
        omega
      · rw [if_neg first]
        omega

theorem step_countP {action : Action} (taken : step action s = some t) (op : CounterOp) :
    (s.requests.countP fun q => q.ops.contains op) ≤ t.requests.countP fun q => q.ops.contains op := by
  apply countP_le_of_getElem?
  intro r q here made
  have inside : r < t.requests.length :=
    Nat.lt_of_lt_of_le (List.getElem?_eq_some_iff.mp here).1 (ErrorLedger.traffic_requests taken)
  have grown := ops_prefix taken here (List.getElem?_eq_getElem inside)
  refine ⟨_, List.getElem?_eq_getElem inside, ?_⟩
  rw [List.contains_iff_mem] at made ⊢
  exact grown.subset made

theorem counted_contains (phase : Phase) (b : BackendId) :
    (if phase.guard == some ⟨b⟩ then 1 else 0) + (if phase.counted.contains (.fetchSub b) then 1 else 0) =
      if phase.counted.contains (.fetchAdd b) then 1 else 0 := by
  cases phase with
  | finished outcome =>
    cases outcome with
    | proxied e ending => simp [Phase.guard, Phase.counted]
    | _ => rfl
  | proxying guard | awaiting guard | session guard =>
    obtain ⟨e⟩ := guard
    simp only [Phase.guard, Phase.counted, List.contains_cons, List.contains_nil]
    grind
  | streaming body =>
    obtain ⟨⟨e⟩⟩ := body
    simp only [Phase.guard, Phase.counted, List.contains_cons, List.contains_nil]
    grind
  | _ => rfl

theorem guards_add_ended (wellFormed : WellFormed s) (b : BackendId) :
    s.guards b + ended s b = begun s b := by
  have counted : ∀ q ∈ s.requests, q.ops = q.phase.counted := fun q member =>
    (wellFormed.fits q member).counted
  rw [System.guards, ended, begun]
  revert counted
  induction s.requests with
  | nil => exact fun _ => rfl
  | cons q rest ih =>
    intro counted
    obtain ⟨head, tail⟩ := List.forall_mem_cons.mp counted
    have others := ih tail
    have one := counted_contains q.phase b
    simp only [List.countP_cons, head]
    omega

end Counts

section Bound
variable {s t : State} {i j : BackendId} {n d base : Nat}

/-- The connections of `b` that have been opened since `base` of them had been given up. -/
def since (b : BackendId) (base : Nat) (s : State) : Nat := begun s.system b - base

/-- A call that may return `i` visits `j` later, or has found no more connections on its best backend than
`j` has had; and what it has read of `j` leaves `j` room. -/
structure Compared (i j : BackendId) (base : Nat) (s : State) (c : Call) : Prop where
  later : c.considers i = true → j ∈ c.todo ∨ c.bestCount.toNat ≤ since j base s
  read : ∀ rest active, c.todo = j :: rest → c.field = .maxConnections active →
    active < (s.system.reg.backend j).maxConnections ∧ active.toNat ≤ since j base s

theorem change_countP (change : Change s t) (op : CounterOp) :
    (s.system.requests.countP fun q => q.ops.contains op) ≤ t.system.requests.countP fun q => q.ops.contains op := by
  cases change with
  | traffic action free taken same => exact step_countP taken op
  | enter r q g here routed next => rw [next]
  | load front back c c' here loaded next => rw [next]
  | leave front back c q g here done found routed system calls =>
    have counts := countP_set_add (p := fun q : Request => q.ops.contains op) found (q.enter (answer c.best))
    rw [system]
    exact Nat.le_of_eq (Nat.add_right_cancel counts).symm

theorem change_cap (sound : Sound s) (change : Change s t) {c : Call} (member : c ∈ s.calls)
    (may : c.considers j = true) :
    (t.system.reg.backend j).maxConnections = (s.system.reg.backend j).maxConnections := by
  cases change with
  | traffic action free taken same =>
    exact (traffic_locked sound free taken member).2.2 j (sound.listed c member j may)
  | enter r q g here routed next => rw [next]
  | load front back c c' here loaded next => rw [next]
  | leave front back c q g here done found routed system calls => rw [system]

theorem active_le_since (sound : Sound s) (old : base ≤ ended s.system j) :
    (s.system.reg.backend j).activeConnections.toNat ≤ since j base s := by
  have balanced : (s.system.reg.backend j).activeConnections.toNat = s.system.guards j := sound.ledger.balanced j
  have counted := guards_add_ended sound.ledger.toWellFormed j
  unfold since
  omega

theorem visit_compared {c c' : Call} (sound : Sound s) (rival : Rival i j s.system)
    (old : base ≤ ended s.system j) (compared : Compared i j base s c) (visit : Visit s.system.reg c c') :
    Compared i j base s c' := by
  refine ⟨fun may => ?_, fun rest' active' todo field => ?_⟩
  · have known := compared.later (visit_considers visit may)
    cases visit with
    | onward e rest field here next read => exact next ▸ known
    | skip e rest here next reason =>
      subst next
      rcases known with listed | bounded
      · rw [here] at listed
        rcases List.mem_cons.mp listed with rfl | later
        · refine Or.inr ?_
          rcases reason with drained | down | ⟨active, field, full | fewer⟩
          · exact nomatch rival.undrained.symm.trans drained
          · exact nomatch rival.healthy.symm.trans down
          · exact absurd (compared.read rest active here field).1 (UInt64.not_lt.mpr full)
          · exact Nat.le_trans (UInt64.le_iff_toNat_le.mp fewer) (compared.read rest active here field).2
        · exact Or.inl later
      · exact Or.inr bounded
    | pick e rest active here read room fewer next =>
      subst next
      rcases known with listed | bounded
      · rw [here] at listed
        rcases List.mem_cons.mp listed with rfl | later
        · exact Or.inr (compared.read rest active here read).2
        · exact Or.inl later
      · exact Or.inr (Nat.le_trans (Nat.le_of_lt (UInt64.lt_iff_toNat_lt.mp fewer)) bounded)
  · cases visit with
    | onward e rest field' here next read =>
      subst next
      cases here.symm.trans todo
      rw [read active' field]
      exact ⟨rival.room, active_le_since sound old⟩
    | skip e rest here next reason => subst next; cases field
    | pick e rest active here read room fewer next => subst next; cases field

theorem change_ahead (sound : Sound s) (change : Change s t) (rival : Rival i j s.system)
    (few : t.considering i ≤ n) (le : n ≤ d) (old : base ≤ ended s.system j)
    (crowded : Crowded (Compared i j base s) i d (since j base s + 1) s) :
    Crowded (Compared i j base t) i d (since j base t + 1) t := by
  have grown : since j base s ≤ since j base t := Nat.sub_le_sub_right (change_countP change (.fetchAdd j)) base
  have stays : ∀ c ∈ s.calls, ∀ c' : Call, (∀ b, c'.considers b = true → c.considers b = true) →
      Compared i j base s c' → Compared i j base t c' := by
    intro c member c' same compared
    refine ⟨fun may => (compared.later may).imp_right fun bounded => Nat.le_trans bounded grown,
      fun rest active todo field => ?_⟩
    have may : c'.considers j = true := considers_iff.mpr (Or.inl (todo ▸ List.mem_cons_self ..))
    rw [change_cap sound change member (same j may)]
    exact (compared.read rest active todo field).imp_right fun bounded => Nat.le_trans bounded grown
  refine change_crowded sound change few le (Nat.succ_le_succ grown) (fun c member => stays c member c fun _ => id)
    (fun r g => ?_) (fun c member c' compared visit => ?_) (fun c compared done best => ?_) crowded
  · refine ⟨fun may => ?_, fun rest active todo field => nomatch field⟩
    rcases considers_iff.mp may with listed | wrong
    · exact Or.inl (rival.together g listed)
    · cases wrong
  · exact stays c member c' (fun b => visit_considers visit) (visit_compared sound rival old compared visit)
  · rcases compared.later (considers_iff.mpr (Or.inr best)) with listed | bounded
    · rw [done] at listed
      cases listed
    · exact Nat.lt_succ_of_le bounded

/-- Along a run the lead of `i` grows by no more than what `j` loses, once it exceeds the number of requests
that may connect to `i`. -/
theorem run_ahead {actions : List LoadSteps.Action} (sound : Sound s) (done : run LoadSteps.step actions s = some t)
    (rival : ∀ v, Visits LoadSteps.step actions s v → Rival i j v.system)
    (few : ∀ v, Visits LoadSteps.step actions s v → v.considering i ≤ n) (le : n ≤ d)
    (old : base ≤ ended s.system j)
    (crowded : Crowded (Compared i j base s) i d (since j base s + 1) s) :
    base ≤ ended t.system j ∧ Crowded (Compared i j base t) i d (since j base t + 1) t := by
  induction actions generalizing s with
  | nil =>
    cases done
    exact ⟨old, crowded⟩
  | cons action rest ih =>
    obtain ⟨mid, taken, later⟩ := run_cons_some.mp done
    have inside : ∀ v, Visits LoadSteps.step rest mid v → Visits LoadSteps.step (action :: rest) s v :=
      fun v seen => visits_cons.mpr (Or.inr ⟨mid, taken, seen⟩)
    have change := step_change taken
    exact ih (step_sound action s mid sound taken) later (fun v seen => rival v (inside v seen))
      (fun v seen => few v (inside v seen)) (Nat.le_trans old (change_countP change (.fetchSub j)))
      (change_ahead sound change (rival s (.start ..)) (few mid (inside mid (.start ..))) le old crowded)

end Bound

section Crowd
variable {m : UInt64} {n x y x' y' : Nat} {b : BackendId} {front back requests : List Request}

def site (m : UInt64) (x y : Nat) : BackendRegistry where
  backendAt := ⟨[{ Backend.new 0 ⟨['u'], m, false⟩ with activeConnections := UInt64.ofNat x },
    { Backend.new 0 ⟨['v'], m, false⟩ with activeConnections := UInt64.ofNat y }]⟩
  groupAt := ⟨[⟨['a'], .exact ['a'], [0, 1], parse_host⟩]⟩
  groups := [0]

def routes (m : UInt64) : List RouteConfig := [⟨['a'], [⟨['u'], m, false⟩, ⟨['v'], m, false⟩]⟩]

def crowd (m : UInt64) (x y : Nat) (requests : List Request) : System :=
  ⟨site m x y, requests, none, routes m⟩

def queued (requests : List Request) : Nat := requests.countP fun q => mayConnect 0 q.phase

@[simp] theorem queued_nil : queued [] = 0 := rfl

@[simp] theorem queued_append (front back : List Request) :
    queued (front ++ back) = queued front + queued back :=
  List.countP_append

@[simp] theorem queued_cons (q : Request) (rest : List Request) :
    queued (q :: rest) = queued rest + if mayConnect 0 q.phase then 1 else 0 :=
  List.countP_cons

structure Under (m : UInt64) (n : Nat) (s : System) : Prop where
  cap : (s.reg.backend 0).maxConnections = m
  rival : Rival 0 1 s
  few : booked s 0 ≤ n

theorem site_rival (below : y < m.toNat) : Rival 0 1 (crowd m x y requests) := by
  refine ⟨fun g member => ?_, rfl, rfl, Overshoot.ofNat_lt below⟩
  cases g with
  | zero => exact List.mem_cons_of_mem _ (List.mem_cons_self ..)
  | succ g => cases member

theorem crowd_under (below : y < m.toNat) (few : queued requests ≤ n) : Under m n (crowd m x y requests) :=
  ⟨rfl, site_rival below, few⟩

theorem crowd_refs (spare : 2 * requests.length ≤ isizeMax) (b : BackendId) :
    (crowd m x y requests).refs b ≤ isizeMax :=
  Nat.le_trans (Completion.refs_le _ b) spare

theorem toNat_ofNat {k : Nat} (below : k < m.toNat) : (UInt64.ofNat k).toNat = k := by
  rw [UInt64.toNat_ofNat', Nat.mod_eq_of_lt (Nat.lt_trans below m.toNat_lt)]

theorem site_selectBackend (first : x < m.toNat) (second : y < m.toNat) :
    (site m x y).selectBackend 0 = some (if y < x then 1 else 0) := by
  have room : ¬ UInt64.ofNat x ≥ m := UInt64.not_le.mpr (Overshoot.ofNat_lt first)
  have room' : ¬ UInt64.ofNat y ≥ m := UInt64.not_le.mpr (Overshoot.ofNat_lt second)
  have least : UInt64.ofNat x < usizeMax := by
    apply Nat.lt_of_lt_of_le (UInt64.lt_iff_toNat_lt.mp (Overshoot.ofNat_lt first))
    exact Nat.le_of_lt_succ m.toNat_lt
  have fewer : UInt64.ofNat y < UInt64.ofNat x ↔ y < x := by
    rw [UInt64.lt_iff_toNat_lt, toNat_ofNat first, toNat_ofNat second]
  have scanned : (site m x y).selectBackend 0 =
      if UInt64.ofNat y < UInt64.ofNat x then some 1 else some 0 := by
    simp [BackendRegistry.selectBackend, BackendRegistry.group, site, Arena.get, scan, Backend.new, room,
      room', least]
  rw [scanned]
  simp only [fewer, apply_ite some]

theorem site_connect_first : (site m x y).write 0 Backend.connect = site m (x + 1) y := by
  have next : UInt64.ofNat x + 1 = UInt64.ofNat (x + 1) := (UInt64.ofNat_add x 1).symm
  simp only [site, BackendRegistry.write, Arena.modify, List.modify_zero_cons, Backend.connect, next]

theorem site_connect_second : (site m x y).write 1 Backend.connect = site m x (y + 1) := by
  have next : UInt64.ofNat y + 1 = UInt64.ofNat (y + 1) := (UInt64.ofNat_add y 1).symm
  simp only [site, BackendRegistry.write, Arena.modify, List.modify_succ_cons, List.modify_zero_cons,
    Backend.connect, next]

theorem site_disconnect : (site m x (y + 1)).write 1 Backend.disconnect = site m x y := by
  have next : UInt64.ofNat (y + 1) - 1 = UInt64.ofNat y := by
    rw [UInt64.ofNat_add]
    exact UInt64.add_sub_cancel ..
  simp only [site, BackendRegistry.write, Arena.modify, List.modify_succ_cons, List.modify_zero_cons,
    Backend.disconnect, next]

theorem crowd_step {phase phase' : Phase} {move : Move} {s : System}
    (under : Under m n (crowd m x y (front ++ request phase :: back)))
    (moved : (request phase).step (site m x y) false (crowd m x y (front ++ request phase :: back)).refs move =
      some (request phase', site m x' y'))
    (later : Along step (Under m n) (crowd m x' y' (front ++ request phase' :: back)) s) :
    Along step (Under m n) (crowd m x y (front ++ request phase :: back)) s :=
  .cons under (advance_at rfl moved) later

theorem crowd_choose (found : (site m x y).selectBackend 0 = some b) (below : y < m.toNat)
    (few : queued requests < n) (spare : 2 * (requests.length + 1) ≤ isizeMax) :
    Along step (Under m n) (crowd m x y requests) (crowd m x y (requests ++ [request (.chosen b)])) := by
  have joined (phase : Phase) : Under m n (crowd m x y (requests ++ [request phase])) := by
    apply crowd_under below
    have one : queued [request phase] ≤ 1 := List.countP_le_length
    rw [queued_append]
    omega
  have arrived : step (.arrive ['/'] ['a'] false) (crowd m x y requests) =
      some (crowd m x y (requests ++ [request .received])) := rfl
  have spared := @crowd_refs m x y (requests ++ [request (.routed 0)]) (by simpa using spare) b
  apply Along.cons (crowd_under below (Nat.le_of_lt few)) arrived
  apply @crowd_step m n x y x y requests [] .received (.routed 0) .findGroup _ (joined _) rfl
  apply crowd_step (joined _) (request_select found spared)
  exact .refl (joined _)

theorem crowd_open (next : (site m x y).write b Backend.connect = site m x' y') (below : y < m.toNat)
    (below' : y' < m.toNat) (few : queued (front ++ request (.chosen b) :: back) ≤ n)
    (spare : 2 * (front ++ request (.chosen b) :: back).length ≤ isizeMax) :
    Along step (Under m n) (crowd m x y (front ++ request (.chosen b) :: back))
      (crowd m x' y' (front ++ request (.proxying ⟨b⟩) :: back)) := by
  have spared := @crowd_refs m x y (front ++ request (.chosen b) :: back) spare b
  apply crowd_step (crowd_under below few) (next ▸ request_connect spared)
  apply Along.refl
  apply crowd_under below'
  have fewer : queued front + queued back ≤ n := by
    simp only [queued_append, queued_cons] at few
    omega
  simpa [request, mayConnect, Phase.pending] using fewer

theorem crowd_close (below : y + 1 < m.toNat) (few : queued (front ++ back) ≤ n) :
    Along step (Under m n) (crowd m x (y + 1) (front ++ request (.proxying ⟨1⟩) :: back))
      (crowd m x y (front ++ request (.finished (.proxied 1 .closed)) :: back)) := by
  have under (phase : Phase) (none : mayConnect 0 phase = false) {k : Nat} (below : k < m.toNat) :
      Under m n (crowd m x k (front ++ request phase :: back)) := by
    apply crowd_under below
    simpa [request, none] using few
  have closed : (request (.streaming ⟨⟨1⟩⟩)).step (site m x (y + 1)) false
      (crowd m x (y + 1) (front ++ request (.streaming ⟨⟨1⟩⟩) :: back)).refs .close =
        some (request (.finished (.proxied 1 .closed)), site m x y) := by
    simp only [Request.step, request, Request.dropGuard, site_disconnect]
    rfl
  apply @crowd_step m n x (y + 1) x (y + 1) front back _ (.awaiting ⟨1⟩) .send _ (under _ rfl below) rfl
  apply @crowd_step m n x (y + 1) x (y + 1) front back _ (.streaming ⟨⟨1⟩⟩) .answer _ (under _ rfl below) rfl
  apply crowd_step (under _ rfl below) closed
  exact .refl (under _ rfl (by omega))

def rows (k : Nat) (second : Phase) : List Request :=
  (List.replicate k [request (.proxying ⟨0⟩), request second]).flatten

theorem rows_succ (k : Nat) (second : Phase) :
    rows (k + 1) second = rows k second ++ [request (.proxying ⟨0⟩), request second] := by
  rw [rows, rows, List.replicate_succ', List.flatten_append, List.flatten_singleton]

theorem rows_length (k : Nat) (second : Phase) : (rows k second).length = k * 2 := by
  simp [rows, List.length_flatten]

theorem queued_rows {second : Phase} (idle : mayConnect 0 second = false) (k : Nat) :
    queued (rows k second) = 0 := by
  induction k with
  | zero => rfl
  | succ k ih =>
    have first : mayConnect 0 (.proxying ⟨0⟩) = false := rfl
    simp [rows_succ, ih, request, idle, first]

theorem crowd_serve (found : (site m x y).selectBackend 0 = some b)
    (next : (site m x y).write b Backend.connect = site m x' y') (below : y < m.toNat) (below' : y' < m.toNat)
    (few : queued requests < n) (spare : 2 * (requests.length + 1) ≤ isizeMax) :
    Along step (Under m n) (crowd m x y requests)
      (crowd m x' y' (requests ++ [request (.proxying ⟨b⟩)])) := by
  have one : queued (requests ++ [request (.chosen b)]) ≤ n := by
    rw [queued_append, queued_cons, queued_nil]
    split <;> omega
  apply (crowd_choose found below few spare).trans
  exact crowd_open next below below' one (by simpa using spare)

theorem crowd_fill {k : Nat} (below : k < m.toNat) (several : 0 < n) (spare : 4 * k ≤ isizeMax) :
    Along step (Under m n) (crowd m 0 0 []) (crowd m k k (rows k (.proxying ⟨1⟩))) := by
  induction k with
  | zero => exact .refl (crowd_under below (Nat.zero_le n))
  | succ k ih =>
    have idle : queued (rows k (.proxying ⟨1⟩)) = 0 := queued_rows rfl k
    have size := rows_length k (.proxying ⟨1⟩)
    have even : (site m k k).selectBackend 0 = some 0 := by
      rw [site_selectBackend (by omega) (by omega), if_neg (Nat.lt_irrefl k)]
    have ahead : (site m (k + 1) k).selectBackend 0 = some 1 := by
      rw [site_selectBackend below (by omega), if_pos (Nat.lt_succ_self k)]
    rw [rows_succ]
    apply (ih (by omega) (by omega)).trans
    apply (crowd_serve even site_connect_first (by omega) (by omega) (by omega) (by omega)).trans
    have second := @crowd_serve m n _ _ _ _ _ (rows k (.proxying ⟨1⟩) ++ [request (.proxying ⟨0⟩)]) ahead
      site_connect_second (by omega) below (by simpa [idle, request, mayConnect, Phase.pending] using several)
      (by simp [size]; omega)
    simpa using second

theorem crowd_gather {k r : Nat} (below : k < m.toNat) (idle : queued requests = 0) (le : r ≤ n)
    (spare : 2 * (requests.length + r) ≤ isizeMax) :
    Along step (Under m n) (crowd m k k requests)
      (crowd m k k (requests ++ List.replicate r (request (.chosen 0)))) := by
  induction r with
  | zero =>
    rw [List.replicate_zero, List.append_nil]
    exact .refl (crowd_under below (idle ▸ Nat.zero_le n))
  | succ r ih =>
    have even : (site m k k).selectBackend 0 = some 0 := by
      rw [site_selectBackend below below, if_neg (Nat.lt_irrefl k)]
    have waiting : ∀ r, queued (List.replicate r (request (.chosen 0))) = r := by
      intro r
      rw [queued, List.countP_replicate, if_pos (by decide)]
    apply (ih (by omega) (by omega)).trans
    rw [List.replicate_succ', ← List.append_assoc]
    apply crowd_choose even below
    · rw [queued_append, idle, waiting]
      omega
    · simp
      omega

theorem crowd_connect {r : Nat} (below : y < m.toNat) (idle : queued requests = 0) (le : r ≤ n)
    (spare : 2 * (requests.length + r) ≤ isizeMax) :
    Along step (Under m n) (crowd m x y (requests ++ List.replicate r (request (.chosen 0))))
      (crowd m (x + r) y (requests ++ List.replicate r (request (.proxying ⟨0⟩)))) := by
  induction r generalizing x requests with
  | zero =>
    rw [List.replicate_zero, List.replicate_zero, List.append_nil]
    exact .refl (crowd_under below (idle ▸ Nat.zero_le n))
  | succ r ih =>
    have waiting : queued (List.replicate (r + 1) (request (.chosen 0))) = r + 1 := by
      rw [queued, List.countP_replicate, if_pos (by decide)]
    have opened := @crowd_open m n x y (x + 1) y 0 requests (List.replicate r (request (.chosen 0)))
      site_connect_first below below
    rw [← List.replicate_succ, queued_append, idle, waiting] at opened
    apply (opened (by omega) (by simpa using spare)).trans
    have rest := @ih (x + 1) (requests ++ [request (.proxying ⟨0⟩)])
    have shifted : x + 1 + r = x + (r + 1) := by omega
    rw [shifted] at rest
    simp only [List.append_assoc, List.singleton_append] at rest
    apply rest
    · simp [idle, request, mayConnect, Phase.pending]
    · omega
    · simp
      omega

theorem crowd_empty {c : Nat} (below : c < m.toNat) (idle : queued back = 0) :
    Along step (Under m n) (crowd m x c (rows c (.proxying ⟨1⟩) ++ back))
      (crowd m x 0 (rows c (.finished (.proxied 1 .closed)) ++ back)) := by
  induction c generalizing back with
  | zero =>
    have few : queued (rows 0 (.proxying ⟨1⟩) ++ back) ≤ n :=
      Nat.le_trans (Nat.le_of_eq idle) (Nat.zero_le n)
    exact .refl (crowd_under below few)
  | succ c ih =>
    let front := rows c (.proxying ⟨1⟩) ++ [request (.proxying ⟨0⟩)]
    have free : queued (front ++ back) = 0 := by
      have none : queued (rows c (.proxying ⟨1⟩)) = 0 := queued_rows rfl c
      simp [front, none, idle, request, mayConnect, Phase.pending]
    have closed := @crowd_close m n x c front back below (by omega)
    have rest := @ih (request (.proxying ⟨0⟩) :: request (.finished (.proxied 1 .closed)) :: back) (by omega)
      (by simp [idle, request, mayConnect, Phase.pending])
    rw [rows_succ, rows_succ]
    simp only [front, List.append_assoc, List.cons_append, List.nil_append] at closed rest ⊢
    exact closed.trans rest

theorem crowd_ended (k n : Nat) :
    ended (crowd m x y (rows k (.finished (.proxied 1 .closed)) ++
      List.replicate n (request (.proxying ⟨0⟩)))) 1 = k := by
  have closed : ∀ k, ((rows k (.finished (.proxied 1 .closed))).countP fun q =>
      q.ops.contains (.fetchSub 1)) = k := by
    intro k
    induction k with
    | zero => rfl
    | succ k ih =>
      rw [rows_succ, List.countP_append, ih]
      rfl
  have held : (request (.proxying ⟨0⟩)).ops.contains (.fetchSub 1) = false := rfl
  rw [ended, crowd, List.countP_append, closed, List.countP_replicate, held, if_neg Bool.false_ne_true]
  rfl

end Crowd

/-- Of two backends that a request may be given alike, one never gets further ahead of the other than the
number of requests that may connect to it at a time, or than it has been at first, but for the connections
that the other has lost meanwhile. No smaller bound holds. -/
theorem imbalance_exact :
    (∀ now routes reg, BackendRegistry.new now routes = .ok reg →
      ∀ before s, run LoadSteps.step before (.start reg routes) = some s →
      ∀ actions t, run LoadSteps.step actions s = some t → ∀ i j n d,
        (∀ v, Visits LoadSteps.step actions s v → Rival i j v.system ∧ v.considering i ≤ n) → n ≤ d →
        (s.system.reg.backend i).activeConnections.toNat + s.considering i ≤
          (s.system.reg.backend j).activeConnections.toNat + d →
        (t.system.reg.backend i).activeConnections.toNat + t.system.pending i + ended s.system j ≤
          (t.system.reg.backend j).activeConnections.toNat + d + ended t.system j) ∧
    ∀ (m : UInt64) (n k : Nat), k < m.toNat → 0 < n → 2 * (2 * k + n) ≤ isizeMax →
      ∃ now routes reg, BackendRegistry.new now routes = .ok reg ∧
        ∃ actions t, run LoadSteps.step actions (.start reg routes) = some t ∧ ∃ i j,
          (∀ v, Visits LoadSteps.step actions (.start reg routes) v →
            (v.system.reg.backend i).maxConnections = m ∧ Rival i j v.system ∧ v.considering i ≤ n) ∧
          ended t.system j = k ∧ (t.system.reg.backend i).activeConnections.toNat = n + k ∧
          (t.system.reg.backend j).activeConnections = 0 := by
  constructor
  · intro now routes reg built before s reached actions t done i j n d watched le apart
    have sound : Sound s := run_invariant step_sound (sound_start built) reached
    have later : Sound t := run_invariant step_sound sound done
    have active : ∀ {v : State}, Sound v → ∀ b,
        (v.system.reg.backend b).activeConnections.toNat = v.system.guards b := fun sound b => sound.ledger.balanced b
    have counted : ∀ {v : State}, Sound v → v.system.guards j + ended v.system j = begun v.system j :=
      fun sound => guards_add_ended sound.ledger.toWellFormed j
    rw [active sound, active sound, State.considering] at apart
    have initial : Crowded (Compared i j (ended s.system j) s) i d (since j (ended s.system j) s + 1) s := by
      refine ⟨s.calls, [], (List.append_nil _).symm, by simp, fun limit above => ?_⟩
      have first := counted sound
      rw [since] at above
      rw [List.countP_nil]
      omega
    obtain ⟨old, crowded⟩ := run_ahead sound done (fun v seen => (watched v seen).1)
      (fun v seen => (watched v seen).2) le (Nat.le_refl _) initial
    have bound := crowded.bound
    have last := counted later
    rw [active later, active later]
    rw [since] at bound
    omega
  · intro m n k below several spare
    have size := rows_length k (.proxying ⟨1⟩)
    have idle : queued (rows k (.proxying ⟨1⟩)) = 0 := queued_rows rfl k
    have served : queued (List.replicate n (request (.proxying ⟨0⟩))) = 0 := by
      rw [queued, List.countP_replicate, if_neg (by decide)]
    have filled := crowd_fill below several (by omega)
    have gathered := crowd_gather below idle (Nat.le_refl n) (by omega)
    have connected := @crowd_connect m n k k _ n below idle (Nat.le_refl n) (by omega)
    have emptied := @crowd_empty m n (k + n) _ k below served
    let P (v : State) : Prop :=
      (v.system.reg.backend 0).maxConnections = m ∧ Rival 0 1 v.system ∧ v.considering 0 ≤ n
    let last : System := crowd m (k + n) 0
      (rows k (.finished (.proxied 1 .closed)) ++ List.replicate n (request (.proxying ⟨0⟩)))
    have whole : Along LoadSteps.step P ⟨crowd m 0 0 [], []⟩ ⟨last, []⟩ := by
      refine along_of_traffic (fun v under => ?_) (fun v c q under here routed => ?_)
        (((filled.trans gathered).trans connected).trans emptied)
      · exact ⟨under.cap, under.rival, Nat.le_trans (considering_idle v 0) under.few⟩
      · exact ⟨under.cap, under.rival, Nat.le_trans (considering_calling here routed 0) under.few⟩
    obtain ⟨actions, done, under⟩ := whole
    refine ⟨0, routes m, site m 0 0, rfl, actions, _, done, 0, 1, under, ?_, ?_, rfl⟩
    · exact crowd_ended k n
    · have value : (UInt64.ofNat (k + n)).toNat = k + n := by
        apply UInt64.toNat_ofNat_of_lt'
        unfold isizeMax at spare
        have size : UInt64.size = 2 ^ 64 := rfl
        omega
      exact value.trans (Nat.add_comm k n)

end TinyLb.Imbalance
