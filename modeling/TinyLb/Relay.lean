import TinyLb.Machine
import TinyLb.Pumps
import TinyLb.Text

/-! The two forwarding loops of `proxy_websocket`, and the `select!` that runs both until one of
them ends. -/

namespace TinyLb.Relay
open Machine Pumps

structure CloseFrame where
  code : UInt16
  reason : Str
  deriving DecidableEq, Repr

inductive Message where
  | text (text : Str)
  | binary (data : List UInt8)
  | ping (data : List UInt8)
  | pong (data : List UInt8)
  | close (frame : Option CloseFrame)
  deriving DecidableEq, Repr

def Message.isClose : Message → Bool
  | .close _ => true
  | _ => false

inductive Side where
  | client
  | backend
  deriving DecidableEq, Repr

structure Session where
  clientToBackend : Pump Message
  backendToClient : Pump Message
  deriving DecidableEq, Repr

namespace Session

/-- What both sides have already sent when the loops begin. -/
def start (client backend : List Message) : Session := ⟨.start client, .start backend⟩

def loop (s : Session) : Side → Pump Message
  | .client => s.clientToBackend
  | .backend => s.backendToClient

def update (s : Session) (side : Side) (pump : Pump Message) : Session :=
  match side with
  | .client => { s with clientToBackend := pump }
  | .backend => { s with backendToClient := pump }

/-- `select!` has seen one of the loops end. -/
def isOver (s : Session) : Bool := s.clientToBackend.stage.isEnded || s.backendToClient.stage.isEnded

end Session

inductive Event where
  | sends (side : Side) (message : Message)
  | runs (side : Side) (move : Move)
  deriving DecidableEq, Repr

/-- Once a loop has ended neither of them runs on, but the sides may still send. -/
def step : Event → Session → Option Session
  | .sends side message, s => some (s.update side ((s.loop side).arrive message))
  | .runs side move, s =>
      if s.isOver then none else ((s.loop side).step Message.isClose move).map (s.update side)

section Laws
variable {s next : Session} {side other : Side}

@[simp] theorem loop_update_self (s : Session) (side : Side) (pump : Pump Message) :
    (s.update side pump).loop side = pump := by
  cases side <;> rfl

theorem loop_update_of_ne (s : Session) (pump : Pump Message) (apart : other ≠ side) :
    (s.update side pump).loop other = s.loop other := by
  cases side <;> cases other
  · exact absurd rfl apart
  · rfl
  · rfl
  · exact absurd rfl apart

theorem step_loop {event : Event} (taken : step event s = some next) (side : Side) :
    next.loop side = s.loop side ∨ (∃ message, next.loop side = (s.loop side).arrive message) ∨
      s.isOver = false ∧ ∃ move, (s.loop side).step Message.isClose move = some (next.loop side) := by
  cases event with
  | sends actor message =>
    cases taken
    by_cases same : side = actor
    · rw [same, loop_update_self]
      exact Or.inr (Or.inl ⟨message, rfl⟩)
    · exact Or.inl (loop_update_of_ne s _ same)
  | runs actor move =>
    rw [step] at taken
    split at taken
    next => cases taken
    next running =>
      obtain ⟨pump, moved, rfl⟩ := Option.map_eq_some_iff.mp taken
      by_cases same : side = actor
      · rw [same, loop_update_self]
        exact Or.inr (Or.inr ⟨Bool.eq_false_iff.mpr running, move, moved⟩)
      · exact Or.inl (loop_update_of_ne s _ same)

def Session.Conserved (s : Session) : Prop := ∀ side, (s.loop side).Conserved Message.isClose

theorem Session.conserved_start (client backend : List Message) :
    (Session.start client backend).Conserved := by
  intro side
  cases side
  · exact Pump.conserved_start _ client
  · exact Pump.conserved_start _ backend

theorem Session.Conserved.step {event : Event} (conserved : s.Conserved)
    (taken : Relay.step event s = some next) : next.Conserved := by
  intro side
  rcases step_loop taken side with same | ⟨message, arrived⟩ | ⟨-, move, moved⟩
  · exact same ▸ conserved side
  · exact arrived ▸ (conserved side).arrive message
  · exact (conserved side).step moved

/-- The loop that has not ended is cancelled: its sink gets nothing more. -/
theorem cancelled_sinks {events : List Event} (finished : s.isOver = true)
    (done : run step events s = some next) : ∀ side, (next.loop side).sink = (s.loop side).sink := by
  let frozen : Session → Prop := fun t =>
    ∀ side, (t.loop side).sink = (s.loop side).sink ∧ (t.loop side).stage = (s.loop side).stage
  have keep : ∀ event t after, frozen t → step event t = some after → frozen after := by
    intro event t after same taken side
    have still : t.isOver = true := by
      rw [← finished, Session.isOver, Session.isOver]
      exact congr (congrArg _ (congrArg Stage.isEnded (same .client).2))
        (congrArg Stage.isEnded (same .backend).2)
    rcases step_loop taken side with equal | ⟨message, arrived⟩ | ⟨running, -⟩
    · rw [equal]
      exact same side
    · rw [arrived]
      exact same side
    · rw [still] at running
      cases running
  have whole : frozen next := run_invariant keep (fun _ => ⟨rfl, rfl⟩) done
  exact fun side => (whole side).1

/-- What a sink is given is a prefix of what the other side has sent before its first Close, and all
of it when the sink is closed. A loop that has read a Close and come to its end has closed its sink. -/
theorem relay_in_order (client backend : List Message) {events : List Event}
    (done : run step events (.start client backend) = some s) (side : Side) :
    handed (s.loop side).sink <+: (s.loop side).received.filter (fun message => !message.isClose) ∧
      handed (s.loop side).sink <+: (s.loop side).sent.takeWhile (fun message => !message.isClose) ∧
      (.close ∈ (s.loop side).sink →
        (s.loop side).sink =
          ((s.loop side).sent.takeWhile fun message => !message.isClose).map .item ++ [.close]) ∧
      ((∃ message ∈ (s.loop side).received, message.isClose = true) →
        (s.loop side).stage.isEnded = true →
        (s.loop side).sink =
          ((s.loop side).sent.takeWhile fun message => !message.isClose).map .item ++ [.close]) ∧
      ∀ held, (s.loop side).stage = .ended .closed held →
        .close ∈ (s.loop side).sink ∧ ∃ message ∈ (s.loop side).sent, message.isClose = true := by
  have conserved : (s.loop side).Conserved Message.isClose :=
    run_invariant (fun _ _ _ before taken => before.step taken)
      (Session.conserved_start client backend) done side
  have whole : (s.loop side).stage.shuts = true → (s.loop side).sink =
      ((s.loop side).sent.takeWhile fun message => !message.isClose).map .item ++ [.close] := by
    intro shuts
    have given := conserved.given
    rw [if_pos shuts, (conserved.complete shuts).1] at given
    exact given
  refine ⟨conserved.prefix_received, conserved.prefix_sent, fun closed => ?_, fun read ended => ?_,
    fun held ended => ?_⟩
  · exact whole (conserved.shuts_of_closed closed)
  · obtain ⟨message, received, final⟩ := read
    exact whole (conserved.shuts_of_received ended received final)
  · have shuts : (s.loop side).stage.shuts = true := by rw [ended]; rfl
    have given := conserved.given
    rw [if_pos shuts] at given
    exact ⟨given ▸ List.mem_append_right _ (List.mem_singleton.mpr rfl), (conserved.complete shuts).2⟩

/-- The client sends a line and a Close; the backend's answer is still on its way when the session
ends. -/
theorem relay_in_order_hello : ∃ s, run step
      [.runs .client .read, .runs .client .take, .runs .backend .read, .runs .client .flushed,
        .runs .client .read, .runs .client .shut, .runs .client .finish]
      (.start [.text "hi".toList, .close none] [.text "yo".toList]) = some s ∧
    (s.loop .client).sink = [.item (.text "hi".toList), .close] ∧
    handed (s.loop .client).sink <+:
      (s.loop .client).sent.takeWhile (fun message => !message.isClose) ∧
    (s.loop .client).sink =
      ((s.loop .client).sent.takeWhile fun message => !message.isClose).map .item ++ [.close] ∧
    .close ∈ (s.loop .client).sink := by
  let trace : List Event :=
    [.runs .client .read, .runs .client .take, .runs .backend .read, .runs .client .flushed,
      .runs .client .read, .runs .client .shut, .runs .client .finish]
  have done : run step trace (.start [.text "hi".toList, .close none] [.text "yo".toList]) = some _ := rfl
  obtain ⟨-, inOrder, -, whole, closed⟩ := relay_in_order _ _ done .client
  have read : ∃ message ∈ [Message.text "hi".toList, .close none], message.isClose = true :=
    ⟨.close none, List.mem_cons_of_mem _ (List.mem_singleton.mpr rfl), rfl⟩
  exact ⟨_, done, rfl, inOrder, whole read rfl, (closed _ rfl).1⟩

end Laws

end TinyLb.Relay
