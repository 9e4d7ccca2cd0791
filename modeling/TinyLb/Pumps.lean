import Mathlib.Data.List.Basic
import Mathlib.Data.List.TakeWhile

/-! A loop that reads items from a stream and hands each to a sink, until it reads an item that
ends it: then it closes the sink. The stream may end or fail, and so may every operation on the
sink. Which of this happens, and when, is up to the environment. -/

namespace TinyLb.Pumps

universe u
variable {ι : Type u}

inductive Delivery (ι : Type u) where
  | item (content : ι)
  | close
  deriving DecidableEq, Repr

def Delivery.content? : Delivery ι → Option ι
  | .item content => some content
  | .close => none

inductive Ending where
  | exhausted
  | unreadable
  | unsent
  | closed
  deriving DecidableEq, Repr

/-- What the loop waits for: the stream, the sink to take the item it is offered, the sink to be
flushed, and the same two for closing it. -/
inductive Stage (ι : Type u) where
  | reading
  | offering (item : ι)
  | flushing
  | shutting (last : ι)
  | closing (last : ι)
  | ended (how : Ending) (held : Option ι)
  deriving DecidableEq, Repr

namespace Stage

def held : Stage ι → Option ι
  | .offering item => some item
  | .shutting last => some last
  | .closing last => some last
  | .ended _ held => held
  | _ => none

def shuts : Stage ι → Bool
  | .closing _ => true
  | .ended .closed _ => true
  | _ => false

def isEnded : Stage ι → Bool
  | .ended _ _ => true
  | _ => false

/-- The loop offers no item that ends it, and closes the sink only for one that does. -/
def Sorted (ends : ι → Bool) : Stage ι → Prop
  | .offering item => ends item = false
  | .shutting last => ends last = true
  | .closing last => ends last = true
  | .ended .closed held => ∃ last, held = some last ∧ ends last = true
  | .ended _ held => ∀ item, held = some item → ends item = false
  | _ => True

end Stage

inductive Move where
  | read
  | exhaust
  | failRead
  | take
  | flushed
  | failSend
  | shut
  | finish
  deriving DecidableEq, Repr

structure Pump (ι : Type u) where
  incoming : List ι
  received : List ι
  sink : List (Delivery ι)
  stage : Stage ι
  deriving DecidableEq, Repr

def handed (sink : List (Delivery ι)) : List ι := sink.filterMap Delivery.content?

theorem handed_item (sink : List (Delivery ι)) (item : ι) :
    handed (sink ++ [.item item]) = handed sink ++ [item] := by
  simp [handed, Delivery.content?]

theorem handed_close (sink : List (Delivery ι)) : handed (sink ++ [.close]) = handed sink := by
  simp [handed, Delivery.content?]

namespace Pump

def start (incoming : List ι) : Pump ι := ⟨incoming, [], [], .reading⟩

def sent (pump : Pump ι) : List ι := pump.received ++ pump.incoming

def arrive (item : ι) (pump : Pump ι) : Pump ι := { pump with incoming := pump.incoming ++ [item] }

def step (ends : ι → Bool) (move : Move) (pump : Pump ι) : Option (Pump ι) :=
  match move, pump.stage with
  | .read, .reading =>
      match pump.incoming with
      | [] => none
      | item :: rest =>
          some { pump with
            incoming := rest
            received := pump.received ++ [item]
            stage := if ends item then .shutting item else .offering item }
  | .exhaust, .reading => some { pump with stage := .ended .exhausted none }
  | .failRead, .reading => some { pump with stage := .ended .unreadable none }
  | .take, .offering item => some { pump with sink := pump.sink ++ [.item item], stage := .flushing }
  | .flushed, .flushing => some { pump with stage := .reading }
  | .failSend, .offering item => some { pump with stage := .ended .unsent (some item) }
  | .failSend, .flushing => some { pump with stage := .ended .unsent none }
  | .shut, .shutting last => some { pump with sink := pump.sink ++ [.close], stage := .closing last }
  | .finish, .closing last => some { pump with stage := .ended .closed (some last) }
  | _, _ => none

/-- What has been read is what was handed on and the item the loop holds; the sink has been given
the former and then, if the loop has come so far, the order to close. -/
structure Conserved (ends : ι → Bool) (pump : Pump ι) : Prop where
  accounted : pump.received = handed pump.sink ++ pump.stage.held.toList
  given : pump.sink =
    (handed pump.sink).map .item ++ if pump.stage.shuts then [Delivery.close] else []
  passed : ∀ item ∈ handed pump.sink, ends item = false
  sorted : pump.stage.Sorted ends

section Step
variable {ends : ι → Bool} {move : Move} {pump next : Pump ι}

theorem conserved_start (ends : ι → Bool) (incoming : List ι) : Conserved ends (start incoming) where
  accounted := rfl
  given := rfl
  passed _ member := nomatch member
  sorted := trivial

theorem Conserved.arrive (conserved : Conserved ends pump) (item : ι) :
    Conserved ends (pump.arrive item) :=
  ⟨conserved.accounted, conserved.given, conserved.passed, conserved.sorted⟩

theorem Conserved.step (conserved : Conserved ends pump) (taken : pump.step ends move = some next) :
    Conserved ends next := by
  obtain ⟨accounted, given, passed, sorted⟩ := conserved
  unfold Pump.step at taken
  split at taken
  next reading =>
    rw [reading] at accounted given
    split at taken
    next => cases taken
    next item rest _ =>
      cases taken
      by_cases last : ends item = true
      · refine ⟨?_, ?_, passed, ?_⟩
        · simpa [last, Stage.held] using accounted
        · simpa [last, Stage.shuts] using given
        · simp [last, Stage.Sorted]
      · refine ⟨?_, ?_, passed, ?_⟩
        · simpa [last, Stage.held] using accounted
        · simpa [last, Stage.shuts] using given
        · simp [last, Stage.Sorted]
  next reading =>
    rw [reading] at accounted given
    cases taken
    exact ⟨accounted, given, passed, fun item same => nomatch same⟩
  next reading =>
    rw [reading] at accounted given
    cases taken
    exact ⟨accounted, given, passed, fun item same => nomatch same⟩
  next item offering =>
    rw [offering] at accounted given sorted
    cases taken
    refine ⟨?_, ?_, ?_, trivial⟩
    · simpa [handed_item, Stage.held] using accounted
    · rw [handed_item, List.map_append]
      simpa [Stage.shuts] using given
    · rw [handed_item]
      intro other member
      rcases List.mem_append.mp member with before | now
      · exact passed other before
      · exact List.mem_singleton.mp now ▸ sorted
  next flushing =>
    rw [flushing] at accounted given
    cases taken
    exact ⟨accounted, given, passed, trivial⟩
  next item offering =>
    rw [offering] at accounted given sorted
    cases taken
    exact ⟨accounted, given, passed, fun other same => Option.some.inj same ▸ sorted⟩
  next flushing =>
    rw [flushing] at accounted given
    cases taken
    exact ⟨accounted, given, passed, fun item same => nomatch same⟩
  next last shutting =>
    rw [shutting] at accounted given sorted
    cases taken
    refine ⟨?_, ?_, ?_, sorted⟩
    · rw [handed_close]
      exact accounted
    · rw [handed_close]
      simpa [Stage.shuts] using given
    · rw [handed_close]
      exact passed
  next last closing =>
    rw [closing] at accounted given sorted
    cases taken
    exact ⟨accounted, given, passed, last, rfl, sorted⟩
  next => cases taken

end Step

section Order
variable {ends : ι → Bool} {pump : Pump ι}

theorem Conserved.sent_eq (conserved : Conserved ends pump) :
    pump.sent = handed pump.sink ++ (pump.stage.held.toList ++ pump.incoming) := by
  rw [sent, conserved.accounted, List.append_assoc]

theorem Conserved.prefix_received (conserved : Conserved ends pump) :
    handed pump.sink <+: pump.received.filter fun item => !ends item := by
  rw [conserved.accounted, List.filter_append]
  have all : (handed pump.sink).filter (fun item => !ends item) = handed pump.sink := by
    rw [List.filter_eq_self]
    intro item member
    rw [conserved.passed item member, Bool.not_false]
  rw [all]
  exact List.prefix_append ..

theorem Conserved.prefix_sent (conserved : Conserved ends pump) :
    handed pump.sink <+: pump.sent.takeWhile fun item => !ends item := by
  rw [conserved.sent_eq, List.takeWhile_append_of_pos fun item member => ?_]
  · exact List.prefix_append ..
  · rw [conserved.passed item member, Bool.not_false]

/-- When the sink is closed, it has been given all that was sent before the item that ended the loop. -/
theorem Conserved.complete (conserved : Conserved ends pump) (shuts : pump.stage.shuts = true) :
    handed pump.sink = pump.sent.takeWhile (fun item => !ends item) ∧
      ∃ last ∈ pump.sent, ends last = true := by
  have held : ∃ last, pump.stage.held = some last ∧ ends last = true := by
    have sorted := conserved.sorted
    revert shuts sorted
    cases pump.stage with
    | closing last => exact fun _ sorted => ⟨last, rfl, sorted⟩
    | ended how held =>
      cases how with
      | closed => exact fun _ sorted => sorted
      | _ => exact fun shuts => nomatch shuts
    | _ => exact fun shuts => nomatch shuts
  obtain ⟨last, held, final⟩ := held
  have sent := conserved.sent_eq
  rw [held] at sent
  constructor
  · rw [sent, List.takeWhile_append_of_pos fun item member => ?_]
    · simp [final]
    · rw [conserved.passed item member, Bool.not_false]
  · exact ⟨last, sent ▸ by simp, final⟩

theorem Conserved.shuts_of_closed (conserved : Conserved ends pump) (closed : .close ∈ pump.sink) :
    pump.stage.shuts = true := by
  by_contra never
  rw [conserved.given, if_neg never, List.append_nil, List.mem_map] at closed
  obtain ⟨item, -, same⟩ := closed
  cases same

/-- A loop that has read an item that ends it comes to its end only by closing its sink. -/
theorem Conserved.shuts_of_received (conserved : Conserved ends pump) (ended : pump.stage.isEnded = true)
    {last : ι} (received : last ∈ pump.received) (final : ends last = true) :
    pump.stage.shuts = true := by
  have held : pump.stage.held = some last := by
    rw [conserved.accounted, List.mem_append] at received
    rcases received with passed | held
    · rw [conserved.passed last passed] at final
      cases final
    · exact Option.mem_toList.mp held
  have sorted := conserved.sorted
  cases stage : pump.stage with
  | ended how item =>
    rw [stage] at held sorted
    cases how with
    | closed => rfl
    | _ =>
      rw [sorted last held] at final
      cases final
  | _ =>
    rw [stage] at ended
    cases ended

end Order

end Pump

end TinyLb.Pumps
