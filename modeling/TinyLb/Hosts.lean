import TinyLb.Text

/-! `HostMatch::parse`: the two kinds of `host` values a route may have and the
three ways a value is refused. -/

namespace TinyLb.Hosts
open Text

/-- How an incoming Host header is matched against a route. Both texts are stored
lowercased, and the suffix keeps its leading dot. -/
inductive HostMatch where
  | exact (host : Str)
  | wildcard (suffix : Str)
  deriving DecidableEq, Repr

def HostMatch.isExactly (kind : HostMatch) (host : Str) : Bool :=
  match kind with
  | .exact h => h == host
  | .wildcard _ => false

/-- The byte length of the suffix, where it matches. -/
def HostMatch.suffixLen (kind : HostMatch) (host : Str) : Option Nat :=
  match kind with
  | .exact _ => none
  | .wildcard suffix => if endsWith host suffix then some (len suffix) else none

inductive HostError where
  | emptySuffix (host : Str)
  | extraStar (host : Str)
  | strayStar (host : Str)
  deriving DecidableEq, Repr

/-- The error text; `debug` is the `{:?}` rendering of a `str`. -/
def HostError.message (debug : Str → Str) : HostError → Str
  | .emptySuffix host =>
      "invalid wildcard host ".toList ++ debug host ++ ": suffix is empty".toList
  | .extraStar host =>
      "invalid wildcard host ".toList ++ debug host ++
        ": only a single leading '*.' is allowed".toList
  | .strayStar host =>
      "invalid host ".toList ++ debug host ++
        ": '*' is only allowed as a leading '*.' wildcard".toList

def parse (host : Str) : Except HostError HostMatch :=
  match stripPrefix ['*', '.'] host with
  | some rest =>
      if rest.isEmpty then .error (.emptySuffix host)
      else if rest.contains '*' then .error (.extraStar host)
      else .ok (.wildcard (toAsciiLowercase ('.' :: rest)))
  | none =>
      if host.contains '*' then .error (.strayStar host)
      else .ok (.exact (toAsciiLowercase host))

theorem parse_wildcard (rest : Str) :
    parse ('*' :: '.' :: rest) =
      if rest.isEmpty then .error (.emptySuffix ('*' :: '.' :: rest))
      else if rest.contains '*' then .error (.extraStar ('*' :: '.' :: rest))
      else .ok (.wildcard (toAsciiLowercase ('.' :: rest))) := rfl

theorem parse_of_no_star {host : Str} (plain : '*' ∉ host) :
    parse host = .ok (.exact (toAsciiLowercase host)) := by
  have noLead : stripPrefix ['*', '.'] host = none := by
    cases found : stripPrefix ['*', '.'] host with
    | none => rfl
    | some rest => exact absurd (by rw [stripPrefix_some.mp found]; simp) plain
  simp [parse, noLead, plain]

theorem parse_of_wildcard {rest : Str} (nonempty : rest ≠ []) (plain : '*' ∉ rest) :
    parse ('*' :: '.' :: rest) = .ok (.wildcard (toAsciiLowercase ('.' :: rest))) := by
  simp [parse_wildcard, nonempty, plain]

theorem parse_ok_cases {host : Str} {kind : HostMatch} (accepted : parse host = .ok kind) :
    ('*' ∉ host ∧ kind = .exact (toAsciiLowercase host)) ∨
      ∃ rest, host = '*' :: '.' :: rest ∧ rest ≠ [] ∧ '*' ∉ rest ∧
        kind = .wildcard (toAsciiLowercase ('.' :: rest)) := by
  unfold parse at accepted
  split at accepted
  next rest lead =>
    rw [stripPrefix_some] at lead
    by_cases empty : rest.isEmpty
    · rw [if_pos empty] at accepted
      cases accepted
    · rw [if_neg empty] at accepted
      by_cases star : rest.contains '*'
      · rw [if_pos star] at accepted
        cases accepted
      · rw [if_neg star] at accepted
        exact Or.inr ⟨rest, lead, by simpa using empty, by simpa using star,
          (Except.ok.inj accepted).symm⟩
  next =>
    by_cases star : host.contains '*'
    · rw [if_pos star] at accepted
      cases accepted
    · rw [if_neg star] at accepted
      exact Or.inl ⟨by simpa using star, (Except.ok.inj accepted).symm⟩

/-- What a host value may look like: no `*` at all, or `*.` and a nonempty text
without `*`. -/
def WellFormed (host : Str) : Prop :=
  '*' ∉ host ∨ ∃ rest, host = '*' :: '.' :: rest ∧ rest ≠ [] ∧ '*' ∉ rest

theorem parse_ok_iff (host : Str) : (∃ kind, parse host = .ok kind) ↔ WellFormed host := by
  constructor
  · rintro ⟨kind, accepted⟩
    rcases parse_ok_cases accepted with ⟨plain, -⟩ | ⟨rest, shape, nonempty, plain, -⟩
    · exact Or.inl plain
    · exact Or.inr ⟨rest, shape, nonempty, plain⟩
  · rintro (plain | ⟨rest, rfl, nonempty, plain⟩)
    · exact ⟨_, parse_of_no_star plain⟩
    · exact ⟨_, parse_of_wildcard nonempty plain⟩

theorem parse_error_host {host : Str} {e : HostError} (refused : parse host = .error e) :
    e = .emptySuffix host ∨ e = .extraStar host ∨ e = .strayStar host := by
  unfold parse at refused
  split at refused
  next =>
    split at refused
    next => exact Or.inl (Except.error.inj refused).symm
    next =>
      split at refused
      next => exact Or.inr (Or.inl (Except.error.inj refused).symm)
      next => cases refused
  next =>
    split at refused
    next => exact Or.inr (Or.inr (Except.error.inj refused).symm)
    next => cases refused

end TinyLb.Hosts
