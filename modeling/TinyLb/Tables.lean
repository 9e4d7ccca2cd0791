import TinyLb.Text
import Mathlib.Data.List.Forall2

/-! Documents as a library for TOML hands them to a program: trees of values, in which a table maps keys
to values. -/

namespace TinyLb.Tables

inductive Value where
  | string (text : Str)
  | integer (n : Int)
  | boolean (b : Bool)
  /-- A float or a time; `truth` is false for a zero. -/
  | scalar (text : Str) (truth : Bool)
  | array (items : List Value)
  | table (entries : List (Str × Value))

/-- A table is listed in the order of its keys, each once, so that equal tables are equal lists. -/
abbrev Table := List (Str × Value)

def put (key : Str) (value : Value) : Table → Table
  | [] => [(key, value)]
  | entry :: rest =>
      if entry.1 == key then (key, value) :: rest
      else if key < entry.1 then (key, value) :: entry :: rest
      else entry :: put key value rest

section Put
variable {key other : Str} {value : Value} {t : Table}

@[simp] theorem lookup_put_self : (put key value t).lookup key = some value := by
  induction t with
  | nil => simp [put]
  | cons entry rest ih =>
    rw [put]
    by_cases same : entry.1 = key
    · simp [same]
    · have apart : (key == entry.1) = false := beq_false_of_ne (Ne.symm same)
      rw [if_neg (by simpa using same)]
      split
      · simp
      · rw [List.lookup_cons, apart]
        exact ih

theorem lookup_put_of_ne (apart : other ≠ key) : (put key value t).lookup other = t.lookup other := by
  have unequal : (other == key) = false := beq_false_of_ne apart
  induction t with
  | nil => simp [put, List.lookup_cons, unequal]
  | cons entry rest ih =>
    rw [put]
    by_cases same : entry.1 = key
    · rw [if_pos (by simpa using same), List.lookup_cons, List.lookup_cons, same, unequal]
    · rw [if_neg (by simpa using same)]
      split
      · rw [List.lookup_cons, unequal]
      · rw [List.lookup_cons, List.lookup_cons, ih]

end Put

section Traversal
universe u
variable {α β : Type u}

theorem mapM_eq_some_iff {f : α → Option β} {l : List α} {m : List β} :
    l.mapM f = some m ↔ List.Forall₂ (fun a b => f a = some b) l m := by
  induction l generalizing m with
  | nil => simp [List.mapM_nil, eq_comm]
  | cons a rest ih =>
    rw [List.mapM_cons]
    constructor
    · intro read
      obtain ⟨b, head, read⟩ := Option.bind_eq_some_iff.mp read
      obtain ⟨bs, tail, read⟩ := Option.bind_eq_some_iff.mp read
      cases read
      exact .cons head (ih.mp tail)
    · intro each
      cases each with
      | cons head tail =>
        rw [head, ih.mpr tail]
        rfl

theorem mapM_tables {γ : Type} {f : Value → Option γ} {tables : List Table} {m : List γ} :
    (tables.map Value.table).mapM f = some m ↔ List.Forall₂ (fun t c => f (.table t) = some c) tables m := by
  rw [mapM_eq_some_iff, List.forall₂_map_left_iff]

/-- An edit of each element that keeps what the elements stand for. -/
theorem forall₂_edit {γ : Type u} {R : α → γ → Prop} {edit : α → Option α} {h : γ → γ}
    (each : ∀ a c, R a c → ∃ a', edit a = some a' ∧ R a' (h c)) {l : List α} {m : List γ}
    (related : List.Forall₂ R l m) :
    ∃ l', List.Forall₂ (fun a a' => edit a = some a') l l' ∧ List.Forall₂ R l' (m.map h) := by
  induction related with
  | nil => exact ⟨[], .nil, .nil⟩
  | cons head tail ih =>
    obtain ⟨a', edited, kept⟩ := each _ _ head
    obtain ⟨l', others, rest⟩ := ih
    exact ⟨a' :: l', .cons edited others, .cons kept rest⟩

end Traversal

section Relations
universe u
variable {α : Type u} {R : α → α → Prop}

theorem forall₂_trans (trans : ∀ a b c, R a b → R b c → R a c) {l m n : List α}
    (first : List.Forall₂ R l m) (second : List.Forall₂ R m n) : List.Forall₂ R l n := by
  induction first generalizing n with
  | nil => exact second
  | cons head tail ih =>
    cases second with
    | cons next rest => exact .cons (trans _ _ _ head next) (ih rest)

theorem rel_trans (trans : ∀ a b c, R a b → R b c → R a c) {a b c : Option α}
    (first : Option.Rel R a b) (second : Option.Rel R b c) : Option.Rel R a c := by
  cases first with
  | none => exact second
  | some before =>
    cases second with
    | some after => exact .some (trans _ _ _ before after)

end Relations

end TinyLb.Tables
