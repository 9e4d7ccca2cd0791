import Mathlib.Data.List.DropRight

/-! Field values that are comma-separated lists, and fields sent in several lines. A list may be cut
into lines after any of its commas. -/

namespace TinyLb.ListFields

def trim (blank : Char → Bool) (text : List Char) : List Char :=
  (text.dropWhile blank).rdropWhile blank

/-- Optional white space: a space or a tab. -/
def isOws (c : Char) : Bool := c == ' ' || c == '\t'

def elements (value : List Char) : List (List Char) :=
  ((value.splitOn ',').map (trim isOws)).filter fun element => !element.isEmpty

/-- The elements of a field, whatever its lines. -/
def members (lines : List (List Char)) : List (List Char) := lines.flatMap elements

def combine (lines : List (List Char)) : List Char := [',', ' '].intercalate lines

section Trim
variable {p q : Char → Bool} {text : List Char}

theorem trim_congr (same : ∀ c ∈ text, p c = q c) : trim p text = trim q text := by
  have front : text.dropWhile p = text.dropWhile q := by
    induction text with
    | nil => rfl
    | cons c rest ih =>
      rw [List.dropWhile_cons, List.dropWhile_cons, same c (List.mem_cons_self ..)]
      rw [ih fun d member => same d (List.mem_cons_of_mem _ member)]
  have back : ∀ s : List Char, (∀ c ∈ s, p c = q c) → s.rdropWhile p = s.rdropWhile q := by
    intro s
    induction s using List.reverseRecOn with
    | nil => exact fun _ => rfl
    | append_singleton s c ih =>
      intro agree
      rw [List.rdropWhile_concat, List.rdropWhile_concat, agree c (by simp)]
      rw [ih fun d member => agree d (List.mem_append_left _ member)]
  rw [trim, trim, front]
  exact back _ fun c member => same c ((List.dropWhile_suffix q).subset member)

theorem trim_cons {c : Char} (blank : p c = true) (text : List Char) :
    trim p (c :: text) = trim p text := by
  rw [trim, trim, List.dropWhile_cons_of_pos blank]

theorem trim_trim (text : List Char) : trim p (trim p text) = trim p text := by
  have front : (trim p text).dropWhile p = trim p text := by
    rw [List.dropWhile_eq_self_iff]
    intro full
    have kept := List.rdropWhile_prefix p (text.dropWhile p)
    have first := List.dropWhile_get_zero_not p text (Nat.lt_of_lt_of_le full kept.length_le)
    rwa [List.get_eq_getElem, ← kept.getElem full] at first
  rw [trim, front]
  exact List.rdropWhile_idempotent p _

theorem mem_of_mem_trim {c : Char} (member : c ∈ trim p text) : c ∈ text :=
  (List.dropWhile_suffix p).subset ((List.rdropWhile_prefix p _).subset member)

end Trim

section Elements
variable {value element : List Char}

/-- What an element of a list looks like. -/
structure IsElement (element : List Char) : Prop where
  nonempty : element ≠ []
  noComma : ',' ∉ element
  trimmed : trim isOws element = element

theorem piece_of_mem_splitOn {separator : Char} {piece : List Char}
    (cut : piece ∈ value.splitOn separator) : separator ∉ piece ∧ piece ⊆ value := by
  induction value generalizing piece with
  | nil =>
    rw [List.splitOn_nil, List.mem_singleton] at cut
    simp [cut]
  | cons c value ih =>
    rw [List.splitOn_cons_eq_if_modifyHead] at cut
    split at cut
    next =>
      rcases List.mem_cons.mp cut with rfl | later
      · exact ⟨List.not_mem_nil, List.nil_subset _⟩
      · exact ⟨(ih later).1, List.subset_cons_of_subset _ (ih later).2⟩
    next other =>
      cases pieces : value.splitOn separator with
      | nil => exact absurd pieces (List.splitOn_ne_nil _ _)
      | cons first rest =>
        rw [pieces, List.modifyHead_cons] at cut
        rw [pieces] at ih
        rcases List.mem_cons.mp cut with rfl | later
        · obtain ⟨absent, inside⟩ := ih (List.mem_cons_self ..)
          refine ⟨fun member => ?_, List.cons_subset_cons c inside⟩
          rcases List.mem_cons.mp member with same | deeper
          · exact other (by rw [same, beq_self_eq_true])
          · exact absent deeper
        · obtain ⟨absent, inside⟩ := ih (List.mem_cons_of_mem _ later)
          exact ⟨absent, List.subset_cons_of_subset _ inside⟩

theorem elements_comma (left right : List Char) :
    elements (left ++ ',' :: right) = elements left ++ elements right := by
  rw [elements, List.splitOn_append_cons_self, List.map_append, List.filter_append, elements, elements]

theorem elements_cons {c : Char} (blank : isOws c = true) (value : List Char) :
    elements (c :: value) = elements value := by
  have other : (c == ',') = false := by
    rcases Bool.or_eq_true_iff.mp blank with space | tab
    · rw [beq_iff_eq.mp space]
      rfl
    · rw [beq_iff_eq.mp tab]
      rfl
  rw [elements, elements, List.splitOn_cons_eq_if_modifyHead, other, if_neg (by simp)]
  cases pieces : value.splitOn ',' with
  | nil => exact absurd pieces (List.splitOn_ne_nil _ _)
  | cons first rest => rw [List.modifyHead_cons, List.map_cons, List.map_cons, trim_cons blank]

theorem elements_combine {lines : List (List Char)} (some : lines ≠ []) :
    elements (combine lines) = members lines := by
  induction lines with
  | nil => exact absurd rfl some
  | cons line rest ih =>
    cases rest with
    | nil => simp [combine, members]
    | cons next rest =>
      rw [combine, List.intercalate_cons_cons, List.append_assoc, members, List.flatMap_cons]
      change elements (line ++ ',' :: ' ' :: combine (next :: rest)) = _
      rw [elements_comma, elements_cons rfl, ih (List.cons_ne_nil _ _), members]

theorem all_combine {p : Char → Bool} (comma : p ',' = true) (space : p ' ' = true)
    (lines : List (List Char)) : (combine lines).all p = lines.all fun line => line.all p := by
  induction lines with
  | nil => rfl
  | cons line rest ih =>
    cases rest with
    | nil => simp [combine]
    | cons next rest =>
      have between : [',', ' '].all p = true := by simp [comma, space]
      rw [combine, List.intercalate_cons_cons, List.all_append, List.all_append, between, Bool.and_true]
      exact congrArg (line.all p && ·) ih

theorem elements_element (is : IsElement element) : elements element = [element] := by
  have full : element.isEmpty = false := List.isEmpty_eq_false_iff.mpr is.nonempty
  rw [elements, List.splitOn_eq_singleton is.noComma, List.map_singleton, is.trimmed,
    List.filter_singleton, full]
  rfl

theorem isElement_of_mem (member : element ∈ elements value) : IsElement element := by
  obtain ⟨present, full⟩ := List.mem_filter.mp member
  obtain ⟨piece, cut, rfl⟩ := List.mem_map.mp present
  refine ⟨?_, fun comma => ?_, trim_trim _⟩
  · simpa using full
  · exact (piece_of_mem_splitOn cut).1 (mem_of_mem_trim comma)

end Elements

end TinyLb.ListFields
