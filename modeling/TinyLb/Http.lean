import TinyLb.Text

/-! URIs and header maps, as the HTTP library has them. A header value is its bytes, each written
as the character with that code. -/

namespace TinyLb.Http

/-- An authority goes on up to the first `/`, `?` or `#`. -/
def inAuthority (c : Char) : Bool := c != '/' && c != '?' && c != '#'

structure Scheme where
  text : Str
  plain : ':' ∉ text
  deriving DecidableEq, Repr

/-- Visible ASCII, a space or a tab: what can be read from a header value as a string, and what a
string may hold to become one. -/
def readable (c : Char) : Bool := c == '\t' || (' ' ≤ c && c ≤ '~')

structure Authority where
  text : Str
  ascii : text.all readable = true
  plain : text.all inAuthority = true
  deriving DecidableEq, Repr

/-- The target of a request without scheme and authority; `*` is the asterisk form. -/
structure PathAndQuery where
  text : Str
  form : text = ['*'] ∨ text.head? = some '/' ∨ text.head? = some '?'
  deriving DecidableEq, Repr

theorem origin_form {text : Str} (slash : text.head? = some '/') :
    text = ['*'] ∨ text.head? = some '/' ∨ text.head? = some '?' :=
  Or.inr (Or.inl slash)

def PathAndQuery.asterisk : PathAndQuery := ⟨['*'], Or.inl rfl⟩

structure Uri where
  scheme : Option Scheme
  authority : Option Authority
  pathAndQuery : Option PathAndQuery
  deriving DecidableEq, Repr

def Uri.target (uri : Uri) : Str :=
  match uri.pathAndQuery with
  | some pathAndQuery => pathAndQuery.text
  | none => "/".toList

def formatUri (scheme authority pathAndQuery : Str) : Str :=
  scheme ++ "://".toList ++ authority ++ pathAndQuery

def afterScheme : Str → Str
  | ':' :: '/' :: '/' :: rest => rest
  | _ :: rest => afterScheme rest
  | [] => []

def authorityPart (uri : Str) : Str := (afterScheme uri).takeWhile inAuthority

def targetPart (uri : Str) : Str := (afterScheme uri).dropWhile inAuthority

theorem afterScheme_cons {c : Char} (plain : c ≠ ':') (rest : Str) :
    afterScheme (c :: rest) = afterScheme rest := by
  rw [afterScheme]
  exact fun more same => absurd same plain

theorem afterScheme_format {scheme : Str} (plain : ':' ∉ scheme) (authority pathAndQuery : Str) :
    afterScheme (formatUri scheme authority pathAndQuery) = authority ++ pathAndQuery := by
  induction scheme with
  | nil => rfl
  | cons c rest ih =>
    have other : c ≠ ':' := fun same => plain (same ▸ List.mem_cons_self ..)
    have later : ':' ∉ rest := fun member => plain (List.mem_cons_of_mem _ member)
    rw [formatUri, List.cons_append, List.cons_append, List.cons_append, afterScheme_cons other]
    exact ih later

theorem parts_format {scheme : Str} (plain : ':' ∉ scheme) (authority : Authority) {target : Str}
    {c : Char} (first : target.head? = some c) (ends : inAuthority c = false) :
    authorityPart (formatUri scheme authority.text target) = authority.text ∧
      targetPart (formatUri scheme authority.text target) = target := by
  have inside : ∀ x ∈ authority.text, inAuthority x = true := List.all_eq_true.mp authority.plain
  obtain ⟨rest, rfl⟩ := List.head?_eq_some_iff.mp first
  rw [authorityPart, targetPart, afterScheme_format plain]
  rw [List.takeWhile_append_of_pos inside, List.dropWhile_append_of_pos inside]
  simp [ends]

theorem authorityPart_format {scheme : Str} (plain : ':' ∉ scheme) (authority : Authority) {target : Str}
    (inner : target.all inAuthority = true) :
    authorityPart (formatUri scheme authority.text target) = authority.text ++ target := by
  rw [authorityPart, afterScheme_format plain, List.takeWhile_eq_self_iff]
  intro x member
  rcases List.mem_append.mp member with here | there
  · exact List.all_eq_true.mp authority.plain x here
  · exact List.all_eq_true.mp inner x there

abbrev HeaderValue := Str

/-- `HeaderValue::to_str`. -/
def toStr (value : HeaderValue) : Option Str := if value.all readable then some value else none

/-- `HeaderValue::from_str`. -/
def parseValue (text : Str) : Option HeaderValue := if text.all readable then some text else none

/-- A map from lowercase names to values, each name with any number of them. -/
structure HeaderMap where
  entries : List (Str × HeaderValue)
  deriving DecidableEq, Repr

namespace HeaderMap

def getAll (headers : HeaderMap) (name : Str) : List HeaderValue :=
  (headers.entries.filter fun entry => entry.1 == name).map Prod.snd

def get (headers : HeaderMap) (name : Str) : Option HeaderValue := (headers.getAll name).head?

def remove (headers : HeaderMap) (name : Str) : HeaderMap :=
  ⟨headers.entries.filter fun entry => entry.1 != name⟩

def insert (headers : HeaderMap) (name : Str) (value : HeaderValue) : HeaderMap :=
  ⟨(headers.remove name).entries ++ [(name, value)]⟩

variable (headers : HeaderMap) {name other : Str}

@[simp] theorem getAll_remove_self : (headers.remove name).getAll name = [] := by
  simp [getAll, remove]

theorem getAll_remove_of_ne (apart : other ≠ name) :
    (headers.remove name).getAll other = headers.getAll other := by
  rw [getAll, getAll, remove, List.filter_filter]
  refine congrArg (List.map Prod.snd) (List.filter_congr fun entry _ => ?_)
  by_cases same : entry.1 = other
  · simp [same, apart]
  · simp [same]

@[simp] theorem getAll_insert_self (value : HeaderValue) :
    (headers.insert name value).getAll name = [value] := by
  have removed := @getAll_remove_self headers name
  rw [getAll, List.map_eq_nil_iff] at removed
  rw [getAll, insert, List.filter_append, removed]
  simp

theorem getAll_insert_of_ne (value : HeaderValue) (apart : other ≠ name) :
    (headers.insert name value).getAll other = headers.getAll other := by
  have kept := headers.getAll_remove_of_ne apart
  rw [getAll] at kept
  rw [getAll, insert, List.filter_append, List.map_append, kept]
  simp [Ne.symm apart]

end HeaderMap

end TinyLb.Http
