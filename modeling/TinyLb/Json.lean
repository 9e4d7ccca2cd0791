import TinyLb.Text

/-! JSON texts (RFC 8259) and a parser for them. -/

namespace TinyLb.Json

/-- A number is `mantissa * 10 ^ exponent`; the members of an object are in the order of the text. -/
inductive Value where
  | null
  | bool (value : Bool)
  | number (mantissa exponent : Int)
  | string (text : Str)
  | array (items : List Value)
  | object (members : List (Str × Value))

def isSpace (c : Char) : Bool := c == ' ' || c == '\t' || c == '\n' || c == '\r'

def skip (text : Str) : Str := text.dropWhile isSpace

section Strings

def hexDigit (c : Char) : Option Nat :=
  if '0' ≤ c ∧ c ≤ '9' then some (c.toNat - 48)
  else if 'a' ≤ c ∧ c ≤ 'f' then some (c.toNat - 87)
  else if 'A' ≤ c ∧ c ≤ 'F' then some (c.toNat - 55)
  else none

/-- The UTF-16 code unit of an escape `\uabcd`. -/
def codeUnit (a b c d : Char) : Option Nat :=
  match hexDigit a, hexDigit b, hexDigit c, hexDigit d with
  | some a, some b, some c, some d => some (4096 * a + 256 * b + 16 * c + d)
  | _, _, _, _ => none

def isHighSurrogate (unit : Nat) : Bool := 0xD800 ≤ unit && unit ≤ 0xDBFF

def isLowSurrogate (unit : Nat) : Bool := 0xDC00 ≤ unit && unit ≤ 0xDFFF

def simpleEscape (c : Char) : Option Char :=
  match c with
  | '"' => some '"'
  | '\\' => some '\\'
  | '/' => some '/'
  | 'b' => some (Char.ofNat 8)
  | 'f' => some (Char.ofNat 12)
  | 'n' => some '\n'
  | 'r' => some '\r'
  | 't' => some '\t'
  | _ => none

def isControl (c : Char) : Bool := c.toNat < 0x20

def push (c : Char) (parsed : Str × Str) : Str × Str := (c :: parsed.1, parsed.2)

/-- A string after its opening quote, and the text behind it. A surrogate without its pair is not
a character. -/
def stringBody : Str → Option (Str × Str)
  | [] => none
  | '"' :: rest => some ([], rest)
  | '\\' :: 'u' :: a :: b :: c :: d :: rest =>
      match codeUnit a b c d with
      | none => none
      | some unit =>
          if isLowSurrogate unit then none
          else if isHighSurrogate unit then
            match rest with
            | '\\' :: 'u' :: a :: b :: c :: d :: rest =>
                match codeUnit a b c d with
                | none => none
                | some low =>
                    if isLowSurrogate low then
                      (stringBody rest).map
                        (push (Char.ofNat (0x10000 + (unit - 0xD800) * 0x400 + (low - 0xDC00))))
                    else none
            | _ => none
          else (stringBody rest).map (push (Char.ofNat unit))
  | '\\' :: c :: rest =>
      match simpleEscape c with
      | none => none
      | some c => (stringBody rest).map (push c)
  | c :: rest => if isControl c then none else (stringBody rest).map (push c)

theorem stringBody_plain {c : Char} (quote : c ≠ '"') (backslash : c ≠ '\\') (rest : Str) :
    stringBody (c :: rest) = if isControl c then none else (stringBody rest).map (push c) := by
  rw [stringBody.eq_def]
  split
  next same => cases same
  next same => exact absurd (List.cons.inj same).1 quote
  next same => exact absurd (List.cons.inj same).1 backslash
  next same => exact absurd (List.cons.inj same).1 backslash
  next same =>
    cases same
    rfl

theorem stringBody_quote (rest : Str) :
    stringBody ('\\' :: '"' :: rest) = (stringBody rest).map (push '"') := by
  rw [stringBody]
  · rfl
  · exact fun a b c d rest same => absurd same (by decide)

theorem stringBody_backslash (rest : Str) :
    stringBody ('\\' :: '\\' :: rest) = (stringBody rest).map (push '\\') := by
  rw [stringBody]
  · rfl
  · exact fun a b c d rest same => absurd same (by decide)

end Strings

section Numbers

def digits1 (text : Str) : Option (Str × Str) :=
  let digits := text.takeWhile Char.isDigit
  if digits = [] then none else some (digits, text.dropWhile Char.isDigit)

def fraction : Str → Option (Str × Str)
  | '.' :: rest => digits1 rest
  | rest => some ([], rest)

def exponent : Str → Option (Int × Str)
  | 'e' :: rest | 'E' :: rest =>
      let signed := match rest with
        | '+' :: rest => (1, rest)
        | '-' :: rest => (-1, rest)
        | rest => ((1 : Int), rest)
      (digits1 signed.2).map fun (digits, rest) => (signed.1 * Nat.ofDigitChars 10 digits 0, rest)
  | rest => some (0, rest)

/-- A number has no leading zero. -/
def parseNumber (text : Str) : Option (Value × Str) :=
  let negative := text.head? == some '-'
  let unsigned := if negative then text.drop 1 else text
  match digits1 unsigned with
  | none => none
  | some (whole, rest) =>
      if whole.head? = some '0' ∧ whole ≠ ['0'] then none
      else
        match fraction rest with
        | none => none
        | some (decimals, rest) =>
            match exponent rest with
            | none => none
            | some (power, rest) =>
                let magnitude : Int := Nat.ofDigitChars 10 (whole ++ decimals) 0
                some (.number (if negative then -magnitude else magnitude) (power - decimals.length), rest)

def endsNumber (c : Char) : Bool := !c.isDigit && c != '.' && c != 'e' && c != 'E'

theorem toDigits_head {n : Nat} (positive : 0 < n) : (Nat.toDigits 10 n).head? ≠ some '0' := by
  induction n using Nat.strongRecOn with
  | _ n ih =>
    by_cases small : n < 10
    · rw [Nat.toDigits_of_lt_base small, List.head?_cons, ne_eq, Option.some.injEq,
        Nat.digitChar_eq_zero]
      omega
    · have large : 10 ≤ n := Nat.le_of_not_lt small
      rw [Nat.toDigits_of_base_le (by decide) large, List.head?_append_of_ne_nil _ Nat.toDigits_ne_nil]
      exact ih (n / 10) (by omega) (by omega)

theorem isDigit_of_mem {n : Nat} {c : Char} (member : c ∈ Nat.toDigits 10 n) : c.isDigit = true :=
  Nat.isDigit_of_mem_toDigits (by decide) (by decide) member

theorem digits1_toDigits (n : Nat) {c : Char} (ends : c.isDigit = false) (rest : Str) :
    digits1 (Nat.toDigits 10 n ++ c :: rest) = some (Nat.toDigits 10 n, c :: rest) := by
  have inside : ∀ d ∈ Nat.toDigits 10 n, d.isDigit = true := fun d member => isDigit_of_mem member
  have taken : (Nat.toDigits 10 n ++ c :: rest).takeWhile Char.isDigit = Nat.toDigits 10 n := by
    rw [List.takeWhile_append_of_pos inside, List.takeWhile_cons_of_neg (by simp [ends]),
      List.append_nil]
  have left : (Nat.toDigits 10 n ++ c :: rest).dropWhile Char.isDigit = c :: rest := by
    rw [List.dropWhile_append_of_pos inside, List.dropWhile_cons_of_neg (by simp [ends])]
  rw [digits1, taken, left]
  exact if_neg Nat.toDigits_ne_nil

theorem parseNumber_toDigits (n : Nat) {c : Char} (ends : endsNumber c = true) (rest : Str) :
    parseNumber (Nat.toDigits 10 n ++ c :: rest) = some (.number n 0, c :: rest) := by
  simp only [endsNumber, Bool.and_eq_true, Bool.not_eq_true', bne_iff_ne, ne_eq] at ends
  obtain ⟨⟨⟨noDigit, noPoint⟩, noLower⟩, noUpper⟩ := ends
  have unsigned : ((Nat.toDigits 10 n ++ c :: rest).head? == some '-') = false := by
    rw [List.head?_append_of_ne_nil _ Nat.toDigits_ne_nil, beq_eq_false_iff_ne]
    intro minus
    exact absurd (isDigit_of_mem (List.mem_of_head? minus)) (by decide)
  have leading : ¬((Nat.toDigits 10 n).head? = some '0' ∧ Nat.toDigits 10 n ≠ ['0']) := by
    rintro ⟨zero, longer⟩
    rcases Nat.eq_zero_or_pos n with rfl | positive
    · exact longer (Nat.toDigits_zero 10)
    · exact toDigits_head positive zero
  have noFraction : fraction (c :: rest) = some ([], c :: rest) := by
    rw [fraction]
    exact fun more same => noPoint (List.cons.inj same).1
  have noExponent : exponent (c :: rest) = some (0, c :: rest) := by
    rw [exponent]
    · exact fun more same => noLower (List.cons.inj same).1
    · exact fun more same => noUpper (List.cons.inj same).1
  simp only [parseNumber, unsigned, Bool.false_eq_true, if_false, digits1_toDigits n noDigit,
    if_neg leading, noFraction, noExponent, List.append_nil, Nat.ofDigitChars_ten_toDigits,
    List.length_nil]
  rfl

end Numbers

mutual

/-- The value at the start of a text, and the text behind it. -/
def parseValue : Nat → Str → Option (Value × Str)
  | 0, _ => none
  | fuel + 1, text =>
      match text with
      | '"' :: rest => (stringBody rest).map fun (string, rest) => (.string string, rest)
      | '[' :: rest =>
          match skip rest with
          | ']' :: rest => some (.array [], rest)
          | items => (parseItems fuel items).map fun (items, rest) => (.array items, rest)
      | '{' :: rest =>
          match skip rest with
          | '}' :: rest => some (.object [], rest)
          | members => (parseMembers fuel members).map fun (members, rest) => (.object members, rest)
      | 't' :: 'r' :: 'u' :: 'e' :: rest => some (.bool true, rest)
      | 'f' :: 'a' :: 'l' :: 's' :: 'e' :: rest => some (.bool false, rest)
      | 'n' :: 'u' :: 'l' :: 'l' :: rest => some (.null, rest)
      | text => parseNumber text

def parseItems : Nat → Str → Option (List Value × Str)
  | 0, _ => none
  | fuel + 1, text =>
      match parseValue fuel text with
      | none => none
      | some (item, rest) =>
          match skip rest with
          | ',' :: rest => (parseItems fuel (skip rest)).map fun (items, rest) => (item :: items, rest)
          | ']' :: rest => some ([item], rest)
          | _ => none

def parseMembers : Nat → Str → Option (List (Str × Value) × Str)
  | 0, _ => none
  | fuel + 1, text =>
      match text with
      | '"' :: rest =>
          match stringBody rest with
          | none => none
          | some (name, rest) =>
              match skip rest with
              | ':' :: rest =>
                  match parseValue fuel (skip rest) with
                  | none => none
                  | some (value, rest) =>
                      match skip rest with
                      | ',' :: rest =>
                          (parseMembers fuel (skip rest)).map fun (members, rest) =>
                            ((name, value) :: members, rest)
                      | '}' :: rest => some ([(name, value)], rest)
                      | _ => none
              | _ => none
      | _ => none

end

/-- A whole text. Every second call consumes a character, so the fuel is never short. -/
def parse (text : Str) : Option Value :=
  match parseValue (2 * text.length + 2) (skip text) with
  | none => none
  | some (value, rest) => if skip rest = [] then some value else none

section Rules
variable {fuel : Nat} {rest more : Str} {item value : Value} {name : Str}

theorem skip_of_head {c : Char} (dense : isSpace c = false) (rest : Str) : skip (c :: rest) = c :: rest :=
  List.dropWhile_cons_of_neg (by simp [dense])

theorem parseValue_natural (fuel n : Nat) {c : Char} (ends : endsNumber c = true) (rest : Str) :
    parseValue (fuel + 1) (Nat.toDigits 10 n ++ c :: rest) = some (.number n 0, c :: rest) := by
  rw [← parseNumber_toDigits n ends rest]
  obtain ⟨d, digits, same⟩ := List.exists_cons_of_ne_nil (@Nat.toDigits_ne_nil n 10)
  have digit : d.isDigit = true := isDigit_of_mem (same ▸ List.mem_cons_self ..)
  have other : ∀ (e : Char) (tail : Str), e.isDigit = false → d :: (digits ++ c :: rest) ≠ e :: tail := by
    intro e tail letter first
    rw [(List.cons.inj first).1, letter] at digit
    cases digit
  rw [same, List.cons_append, parseValue] <;> exact fun tail same => other _ _ (by decide) same

theorem skip_toDigits (n : Nat) (rest : Str) :
    skip (Nat.toDigits 10 n ++ rest) = Nat.toDigits 10 n ++ rest := by
  obtain ⟨d, digits, same⟩ := List.exists_cons_of_ne_nil (@Nat.toDigits_ne_nil n 10)
  have digit : d.isDigit = true := isDigit_of_mem (same ▸ List.mem_cons_self ..)
  rw [same, List.cons_append]
  refine skip_of_head ?_ _
  cases space : isSpace d with
  | false => rfl
  | true =>
    simp only [isSpace, Bool.or_eq_true, beq_iff_eq] at space
    rcases space with ((rfl | rfl) | rfl) | rfl <;> cases digit

theorem parseValue_members (fuel : Nat) (rest : Str) :
    parseValue (fuel + 1) ('{' :: '"' :: rest) =
      (parseMembers fuel ('"' :: rest)).map fun (members, rest) => (.object members, rest) := by
  rw [parseValue, skip_of_head (by decide)]
  rfl

theorem parseValue_items {c : Char} (dense : isSpace c = false) (another : c ≠ ']') (fuel : Nat)
    (rest : Str) : parseValue (fuel + 1) ('[' :: c :: rest) =
      (parseItems fuel (c :: rest)).map fun (items, rest) => (.array items, rest) := by
  rw [parseValue, skip_of_head dense]
  simp only
  split
  next same => exact absurd (List.cons.inj same).1 another
  next => rfl

theorem parseItems_last (parsed : parseValue fuel more = some (item, ']' :: rest)) :
    parseItems (fuel + 1) more = some ([item], rest) := by
  rw [parseItems, parsed]
  rfl

theorem parseItems_more (parsed : parseValue fuel more = some (item, ',' :: rest))
    (dense : skip rest = rest) :
    parseItems (fuel + 1) more = (parseItems fuel rest).map fun (items, rest) => (item :: items, rest) := by
  rw [parseItems, parsed]
  simp only [skip_of_head (by decide : isSpace ',' = false), dense]

theorem parseMembers_name (bad : stringBody more = none) (fuel : Nat) :
    parseMembers fuel ('"' :: more) = none := by
  cases fuel with
  | zero => rfl
  | succ fuel => rw [parseMembers, bad]

theorem parseMembers_last (named : stringBody more = some (name, ':' :: rest)) {text : Str}
    (dense : skip rest = rest) (parsed : parseValue fuel rest = some (value, '}' :: text)) :
    parseMembers (fuel + 1) ('"' :: more) = some ([(name, value)], text) := by
  rw [parseMembers, named]
  simp only [skip_of_head (by decide : isSpace ':' = false), dense, parsed]
  rfl

theorem parseMembers_more (named : stringBody more = some (name, ':' :: rest)) {text : Str}
    (dense : skip rest = rest) (parsed : parseValue fuel rest = some (value, ',' :: text))
    (next : skip text = text) :
    parseMembers (fuel + 1) ('"' :: more) =
      (parseMembers fuel text).map fun (members, rest) => ((name, value) :: members, rest) := by
  rw [parseMembers, named]
  simp only [skip_of_head (by decide : isSpace ':' = false), dense, parsed,
    skip_of_head (by decide : isSpace ',' = false), next]

end Rules

end TinyLb.Json
