import TinyLb.Forwarding
import TinyLb.ListFields

/-! `is_websocket_upgrade` and requests whose Connection field has several lines. The test reads the
first line only. -/

namespace TinyLb.Upgrade
open Text Http Forwarding

def upgrade : Str := "upgrade".toList

def connection : Str := "connection".toList

def websocket : Str := "websocket".toList

def isWebsocketUpgrade (headers : HeaderMap) : Bool :=
  let hasUpgrade :=
    match firstReadable headers upgrade with
    | some v => eqIgnoreAsciiCase v websocket
    | none => false
  let hasConnectionUpgrade :=
    match firstReadable headers connection with
    | some v => (v.splitOn ',').any fun part => eqIgnoreAsciiCase (trim part) upgrade
    | none => false
  hasUpgrade && hasConnectionUpgrade

/-- The Upgrade header asks for `websocket`. -/
def AsksForWebsocket (headers : HeaderMap) : Prop :=
  ∃ value, headers.get upgrade = some value ∧ toAsciiLowercase value = websocket

/-- Some token in the lines is `upgrade`. -/
def NamesUpgrade (lines : List HeaderValue) : Prop :=
  ∃ token ∈ ListFields.members lines, toAsciiLowercase token = upgrade

/-- The same request with all lines of a field in one. -/
def combineLines (headers : HeaderMap) (name : Str) : HeaderMap :=
  if headers.getAll name = [] then headers
  else headers.insert name (ListFields.combine (headers.getAll name))

/-- The test does not depend on the lines, and it finds what it looks for. -/
structure RespectsLines (headers : HeaderMap) : Prop where
  combined : isWebsocketUpgrade (combineLines headers connection) = isWebsocketUpgrade headers
  asked : isWebsocketUpgrade headers = true ↔
    NamesUpgrade (headers.getAll connection) ∧ AsksForWebsocket headers

/-- A request for an upgrade to `websocket` has the token in its first Connection line, and no line
that cannot be read. -/
def FirstLineTells (headers : HeaderMap) : Prop :=
  AsksForWebsocket headers → NamesUpgrade (headers.getAll connection) →
    (∀ line ∈ headers.getAll connection, line.all readable = true) ∧
      ∃ line, headers.get connection = some line ∧ NamesUpgrade [line]

section Lines
variable {headers : HeaderMap} {line : HeaderValue} {lines : List HeaderValue} {text : Str}

/-- Among characters that can be read only the space and the tab are white space. -/
theorem isWhitespace_readable {c : Char} (ascii : readable c = true) :
    isWhitespace c = ListFields.isOws c := by
  have code : ∀ d : Char, (c == d) = (c.toNat == d.toNat) := by
    intro d
    rw [Bool.eq_iff_iff, beq_iff_eq, beq_iff_eq]
    exact Char.toNat_inj.symm
  have order : ∀ a b : Char, a ≤ b ↔ a.toNat ≤ b.toNat := fun _ _ => UInt32.le_iff_toNat_le
  have space : ' '.toNat = 32 := rfl
  have tab : '\t'.toNat = 9 := rfl
  have tilde : '~'.toNat = 126 := rfl
  simp only [readable, ListFields.isOws, isWhitespace, code, order, space, tab, tilde] at ascii ⊢
  rw [Bool.eq_iff_iff]
  simp only [Bool.or_eq_true, Bool.and_eq_true, decide_eq_true_eq, beq_iff_eq] at ascii ⊢
  omega

theorem trim_readable (ascii : text.all readable = true) :
    trim text = ListFields.trim ListFields.isOws text :=
  ListFields.trim_congr fun c member => isWhitespace_readable (List.all_eq_true.mp ascii c member)

theorem namesUpgrade_iff : NamesUpgrade lines ↔ ∃ line ∈ lines, NamesUpgrade [line] := by
  simp only [NamesUpgrade, ListFields.members, List.flatMap_singleton, List.mem_flatMap]
  constructor
  · rintro ⟨token, ⟨line, member, inside⟩, same⟩
    exact ⟨line, member, token, inside, same⟩
  · rintro ⟨line, member, token, inside, same⟩
    exact ⟨token, ⟨line, member, inside⟩, same⟩

theorem namesUpgrade_combine (some : lines ≠ []) :
    NamesUpgrade [ListFields.combine lines] ↔ NamesUpgrade lines := by
  have same : ListFields.members [ListFields.combine lines] = ListFields.members lines := by
    rw [ListFields.members, List.flatMap_singleton, ListFields.elements_combine some]
  rw [NamesUpgrade, NamesUpgrade, same]

/-- The loop over the parts of a line. -/
theorem any_part_iff (ascii : line.all readable = true) :
    ((line.splitOn ',').any fun part => eqIgnoreAsciiCase (trim part) upgrade) = true ↔
      NamesUpgrade [line] := by
  have trimmed : ∀ part ∈ line.splitOn ',', trim part = ListFields.trim ListFields.isOws part := by
    intro part cut
    apply trim_readable
    rw [List.all_eq_true]
    intro c member
    exact List.all_eq_true.mp ascii c ((ListFields.piece_of_mem_splitOn cut).2 member)
  rw [NamesUpgrade, ListFields.members, List.flatMap_singleton, List.any_eq_true]
  constructor
  · rintro ⟨part, cut, same⟩
    rw [trimmed part cut, eqIgnoreAsciiCase, beq_iff_eq] at same
    refine ⟨_, List.mem_filter.mpr ⟨List.mem_map_of_mem cut, ?_⟩, same⟩
    cases empty : ListFields.trim ListFields.isOws part with
    | nil =>
      rw [empty] at same
      cases same
    | cons c rest => rfl
  · rintro ⟨token, member, same⟩
    obtain ⟨part, cut, rfl⟩ := List.mem_map.mp (List.mem_filter.mp member).1
    refine ⟨part, cut, ?_⟩
    rw [trimmed part cut, eqIgnoreAsciiCase, beq_iff_eq]
    exact same

/-- A value that is `websocket` up to case can be read. -/
theorem readable_of_websocket (same : toAsciiLowercase text = websocket) : text.all readable = true := by
  rw [List.all_eq_true]
  intro c member
  have inside : c.toLower ∈ websocket := same ▸ List.mem_map_of_mem member
  unfold Char.toLower at inside
  split at inside
  next upper =>
    have low : ' ' ≤ c := UInt32.le_trans (by decide) upper.1
    have high : c ≤ '~' := UInt32.le_trans upper.2 (by decide)
    simp [readable, low, high]
  next =>
    have letters : websocket.all readable = true := by decide
    exact List.all_eq_true.mp letters c inside

theorem isWebsocketUpgrade_iff : isWebsocketUpgrade headers = true ↔
    AsksForWebsocket headers ∧
      ∃ line, headers.get connection = some line ∧ line.all readable = true ∧ NamesUpgrade [line] := by
  have read : ∀ {name : Str} {test : Str → Bool},
      (match firstReadable headers name with
        | some v => test v
        | none => false) = true ↔
      ∃ line, headers.get name = some line ∧ line.all readable = true ∧ test line = true := by
    intro name test
    unfold firstReadable toStr
    cases headers.get name with
    | none => simp
    | some line =>
      by_cases ascii : line.all readable = true
      · simp only [Option.bind_some, ascii, if_true, Option.some.injEq, exists_eq_left', true_and]
      · simp only [Option.bind_some, ascii, if_false, Option.some.injEq, exists_eq_left', false_and,
          Bool.false_eq_true]
  rw [isWebsocketUpgrade, Bool.and_eq_true, read, read]
  apply and_congr
  · apply exists_congr
    intro value
    rw [eqIgnoreAsciiCase, beq_iff_eq]
    apply and_congr_right
    intro _
    exact and_iff_right_of_imp readable_of_websocket
  · apply exists_congr
    intro line
    apply and_congr_right
    intro _
    exact and_congr_right any_part_iff

theorem getAll_combineLines (name : Str) : (combineLines headers name).getAll name =
    if headers.getAll name = [] then [] else [ListFields.combine (headers.getAll name)] := by
  unfold combineLines
  split
  next none => exact none
  next => exact HeaderMap.getAll_insert_self ..

theorem getAll_combineLines_of_ne {name other : Str} (apart : other ≠ name) :
    (combineLines headers name).getAll other = headers.getAll other := by
  unfold combineLines
  split
  next => rfl
  next => exact HeaderMap.getAll_insert_of_ne _ _ apart

/-- The test on the combined lines wants all of them to be readable. -/
theorem isWebsocketUpgrade_combined : isWebsocketUpgrade (combineLines headers connection) = true ↔
    AsksForWebsocket headers ∧ (∀ line ∈ headers.getAll connection, line.all readable = true) ∧
      NamesUpgrade (headers.getAll connection) := by
  have asks : AsksForWebsocket (combineLines headers connection) ↔ AsksForWebsocket headers := by
    rw [AsksForWebsocket, AsksForWebsocket, HeaderMap.get, HeaderMap.get,
      getAll_combineLines_of_ne (by decide)]
  rw [isWebsocketUpgrade_iff, asks, HeaderMap.get, getAll_combineLines]
  apply and_congr_right
  intro _
  split
  next none =>
    rw [none]
    constructor
    · rintro ⟨_, found, -⟩
      cases found
    · rintro ⟨-, _, inside, -⟩
      cases inside
  next some =>
    rw [List.head?_cons]
    constructor
    · rintro ⟨_, found, ascii, named⟩
      cases found
      rw [ListFields.all_combine rfl rfl, List.all_eq_true] at ascii
      exact ⟨ascii, (namesUpgrade_combine some).mp named⟩
    · rintro ⟨ascii, named⟩
      refine ⟨_, rfl, ?_, (namesUpgrade_combine some).mpr named⟩
      rw [ListFields.all_combine rfl rfl, List.all_eq_true]
      exact ascii

/-- The test is right about a request exactly if its first Connection line has the token where any
line has it, and no line is unreadable. -/
theorem respects_lines_iff (headers : HeaderMap) : RespectsLines headers ↔ FirstLineTells headers := by
  constructor
  · intro respects asks named
    have found := respects.asked.mpr ⟨named, asks⟩
    obtain ⟨-, line, first, -, here⟩ := isWebsocketUpgrade_iff.mp found
    obtain ⟨-, ascii, -⟩ := isWebsocketUpgrade_combined.mp (respects.combined.trans found)
    exact ⟨ascii, line, first, here⟩
  · intro tells
    have asked : isWebsocketUpgrade headers = true ↔
        NamesUpgrade (headers.getAll connection) ∧ AsksForWebsocket headers := by
      rw [isWebsocketUpgrade_iff]
      constructor
      · rintro ⟨asks, line, first, -, here⟩
        exact ⟨namesUpgrade_iff.mpr ⟨line, List.mem_of_head? first, here⟩, asks⟩
      · rintro ⟨named, asks⟩
        obtain ⟨ascii, line, first, here⟩ := tells asks named
        exact ⟨asks, line, first, ascii line (List.mem_of_head? first), here⟩
    refine ⟨?_, asked⟩
    rw [Bool.eq_iff_iff, asked, isWebsocketUpgrade_combined]
    constructor
    · rintro ⟨asks, -, named⟩
      exact ⟨named, asks⟩
    · rintro ⟨named, asks⟩
      exact ⟨asks, (tells asks named).1, named⟩

/-- The upgrade token in the second of two lines is missed. -/
theorem respects_lines_two : ¬ ∀ headers, RespectsLines headers := by
  intro claimed
  let headers : HeaderMap := ⟨[(upgrade, "websocket".toList), (connection, "keep-alive".toList),
    (connection, "Upgrade".toList)]⟩
  exact absurd (claimed headers).combined (by decide)

end Lines

end TinyLb.Upgrade
