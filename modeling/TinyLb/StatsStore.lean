import TinyLb.Json

/-! The samples that are kept for every backend URL, and the document that publishes them. -/

namespace TinyLb.StatsStore
open Json

def maxSamples : Nat := 1440

structure Sample where
  t : UInt64
  c : UInt64
  e : UInt64
  deriving DecidableEq, Repr

def pushSample (ring : List Sample) (sample : Sample) : List Sample :=
  (if ring.length ≥ maxSamples then ring.drop 1 else ring) ++ [sample]

def latest (samples : List Sample) : List Sample := samples.drop (samples.length - maxSamples)

def upsert (url : Str) (sample : Sample) : List (Str × List Sample) → List (Str × List Sample)
  | [] => [(url, pushSample [] sample)]
  | (known, ring) :: rest =>
      if known = url then (known, pushSample ring sample) :: rest
      else (known, ring) :: upsert url sample rest

def seriesOf (url : Str) : List (Str × List Sample) → List Sample
  | [] => []
  | (known, ring) :: rest => if known = url then ring else seriesOf url rest

theorem pushSample_latest (samples : List Sample) (sample : Sample) :
    pushSample (latest samples) sample = latest (samples ++ [sample]) := by
  have positive : 0 < maxSamples := by decide
  have size : (latest samples).length = samples.length - (samples.length - maxSamples) :=
    List.length_drop ..
  have longer : latest (samples ++ [sample]) =
      samples.drop (samples.length + 1 - maxSamples) ++ [sample] := by
    rw [latest, List.length_append, List.length_singleton, List.drop_append_of_le_length (by omega)]
  rw [longer, pushSample]
  by_cases full : maxSamples ≤ samples.length
  · have next : samples.length - maxSamples + 1 = samples.length + 1 - maxSamples := by omega
    rw [if_pos (by omega), latest, List.drop_drop, next]
  · have none : samples.length - maxSamples = samples.length + 1 - maxSamples := by omega
    rw [if_neg (by omega), latest, none]

variable {url other : Str}

theorem mem_upsert_names {data : List (Str × List Sample)} {sample : Sample} :
    other ∈ (upsert url sample data).map Prod.fst ↔ other = url ∨ other ∈ data.map Prod.fst := by
  induction data with
  | nil => simp [upsert]
  | cons entry rest ih =>
    obtain ⟨known, ring⟩ := entry
    rw [upsert]
    split
    next same => simp [same]
    next =>
      rw [List.map_cons, List.mem_cons, ih, List.map_cons, List.mem_cons]
      exact or_left_comm

theorem upsert_distinct {data : List (Str × List Sample)} (distinct : (data.map Prod.fst).Nodup)
    (url : Str) (sample : Sample) : ((upsert url sample data).map Prod.fst).Nodup := by
  induction data with
  | nil => exact List.nodup_cons.mpr ⟨List.not_mem_nil, List.nodup_nil⟩
  | cons entry rest ih =>
    obtain ⟨known, ring⟩ := entry
    obtain ⟨fresh, later⟩ := List.nodup_cons.mp distinct
    rw [upsert]
    split
    next => exact distinct
    next apart =>
      refine List.nodup_cons.mpr ⟨fun member => ?_, ih later⟩
      rcases mem_upsert_names.mp member with same | old
      · exact apart same
      · exact fresh old

theorem seriesOf_upsert_self (url : Str) (sample : Sample) (data : List (Str × List Sample)) :
    seriesOf url (upsert url sample data) = pushSample (seriesOf url data) sample := by
  induction data with
  | nil => exact if_pos rfl
  | cons entry rest ih =>
    obtain ⟨known, ring⟩ := entry
    by_cases same : known = url
    · rw [upsert, if_pos same, seriesOf, if_pos same, seriesOf, if_pos same]
    · rw [upsert, if_neg same, seriesOf, if_neg same, seriesOf, if_neg same, ih]

theorem seriesOf_upsert_of_ne (apart : other ≠ url) (sample : Sample)
    (data : List (Str × List Sample)) :
    seriesOf other (upsert url sample data) = seriesOf other data := by
  induction data with
  | nil => exact if_neg (Ne.symm apart)
  | cons entry rest ih =>
    obtain ⟨known, ring⟩ := entry
    by_cases same : known = url
    · have skipped : known ≠ other := fun equal => apart (equal ▸ same)
      rw [upsert, if_pos same, seriesOf, if_neg skipped, seriesOf, if_neg skipped]
    · rw [upsert, if_neg same, seriesOf, seriesOf, ih]

theorem seriesOf_mem {data : List (Str × List Sample)} (distinct : (data.map Prod.fst).Nodup)
    {ring : List Sample} (listed : (url, ring) ∈ data) : seriesOf url data = ring := by
  induction data with
  | nil => cases listed
  | cons entry rest ih =>
    obtain ⟨known, first⟩ := entry
    obtain ⟨fresh, later⟩ := List.nodup_cons.mp distinct
    rw [seriesOf]
    rcases List.mem_cons.mp listed with same | there
    · cases same
      exact if_pos rfl
    · have apart : known ≠ url := fun same => fresh (List.mem_map.mpr ⟨_, there, same.symm⟩)
      rw [if_neg apart, ih later there]

theorem seriesOf_absent {data : List (Str × List Sample)} (absent : url ∉ data.map Prod.fst) :
    seriesOf url data = [] := by
  induction data with
  | nil => rfl
  | cons entry rest ih =>
    obtain ⟨known, ring⟩ := entry
    rw [List.map_cons, List.mem_cons, not_or] at absent
    rw [seriesOf, if_neg (Ne.symm absent.1), ih absent.2]

/-- The map in an order of iteration. -/
structure Stats where
  data : List (Str × List Sample)
  distinct : (data.map Prod.fst).Nodup

namespace Stats

def new : Stats := ⟨[], List.nodup_nil⟩

/-- `Stats::record` at the time `sample.t`. -/
def record (stats : Stats) (url : Str) (sample : Sample) : Stats :=
  ⟨upsert url sample stats.data, upsert_distinct stats.distinct url sample⟩

def series (stats : Stats) (url : Str) : List Sample := seriesOf url stats.data

theorem series_record_self (stats : Stats) (url : Str) (sample : Sample) :
    (stats.record url sample).series url = pushSample (stats.series url) sample :=
  seriesOf_upsert_self url sample stats.data

theorem series_record_of_ne (stats : Stats) (apart : other ≠ url) (sample : Sample) :
    (stats.record url sample).series other = stats.series other :=
  seriesOf_upsert_of_ne apart sample stats.data

end Stats

def decimal (n : UInt64) : Str := Nat.toDigits 10 n.toNat

def sampleText (s : Sample) : Str :=
  '{' :: "\"t\":".toList ++ decimal s.t ++ ",\"c\":".toList ++ decimal s.c ++ ",\"e\":".toList ++
    decimal s.e ++ ['}']

def comma (first : Bool) : Str := if first then [] else [',']

def samplesText : Bool → List Sample → Str
  | _, [] => []
  | first, s :: rest => comma first ++ sampleText s ++ samplesText false rest

def escapeChar (c : Char) : Str :=
  match c with
  | '"' => "\\\"".toList
  | '\\' => "\\\\".toList
  | c => [c]

/-- The loop over the characters of a URL. -/
def escapeUrl (url : Str) : Str := url.flatMap escapeChar

def entryText (url : Str) (samples : List Sample) : Str :=
  '"' :: escapeUrl url ++ "\":[".toList ++ samplesText true samples ++ [']']

def entriesText : Bool → List (Str × List Sample) → Str
  | _, [] => []
  | first, (url, samples) :: rest => comma first ++ entryText url samples ++ entriesText false rest

/-- `Stats::to_json`. -/
def Stats.toJson (stats : Stats) : Str := '{' :: entriesText true stats.data ++ ['}']

def Sample.json (s : Sample) : Value :=
  .object [("t".toList, .number s.t.toNat 0), ("c".toList, .number s.c.toNat 0),
    ("e".toList, .number s.e.toNat 0)]

def entryJson (entry : Str × List Sample) : Str × Value := (entry.1, .array (entry.2.map Sample.json))

def Stats.json (stats : Stats) : Value := .object (stats.data.map entryJson)

section Parsing
variable {fuel : Nat} {more : Str}

theorem parse_sample (enough : 5 ≤ fuel) (s : Sample) (more : Str) :
    parseValue fuel (sampleText s ++ more) = some (s.json, more) := by
  obtain ⟨left, rfl⟩ := Nat.exists_eq_add_of_le' enough
  have t := parseValue_natural (left + 2) s.t.toNat (by decide : endsNumber ',' = true)
  have c := parseValue_natural (left + 1) s.c.toNat (by decide : endsNumber ',' = true)
  have e := parseValue_natural left s.e.toNat (by decide : endsNumber '}' = true)
  have text : sampleText s ++ more = '{' :: '"' :: 't' :: '"' :: ':' :: (Nat.toDigits 10 s.t.toNat ++ ',' ::
      '"' :: 'c' :: '"' :: ':' :: (Nat.toDigits 10 s.c.toNat ++ ',' ::
        '"' :: 'e' :: '"' :: ':' :: (Nat.toDigits 10 s.e.toNat ++ '}' :: more))) := by
    simp [sampleText, decimal]
  rw [text, parseValue_members,
    parseMembers_more rfl (skip_toDigits _ _) (t _) (skip_of_head (by decide) _),
    parseMembers_more rfl (skip_toDigits _ _) (c _) (skip_of_head (by decide) _),
    parseMembers_last rfl (skip_toDigits _ _) (e _)]
  rfl

theorem sampleText_head (s : Sample) (more : Str) :
    ∃ rest, sampleText s ++ more = '{' :: rest :=
  ⟨_, rfl⟩

theorem parse_samples (s : Sample) (samples : List Sample) (enough : samples.length + 6 ≤ fuel)
    (more : Str) : parseItems fuel (sampleText s ++ (samplesText false samples ++ ']' :: more)) =
      some ((s :: samples).map Sample.json, more) := by
  induction samples generalizing s fuel with
  | nil =>
    obtain ⟨left, rfl⟩ := Nat.exists_eq_add_of_le' enough
    exact parseItems_last (parse_sample (Nat.le_add_left 5 left) s _)
  | cons next rest ih =>
    rw [List.length_cons] at enough
    obtain ⟨left, rfl⟩ := Nat.exists_eq_add_of_le' (Nat.le_trans (Nat.le_add_left 1 _) enough)
    have text : samplesText false (next :: rest) ++ ']' :: more =
        ',' :: (sampleText next ++ (samplesText false rest ++ ']' :: more)) := by
      simp [samplesText, comma]
    have first := parse_sample (by omega : 5 ≤ left) s
      (',' :: (sampleText next ++ (samplesText false rest ++ ']' :: more)))
    obtain ⟨tail, begins⟩ := sampleText_head next (samplesText false rest ++ ']' :: more)
    rw [text, parseItems_more first (begins ▸ skip_of_head (by decide) tail), ih next (by omega)]
    rfl

theorem parse_series (samples : List Sample) (enough : samples.length + 6 ≤ fuel) (more : Str) :
    parseValue fuel ('[' :: (samplesText true samples ++ ']' :: more)) =
      some (.array (samples.map Sample.json), more) := by
  obtain ⟨left, rfl⟩ := Nat.exists_eq_add_of_le' (Nat.le_trans (Nat.le_add_left 1 _) enough)
  cases samples with
  | nil => rfl
  | cons s rest =>
    rw [List.length_cons] at enough
    have items := parse_samples s rest (by omega : rest.length + 6 ≤ left) more
    have text : samplesText true (s :: rest) ++ ']' :: more =
        sampleText s ++ (samplesText false rest ++ ']' :: more) := by
      simp [samplesText, comma]
    obtain ⟨tail, begins⟩ := sampleText_head s (samplesText false rest ++ ']' :: more)
    rw [text, begins, parseValue_items (by decide) (by decide), ← begins, items]
    rfl

/-- No character of a URL has to be escaped other than a quote or a backslash. -/
def plainUrl (url : Str) : Bool := !url.any isControl

theorem stringBody_escapeChar (c : Char) (rest : Str) :
    stringBody (escapeChar c ++ rest) = if isControl c then none else (stringBody rest).map (push c) := by
  unfold escapeChar
  split
  next => exact stringBody_quote rest
  next => exact stringBody_backslash rest
  next quote backslash => exact stringBody_plain quote backslash rest

/-- A URL is read back unless it has a control character; then the text is no string at all. -/
theorem stringBody_escapeUrl (url more : Str) :
    stringBody (escapeUrl url ++ '"' :: more) = if plainUrl url then some (url, more) else none := by
  induction url with
  | nil => rfl
  | cons c rest ih =>
    have plain : plainUrl (c :: rest) = (!isControl c && plainUrl rest) := by
      simp [plainUrl]
    rw [escapeUrl, List.flatMap_cons, List.append_assoc, stringBody_escapeChar]
    rw [escapeUrl] at ih
    rw [ih, plain]
    cases isControl c <;> cases plainUrl rest <;> rfl

def depth (data : List (Str × List Sample)) : Nat :=
  data.foldr (fun entry more => entry.2.length + 10 + more) 0

theorem parse_entries (entry : Str × List Sample) (data : List (Str × List Sample))
    (enough : depth (entry :: data) ≤ fuel) (more : Str) :
    parseMembers fuel (entryText entry.1 entry.2 ++ (entriesText false data ++ '}' :: more)) =
      if (entry :: data).all fun entry => plainUrl entry.1 then
        some ((entry :: data).map entryJson, more)
      else none := by
  induction data generalizing entry fuel with
  | nil =>
    obtain ⟨url, samples⟩ := entry
    simp only [depth, List.foldr_cons, List.foldr_nil] at enough
    obtain ⟨left, rfl⟩ := Nat.exists_eq_add_of_le' (by omega : 1 ≤ fuel)
    have text : entryText url samples ++ (entriesText false [] ++ '}' :: more) =
        '"' :: (escapeUrl url ++ '"' :: ':' :: '[' :: (samplesText true samples ++ ']' :: '}' :: more)) := by
      simp [entryText, entriesText]
    have named := stringBody_escapeUrl url (':' :: '[' :: (samplesText true samples ++ ']' :: '}' :: more))
    rw [text]
    cases plain : plainUrl url with
    | false =>
      rw [plain] at named
      rw [parseMembers_name named]
      simp [plain]
    | true =>
      rw [plain] at named
      rw [parseMembers_last named (skip_of_head (by decide) _)
        (parse_series samples (by omega) ('}' :: more))]
      simp [plain, entryJson]
  | cons next rest ih =>
    obtain ⟨url, samples⟩ := entry
    have deep : samples.length + 10 + depth (next :: rest) ≤ fuel := enough
    obtain ⟨left, rfl⟩ := Nat.exists_eq_add_of_le' (by omega : 1 ≤ fuel)
    have text : entryText url samples ++ (entriesText false (next :: rest) ++ '}' :: more) =
        '"' :: (escapeUrl url ++ '"' :: ':' :: '[' :: (samplesText true samples ++ ']' :: ',' ::
          (entryText next.1 next.2 ++ (entriesText false rest ++ '}' :: more)))) := by
      simp [entryText, entriesText, comma]
    have named := stringBody_escapeUrl url (':' :: '[' :: (samplesText true samples ++ ']' :: ',' ::
      (entryText next.1 next.2 ++ (entriesText false rest ++ '}' :: more))))
    rw [text]
    cases plain : plainUrl url with
    | false =>
      rw [plain] at named
      rw [parseMembers_name named]
      simp [plain]
    | true =>
      rw [plain] at named
      rw [parseMembers_more named (skip_of_head (by decide) _)
        (parse_series samples (by omega) _) (skip_of_head (by decide) _), ih next (by omega)]
      have whole : (((url, samples) :: next :: rest).all fun entry => plainUrl entry.1) =
          (next :: rest).all fun entry => plainUrl entry.1 := by
        rw [List.all_cons, plain, Bool.true_and]
      rw [whole]
      cases (next :: rest).all fun entry => plainUrl entry.1 <;> rfl

theorem depth_le (first : Bool) (data : List (Str × List Sample)) :
    depth data ≤ 2 * (entriesText first data).length := by
  have samples : ∀ (first : Bool) (ring : List Sample), ring.length ≤ (samplesText first ring).length := by
    intro first ring
    induction ring generalizing first with
    | nil => exact Nat.le_refl _
    | cons s rest ih =>
      have tail := ih false
      have text : 1 ≤ (sampleText s).length := Nat.succ_le_succ (Nat.zero_le _)
      rw [samplesText, List.length_append, List.length_append, List.length_cons]
      omega
  induction data generalizing first with
  | nil => exact Nat.zero_le _
  | cons entry rest ih =>
    obtain ⟨url, ring⟩ := entry
    have tail := ih false
    have held := samples true ring
    have deep : depth ((url, ring) :: rest) = ring.length + 10 + depth rest := rfl
    simp only [deep, entriesText, entryText, List.length_append, List.length_cons, List.length_nil]
    have opening : "\":[".toList.length = 3 := by decide
    omega

theorem parse_toJson (stats : Stats) :
    parse stats.toJson =
      if stats.data.all fun entry => plainUrl entry.1 then some stats.json else none := by
  unfold Stats.toJson Stats.json parse
  cases stats.data with
  | nil => rfl
  | cons entry rest =>
    have enough := depth_le true (entry :: rest)
    have text : '{' :: entriesText true (entry :: rest) ++ ['}'] =
        '{' :: (entryText entry.1 entry.2 ++ (entriesText false rest ++ '}' :: [])) := by
      simp [entriesText, comma]
    have members := parse_entries entry rest (Nat.le_trans enough (Nat.le_add_right _ 5)) []
    have object := parseValue_members (2 * (entriesText true (entry :: rest)).length + 5)
      (escapeUrl entry.1 ++ "\":[".toList ++ samplesText true entry.2 ++ [']'] ++
        (entriesText false rest ++ '}' :: []))
    have length : 2 * ('{' :: entriesText true (entry :: rest) ++ ['}']).length + 2 =
        2 * (entriesText true (entry :: rest)).length + 5 + 1 := by
      rw [List.cons_append, List.length_cons, List.length_append, List.length_singleton]
      omega
    rw [length, text, skip_of_head (by decide)]
    have quoted : entryText entry.1 entry.2 ++ (entriesText false rest ++ '}' :: []) =
        '"' :: (escapeUrl entry.1 ++ "\":[".toList ++ samplesText true entry.2 ++ [']'] ++
          (entriesText false rest ++ '}' :: [])) := by
      simp [entryText]
    rw [quoted] at members ⊢
    rw [object, members]
    cases (entry :: rest).all fun entry => plainUrl entry.1 <;> rfl

theorem plainUrl_iff {url : Str} : plainUrl url = true ↔ ∀ c ∈ url, 0x20 ≤ c.toNat := by
  simp [plainUrl, isControl]

/-- The document is read back as the map exactly if no URL has a control character. -/
theorem toJson_parses_iff (stats : Stats) :
    parse stats.toJson = some stats.json ↔
      ∀ url ∈ stats.data.map Prod.fst, ∀ c ∈ url, 0x20 ≤ c.toNat := by
  rw [parse_toJson]
  have each : (∀ url ∈ stats.data.map Prod.fst, ∀ c ∈ url, 0x20 ≤ c.toNat) ↔
      (stats.data.all fun entry => plainUrl entry.1) = true := by
    rw [List.all_eq_true, List.forall_mem_map]
    exact forall₂_congr fun entry _ => plainUrl_iff.symm
  rw [each]
  cases stats.data.all fun entry => plainUrl entry.1 <;> simp

/-- A line feed in a URL goes into the document as it is. -/
theorem toJson_line_feed : ¬ ∀ stats : Stats, parse stats.toJson = some stats.json := by
  intro claimed
  have read := claimed (Stats.new.record ['\n'] ⟨60, 1, 0⟩)
  rw [parse_toJson] at read
  cases read

end Parsing

end TinyLb.StatsStore
