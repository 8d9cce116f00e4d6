import ContextHmi.Import.Common

/-!
# Tables of comma-separated values

`parse_csv`: a scanner with four flags over the characters of an artifact. What it reads is described
from left to right: complete rows, and the first cells of the row that comes next.

* `scan_written`         : what was written well is read back, unless a limit is exceeded;
* `written_or_malformed` : every text is written well as far as its last cell, or malformed;
* `parseCsv_exact`       : an encoded table is read back, and malformed quoting is refused;
* `parseCsv_eq_ok_iff`   : what is accepted is an encoding of the table it is read as.
-/

namespace ContextHmi.Import

open Outcome

abbrev Rows := List (List Bytes)

abbrev kQuote : UInt8 := 0x22
abbrev kComma : UInt8 := 0x2c
abbrev kCr : UInt8 := 0x0d
abbrev kLf : UInt8 := 0x0a

/-! ### The scanner -/

/-- The variables of `parse_csv`. -/
structure Scanner where
  rows : Rows := []
  row : List Bytes := []
  field : Bytes := []
  quoted : Bool := false
  afterQuote : Bool := false
  sawCharacter : Bool := false

def invalidCsv (path message : Bytes) : Error := .importing "invalid_csv" path message

def fieldTooLarge (path : Bytes) : Error :=
  .importing "field_too_large" path "CSV field exceeds the configured byte limit"

def tooManyColumns (path : Bytes) : Error :=
  .importing "too_many_columns" path "CSV row exceeds the configured column limit"

def tooManyRecords (path : Bytes) : Error :=
  .importing "too_many_records" path "CSV artifact exceeds the configured record limit"

/-- `limits.max_records_per_artifact + 1U`, for the header. -/
def Limits.maxRows (limits : Limits) : Nat := (limits.maxRecordsPerArtifact + 1) % 2 ^ 64

section
variable (limits : Limits) (path : Bytes)

/-- `check_field`. -/
def checkField (s : Scanner) : Result Unit :=
  throwIf (limits.maxFieldBytes < s.field.length) (fieldTooLarge path)

/-- The row is one empty field that was not quoted. -/
def isBlank (s : Scanner) : Bool := s.row.isEmpty && s.field.isEmpty && !s.sawCharacter

/-- The rows with the one that ends, unless it is blank. -/
def endRow (s : Scanner) : Result Scanner :=
  if isBlank s then .ok { s with row := [], field := [] }
  else do
    throwIf (limits.maxRows < s.rows.length + 1) (tooManyRecords path)
    return { s with
      rows := s.rows ++ [s.row ++ [s.field]]
      row := []
      field := []
      sawCharacter := false }

/-- `finish_row`. -/
def finishRow (s : Scanner) : Result Scanner := do
  checkField limits path s
  throwIf (limits.maxColumns < s.row.length + 1) (tooManyColumns path)
  endRow limits path s

/-- A comma. -/
def finishCell (s : Scanner) : Result Scanner := do
  checkField limits path s
  throwIf (limits.maxColumns ≤ s.row.length + 1) (tooManyColumns path)
  return { s with row := s.row ++ [s.field], field := [] }

/-- A character of a field. -/
def pushCharacter (s : Scanner) (character : UInt8) : Result Scanner := do
  let pushed := { s with field := s.field ++ [character], sawCharacter := true }
  checkField limits path pushed
  return pushed

/-- Whether a line end is of two characters. -/
def isPair (character : UInt8) (next : Option UInt8) : Bool :=
  character == kCr && next == some kLf

/-- One turn of the loop, with the character after this one, and whether that one was read too. -/
def step (s : Scanner) (character : UInt8) (next : Option UInt8) : Result (Scanner × Bool) :=
  if s.quoted then
    if character = kQuote then
      if next = some kQuote then .ok ({ s with field := s.field ++ [kQuote] }, true)
      else .ok ({ s with quoted := false, afterQuote := true }, false)
    else do return (← pushCharacter limits path s character, false)
  else if s.afterQuote then
    if character = kComma then
      do return ({ (← finishCell limits path s) with afterQuote := false }, false)
    else if character = kCr ∨ character = kLf then
      do return (← finishRow limits path { s with afterQuote := false }, isPair character next)
    else if character = 0x20 ∨ character = 0x09 then
      .error (invalidCsv path "whitespace after a quoted field is not accepted")
    else .error (invalidCsv path "characters after a quoted field are not accepted")
  else if character = kQuote then
    if s.field.isEmpty then .ok ({ s with quoted := true, sawCharacter := true }, false)
    else .error (invalidCsv path "a quote may start only an empty field")
  else if character = kComma then do return (← finishCell limits path s, false)
  else if character = kCr ∨ character = kLf then
    do return (← finishRow limits path s, isPair character next)
  else do return (← pushCharacter limits path s character, false)

/-- The loop; the first character is passed over if it was read with the one before it. -/
def scanFrom : Bool → Scanner → Bytes → Result Scanner
  | _, s, [] => .ok s
  | true, s, _ :: rest => scanFrom false s rest
  | false, s, character :: rest => do
    let (next, skips) ← step limits path s character rest.head?
    scanFrom skips next rest

/-- The last row, which need not be ended. -/
def finishLast (s : Scanner) : Result Scanner :=
  if s.afterQuote ∨ ¬ s.field.isEmpty ∨ ¬ s.row.isEmpty then finishRow limits path s else .ok s

/-- `parse_csv`. -/
def parseCsv (contents : Bytes) : Result Rows := do
  let s ← scanFrom limits path false {} contents
  throwIf (s.quoted = true) (invalidCsv path "quoted field is not closed")
  let last ← finishLast limits path s
  throwIf (last.rows.isEmpty = true) (invalidCsv path "CSV artifact has no header row")
  return last.rows

end

/-! ### How tables are written -/

/-- A character that may stand in a field without quotes. -/
def IsPlain (character : UInt8) : Prop :=
  character ≠ kComma ∧ character ≠ kQuote ∧ character ≠ kCr ∧ character ≠ kLf

/-- The quotes of a field are doubled. -/
def escape (field : Bytes) : Bytes :=
  field.flatMap fun character => if character = kQuote then [kQuote, kQuote] else [character]

/-- A field between quotes, or as it is where that is allowed. -/
inductive WritesField (only : Prop) (field : Bytes) : Bytes → Prop where
  | plain : (∀ character ∈ field, IsPlain character) → (only → field ≠ []) →
      WritesField only field field
  | quoted : WritesField only field (kQuote :: (escape field ++ [kQuote]))

inductive LineEnd : Bytes → Prop where
  | lf : LineEnd [kLf]
  | cr : LineEnd [kCr]
  | crlf : LineEnd [kCr, kLf]

/-- A text that ends where a cell begins: complete rows, with blank lines between them, and the first
cells of the next row. A field that is alone in its row is empty only between quotes. -/
inductive Written : Rows → List Bytes → Bytes → Prop where
  | start : Written [] [] []
  | cell {rows : Rows} {row : List Bytes} {text field cell : Bytes} : Written rows row text →
      WritesField False field cell → Written rows (row ++ [field]) (text ++ cell ++ [kComma])
  | row {rows : Rows} {row : List Bytes} {text field cell lineEnd : Bytes} : Written rows row text →
      WritesField (row = []) field cell → LineEnd lineEnd →
      Written (rows ++ [row ++ [field]]) [] (text ++ cell ++ lineEnd)
  | blank {rows : Rows} {text lineEnd : Bytes} : Written rows [] text → LineEnd lineEnd →
      Written rows [] (text ++ lineEnd)

/-- An encoding of a table: its last row may be without a line end. -/
inductive Encodes : Rows → Bytes → Prop where
  | ended {rows : Rows} {text : Bytes} : Written rows [] text → Encodes rows text
  | unended {rows : Rows} {row : List Bytes} {text field cell : Bytes} : Written rows row text →
      WritesField (row = []) field cell → Encodes (rows ++ [row ++ [field]]) (text ++ cell)

/-- What begins a cell and goes wrong, with the field as far as it was read. -/
inductive Malformed : Bytes → Bytes → Prop where
  | unterminated (field : Bytes) : Malformed field (kQuote :: escape field)
  | quoteInside {field : Bytes} (rest : Bytes) : field ≠ [] →
      (∀ character ∈ field, IsPlain character) → Malformed field (field ++ kQuote :: rest)
  | afterQuote (field : Bytes) {character : UInt8} (rest : Bytes) : IsPlain character →
      Malformed field (kQuote :: (escape field ++ kQuote :: character :: rest))

/-- Rows, and cells of a row that goes on, within the limits. -/
structure WithinTable (limits : Limits) (rows : Rows) (row : List Bytes) : Prop where
  count : rows.length ≤ limits.maxRows
  columns : ∀ r ∈ rows, r.length ≤ limits.maxColumns
  fields : ∀ r ∈ rows, ∀ field ∈ r, field.length ≤ limits.maxFieldBytes
  rowColumns : row.length < limits.maxColumns
  rowFields : ∀ field ∈ row, field.length ≤ limits.maxFieldBytes

/-- One of the errors of a limit. -/
def IsCsvLimit (path : Bytes) (e : Error) : Prop :=
  e = fieldTooLarge path ∨ e = tooManyColumns path ∨ e = tooManyRecords path

/-! ### Reading a field -/

section
variable {limits : Limits} {path : Bytes}

theorem scanFrom_cons (s : Scanner) (c : UInt8) (rest : Bytes) :
    scanFrom limits path false s (c :: rest) =
      step limits path s c rest.head? >>= fun next =>
        scanFrom limits path next.2 next.1 rest := rfl

theorem pushCharacter_eq (s : Scanner) (c : UInt8) : pushCharacter limits path s c =
    if limits.maxFieldBytes < (s.field ++ [c]).length then .error (fieldTooLarge path)
    else .ok { s with field := s.field ++ [c], sawCharacter := true } := by
  unfold pushCharacter checkField throwIf
  by_cases h : limits.maxFieldBytes < (s.field ++ [c]).length
  · simp only [if_pos h]
    rfl
  · simp only [if_neg h]
    rfl

theorem scan_character {s : Scanner} (hquoted : s.quoted = false) (hafter : s.afterQuote = false)
    {c : UInt8} (hc : IsPlain c) (rest : Bytes) :
    scanFrom limits path false s (c :: rest) = pushCharacter limits path s c >>= fun next =>
      scanFrom limits path false next rest := by
  obtain ⟨hcomma, hquote, hcr, hlf⟩ := hc
  rw [scanFrom_cons]
  unfold step
  simp only [hquoted, hafter, hcomma, hquote, hcr, hlf, Bool.false_eq_true, if_false, or_self,
    bind_assoc, pure_bind]

variable (limits path) in
theorem scan_plain {field : Bytes} (hplain : ∀ c ∈ field, IsPlain c) {s : Scanner}
    (hquoted : s.quoted = false) (hafter : s.afterQuote = false) :
    (∀ rest, scanFrom limits path false s (field ++ rest) = scanFrom limits path false
      { s with
        field := s.field ++ field
        sawCharacter := s.sawCharacter || !field.isEmpty } rest) ∨
    (limits.maxFieldBytes < (s.field ++ field).length ∧
      ∀ rest, scanFrom limits path false s (field ++ rest) = .error (fieldTooLarge path)) := by
  induction field generalizing s with
  | nil => exact .inl fun rest => by simp
  | cons c field ih =>
    rw [List.forall_mem_cons] at hplain
    by_cases hroom : limits.maxFieldBytes < (s.field ++ [c]).length
    · refine .inr ⟨?_, fun rest => ?_⟩
      · simp only [List.length_append, List.length_cons, List.length_nil] at hroom ⊢
        omega
      · rw [List.cons_append, scan_character hquoted hafter hplain.1, pushCharacter_eq,
          if_pos hroom, error_bind]
    · have hstep : ∀ rest, scanFrom limits path false s (c :: field ++ rest) =
          scanFrom limits path false { s with field := s.field ++ [c], sawCharacter := true }
            (field ++ rest) := by
        intro rest
        rw [List.cons_append, scan_character hquoted hafter hplain.1, pushCharacter_eq,
          if_neg hroom, ok_bind]
      rcases ih hplain.2 (s := { s with field := s.field ++ [c], sawCharacter := true }) hquoted
        hafter with h | ⟨hlong, h⟩
      · refine .inl fun rest => ?_
        rw [hstep, h]
        simp
      · refine .inr ⟨by simpa using hlong, fun rest => ?_⟩
        rw [hstep, h]

theorem scan_quotedCharacter {s : Scanner} (hquoted : s.quoted = true) {c : UInt8}
    (hc : c ≠ kQuote) (rest : Bytes) : scanFrom limits path false s (c :: rest) =
      pushCharacter limits path s c >>= fun next => scanFrom limits path false next rest := by
  rw [scanFrom_cons]
  unfold step
  simp only [hquoted, hc, if_true, if_false, bind_assoc, pure_bind]

variable (limits path) in
theorem scan_escaped (field : Bytes) {s : Scanner} (hquoted : s.quoted = true)
    (hsaw : s.sawCharacter = true) :
    (∀ rest, scanFrom limits path false s (escape field ++ rest) =
      scanFrom limits path false { s with field := s.field ++ field } rest) ∨
    (limits.maxFieldBytes < (s.field ++ field).length ∧
      ∀ rest, scanFrom limits path false s (escape field ++ rest) =
        .error (fieldTooLarge path)) := by
  induction field generalizing s with
  | nil => exact .inl fun rest => by simp [escape]
  | cons c field ih =>
    have hlength : ∀ t : Bytes, (t ++ c :: field).length = (t ++ [c] ++ field).length := by simp
    by_cases hquote : c = kQuote
    · have hstep : ∀ rest, scanFrom limits path false s (escape (c :: field) ++ rest) =
          scanFrom limits path false { s with field := s.field ++ [c] } (escape field ++ rest) := by
        intro rest
        rw [escape, List.flatMap_cons, if_pos hquote, List.append_assoc, hquote]
        show scanFrom limits path false s (kQuote :: kQuote :: (escape field ++ rest)) = _
        rw [scanFrom_cons]
        unfold step
        simp only [hquoted, if_true, List.head?_cons]
        rfl
      rcases ih (s := { s with field := s.field ++ [c] }) hquoted hsaw with h | ⟨hlong, h⟩
      · refine .inl fun rest => ?_
        rw [hstep, h]
        simp
      · refine .inr ⟨by simpa using hlong, fun rest => ?_⟩
        rw [hstep, h]
    · have hescape : ∀ rest, escape (c :: field) ++ rest = c :: (escape field ++ rest) := by
        intro rest
        rw [escape, List.flatMap_cons, if_neg hquote]
        rfl
      by_cases hroom : limits.maxFieldBytes < (s.field ++ [c]).length
      · refine .inr ⟨?_, fun rest => ?_⟩
        · simp only [List.length_append, List.length_cons, List.length_nil] at hroom ⊢
          omega
        · rw [hescape, scan_quotedCharacter hquoted hquote, pushCharacter_eq, if_pos hroom,
            error_bind]
      · have hstep : ∀ rest, scanFrom limits path false s (escape (c :: field) ++ rest) =
            scanFrom limits path false { s with field := s.field ++ [c], sawCharacter := true }
              (escape field ++ rest) := by
          intro rest
          rw [hescape, scan_quotedCharacter hquoted hquote, pushCharacter_eq, if_neg hroom, ok_bind]
        rcases ih (s := { s with field := s.field ++ [c], sawCharacter := true }) hquoted rfl
          with h | ⟨hlong, h⟩
        · refine .inl fun rest => ?_
          rw [hstep, h]
          simp [hsaw]
        · refine .inr ⟨by simpa using hlong, fun rest => ?_⟩
          rw [hstep, h]

theorem scan_close {s : Scanner} (hquoted : s.quoted = true) {rest : Bytes}
    (hrest : rest.head? ≠ some kQuote) : scanFrom limits path false s (kQuote :: rest) =
      scanFrom limits path false { s with quoted := false, afterQuote := true } rest := by
  rw [scanFrom_cons]
  unfold step
  simp only [hquoted, if_true, if_neg hrest]
  rfl

variable (limits path) in
theorem scan_open {s : Scanner} (hquoted : s.quoted = false) (hafter : s.afterQuote = false)
    (hfield : s.field = []) (rest : Bytes) : scanFrom limits path false s (kQuote :: rest) =
      scanFrom limits path false { s with quoted := true, sawCharacter := true } rest := by
  rw [scanFrom_cons]
  unfold step
  simp [hquoted, hafter, hfield]

/-- The scanner where a cell begins, after some rows and cells. -/
structure At (table : Rows) (cells : List Bytes) (s : Scanner) : Prop where
  rows : s.rows = table
  row : s.row = cells
  field : s.field = []
  quoted : s.quoted = false
  afterQuote : s.afterQuote = false
  saw : cells = [] → s.sawCharacter = false

/-- The scanner where a cell ends. -/
structure Ended (table : Rows) (cells : List Bytes) (text : Bytes) (only : Prop) (s : Scanner) :
    Prop where
  rows : s.rows = table
  row : s.row = cells
  field : s.field = text
  quoted : s.quoted = false
  saw : only → s.sawCharacter = true
  marked : only → s.afterQuote = true ∨ text ≠ []

variable (limits path) in
theorem scan_cell {rows : Rows} {row : List Bytes} {s : Scanner} (h : At rows row s) {only : Prop}
    {field cell : Bytes} (hcell : WritesField only field cell) :
    (∃ s', Ended rows row field only s' ∧ ∀ rest : Bytes, rest.head? ≠ some kQuote →
      scanFrom limits path false s (cell ++ rest) = scanFrom limits path false s' rest) ∨
    (limits.maxFieldBytes < field.length ∧ ∀ rest,
      scanFrom limits path false s (cell ++ rest) = .error (fieldTooLarge path)) := by
  cases hcell with
  | plain hplain honly =>
    rcases scan_plain limits path hplain h.quoted h.afterQuote with
      hread | ⟨hlong, hread⟩
    · refine .inl ⟨{ s with
          field := s.field ++ field
          sawCharacter := s.sawCharacter || !field.isEmpty },
        ⟨h.rows, h.row, ?_, h.quoted, fun ho => ?_, fun ho => .inr (honly ho)⟩,
        fun rest _ => hread rest⟩
      · simp [h.field]
      · simp [honly ho]
    · exact .inr ⟨by simpa [h.field] using hlong, hread⟩
  | quoted =>
    have hopen := scan_open limits path h.quoted h.afterQuote h.field
    rcases scan_escaped limits path field
      (s := { s with quoted := true, sawCharacter := true }) rfl rfl with hread | ⟨hlong, hread⟩
    · refine .inl ⟨{ s with field := field, quoted := false, afterQuote := true,
                            sawCharacter := true },
        ⟨h.rows, h.row, rfl, rfl, fun _ => rfl, fun _ => .inl rfl⟩, fun rest hrest => ?_⟩
      rw [List.cons_append, List.append_assoc, hopen, hread, List.singleton_append,
        scan_close rfl hrest]
      simp [h.field]
    · refine .inr ⟨by simpa [h.field] using hlong, fun rest => ?_⟩
      rw [List.cons_append, List.append_assoc, hopen, hread]

/-! ### Reading what ends a field -/

variable (limits path) in
theorem finishCell_eq {table : Rows} {cells : List Bytes} {text : Bytes} {only : Prop}
    {s : Scanner} (h : Ended table cells text only s) :
    (∃ s', At table (cells ++ [text]) s' ∧
      finishCell limits path { s with afterQuote := false } = .ok s') ∨
    (¬ (text.length ≤ limits.maxFieldBytes ∧ cells.length + 1 < limits.maxColumns) ∧
      ∃ e, IsCsvLimit path e ∧
        finishCell limits path { s with afterQuote := false } = .error e) := by
  unfold finishCell checkField throwIf
  simp only [h.field, h.row]
  by_cases hlong : limits.maxFieldBytes < text.length
  · refine .inr ⟨fun hfits => absurd hfits.1 (not_le.mpr hlong), _, .inl rfl, ?_⟩
    rw [if_pos hlong]
    rfl
  · rw [if_neg hlong]
    by_cases hcolumns : limits.maxColumns ≤ cells.length + 1
    · refine .inr ⟨fun hfits => absurd hfits.2 (not_lt.mpr hcolumns), _, .inr (.inl rfl), ?_⟩
      simp only [if_pos hcolumns]
      rfl
    · refine .inl ⟨{ s with row := cells ++ [text], field := [], afterQuote := false },
        ⟨h.rows, rfl, rfl, h.quoted, rfl, fun hnil => absurd hnil (by simp)⟩, ?_⟩
      simp only [if_neg hcolumns]
      rfl

variable (limits path) in
theorem finishRow_eq {table : Rows} {cells : List Bytes} {text : Bytes} {s : Scanner}
    (h : Ended table cells text (cells = []) s) :
    (∃ s', At (table ++ [cells ++ [text]]) [] s' ∧ 1 ≤ limits.maxColumns ∧
      finishRow limits path { s with afterQuote := false } = .ok s') ∨
    (¬ (text.length ≤ limits.maxFieldBytes ∧ cells.length + 1 ≤ limits.maxColumns ∧
        table.length + 1 ≤ limits.maxRows) ∧
      ∃ e, IsCsvLimit path e ∧
        finishRow limits path { s with afterQuote := false } = .error e) := by
  obtain ⟨rows, row, field, quoted, afterQuote, sawCharacter⟩ := s
  obtain ⟨rfl, rfl, rfl, rfl, hsaw, -⟩ := h
  simp only at hsaw
  have hblank : isBlank ⟨rows, row, field, false, false, sawCharacter⟩ = false := by
    unfold isBlank
    cases row with
    | nil => simp [hsaw rfl]
    | cons cell cells => rfl
  unfold finishRow endRow checkField throwIf
  simp only [hblank, Bool.false_eq_true, if_false]
  by_cases hlong : limits.maxFieldBytes < field.length
  · refine .inr ⟨fun hfits => absurd hfits.1 (not_le.mpr hlong), _, .inl rfl, ?_⟩
    rw [if_pos hlong]
    rfl
  · rw [if_neg hlong]
    by_cases hcolumns : limits.maxColumns < row.length + 1
    · refine .inr ⟨fun hfits => absurd hfits.2.1 (not_le.mpr hcolumns), _, .inr (.inl rfl), ?_⟩
      simp only [if_pos hcolumns]
      rfl
    · by_cases hrows : limits.maxRows < rows.length + 1
      · refine .inr ⟨fun hfits => absurd hfits.2.2 (not_le.mpr hrows), _, .inr (.inr rfl), ?_⟩
        simp only [if_neg hcolumns, if_pos hrows]
        rfl
      · refine .inl ⟨⟨rows ++ [row ++ [field]], [], [], false, false, false⟩,
          ⟨rfl, rfl, rfl, rfl, rfl, fun _ => rfl⟩, by omega, ?_⟩
        simp only [if_neg hcolumns, if_neg hrows]
        rfl

variable (limits path) in
theorem finishRow_blank {table : Rows} {s : Scanner} (h : At table [] s) :
    (1 ≤ limits.maxColumns ∧ finishRow limits path { s with afterQuote := false } = .ok s) ∨
    (limits.maxColumns = 0 ∧
      finishRow limits path { s with afterQuote := false } = .error (tooManyColumns path)) := by
  obtain ⟨rows, row, field, quoted, afterQuote, sawCharacter⟩ := s
  obtain ⟨rfl, rfl, rfl, rfl, rfl, hsaw⟩ := h
  obtain rfl := hsaw rfl
  unfold finishRow endRow checkField throwIf
  simp only [isBlank, List.isEmpty_nil, Bool.not_false, Bool.and_self, if_true, List.length_nil,
    Nat.not_lt_zero, if_false]
  by_cases hcolumns : limits.maxColumns < 0 + 1
  · refine .inr ⟨by omega, ?_⟩
    simp only [if_pos hcolumns]
    rfl
  · refine .inl ⟨by omega, ?_⟩
    simp only [if_neg hcolumns]
    rfl

theorem scan_comma {s : Scanner} (hquoted : s.quoted = false) (rest : Bytes) :
    scanFrom limits path false s (kComma :: rest) =
      finishCell limits path { s with afterQuote := false } >>= fun next =>
        scanFrom limits path false next rest := by
  obtain ⟨rows, row, field, quoted, afterQuote, sawCharacter⟩ := s
  simp only at hquoted
  subst hquoted
  have hquote : kComma ≠ kQuote := by decide
  rw [scanFrom_cons]
  unfold step
  cases afterQuote with
  | false =>
    simp only [hquote, Bool.false_eq_true, if_false, if_true, bind_assoc, pure_bind]
  | true =>
    simp only [Bool.false_eq_true, if_false, if_true, bind_assoc, pure_bind, finishCell]
    rfl

theorem scan_lineEnd {s : Scanner} (hquoted : s.quoted = false) {c : UInt8}
    (hc : c = kCr ∨ c = kLf) (rest : Bytes) : scanFrom limits path false s (c :: rest) =
      finishRow limits path { s with afterQuote := false } >>= fun next =>
        scanFrom limits path (isPair c rest.head?) next rest := by
  obtain ⟨rows, row, field, quoted, afterQuote, sawCharacter⟩ := s
  simp only at hquoted
  subst hquoted
  have hcomma : c ≠ kComma := by rcases hc with rfl | rfl <;> decide
  have hquote : c ≠ kQuote := by rcases hc with rfl | rfl <;> decide
  rw [scanFrom_cons]
  unfold step
  cases afterQuote with
  | false =>
    simp only [hcomma, hquote, hc, Bool.false_eq_true, if_false, if_true, bind_assoc, pure_bind]
  | true =>
    simp only [hcomma, hquote, hc, Bool.false_eq_true, if_false, if_true, bind_assoc, pure_bind]

/-- At the start of a row a line feed may be passed over: alone it would be a blank line. -/
theorem scan_skip {table : Rows} {s : Scanner} (h : At table [] s) (hroom : 1 ≤ limits.maxColumns)
    (c : UInt8) (rest : Bytes) : scanFrom limits path (isPair c rest.head?) s rest =
      scanFrom limits path false s rest := by
  cases rest with
  | nil => cases isPair c none <;> rfl
  | cons c' rest =>
    unfold isPair
    by_cases hpair : c = kCr ∧ c' = kLf
    · obtain ⟨rfl, rfl⟩ := hpair
      rw [scan_lineEnd h.quoted (.inr rfl)]
      rcases finishRow_blank limits path h with ⟨-, hfinish⟩ | ⟨hzero, -⟩
      · rw [hfinish, ok_bind]
        rfl
      · omega
    · have hfalse : (c == kCr && (c' :: rest).head? == some kLf) = false := by
        simpa using hpair
      rw [hfalse]

theorem scan_end {table : Rows} {s s' : Scanner} (hquoted : s.quoted = false)
    (hfinish : finishRow limits path { s with afterQuote := false } = .ok s') (h : At table [] s')
    (hroom : 1 ≤ limits.maxColumns) {lineEnd : Bytes} (hend : LineEnd lineEnd) (rest : Bytes) :
    scanFrom limits path false s (lineEnd ++ rest) = scanFrom limits path false s' rest := by
  cases hend with
  | lf =>
    rw [List.singleton_append, scan_lineEnd hquoted (.inr rfl), hfinish, ok_bind, scan_skip h hroom]
  | cr =>
    rw [List.singleton_append, scan_lineEnd hquoted (.inl rfl), hfinish, ok_bind, scan_skip h hroom]
  | crlf =>
    show scanFrom limits path false s (kCr :: kLf :: rest) = _
    rw [scan_lineEnd hquoted (.inl rfl), hfinish, ok_bind]
    rfl

theorem scan_end_error {s : Scanner} {e : Error} (hquoted : s.quoted = false)
    (hfinish : finishRow limits path { s with afterQuote := false } = .error e) {lineEnd : Bytes}
    (hend : LineEnd lineEnd) (rest : Bytes) :
    scanFrom limits path false s (lineEnd ++ rest) = .error e := by
  cases hend with
  | lf => rw [List.singleton_append, scan_lineEnd hquoted (.inr rfl), hfinish, error_bind]
  | cr => rw [List.singleton_append, scan_lineEnd hquoted (.inl rfl), hfinish, error_bind]
  | crlf =>
    show scanFrom limits path false s (kCr :: kLf :: rest) = _
    rw [scan_lineEnd hquoted (.inl rfl), hfinish, error_bind]

/-! ### Reading what was written -/

variable (limits path) in
theorem scan_cellEnd {rows : Rows} {row : List Bytes} {s : Scanner} (h : At rows row s)
    {field cell : Bytes} (hcell : WritesField False field cell) :
    (∃ s', At rows (row ++ [field]) s' ∧ ∀ rest,
      scanFrom limits path false s (cell ++ kComma :: rest) =
        scanFrom limits path false s' rest) ∨
    (¬ (field.length ≤ limits.maxFieldBytes ∧ row.length + 1 < limits.maxColumns) ∧
      ∃ e, IsCsvLimit path e ∧ ∀ rest,
        scanFrom limits path false s (cell ++ kComma :: rest) = .error e) := by
  have hnot : ∀ rest : Bytes, (kComma :: rest).head? ≠ some kQuote := by
    intro rest
    rw [List.head?_cons]
    decide
  rcases scan_cell limits path h hcell with ⟨t, hended, hread⟩ | ⟨hlong, hread⟩
  · rcases finishCell_eq limits path hended with
      ⟨s', hat, hfinish⟩ | ⟨hlimit, e, he, hfinish⟩
    · refine .inl ⟨s', hat, fun rest => ?_⟩
      rw [hread _ (hnot rest), scan_comma hended.quoted, hfinish, ok_bind]
    · refine .inr ⟨hlimit, e, he, fun rest => ?_⟩
      rw [hread _ (hnot rest), scan_comma hended.quoted, hfinish, error_bind]
  · exact .inr ⟨fun hfits => absurd hfits.1 (not_le.mpr hlong), _, .inl rfl, fun rest => hread _⟩

variable (limits path) in
theorem scan_rowEnd {rows : Rows} {row : List Bytes} {s : Scanner} (h : At rows row s)
    {field cell lineEnd : Bytes} (hcell : WritesField (row = []) field cell)
    (hend : LineEnd lineEnd) :
    (∃ s', At (rows ++ [row ++ [field]]) [] s' ∧ ∀ rest,
      scanFrom limits path false s (cell ++ (lineEnd ++ rest)) =
        scanFrom limits path false s' rest) ∨
    (¬ (field.length ≤ limits.maxFieldBytes ∧ row.length + 1 ≤ limits.maxColumns ∧
        rows.length + 1 ≤ limits.maxRows) ∧
      ∃ e, IsCsvLimit path e ∧ ∀ rest,
        scanFrom limits path false s (cell ++ (lineEnd ++ rest)) = .error e) := by
  have hnot : ∀ rest : Bytes, (lineEnd ++ rest).head? ≠ some kQuote := by
    intro rest e
    cases hend <;> exact absurd (Option.some.inj e) (by decide)
  rcases scan_cell limits path h hcell with ⟨t, hended, hread⟩ | ⟨hlong, hread⟩
  · rcases finishRow_eq limits path hended with
      ⟨s', hat, hroom, hfinish⟩ | ⟨hlimit, e, he, hfinish⟩
    · refine .inl ⟨s', hat, fun rest => ?_⟩
      rw [hread _ (hnot rest), scan_end hended.quoted hfinish hat hroom hend]
    · refine .inr ⟨hlimit, e, he, fun rest => ?_⟩
      rw [hread _ (hnot rest), scan_end_error hended.quoted hfinish hend]
  · exact .inr ⟨fun hfits => absurd hfits.1 (not_le.mpr hlong), _, .inl rfl, fun rest => hread _⟩

theorem WithinTable.of_cell {rows : Rows} {row : List Bytes} {field : Bytes}
    (h : WithinTable limits rows (row ++ [field])) : WithinTable limits rows row ∧
      field.length ≤ limits.maxFieldBytes ∧ row.length + 1 < limits.maxColumns := by
  have hcolumns := h.rowColumns
  rw [List.length_append, List.length_singleton] at hcolumns
  refine ⟨⟨h.count, h.columns, h.fields, by omega, fun f hf => ?_⟩, ?_, hcolumns⟩
  · exact h.rowFields f (List.mem_append_left _ hf)
  · exact h.rowFields field (List.mem_append_right _ (List.mem_singleton_self field))

theorem WithinTable.of_row {rows : Rows} {row : List Bytes} {field : Bytes}
    (h : WithinTable limits (rows ++ [row ++ [field]]) []) : WithinTable limits rows row ∧
      field.length ≤ limits.maxFieldBytes ∧ row.length + 1 ≤ limits.maxColumns ∧
      rows.length + 1 ≤ limits.maxRows := by
  have hmem : row ++ [field] ∈ rows ++ [row ++ [field]] :=
    List.mem_append_right _ (List.mem_singleton_self _)
  have hcount := h.count
  have hcolumns := h.columns _ hmem
  rw [List.length_append, List.length_singleton] at hcount hcolumns
  refine ⟨⟨by omega, fun r hr => h.columns r (List.mem_append_left _ hr),
    fun r hr => h.fields r (List.mem_append_left _ hr), by omega, fun f hf => ?_⟩, ?_, hcolumns, hcount⟩
  · exact h.fields _ hmem f (List.mem_append_left _ hf)
  · exact h.fields _ hmem field (List.mem_append_right _ (List.mem_singleton_self field))

variable (limits path) in
/-- **What was written is read back**, unless a limit is exceeded. -/
theorem scan_written {rows : Rows} {row : List Bytes} {text : Bytes} (h : Written rows row text) :
    (∃ s, At rows row s ∧ ∀ rest, scanFrom limits path false {} (text ++ rest) =
      scanFrom limits path false s rest) ∨
    (¬ WithinTable limits rows row ∧ ∃ e, IsCsvLimit path e ∧ ∀ rest,
      scanFrom limits path false {} (text ++ rest) = .error e) := by
  induction h with
  | start => exact .inl ⟨{}, ⟨rfl, rfl, rfl, rfl, rfl, fun _ => rfl⟩, fun rest => rfl⟩
  | @cell rows row text field cell _ hcell ih =>
    have hsplit : ∀ rest, text ++ cell ++ [kComma] ++ rest = text ++ (cell ++ kComma :: rest) := by
      intro rest
      simp
    rcases ih with ⟨s, hat, hread⟩ | ⟨hlimit, e, he, hread⟩
    · rcases scan_cellEnd limits path hat hcell with
        ⟨s', hat', hnext⟩ | ⟨hlimit, e, he, hnext⟩
      · exact .inl ⟨s', hat', fun rest => by rw [hsplit, hread, hnext]⟩
      · exact .inr ⟨fun hw => hlimit hw.of_cell.2, e, he, fun rest => by rw [hsplit, hread, hnext]⟩
    · exact .inr ⟨fun hw => hlimit hw.of_cell.1, e, he, fun rest => by rw [hsplit, hread]⟩
  | @row rows row text field cell lineEnd _ hcell hend ih =>
    have hsplit : ∀ rest, text ++ cell ++ lineEnd ++ rest = text ++ (cell ++ (lineEnd ++ rest)) := by
      intro rest
      simp
    rcases ih with ⟨s, hat, hread⟩ | ⟨hlimit, e, he, hread⟩
    · rcases scan_rowEnd limits path hat hcell hend with
        ⟨s', hat', hnext⟩ | ⟨hlimit, e, he, hnext⟩
      · exact .inl ⟨s', hat', fun rest => by rw [hsplit, hread, hnext]⟩
      · exact .inr ⟨fun hw => hlimit hw.of_row.2, e, he, fun rest => by rw [hsplit, hread, hnext]⟩
    · exact .inr ⟨fun hw => hlimit hw.of_row.1, e, he, fun rest => by rw [hsplit, hread]⟩
  | @blank rows text lineEnd _ hend ih =>
    have hsplit : ∀ rest, text ++ lineEnd ++ rest = text ++ (lineEnd ++ rest) :=
      fun rest => List.append_assoc _ _ _
    rcases ih with ⟨s, hat, hread⟩ | ⟨hlimit, e, he, hread⟩
    · rcases finishRow_blank limits path hat with
        ⟨hroom, hfinish⟩ | ⟨hzero, hfinish⟩
      · refine .inl ⟨s, hat, fun rest => ?_⟩
        rw [hsplit, hread, scan_end hat.quoted hfinish hat hroom hend]
      · refine .inr ⟨fun hw => ?_, _, .inr (.inl rfl), fun rest => ?_⟩
        · have hcolumns := hw.rowColumns
          omega
        · rw [hsplit, hread, scan_end_error hat.quoted hfinish hend]
    · exact .inr ⟨hlimit, e, he, fun rest => by rw [hsplit, hread]⟩

/-! ### The end of the artifact -/

theorem finishRow_afterQuote (s : Scanner) : finishRow limits path s =
    finishRow limits path { s with afterQuote := false } >>= fun next =>
      .ok { next with afterQuote := s.afterQuote } := by
  obtain ⟨rows, row, field, quoted, afterQuote, sawCharacter⟩ := s
  have hblank : isBlank ⟨rows, row, field, quoted, afterQuote, sawCharacter⟩ =
    isBlank ⟨rows, row, field, quoted, false, sawCharacter⟩ := rfl
  unfold finishRow endRow checkField throwIf
  simp only [hblank, bind_assoc]
  split_ifs <;> rfl

variable (limits path) in
theorem finishLast_eq {rows : Rows} {row : List Bytes} {field : Bytes} {s : Scanner}
    (h : Ended rows row field (row = []) s) :
    (∃ last, finishLast limits path s = .ok last ∧ last.rows = rows ++ [row ++ [field]]) ∨
    (¬ (field.length ≤ limits.maxFieldBytes ∧ row.length + 1 ≤ limits.maxColumns ∧
        rows.length + 1 ≤ limits.maxRows) ∧
      ∃ e, IsCsvLimit path e ∧ finishLast limits path s = .error e) := by
  have hlast : s.afterQuote = true ∨ ¬ s.field.isEmpty = true ∨ ¬ s.row.isEmpty = true := by
    rw [h.field, h.row]
    by_cases hrow : row = []
    · rcases h.marked hrow with hafter | hfield
      · exact .inl hafter
      · exact .inr (.inl (by simpa using hfield))
    · exact .inr (.inr (by simpa using hrow))
  rw [finishLast, if_pos hlast, finishRow_afterQuote]
  rcases finishRow_eq limits path h with
    ⟨s', hat, -, hfinish⟩ | ⟨hlimit, e, he, hfinish⟩
  · rw [hfinish, ok_bind]
    exact .inl ⟨_, rfl, hat.rows⟩
  · rw [hfinish, error_bind]
    exact .inr ⟨hlimit, e, he, rfl⟩

theorem parseCsv_of_scan {contents : Bytes} {s : Scanner}
    (h : scanFrom limits path false {} contents = .ok s) : parseCsv limits path contents = (do
      throwIf (s.quoted = true) (invalidCsv path "quoted field is not closed")
      let last ← finishLast limits path s
      throwIf (last.rows.isEmpty = true) (invalidCsv path "CSV artifact has no header row")
      return last.rows) := by
  rw [parseCsv, h, ok_bind]

theorem parseCsv_of_error {contents : Bytes} {e : Error}
    (h : scanFrom limits path false {} contents = .error e) :
    parseCsv limits path contents = .error e := by
  rw [parseCsv, h, error_bind]

/-- A table within the limits. -/
structure IsWithin (limits : Limits) (table : Rows) : Prop where
  count : table.length ≤ limits.maxRows
  columns : ∀ r ∈ table, r.length ≤ limits.maxColumns
  fields : ∀ r ∈ table, ∀ field ∈ r, field.length ≤ limits.maxFieldBytes

theorem IsWithin.within {table : Rows} (h : IsWithin limits table) (htable : table ≠ [])
    (hrows : ∀ r ∈ table, r ≠ []) : WithinTable limits table [] := by
  obtain ⟨r, hr⟩ := List.exists_mem_of_ne_nil table htable
  have hpositive := List.length_pos_of_ne_nil (hrows r hr)
  exact ⟨h.count, h.columns, h.fields, hpositive.trans_le (h.columns r hr), List.forall_mem_nil _⟩

variable (limits path) in
theorem parseCsv_encodes_or {table : Rows} (htable : table ≠ []) (hrows : ∀ r ∈ table, r ≠ [])
    {text : Bytes} (h : Encodes table text) :
    parseCsv limits path text = .ok table ∨
      (¬ IsWithin limits table ∧ ∃ e, parseCsv limits path text = .error e) := by
  cases h with
  | ended hwritten =>
    rcases scan_written limits path hwritten with ⟨s, hat, hread⟩ | ⟨hlimit, e, -, hread⟩
    · have hscan := hread []
      rw [List.append_nil] at hscan
      have hlast : finishLast limits path s = .ok s := by
        rw [finishLast, if_neg (by simp [hat.afterQuote, hat.field, hat.row])]
      have hnonempty : table.isEmpty = false := by simpa using htable
      refine .inl ?_
      rw [parseCsv_of_scan hscan, hlast, hat.quoted]
      simp only [ok_bind, hat.rows, hnonempty]
      rfl
    · have hscan := hread []
      rw [List.append_nil] at hscan
      exact .inr ⟨fun h => hlimit (h.within htable hrows), e, parseCsv_of_error hscan⟩
  | @unended rows row text field cell hwritten hcell =>
    rcases scan_written limits path hwritten with ⟨s, hat, hread⟩ | ⟨hlimit, e, -, hread⟩
    · rcases scan_cell limits path hat hcell with ⟨t, hended, hnext⟩ | ⟨hlong, hnext⟩
      · have hscan := hread (cell ++ [])
        rw [hnext [] (by simp), List.append_nil] at hscan
        rcases finishLast_eq limits path hended with ⟨last, hlast, hlastRows⟩ | ⟨hlimit, e, -, hlast⟩
        · have hnonempty : (rows ++ [row ++ [field]]).isEmpty = false := by simp
          refine .inl ?_
          rw [parseCsv_of_scan hscan, hlast, hended.quoted]
          simp only [ok_bind, hlastRows, hnonempty]
          rfl
        · refine .inr ⟨fun h => hlimit (h.within htable hrows).of_row.2, e, ?_⟩
          rw [parseCsv_of_scan hscan, hlast, hended.quoted]
          rfl
      · have hscan := hread (cell ++ [])
        rw [hnext [], List.append_nil] at hscan
        exact .inr ⟨fun h => not_le.mpr hlong (h.within htable hrows).of_row.2.1, _,
          parseCsv_of_error hscan⟩
    · exact .inr ⟨fun h => hlimit (h.within htable hrows).of_row.1, e,
        parseCsv_of_error (hread cell)⟩

theorem parseCsv_encodes {table : Rows} (htable : table ≠ []) (hrows : ∀ r ∈ table, r ≠ [])
    (hwithin : IsWithin limits table) {text : Bytes} (h : Encodes table text) :
    parseCsv limits path text = .ok table :=
  (parseCsv_encodes_or limits path htable hrows h).resolve_right fun hnot => hnot.1 hwithin

/-- What the scanner has read so far is within the limits. -/
structure Scanner.Within (limits : Limits) (s : Scanner) : Prop where
  table : IsWithin limits s.rows
  row : ∀ field ∈ s.row, field.length ≤ limits.maxFieldBytes

theorem endRow_within {s s' : Scanner} (hs : s.Within limits)
    (hfield : s.field.length ≤ limits.maxFieldBytes)
    (hcolumns : s.row.length + 1 ≤ limits.maxColumns) (h : endRow limits path s = .ok s') :
    s'.Within limits := by
  unfold endRow at h
  by_cases hblank : isBlank s = true
  · rw [if_pos hblank] at h
    cases h
    exact ⟨hs.table, List.forall_mem_nil _⟩
  · rw [if_neg hblank] at h
    obtain ⟨hcount, h⟩ := throwIf_bind_eq_ok.mp h
    cases h
    refine ⟨⟨?_, ?_, ?_⟩, List.forall_mem_nil _⟩
    · rw [List.length_append, List.length_singleton]
      omega
    · intro r hr
      rcases List.mem_append.mp hr with hr | hr
      · exact hs.table.columns r hr
      · rw [List.mem_singleton.mp hr, List.length_append, List.length_singleton]
        exact hcolumns
    · intro r hr field hmem
      rcases List.mem_append.mp hr with hr | hr
      · exact hs.table.fields r hr field hmem
      · rw [List.mem_singleton.mp hr] at hmem
        rcases List.mem_append.mp hmem with hmem | hmem
        · exact hs.row field hmem
        · rw [List.mem_singleton.mp hmem]
          exact hfield

theorem finishRow_within {s s' : Scanner} (hs : s.Within limits)
    (h : finishRow limits path s = .ok s') : s'.Within limits := by
  unfold finishRow checkField at h
  obtain ⟨hfield, h⟩ := throwIf_bind_eq_ok.mp h
  obtain ⟨hcolumns, h⟩ := throwIf_bind_eq_ok.mp h
  exact endRow_within hs (not_lt.mp hfield) (not_lt.mp hcolumns) h

theorem finishCell_within {s s' : Scanner} (hs : s.Within limits)
    (h : finishCell limits path s = .ok s') : s'.Within limits := by
  unfold finishCell checkField at h
  obtain ⟨hfield, h⟩ := throwIf_bind_eq_ok.mp h
  obtain ⟨-, h⟩ := throwIf_bind_eq_ok.mp h
  cases h
  refine ⟨hs.table, ?_⟩
  intro field hmem
  rcases List.mem_append.mp hmem with hmem | hmem
  · exact hs.row field hmem
  · rw [List.mem_singleton.mp hmem]
    exact not_lt.mp hfield

theorem pushCharacter_within {s s' : Scanner} {c : UInt8} (hs : s.Within limits)
    (h : pushCharacter limits path s c = .ok s') : s'.Within limits := by
  unfold pushCharacter checkField at h
  obtain ⟨-, h⟩ := throwIf_bind_eq_ok.mp h
  cases h
  exact ⟨hs.table, hs.row⟩

theorem step_within {s s' : Scanner} {c : UInt8} {next : Option UInt8} {skips : Bool}
    (hs : s.Within limits) (h : step limits path s c next = .ok (s', skips)) : s'.Within limits := by
  have hpush : (do return (← pushCharacter limits path s c, false) : Result (Scanner × Bool)) =
      .ok (s', skips) → s'.Within limits := by
    intro h
    obtain ⟨t, ht, h⟩ := bind_eq_ok.mp h
    cases h
    exact pushCharacter_within hs ht
  have hrow : ∀ t : Scanner, t.Within limits → (do
      return (← finishRow limits path t, isPair c next) : Result (Scanner × Bool)) =
        .ok (s', skips) → s'.Within limits := by
    intro t ht h
    obtain ⟨u, hu, h⟩ := bind_eq_ok.mp h
    cases h
    exact finishRow_within ht hu
  unfold step at h
  split_ifs at h
  · cases h
    exact ⟨hs.table, hs.row⟩
  · cases h
    exact ⟨hs.table, hs.row⟩
  · exact hpush h
  · obtain ⟨t, ht, h⟩ := bind_eq_ok.mp h
    have hwithin := finishCell_within hs ht
    cases h
    exact ⟨hwithin.table, hwithin.row⟩
  · exact hrow { s with afterQuote := false } ⟨hs.table, hs.row⟩ h
  · cases h
    exact ⟨hs.table, hs.row⟩
  · obtain ⟨t, ht, h⟩ := bind_eq_ok.mp h
    have hwithin := finishCell_within hs ht
    cases h
    exact hwithin
  · exact hrow _ hs h
  · exact hpush h

theorem scanFrom_within {skip : Bool} {s s' : Scanner} {text : Bytes} (hs : s.Within limits)
    (h : scanFrom limits path skip s text = .ok s') : s'.Within limits := by
  induction text generalizing skip s with
  | nil =>
    cases skip <;> (cases h; exact hs)
  | cons c text ih =>
    cases skip with
    | true => exact ih hs h
    | false =>
      rw [scanFrom_cons] at h
      obtain ⟨⟨next, skips⟩, hstep, h⟩ := bind_eq_ok.mp h
      exact ih (step_within hs hstep) h

theorem isWithin_of_parseCsv {text : Bytes} {table : Rows}
    (h : parseCsv limits path text = .ok table) : IsWithin limits table := by
  unfold parseCsv at h
  obtain ⟨s, hscan, h⟩ := bind_eq_ok.mp h
  obtain ⟨-, h⟩ := throwIf_bind_eq_ok.mp h
  obtain ⟨last, hlast, h⟩ := bind_eq_ok.mp h
  obtain ⟨-, h⟩ := throwIf_bind_eq_ok.mp h
  cases h
  have hempty : ({} : Scanner).Within limits :=
    ⟨⟨Nat.zero_le _, List.forall_mem_nil _, List.forall_mem_nil _⟩, List.forall_mem_nil _⟩
  have hs := scanFrom_within hempty hscan
  unfold finishLast at hlast
  split_ifs at hlast
  · exact (finishRow_within hs hlast).table
  · cases hlast
    exact hs.table

/-- **An encoded table is read exactly where it is within the limits.** -/
theorem parseCsv_encodes_iff {table out : Rows} (htable : table ≠ []) (hrows : ∀ r ∈ table, r ≠ [])
    {text : Bytes} (h : Encodes table text) :
    parseCsv limits path text = .ok out ↔ out = table ∧ IsWithin limits table := by
  constructor
  · intro hparse
    rcases parseCsv_encodes_or limits path htable hrows h with hok | ⟨-, e, he⟩
    · rw [hok] at hparse
      cases hparse
      exact ⟨rfl, isWithin_of_parseCsv hok⟩
    · rw [he] at hparse
      cases hparse
  · rintro ⟨rfl, hwithin⟩
    exact parseCsv_encodes htable hrows hwithin h

theorem Encodes.rows_ne_nil {table : Rows} {text : Bytes} (h : Encodes table text) :
    ∀ r ∈ table, r ≠ [] := by
  have hwritten : ∀ {rows : Rows} {row : List Bytes} {text : Bytes}, Written rows row text →
      ∀ r ∈ rows, r ≠ [] := by
    intro rows row text h
    induction h with
    | start => exact List.forall_mem_nil _
    | cell _ _ ih => exact ih
    | row _ _ _ ih => exact List.forall_mem_append.mpr ⟨ih, List.forall_mem_singleton.mpr (by simp)⟩
    | blank _ _ ih => exact ih
  cases h with
  | ended h => exact hwritten h
  | unended h _ =>
    exact List.forall_mem_append.mpr ⟨hwritten h, List.forall_mem_singleton.mpr (by simp)⟩

/-- What is refused, and why: the quoting, unless a limit was exceeded before. -/
def RefusesCsv (limits : Limits) (path : Bytes) (rows : Rows) (row : List Bytes) (field : Bytes)
    (outcome : Result Rows) : Prop :=
  ∃ e, outcome = .error e ∧ ((∃ message, e = invalidCsv path message) ∨
    (IsCsvLimit path e ∧
      ¬ (WithinTable limits rows row ∧ field.length ≤ limits.maxFieldBytes)))

variable (limits path) in
theorem scan_afterQuote {s : Scanner} (hquoted : s.quoted = false) (hafter : s.afterQuote = true)
    {c : UInt8} (hc : IsPlain c) (rest : Bytes) : ∃ message,
      scanFrom limits path false s (c :: rest) = .error (invalidCsv path message) := by
  obtain ⟨hcomma, -, hcr, hlf⟩ := hc
  rw [scanFrom_cons]
  unfold step
  simp only [hquoted, hafter, hcomma, hcr, hlf, Bool.false_eq_true, if_true, if_false, or_self]
  by_cases hspace : c = 0x20 ∨ c = 0x09
  · rw [if_pos hspace]
    exact ⟨_, rfl⟩
  · rw [if_neg hspace]
    exact ⟨_, rfl⟩

variable (limits path) in
theorem scan_quoteInside {s : Scanner} (hquoted : s.quoted = false) (hafter : s.afterQuote = false)
    (hfield : s.field ≠ []) (rest : Bytes) : ∃ message,
      scanFrom limits path false s (kQuote :: rest) = .error (invalidCsv path message) := by
  have hempty : s.field.isEmpty = false := by simpa using hfield
  rw [scanFrom_cons]
  unfold step
  simp only [hquoted, hafter, hempty, Bool.false_eq_true, if_true, if_false]
  exact ⟨_, rfl⟩

theorem parseCsv_malformed {rows : Rows} {row : List Bytes} {text field bad : Bytes}
    (hwritten : Written rows row text) (hbad : Malformed field bad) :
    RefusesCsv limits path rows row field (parseCsv limits path (text ++ bad)) := by
  rcases scan_written limits path hwritten with
    ⟨s, hat, hread⟩ | ⟨hlimit, e, he, hread⟩
  · have hopen := scan_open limits path hat.quoted hat.afterQuote hat.field
    have hescaped := scan_escaped limits path field
      (s := { s with quoted := true, sawCharacter := true }) rfl rfl
    simp only [hat.field] at hopen
    simp only [hat.field, List.nil_append] at hescaped
    cases hbad with
    | unterminated =>
      rcases hescaped with hnext | ⟨hlong, hnext⟩
      · have hscan := hread (kQuote :: escape field)
        have hend := hnext []
        rw [List.append_nil] at hend
        rw [hopen, hend] at hscan
        refine ⟨_, ?_, .inl ⟨"quoted field is not closed", rfl⟩⟩
        rw [parseCsv_of_scan hscan]
        rfl
      · refine ⟨_, parseCsv_of_error ?_, .inr ⟨.inl rfl, fun h => absurd h.2 (not_le.mpr hlong)⟩⟩
        have hend := hnext []
        rw [List.append_nil] at hend
        rw [hread, hopen, hend]
    | quoteInside rest hfield hplain =>
      rcases scan_plain limits path hplain hat.quoted hat.afterQuote with
        hnext | ⟨hlong, hnext⟩
      · obtain ⟨message, hrefused⟩ := scan_quoteInside limits path
          (s := { s with
            field := s.field ++ field
            sawCharacter := s.sawCharacter || !field.isEmpty })
          hat.quoted hat.afterQuote (by simpa using fun _ => hfield) rest
        exact ⟨_, parseCsv_of_error (by rw [hread, hnext, hrefused]), .inl ⟨message, rfl⟩⟩
      · rw [hat.field, List.nil_append] at hlong
        exact ⟨_, parseCsv_of_error (by rw [hread, hnext]),
          .inr ⟨.inl rfl, fun h => absurd h.2 (not_le.mpr hlong)⟩⟩
    | @afterQuote character rest hc =>
      rcases hescaped with hnext | ⟨hlong, hnext⟩
      · have hne : (character :: rest).head? ≠ some kQuote := fun e =>
          hc.2.1 (Option.some.inj e)
        obtain ⟨message, hrefused⟩ := scan_afterQuote limits path
          (s := { s with field := field, quoted := false, afterQuote := true,
                         sawCharacter := true }) rfl rfl hc rest
        refine ⟨_, parseCsv_of_error ?_, .inl ⟨message, rfl⟩⟩
        rw [hread, hopen, hnext, scan_close rfl hne]
        exact hrefused
      · refine ⟨_, parseCsv_of_error ?_, .inr ⟨.inl rfl, fun h => absurd h.2 (not_le.mpr hlong)⟩⟩
        rw [hread, hopen, hnext]
  · exact ⟨e, parseCsv_of_error (hread bad), .inr ⟨he, fun h => hlimit h.1⟩⟩

end

/-! ### Every text is written well, or malformed -/

/-- A text after an opening quote: the quotes in it are all doubled, or one of them closes it. -/
theorem escape_split (text : Bytes) : (∃ field, text = escape field) ∨
    ∃ field rest, text = escape field ++ kQuote :: rest ∧ rest.head? ≠ some kQuote := by
  induction hn : text.length using Nat.strong_induction_on generalizing text with
  | _ n ih =>
    subst hn
    cases text with
    | nil => exact .inl ⟨[], rfl⟩
    | cons c text =>
      by_cases hquote : c = kQuote
      · subst hquote
        by_cases hdoubled : text.head? = some kQuote
        · obtain ⟨rest, rfl⟩ : ∃ rest, text = kQuote :: rest := by
            cases text with
            | nil => cases hdoubled
            | cons c rest => exact ⟨rest, by rw [Option.some.inj hdoubled]⟩
          rcases ih rest.length (by simp only [List.length_cons]; omega) rest rfl with
            ⟨field, h⟩ | ⟨field, rest', h, hne⟩
          · exact .inl ⟨kQuote :: field, by rw [h]; rfl⟩
          · exact .inr ⟨kQuote :: field, rest', by rw [h]; rfl, hne⟩
        · exact .inr ⟨[], text, rfl, hdoubled⟩
      · have hescape : ∀ field, escape (c :: field) = c :: escape field := by
          intro field
          rw [escape, List.flatMap_cons, if_neg hquote]
          rfl
        rcases ih text.length (Nat.lt_succ_self _) text rfl with
          ⟨field, h⟩ | ⟨field, rest, h, hne⟩
        · exact .inl ⟨c :: field, by rw [hescape, h]⟩
        · exact .inr ⟨c :: field, rest, by rw [hescape, h]; rfl, hne⟩

theorem plain_split (text : Bytes) : ∃ field rest, text = field ++ rest ∧
    (∀ c ∈ field, IsPlain c) ∧ ∀ c, rest.head? = some c → ¬ IsPlain c := by
  induction text with
  | nil => exact ⟨[], [], rfl, List.forall_mem_nil _, fun c h => nomatch h⟩
  | cons c text ih =>
    by_cases hc : IsPlain c
    · obtain ⟨field, rest, h, hplain, hrest⟩ := ih
      exact ⟨c :: field, rest, by rw [h]; rfl, List.forall_mem_cons.mpr ⟨hc, hplain⟩, hrest⟩
    · exact ⟨[], c :: text, rfl, List.forall_mem_nil _, fun c' h => Option.some.inj h ▸ hc⟩

theorem cell_split (text : Bytes) : (∃ field, WritesField False field text) ∨
    (∃ field cell c rest, WritesField False field cell ∧ (c = kComma ∨ c = kCr ∨ c = kLf) ∧
      text = cell ++ c :: rest) ∨ ∃ field, Malformed field text := by
  obtain ⟨field, rest, rfl, hplain, hrest⟩ := plain_split text
  have hwrites : WritesField False field field := .plain hplain fun h => h.elim
  cases rest with
  | nil => exact .inl ⟨field, by rwa [List.append_nil]⟩
  | cons c rest =>
    by_cases hquote : c = kQuote
    · subst hquote
      by_cases hempty : field = []
      · -- the cell is between quotes
        subst hempty
        rcases escape_split rest with ⟨inner, rfl⟩ | ⟨inner, after, rfl, hne⟩
        · exact .inr (.inr ⟨inner, .unterminated inner⟩)
        · cases after with
          | nil => exact .inl ⟨inner, .quoted⟩
          | cons c' after =>
            by_cases hc' : IsPlain c'
            · exact .inr (.inr ⟨inner, .afterQuote inner after hc'⟩)
            · have hseparator : c' = kComma ∨ c' = kCr ∨ c' = kLf := by
                by_contra hno
                rw [not_or, not_or] at hno
                exact hc' ⟨hno.1, fun e => hne (congrArg some e), hno.2.1, hno.2.2⟩
              exact .inr (.inl ⟨inner, _, c', after, .quoted, hseparator, by simp⟩)
      · exact .inr (.inr ⟨field, .quoteInside rest hempty hplain⟩)
    · have hseparator : c = kComma ∨ c = kCr ∨ c = kLf := by
        by_contra hno
        rw [not_or, not_or] at hno
        exact hrest c rfl ⟨hno.1, hquote, hno.2.1, hno.2.2⟩
      exact .inr (.inl ⟨field, field, c, rest, hwrites, hseparator, rfl⟩)

theorem written_or_malformed_from {rows : Rows} {row : List Bytes} {text : Bytes} (rest : Bytes)
    (h : Written rows row text) : ∃ rows row before, Written rows row before ∧
      ((∃ field cell, WritesField False field cell ∧ text ++ rest = before ++ cell) ∨
        ∃ field bad, Malformed field bad ∧ text ++ rest = before ++ bad) := by
  induction hn : rest.length using Nat.strong_induction_on generalizing rows row text rest with
  | _ n ih =>
    subst hn
    rcases cell_split rest with ⟨field, hcell⟩ | ⟨field, cell, c, after, hcell, hc, rfl⟩ |
      ⟨field, hbad⟩
    · exact ⟨rows, row, text, h, .inl ⟨field, rest, hcell, rfl⟩⟩
    · have hshorter : after.length < (cell ++ c :: after).length := by
        rw [List.length_append, List.length_cons]
        omega
      have hsplit : text ++ (cell ++ c :: after) = text ++ cell ++ [c] ++ after := by simp
      rw [hsplit]
      rcases hc with rfl | hc
      · exact ih _ hshorter after (.cell h hcell) rfl
      · have hend : LineEnd [c] := by
          rcases hc with rfl | rfl
          · exact .cr
          · exact .lf
        by_cases hrow : row = []
        · subst hrow
          cases hcell with
          | plain hplain =>
            by_cases hempty : field = []
            · subst hempty
              rw [List.append_nil]
              exact ih _ hshorter after (.blank h hend) rfl
            · exact ih _ hshorter after (.row h (.plain hplain fun _ => hempty) hend) rfl
          | quoted => exact ih _ hshorter after (.row h .quoted hend) rfl
        · have hcell' : WritesField (row = []) field cell := by
            cases hcell with
            | plain hplain => exact .plain hplain fun e => absurd e hrow
            | quoted => exact .quoted
          exact ih _ hshorter after (.row h hcell' hend) rfl
    · exact ⟨rows, row, text, h, .inr ⟨field, rest, hbad, rfl⟩⟩

/-- **Nothing else can go wrong**: a text is complete cells and one more, or complete cells and
malformed quoting. -/
theorem written_or_malformed (contents : Bytes) : ∃ rows row before, Written rows row before ∧
    ((∃ field cell, WritesField False field cell ∧ contents = before ++ cell) ∨
      ∃ field bad, Malformed field bad ∧ contents = before ++ bad) :=
  written_or_malformed_from contents .start

theorem encodes_or_malformed (contents : Bytes) : (∃ table, Encodes table contents) ∨
    ∃ rows row before field bad, Written rows row before ∧ Malformed field bad ∧
      contents = before ++ bad := by
  obtain ⟨rows, row, before, hwritten, ⟨field, cell, hcell, hcontents⟩ | ⟨field, bad, hbad, hcontents⟩⟩ :=
    written_or_malformed contents
  · left
    cases hcell with
    | quoted =>
      rw [hcontents]
      exact ⟨_, .unended hwritten .quoted⟩
    | plain hplain _ =>
      by_cases hblank : row = [] ∧ field = []
      · -- Nothing follows the last line end.
        obtain ⟨rfl, rfl⟩ := hblank
        rw [hcontents, List.append_nil]
        exact ⟨rows, .ended hwritten⟩
      · rw [hcontents]
        exact ⟨_, .unended hwritten (.plain hplain fun hrow hfield => hblank ⟨hrow, hfield⟩)⟩
  · exact .inr ⟨rows, row, before, field, bad, hwritten, hbad, hcontents⟩

theorem parseCsv_blank {contents : Bytes} (h : Written [] [] contents) :
    ∃ e, parseCsv limits path contents = .error e := by
  rcases scan_written limits path h with ⟨s, hat, hread⟩ | ⟨-, e, -, hread⟩
  · have hscan := hread []
    rw [List.append_nil] at hscan
    have hlast : finishLast limits path s = .ok s := by
      rw [finishLast, if_neg (by simp [hat.afterQuote, hat.field, hat.row])]
    refine ⟨invalidCsv path "CSV artifact has no header row", ?_⟩
    rw [parseCsv_of_scan hscan, hlast, hat.quoted]
    simp only [ok_bind, hat.rows]
    rfl
  · have hscan := hread []
    rw [List.append_nil] at hscan
    exact ⟨e, parseCsv_of_error hscan⟩

theorem encoded_of_parseCsv {contents : Bytes} {table : Rows}
    (hparse : parseCsv limits path contents = .ok table) :
    table ≠ [] ∧ IsWithin limits table ∧ Encodes table contents := by
  rcases encodes_or_malformed contents with
    ⟨encoded, hencodes⟩ | ⟨rows, row, before, field, bad, hwritten, hbad, rfl⟩
  · by_cases hnil : encoded = []
    · subst hnil
      obtain ⟨e, he⟩ : ∃ e, parseCsv limits path contents = .error e := by
        generalize hempty : ([] : Rows) = encoded at hencodes
        cases hencodes with
        | ended hwritten =>
          subst hempty
          exact parseCsv_blank hwritten
        | unended hwritten hcell =>
          exact absurd hempty.symm (List.append_ne_nil_of_right_ne_nil _ (List.cons_ne_nil _ _))
      rw [he] at hparse
      cases hparse
    · obtain ⟨rfl, hwithin⟩ :=
        (parseCsv_encodes_iff hnil hencodes.rows_ne_nil hencodes).mp hparse
      exact ⟨hnil, hwithin, hencodes⟩
  · obtain ⟨e, he, -⟩ := @parseCsv_malformed limits path _ _ _ _ _ hwritten hbad
    rw [he] at hparse
    cases hparse

/-- **What is accepted**: the encodings of tables with a row, within the limits, and each is read as the
one table it encodes. -/
theorem parseCsv_eq_ok_iff {contents : Bytes} {table : Rows} :
    parseCsv limits path contents = .ok table ↔
      table ≠ [] ∧ IsWithin limits table ∧ Encodes table contents := by
  constructor
  · exact encoded_of_parseCsv
  · intro h
    obtain ⟨htable, hwithin, hencodes⟩ := h
    exact parseCsv_encodes htable hencodes.rows_ne_nil hwithin hencodes

/-- **Reading inverts writing.** Every encoding of a table of rows that are not empty, within the
limits, is read as that table, with any blank lines between its rows; a text in which a quote is not
closed, stands inside a field without quotes, or is followed by anything but a separator is refused. -/
theorem parseCsv_exact (limits : Limits) (path : Bytes) :
    (∀ (table : Rows) (text : Bytes), table ≠ [] → (∀ r ∈ table, r ≠ []) → IsWithin limits table →
      Encodes table text → parseCsv limits path text = .ok table) ∧
    (∀ (rows : Rows) (row : List Bytes) (text field bad : Bytes), Written rows row text →
      Malformed field bad →
      RefusesCsv limits path rows row field (parseCsv limits path (text ++ bad))) :=
  ⟨fun _ _ htable hrows hwithin h => parseCsv_encodes htable hrows hwithin h,
    fun _ _ _ _ _ hwritten hbad => parseCsv_malformed hwritten hbad⟩

/-- `a,"b"""`, a blank line and `""`, and after these a quote that is not closed. -/
theorem parseCsv_exact_sample :
    parseCsv {} "tags.csv" (bytes "a,\"b\"\"\"\r\n\r\n\"\"\n") = .ok [["a", "b\""], [""]] ∧
      RefusesCsv {} "tags.csv" [["a", "b\""], [""]] [] "x" (parseCsv {} "tags.csv"
        (bytes "a,\"b\"\"\"\r\n\r\n\"\"\n" ++ bytes "\"x")) := by
  have hfirst : Written [] ["a"] (bytes "a,") :=
    .cell .start (.plain (List.forall_mem_singleton.mpr ⟨by decide, by decide, by decide, by decide⟩)
      (fun h => h.elim))
  have hrow : Written [["a", "b\""]] [] (bytes "a,\"b\"\"\"\r\n\r\n") :=
    .blank (.row hfirst .quoted .crlf) .crlf
  have hrows : Written [["a", "b\""], [""]] [] (bytes "a,\"b\"\"\"\r\n\r\n\"\"\n") :=
    .row hrow .quoted .lf
  have hexact := parseCsv_exact {} "tags.csv"
  refine ⟨hexact.1 _ _ (by decide) (by decide) ⟨by decide, by decide, by decide⟩ (.ended hrows), ?_⟩
  exact hexact.2 _ _ _ _ _ hrows (.unterminated "x")

end ContextHmi.Import
