import ExecTruth.Suite.Csv

/-! # Records — a reader of separated fields, and what it makes of records that are written

    The reader goes from character to character (`Reading.step`).  Outside of quotes a comma
    ends a field and a line end a record, which may be a line feed, a carriage return or
    both; lines without any character are passed.  Inside of quotes all characters are those
    of the field, and two quotes stand for one.

    A field that is written is read as it was, whatever is in it (`foldl_field`), and so are
    the records made of such fields (`read_records`). -/

namespace ExecTruth.Csv

/-- What the next character is read as. -/
inductive Mode where
  /-- A part of a field, or the end of one. -/
  | plain
  /-- A part of a field in quotes, or the first quote behind it. -/
  | quoted
  /-- The character behind a quote inside of quotes. -/
  | behindQuote
  deriving DecidableEq, Repr

/-- What is read so far. -/
structure Reading where
  records : List (List String)
  /-- The fields of a record that has not ended. -/
  fields : List String
  /-- The characters of a field that has not ended. -/
  text : List Char
  mode : Mode
  deriving DecidableEq, Repr

namespace Reading

/-- Nothing is read. -/
def start : Reading := ⟨[], [], [], .plain⟩

/-- A character of the field. -/
def push (r : Reading) (mode : Mode) (c : Char) : Reading :=
  { r with text := r.text ++ [c], mode }

/-- The end of the field. -/
def endField (r : Reading) : Reading :=
  { r with fields := r.fields ++ [String.ofList r.text], text := [], mode := .plain }

/-- The record has no character yet. -/
def Blank (r : Reading) : Prop := r.fields = [] ∧ r.text = [] ∧ r.mode = .plain

instance (r : Reading) : Decidable r.Blank := inferInstanceAs (Decidable (_ ∧ _ ∧ _))

/-- The end of the record. -/
def endRecord (r : Reading) : Reading :=
  if r.Blank then r
  else ⟨r.records ++ [r.fields ++ [String.ofList r.text]], [], [], .plain⟩

/-- A character outside of quotes. -/
def stepPlain (r : Reading) (c : Char) : Reading :=
  if c = ',' then r.endField
  else if c = '\n' ∨ c = '\r' then r.endRecord
  else r.push .plain c

/-- Reads a character. -/
def step (r : Reading) (c : Char) : Reading :=
  match r.mode with
  | .plain => if c = '"' ∧ r.text = [] then { r with mode := .quoted } else r.stepPlain c
  | .quoted => if c = '"' then { r with mode := .behindQuote } else r.push .quoted c
  | .behindQuote => if c = '"' then r.push .quoted '"' else r.stepPlain c

end Reading

/-- The records of a text. -/
def read (text : String) : List (List String) :=
  (text.toList.foldl Reading.step .start).endRecord.records

/-! ## Fields -/

open Reading

variable {records : List (List String)} {row : List String} {s : List Char}

/-- Outside quotes, plain characters are taken as they are. -/
theorem foldl_plain (hs : ∀ c ∈ s, isSpecial c = false) (text : List Char) :
    s.foldl step ⟨records, row, text, .plain⟩ = ⟨records, row, text ++ s, .plain⟩ := by
  induction s generalizing text with
  | nil => rw [List.append_nil]; rfl
  | cons c rest ih =>
      obtain ⟨hc, hrest⟩ := List.forall_mem_cons.1 hs
      simp only [isSpecial, Bool.or_eq_false_iff, beq_eq_false_iff_ne] at hc
      obtain ⟨⟨⟨hcomma, hquote⟩, hreturn⟩, hfeed⟩ := hc
      have hstep : step ⟨records, row, text, .plain⟩ c = ⟨records, row, text ++ [c], .plain⟩ := by
        simp [step, stepPlain, push, hcomma, hquote, hreturn, hfeed]
      rw [List.foldl_cons, hstep, ih hrest, List.append_assoc]
      rfl

/-- Inside quotes, so is any text whose quotes are doubled. -/
theorem foldl_doubled (s text : List Char) :
    (doubled s).foldl step ⟨records, row, text, .quoted⟩
      = ⟨records, row, text ++ s, .quoted⟩ := by
  induction s generalizing text with
  | nil => rw [List.append_nil]; rfl
  | cons c rest ih =>
      have hcons : doubled (c :: rest) = (if c = '"' then ['"', '"'] else [c]) ++ doubled rest :=
        rfl
      have hstep : (if c = '"' then ['"', '"'] else [c]).foldl step ⟨records, row, text, .quoted⟩
          = ⟨records, row, text ++ [c], .quoted⟩ := by
        -- of two quotes the first ends the quoted text and the second takes it up again
        by_cases hc : c = '"'
        · rw [if_pos hc, hc]
          rfl
        · rw [if_neg hc]
          simp [step, push, hc]
      rw [hcons, List.foldl_append, hstep, ih, List.append_assoc]
      rfl

/-- A field that is written is read as it was; a character that cannot be a part of it is
    next. -/
theorem foldl_field (records : List (List String)) (row : List String) (s : List Char) :
    ∃ mode, mode ≠ .quoted
      ∧ (field s).foldl step ⟨records, row, [], .plain⟩ = ⟨records, row, s, mode⟩ := by
  rw [field]
  by_cases hs : s.any isSpecial
  · rw [if_pos hs]
    refine ⟨.behindQuote, nofun, ?_⟩
    have hopen : step ⟨records, row, [], .plain⟩ '"' = ⟨records, row, [], .quoted⟩ := rfl
    rw [List.cons_append, List.foldl_cons, hopen, List.foldl_append, foldl_doubled]
    rfl
  · rw [if_neg hs]
    refine ⟨.plain, nofun, ?_⟩
    have hplain : ∀ c ∈ s, isSpecial c = false := by simpa using hs
    exact foldl_plain hplain []

/-! ## Records -/

/-- What stands behind a field is read as outside of quotes. -/
theorem foldl_field_then (c : Char) (hc : c ≠ '"') (s : List Char) : ∃ mode,
    (field s ++ [c]).foldl step ⟨records, row, [], .plain⟩
      = stepPlain ⟨records, row, s, mode⟩ c := by
  obtain ⟨mode, hmode, hfield⟩ := foldl_field records row s
  refine ⟨mode, ?_⟩
  rw [List.foldl_append, hfield]
  cases mode with
  | quoted => exact absurd rfl hmode
  | plain => exact if_neg fun h => hc h.1
  | behindQuote => exact if_neg hc

/-- A field with a comma behind it is one of the row. -/
theorem foldl_field_comma (s : List Char) :
    (field s ++ [',']).foldl step ⟨records, row, [], .plain⟩
      = ⟨records, row ++ [String.ofList s], [], .plain⟩ := by
  obtain ⟨mode, hfield⟩ := foldl_field_then ',' (by decide) s
  rw [hfield]
  rfl

/-- A field with a line feed behind it ends its row. -/
theorem foldl_field_lineFeed (hrow : row ≠ []) (s : List Char) :
    (field s ++ ['\n']).foldl step ⟨records, row, [], .plain⟩
      = ⟨records ++ [row ++ [String.ofList s]], [], [], .plain⟩ := by
  obtain ⟨mode, hfield⟩ := foldl_field_then '\n' (by decide) s
  rw [hfield]
  show endRecord _ = _
  exact if_neg fun h => hrow h.1

/-- The fields of a row are read back, whatever is in them. -/
theorem foldl_fields (hrow : row ≠ []) {fs : List (List Char)} (hfs : fs ≠ []) :
    (fields fs ++ ['\n']).foldl step ⟨records, row, [], .plain⟩
      = ⟨records ++ [row ++ fs.map String.ofList], [], [], .plain⟩ := by
  induction fs generalizing row with
  | nil => exact absurd rfl hfs
  | cons s rest ih =>
      -- the last field ends the row; each in front of it ends with a comma
      cases rest with
      | nil => exact foldl_field_lineFeed hrow s
      | cons s' rest =>
          have hsplit : fields (s :: s' :: rest) ++ ['\n']
              = (field s ++ [',']) ++ (fields (s' :: rest) ++ ['\n']) := by simp [fields]
          have hrow' : row ++ [String.ofList s] ≠ [] := by simp
          rw [hsplit, List.foldl_append, foldl_field_comma,
            ih hrow' (List.cons_ne_nil s' rest), List.append_assoc]
          rfl

/-- A record of several fields is read as it was. -/
theorem foldl_record {fs : List String} (hfs : 2 ≤ fs.length) :
    (record fs).foldl step ⟨records, [], [], .plain⟩ = ⟨records ++ [fs], [], [], .plain⟩ := by
  match fs, hfs with
  | f :: f' :: rest, _ =>
      have hsplit : record (f :: f' :: rest) = (field f.toList ++ [','])
          ++ (fields ((f' :: rest).map String.toList) ++ ['\n']) := by simp [record, fields]
      have hsame : ((f' :: rest).map String.toList).map String.ofList = f' :: rest := by
        rw [List.map_map]
        exact (List.map_congr_left fun s _ => String.ofList_toList).trans (List.map_id _)
      rw [hsplit, List.foldl_append, foldl_field_comma, foldl_fields (by simp) (by simp), hsame,
        List.nil_append, String.ofList_toList]
      rfl

/-- Records of several fields are read as they were. -/
theorem read_records {rows : List (List String)} (hrows : ∀ fs ∈ rows, 2 ≤ fs.length) :
    read (String.ofList (rows.flatMap record)) = rows := by
  have hfold : ∀ records, (rows.flatMap record).foldl step ⟨records, [], [], .plain⟩
      = ⟨records ++ rows, [], [], .plain⟩ := by
    -- the records read before are general, as every row adds one
    induction rows with
    | nil => intro records; rw [List.append_nil]; rfl
    | cons fs rest ih =>
        intro records
        obtain ⟨hfs, hrest⟩ := List.forall_mem_cons.1 hrows
        rw [List.flatMap_cons, List.foldl_append, foldl_record hfs, ih hrest, List.append_assoc]
        rfl
  rw [read, String.toList_ofList, start, hfold]
  rfl

end ExecTruth.Csv
