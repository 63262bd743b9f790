import ExecTruth.Proofs.Digest
import ExecTruth.Proofs.Text.Numerals
import ExecTruth.Scoring.Detail

/-! # Detail lists — what an evaluation leaves in lists of limited room

    The static starts are scored in ascending order, and the missed instructions behind
    them (`scored`).  Each of them belongs to one list or to none, and has one line there
    (`isLine_lineOf`), so the lines of a list are as many as its counter says
    (`length_filter_kindOf?`).

    The lists are written together, and the first line that does not fit ends the writing
    of all of them.  Until then each list holds the lines of the items that were passed and
    belong to it (`Filled`).  One more detail keeps this or cuts its list off (`filled_add`,
    `cutOff_add`), and so does the writing of all of them (`written_write`).  An evaluation
    gives its numbers exactly if every list has room for all its lines (`evaluate_lists`). -/

namespace ExecTruth

/-! ## Lines -/

/-- The byte that ends a line. -/
def lineFeed : UInt8 := 10

/-- The bytes are one line with its end. -/
def IsLine (bytes : List UInt8) : Prop := ∃ body, bytes = body ++ [lineFeed] ∧ lineFeed ∉ body

section Lines

variable {a b : List UInt8}

/-- What stands in front of a line without a line feed belongs to it. -/
theorem isLine_append (ha : lineFeed ∉ a) (hb : IsLine b) : IsLine (a ++ b) := by
  obtain ⟨body, rfl, hbody⟩ := hb
  refine ⟨a ++ body, (List.append_assoc _ _ _).symm, ?_⟩
  rw [List.mem_append]
  rintro (h | h)
  · exact ha h
  · exact hbody h

/-- A line has one line feed, its last byte. -/
theorem count_lineFeed_of_isLine (h : IsLine a) : a.count lineFeed = 1 := by
  obtain ⟨body, rfl, hbody⟩ := h
  rw [List.count_append, List.count_eq_zero_of_not_mem hbody, List.count_singleton_self]

namespace Text

/-- A number written in digits has no line feed among them. -/
theorem lineFeed_notMem_toDigits {radix : Nat} (hr : Radix radix) (n : Nat) :
    lineFeed ∉ Utf8.encode (String.ofList (Nat.toDigits radix n)) := by
  have hdigit : ∀ d < 16, lineFeed ∉ String.utf8EncodeChar (Nat.digitChar d) := by decide
  rw [Utf8.encode_ofList, List.mem_flatMap]
  rintro ⟨c, hc, hmem⟩
  obtain ⟨d, hd, rfl⟩ := exists_digitChar_of_mem hr.one_lt hc
  exact hdigit d (Nat.lt_of_lt_of_le hd hr.le_sixteen) hmem

end Text

/-- There is no line feed in any of the pieces. -/
def Unbroken (pieces : List String) : Prop :=
  ∀ piece ∈ pieces, lineFeed ∉ Text.Utf8.encode piece

/-- Pieces without line feeds stay so when they are put together. -/
theorem Unbroken.append {front back : List String} (hfront : Unbroken front)
    (hback : Unbroken back) : Unbroken (front ++ back) := by
  intro piece hpiece
  rcases List.mem_append.1 hpiece with hpiece | hpiece
  · exact hfront piece hpiece
  · exact hback piece hpiece

/-- Pieces without a line feed in front of a line make it a longer line. -/
theorem isLine_join {front : List String} {last : String} (hfront : Unbroken front)
    (hlast : IsLine (Text.Utf8.encode last)) :
    IsLine (Text.Utf8.encode (String.join (front ++ [last]))) := by
  induction front with
  | nil =>
      rw [List.nil_append, String.join_cons, String.join_nil, String.append_empty]
      exact hlast
  | cons piece rest ih =>
      obtain ⟨hpiece, hrest⟩ := List.forall_mem_cons.1 hfront
      rw [List.cons_append, String.join_cons, Text.Utf8.encode_append]
      exact isLine_append hpiece (ih hrest)

end Lines

/-! ## What is scored -/

/-- What an evaluation scores: a static start, or an executed instruction that was missed. -/
inductive Scored where
  | static (start : Int64)
  | missed (i : Instruction)
  deriving DecidableEq, Repr

/-- The list of the details of a verdict, if it has any. -/
def Verdict.kind? : Verdict → Option DetailKind
  | .truePositive => none
  | .confirmedFalse _ => some .falsePositive
  | .unknown _ => some .unknown

/-- The number of what is listed in a list. -/
def Counts.ofKind (c : Counts) : DetailKind → Nat
  | .falsePositive => c.confirmedFalse
  | .falseNegative => c.falseNegative
  | .unknown => c.unknown

namespace GroundTruth

variable (truth : GroundTruth) (statics : OffsetSet) (k : DetailKind)

/-- All that is scored, in the order of the scoring. -/
def scored : List Scored :=
  statics.keys.map .static ++ (truth.missed statics).map .missed

/-- The list that an item belongs to. -/
def kindOf? : Scored → Option DetailKind
  | .static s => (truth.verdict s).kind?
  | .missed _ => some .falseNegative

/-- The detail of an item. -/
def detailOf? : Scored → Option Detail
  | .static s => truth.verdictDetail? s (truth.verdict s)
  | .missed i => some (truth.missedDetail i)

/-- The line of an item; no bytes for an item that belongs to no list. -/
def lineOf (item : Scored) : List UInt8 :=
  ((truth.detailOf? item).map fun d => Text.Utf8.encode d.line).getD []

/-- The lines of those of the items that belong to one list. -/
def textOf (items : List Scored) : List UInt8 :=
  (items.filter (truth.kindOf? · = some k)).flatMap truth.lineOf

/-- The details are those of the scored items that have one, in their order. -/
theorem details_eq_filterMap :
    truth.details statics = (truth.scored statics).filterMap truth.detailOf? := by
  have hmissed : (truth.missed statics).filterMap (truth.detailOf? ∘ .missed)
      = (truth.missed statics).map truth.missedDetail :=
    congrFun List.filterMap_eq_map (truth.missed statics)
  rw [scored, List.filterMap_append, List.filterMap_map, List.filterMap_map, hmissed]
  rfl

/-- An item belongs to the list of its detail. -/
theorem kindOf?_eq (item : Scored) : truth.kindOf? item = (truth.detailOf? item).map (·.kind) := by
  cases item with
  | missed i => rfl
  | static s =>
      show (truth.verdict s).kind? = (truth.verdictDetail? s (truth.verdict s)).map (·.kind)
      cases truth.verdict s with
      | truePositive | confirmedFalse _ => rfl
      | unknown predecessor => cases predecessor <;> rfl

/-! ## As many lines as the counter says -/

/-- The digits of an address are in one line. -/
theorem unbroken_hexPieces (o : Int64) : Unbroken (Word.hexPieces o) := by
  refine List.forall_mem_cons.2 ⟨by decide, List.forall_mem_singleton.2 ?_⟩
  exact Text.lineFeed_notMem_toDigits Text.radix_sixteen o.toUInt64.toNat

theorem unbroken_length (i : Instruction) : Unbroken [" len ", toString i.length.toNat] := by
  refine List.forall_mem_cons.2 ⟨by decide, List.forall_mem_singleton.2 ?_⟩
  exact Text.lineFeed_notMem_toDigits Text.radix_ten i.length.toNat

theorem isLine_lineFeed : IsLine (Text.Utf8.encode "\n") := ⟨[], by decide, by decide⟩

/-- A missed instruction is told in one line. -/
theorem isLine_missedDetail (i : Instruction) :
    IsLine (Text.Utf8.encode (truth.missedDetail i).line) := by
  have hpieces : (truth.missedDetail i).pieces
      = (truth.address i ++ [" len ", toString i.length.toNat]) ++ ["\n"] := by
    simp [missedDetail]
  rw [Detail.line, hpieces]
  exact isLine_join ((unbroken_hexPieces _).append (unbroken_length i)) isLine_lineFeed

/-- A verdict with a detail is told in one line. -/
theorem isLine_verdictDetail? {s : Int64} {v : Verdict} {d : Detail}
    (h : truth.verdictDetail? s v = some d) : IsLine (Text.Utf8.encode d.line) := by
  cases v with
  | truePositive => exact nomatch h
  | confirmedFalse i =>
      have hpieces : d.pieces = (Word.hexPieces s ++ ([" in "] ++ (truth.address i
          ++ [" len ", toString i.length.toNat]))) ++ ["\n"] := by
        cases h
        simp
      rw [Detail.line, hpieces]
      have hin : Unbroken [" in "] := List.forall_mem_singleton.2 (by decide)
      exact isLine_join ((unbroken_hexPieces s).append (hin.append
        ((unbroken_hexPieces _).append (unbroken_length i)))) isLine_lineFeed
  | unknown predecessor =>
      cases predecessor with
      | none =>
          cases h
          have hlast : IsLine (Text.Utf8.encode " before first\n") :=
            ⟨Text.Utf8.encode " before first", by decide, by decide⟩
          exact isLine_join (unbroken_hexPieces s) hlast
      | some i =>
          have hpieces : d.pieces
              = (Word.hexPieces s ++ ([" after "] ++ truth.address i)) ++ ["\n"] := by
            cases h
            simp
          rw [Detail.line, hpieces]
          have hafter : Unbroken [" after "] := List.forall_mem_singleton.2 (by decide)
          exact isLine_join ((unbroken_hexPieces s).append
            (hafter.append (unbroken_hexPieces _))) isLine_lineFeed

/-- Every item that belongs to a list has one line in it. -/
theorem isLine_lineOf {item : Scored} (h : truth.kindOf? item = some k) :
    IsLine (truth.lineOf item) := by
  rw [kindOf?_eq, Option.map_eq_some_iff] at h
  obtain ⟨d, hd, -⟩ := h
  rw [lineOf, hd]
  cases item with
  | static s => exact truth.isLine_verdictDetail? hd
  | missed i =>
      cases hd
      exact truth.isLine_missedDetail i

/-- Adding verdicts one by one counts, for each list, those that belong to it. -/
theorem ofKind_foldl (verdicts : List Verdict) (c : Counts) :
    (verdicts.foldl .addVerdict c).ofKind k
      = c.ofKind k + verdicts.countP (·.kind? = some k) := by
  -- each verdict adds one to the list that it belongs to, and nothing to the others
  induction verdicts generalizing c with
  | nil => rfl
  | cons v rest ih =>
      have hadd : (c.addVerdict v).ofKind k
          = c.ofKind k + if v.kind? = some k then 1 else 0 := by
        cases v <;> cases k <;> rfl
      rw [List.foldl_cons, ih, hadd, List.countP_cons]
      simp only [decide_eq_true_eq]
      omega

/-- A list is for as many items as its counter says. -/
theorem length_filter_kindOf? :
    ((truth.scored statics).filter (truth.kindOf? · = some k)).length
      = (truth.counts statics).ofKind k := by
  have hstatics := ofKind_foldl k (statics.keys.map truth.verdict) .zero
  rw [List.countP_map] at hstatics
  rw [← List.countP_eq_length_filter, scored, List.countP_append, List.countP_map,
    List.countP_map]
  cases k with
  | falsePositive | unknown =>
      -- no missed instruction belongs to this list
      refine Eq.trans ?_ (hstatics.trans (Nat.zero_add _)).symm
      show _ + (truth.missed statics).countP (fun _ => false) = _
      rw [List.countP_false]
      rfl
  | falseNegative =>
      -- no static start belongs to this list, and every missed instruction does
      have hnone :
          statics.keys.countP ((truth.kindOf? · = some .falseNegative) ∘ .static) = 0 := by
        refine List.countP_eq_zero.2 fun s _ h => ?_
        have hkind : (truth.verdict s).kind? = some .falseNegative := of_decide_eq_true h
        cases hv : truth.verdict s <;> rw [hv] at hkind <;> exact nomatch hkind
      rw [hnone]
      show 0 + (truth.missed statics).countP (fun _ => true) = (truth.missed statics).length
      rw [List.countP_true, Nat.zero_add]

/-- Every list has as many lines as its number says. -/
theorem count_lineFeed_textOf :
    (truth.textOf k (truth.scored statics)).count lineFeed = (truth.counts statics).ofKind k := by
  have hlines : ∀ items : List Scored, (∀ item ∈ items, truth.kindOf? item = some k) →
      (items.flatMap truth.lineOf).count lineFeed = items.length := by
    intro items hitems
    induction items with
    | nil => rfl
    | cons item rest ih =>
        obtain ⟨hitem, hrest⟩ := List.forall_mem_cons.1 hitems
        rw [List.flatMap_cons, List.count_append, ih hrest,
          count_lineFeed_of_isLine (truth.isLine_lineOf k hitem), List.length_cons, Nat.add_comm]
  rw [textOf, hlines, length_filter_kindOf?]
  intro item hitem
  exact of_decide_eq_true (List.mem_filter.1 hitem).2

end GroundTruth

/-! ## Writing in lists of limited room -/

/-- No two lists share a place. -/
theorem DetailKind.place_injective : Function.Injective DetailKind.place := by
  intro a b
  cases a <;> cases b <;> decide

namespace DetailList

variable {k : DetailKind} {d : Detail} {done ds : List Detail} {lists : List DetailList}
  {l : DetailList} {text : List UInt8} {line : String}

/-- The lines of those of the details that belong to one list. -/
def textOf (k : DetailKind) (ds : List Detail) : List UInt8 :=
  (ds.filter (·.kind = k)).flatMap fun d => Text.Utf8.encode d.line

/-- The lines of more details stand behind those of the first. -/
theorem textOf_append (k : DetailKind) (ds ds' : List Detail) :
    textOf k (ds ++ ds') = textOf k ds ++ textOf k ds' := by
  rw [textOf, List.filter_append, List.flatMap_append]
  rfl

/-- A further detail adds its line to its own list. -/
theorem textOf_concat_self (ds : List Detail) (d : Detail) :
    textOf d.kind (ds ++ [d]) = textOf d.kind ds ++ Text.Utf8.encode d.line := by
  rw [textOf_append]
  simp [textOf]

/-- It adds nothing to any other list. -/
theorem textOf_concat_of_ne (h : k ≠ d.kind) (ds : List Detail) :
    textOf k (ds ++ [d]) = textOf k ds := by
  rw [textOf_append]
  simp [textOf, h.symm]

/-- A list has a text, and room for all of it. -/
structure Holds (l : DetailList) (text : List UInt8) : Prop where
  bytes : l.bytes = text
  size : l.size = text.length
  fits : ∀ r, l.room = some r → text.length ≤ r

theorem bytes_append (l : DetailList) (line : List UInt8) :
    (l.append line).bytes = l.bytes ++ line := by
  show (line :: l.lines).reverse.flatten = _
  rw [List.reverse_cons, List.flatten_append, List.flatten_singleton]
  rfl

/-- A line that fits is added to what a list has. -/
theorem add_of_fits (h : l.Holds text)
    (hfits : ∀ r, l.room = some r → (text ++ Text.Utf8.encode line).length ≤ r) :
    l.add line = (l.append (Text.Utf8.encode line), true)
      ∧ (l.append (Text.Utf8.encode line)).Holds (text ++ Text.Utf8.encode line) := by
  constructor
  · rw [add]
    cases hroom : l.room with
    | none => rfl
    | some r =>
        have hle := hfits r hroom
        rw [List.length_append, ← h.size] at hle
        exact if_pos hle
  · constructor
    · rw [bytes_append, h.bytes]
    · show l.size + _ = _
      rw [h.size, List.length_append]
    · exact hfits

/-- A line that does not fit is cut off where the room ends. -/
theorem add_of_full {r : Nat} (h : l.Holds text) (hroom : l.room = some r)
    (hfull : r < (text ++ Text.Utf8.encode line).length) :
    ∃ l', l.add line = (l', false) ∧ l'.room = some r
      ∧ l'.bytes = (text ++ Text.Utf8.encode line).take r := by
  have hfits := h.fits r hroom
  rw [List.length_append, ← h.size] at hfull
  refine ⟨l.append ((Text.Utf8.encode line).take (r - l.size)), ?_, hroom, ?_⟩
  · rw [add, hroom]
    exact if_neg (Nat.not_le.2 hfull)
  · rw [bytes_append, h.bytes, List.take_append, List.take_of_length_le hfits, h.size]

/-- Each list has the lines of those of the details that belong to it. -/
def Filled (ds : List Detail) (lists : List DetailList) : Prop :=
  ∀ (k : DetailKind) (l : DetailList), lists[k.place]? = some l → l.Holds (textOf k ds)

/-- The list of a detail was cut off in its line; the others have the lines of those of
    the details in front of it that belong to them. -/
structure CutOff (ds : List Detail) (d : Detail) (lists : List DetailList) : Prop where
  full : ∃ l r, lists[d.kind.place]? = some l ∧ l.room = some r
    ∧ (textOf d.kind ds).length ≤ r ∧ r < (textOf d.kind (ds ++ [d])).length
    ∧ l.bytes = (textOf d.kind (ds ++ [d])).take r
  others : ∀ (k : DetailKind) (l : DetailList), k ≠ d.kind → lists[k.place]? = some l →
    l.Holds (textOf k ds)

/-- Lists that are opened hold nothing. -/
theorem filled_ofRoom (rooms : List (Option Nat)) : Filled [] (rooms.map .ofRoom) := by
  intro k l hl
  rw [List.getElem?_map, Option.map_eq_some_iff] at hl
  obtain ⟨room, -, rfl⟩ := hl
  exact ⟨rfl, rfl, fun r _ => Nat.zero_le r⟩

/-- A list that is not the detail's own is held as before. -/
theorem holds_of_ne {l' : DetailList} (h : Filled done lists) (hk : k ≠ d.kind)
    (hl : (lists.set d.kind.place l')[k.place]? = some l) : l.Holds (textOf k done) := by
  rw [List.getElem?_set_ne fun he => hk (DetailKind.place_injective he).symm] at hl
  exact h k l hl

/-- A detail whose list is left out is passed. -/
theorem filled_of_left_out (h : Filled done lists) (hd : lists[d.kind.place]? = none) :
    Filled (done ++ [d]) lists := by
  intro k l hl
  have hk : k ≠ d.kind := by
    rintro rfl
    rw [hd] at hl
    exact nomatch hl
  rw [textOf_concat_of_ne hk]
  exact h k l hl

theorem getElem?_set_place {l' : DetailList} (hl : lists[d.kind.place]? = some l) :
    (lists.set d.kind.place l')[d.kind.place]? = some l' :=
  List.getElem?_set_self (List.getElem?_eq_some_iff.1 hl).1

/-- A detail that fits is written. -/
theorem filled_add (h : Filled done lists) (hl : lists[d.kind.place]? = some l)
    (hfits : ∀ r, l.room = some r → (textOf d.kind (done ++ [d])).length ≤ r) :
    ∃ l', l.add d.line = (l', true) ∧ Filled (done ++ [d]) (lists.set d.kind.place l') := by
  rw [textOf_concat_self] at hfits
  obtain ⟨hadd, hholds⟩ := add_of_fits (h d.kind l hl) hfits
  refine ⟨_, hadd, ?_⟩
  intro k l' hl'
  by_cases hk : k = d.kind
  · subst hk
    rw [getElem?_set_place hl, Option.some_inj] at hl'
    rw [← hl', textOf_concat_self]
    exact hholds
  · rw [textOf_concat_of_ne hk]
    exact holds_of_ne h hk hl'

/-- One that does not fit cuts its list off. -/
theorem cutOff_add {r : Nat} (h : Filled done lists) (hl : lists[d.kind.place]? = some l)
    (hroom : l.room = some r) (hfull : r < (textOf d.kind (done ++ [d])).length) :
    ∃ l', l.add d.line = (l', false) ∧ CutOff done d (lists.set d.kind.place l') := by
  have hholds := h d.kind l hl
  have hover := hfull
  rw [textOf_concat_self] at hover
  obtain ⟨l', hadd, hroom', hbytes⟩ := add_of_full hholds hroom hover
  rw [← textOf_concat_self] at hbytes
  refine ⟨l', hadd, ?_, fun k l hk hl => holds_of_ne h hk hl⟩
  exact ⟨l', r, getElem?_set_place hl, hroom', hholds.fits r hroom, hfull, hbytes⟩

/-- What writing details to lists leaves behind those that were written before: all of them
    are written, or those in front of one that cuts its list off. -/
inductive Written (done ds : List Detail) : List DetailList × List Detail → Prop where
  | all {lists : List DetailList} (h : Filled (done ++ ds) lists) : Written done ds (lists, [])
  | cut (before : List Detail) {after : List Detail} {d : Detail} {lists : List DetailList}
      (hds : ds = before ++ d :: after) (h : CutOff (done ++ before) d lists) :
      Written done ds (lists, d :: after)

/-- A detail in front of others that was written is one of those that were. -/
theorem Written.cons {result : List DetailList × List Detail}
    (h : Written (done ++ [d]) ds result) : Written done (d :: ds) result := by
  cases h with
  | all hall =>
      rw [List.append_assoc] at hall
      exact .all hall
  | @cut before after d' lists hds hcut =>
      rw [List.append_assoc] at hcut
      exact .cut (d :: before) (by rw [hds, List.cons_append]) hcut

/-- **RUN**.  Behind lists that hold what was written, all details are written, or all up to the
    first that does not fit. -/
theorem written_write (h : Filled done lists) (ds : List Detail) :
    Written done ds (write lists ds) := by
  -- the lists hold what has been done; a detail is added to its own, or cuts it off and ends the
  -- writing
  induction ds generalizing lists done with
  | nil =>
      rw [write]
      exact .all (by rwa [List.append_nil])
  | cons d rest ih =>
      rw [write]
      cases hget : lists[d.kind.place]? with
      | none => exact (ih (filled_of_left_out h hget)).cons
      | some l =>
          by_cases hfits : ∀ r, l.room = some r → (textOf d.kind (done ++ [d])).length ≤ r
          · obtain ⟨l', hadd, hfilled⟩ := filled_add h hget hfits
            simp only [hadd, if_true]
            exact (ih hfilled).cons
          · push Not at hfits
            obtain ⟨r, hroom, hfull⟩ := hfits
            obtain ⟨l', hadd, hcut⟩ := cutOff_add h hget hroom hfull
            simp only [hadd, Bool.false_eq_true, if_false]
            exact .cut [] rfl (by rwa [List.append_nil])

theorem room_add (l : DetailList) (line : String) : (l.add line).1.room = l.room := by
  rw [add]
  cases hroom : l.room with
  | none => exact hroom
  | some r =>
      dsimp only
      split <;> exact hroom

/-- Writing does not change the rooms. -/
theorem room_write (lists : List DetailList) (ds : List Detail) :
    (write lists ds).1.map (·.room) = lists.map (·.room) := by
  induction ds generalizing lists with
  | nil => rfl
  | cons d rest ih =>
      rw [write]
      cases hget : lists[d.kind.place]? with
      | none => exact ih lists
      | some l =>
          -- the list that is put back has the room of the one it was made of
          have hset : (lists.set d.kind.place (l.add d.line).1).map (·.room)
              = lists.map (·.room) := by
            obtain ⟨hlt, rfl⟩ := List.getElem?_eq_some_iff.1 hget
            rw [List.map_set, room_add, ← List.getElem_map DetailList.room, List.set_getElem_self]
            exact (List.length_map _).symm ▸ hlt
          dsimp only
          split
          · rw [ih, hset]
          · exact hset

end DetailList

/-! ## Evaluations -/

namespace GroundTruth

variable (truth : GroundTruth) (statics : OffsetSet) (rooms : List (Option Nat))

/-- The lines of more items stand behind those of the first. -/
theorem textOf_append (k : DetailKind) (items items' : List Scored) :
    truth.textOf k (items ++ items') = truth.textOf k items ++ truth.textOf k items' := by
  rw [textOf, List.filter_append, List.flatMap_append]
  rfl

/-- The lines of items are those of their details. -/
theorem textOf_filterMap (k : DetailKind) (items : List Scored) :
    DetailList.textOf k (items.filterMap truth.detailOf?) = truth.textOf k items := by
  induction items with
  | nil => rfl
  | cons item rest ih =>
      rw [← List.singleton_append, List.filterMap_append, DetailList.textOf_append, ih,
        textOf_append]
      congr 1
      -- an item without a detail belongs to no list, so it adds to neither side
      cases hd : truth.detailOf? item with
      | none => simp [textOf, DetailList.textOf, kindOf?_eq, hd]
      | some d =>
          by_cases hk : d.kind = k
          · simp [textOf, DetailList.textOf, kindOf?_eq, lineOf, hd, hk]
          · simp [textOf, DetailList.textOf, kindOf?_eq, hd, hk]

/-- Every list has room for all its lines. -/
def HasRoom : Prop :=
  ∀ (k : DetailKind) (r : Nat), rooms[k.place]? = some (some r) →
    (truth.textOf k (truth.scored statics)).length ≤ r

/-- The line of an item is the first that does not fit in its list.  The list is filled with
    as much as it has room for, and the others have the lines of the items in front. -/
structure StopsAt (texts : List (List UInt8)) (before : List Scored) (item : Scored)
    (k : DetailKind) (r : Nat) : Prop where
  kind : truth.kindOf? item = some k
  room : rooms[k.place]? = some (some r)
  fits : (truth.textOf k before).length ≤ r
  full : r < (truth.textOf k (before ++ [item])).length
  cut : texts[k.place]? = some ((truth.textOf k (truth.scored statics)).take r)
  others : ∀ (k' : DetailKind) (room : Option Nat), k' ≠ k → rooms[k'.place]? = some room →
    texts[k'.place]? = some (truth.textOf k' before)

/-- The lines of all details are those of all that is scored. -/
theorem textOf_details (k : DetailKind) :
    DetailList.textOf k (truth.details statics) = truth.textOf k (truth.scored statics) := by
  rw [details_eq_filterMap, textOf_filterMap]

variable {truth statics rooms}

/-- A list keeps the room that it was opened with, and a list left out has none. -/
theorem room_written (k : DetailKind) :
    rooms[k.place]? = ((truth.written statics rooms).1[k.place]?).map (·.room) := by
  have hplace : k.place < maxDetailLists := by cases k <;> decide
  have hrooms : (truth.written statics rooms).1.map (·.room) = rooms.take maxDetailLists := by
    rw [written, DetailList.room_write, List.map_map]
    exact List.map_id _
  rw [← List.getElem?_map, hrooms, List.getElem?_take_of_lt hplace]

/-- What a list holds is among the texts. -/
theorem text_of_list {k : DetailKind} {l : DetailList}
    (hl : (truth.written statics rooms).1[k.place]? = some l) :
    (truth.evaluate statics rooms).1[k.place]? = some l.bytes := by
  show ((truth.written statics rooms).1.map DetailList.bytes ++ _)[k.place]? = _
  have hlt := (List.getElem?_eq_some_iff.1 hl).1
  rw [List.getElem?_append_left (by rwa [List.length_map]), List.getElem?_map, hl]
  rfl

/-- A detail is that of one of the items, and the details in front of it are those of the
    items in front. -/
theorem scored_of_details {front back : List Detail} {d : Detail}
    (h : truth.details statics = front ++ d :: back) :
    ∃ before item after, truth.scored statics = before ++ item :: after
      ∧ before.filterMap truth.detailOf? = front ∧ truth.detailOf? item = some d := by
  rw [details_eq_filterMap, List.filterMap_eq_append_iff] at h
  obtain ⟨start, rest, hscored, hstart, hrest⟩ := h
  obtain ⟨passed, item, after, hitems, hpassed, hitem, -⟩ := List.filterMap_eq_cons_iff.1 hrest
  refine ⟨start ++ passed, item, after, ?_, ?_, hitem⟩
  · rw [hscored, hitems, List.append_assoc]
  · rw [List.filterMap_append, hstart, List.filterMap_eq_nil_iff.2 hpassed, List.append_nil]

/-- Either all lines fit, or the writing stops at the first that does not. -/
theorem evaluate_cases (truth : GroundTruth) (statics : OffsetSet) (rooms : List (Option Nat)) :
    let texts := (truth.evaluate statics rooms).1
    let outcome := (truth.evaluate statics rooms).2
    truth.HasRoom statics rooms ∧ outcome = .ok (truth.counts statics)
        ∧ (∀ (k : DetailKind) (room : Option Nat), rooms[k.place]? = some room →
          texts[k.place]? = some (truth.textOf k (truth.scored statics)))
      ∨ ¬ truth.HasRoom statics rooms ∧ outcome = .error .writerStopped
        ∧ ∃ before item after k r, truth.scored statics = before ++ item :: after
          ∧ truth.StopsAt statics rooms texts before item k r := by
  intro texts outcome
  have hwritten : DetailList.Written [] (truth.details statics) (truth.written statics rooms) :=
    DetailList.written_write (DetailList.filled_ofRoom _) _
  have hrooms := @room_written truth statics rooms
  have htexts := @text_of_list truth statics rooms
  have houtcome : outcome = if (truth.written statics rooms).2.isEmpty
      then .ok (truth.counts statics) else .error .writerStopped := rfl
  -- only these four facts about what was written count from here on
  generalize truth.written statics rooms = result at hwritten hrooms htexts houtcome
  cases hwritten with
  | @all lists hfilled =>
      rw [List.nil_append, details_eq_filterMap] at hfilled
      refine Or.inl ⟨fun k r hroom => ?_, houtcome, fun k room hroom => ?_⟩
      · rw [hrooms, Option.map_eq_some_iff] at hroom
        obtain ⟨l, hl, hlroom⟩ := hroom
        rw [← textOf_filterMap]
        exact (hfilled k l hl).fits r hlroom
      · rw [hrooms, Option.map_eq_some_iff] at hroom
        obtain ⟨l, hl, -⟩ := hroom
        rw [← textOf_filterMap, ← (hfilled k l hl).bytes]
        exact htexts hl
  | @cut front back d lists hds hcut =>
      obtain ⟨before, item, after, hscored, hfront, hitem⟩ := scored_of_details hds
      have hwhole : ∀ k, truth.textOf k (truth.scored statics)
          = truth.textOf k (before ++ [item]) ++ truth.textOf k after := by
        intro k
        rw [← textOf_append, hscored, List.append_assoc, List.singleton_append]
      have hline : front ++ [d] = (before ++ [item]).filterMap truth.detailOf? := by
        rw [List.filterMap_append, hfront, List.filterMap_cons_some hitem, List.filterMap_nil]
      obtain ⟨l, r, hl, hlroom, hfits, hfull, hbytes⟩ := hcut.full
      rw [List.nil_append, hline, textOf_filterMap] at hfull hbytes
      rw [List.nil_append, ← hfront, textOf_filterMap] at hfits
      have hroom : rooms[d.kind.place]? = some (some r) := by
        rw [hrooms, hl, Option.map_some, hlroom]
      refine Or.inr ⟨fun hall => ?_, houtcome, before, item, after, d.kind, r, hscored,
        ⟨?_, hroom, hfits, hfull, ?_, fun k room hk hroom => ?_⟩⟩
      · have hle := hall d.kind r hroom
        rw [hwhole, List.length_append] at hle
        omega
      · rw [kindOf?_eq, hitem, Option.map_some]
      · rw [hwhole, List.take_append_of_le_length (Nat.le_of_lt hfull), ← hbytes]
        exact htexts hl
      · rw [hrooms, Option.map_eq_some_iff] at hroom
        obtain ⟨l', hl', -⟩ := hroom
        have hholds := hcut.others k l' hk hl'
        rw [List.nil_append, ← hfront, textOf_filterMap] at hholds
        rw [← hholds.bytes]
        exact htexts hl'

/-- An evaluation gives numbers if every list has room for all its lines, and they are those
    without any list. -/
theorem evaluate_eq_ok_iff {c : Counts} : (truth.evaluate statics rooms).2 = .ok c
    ↔ truth.HasRoom statics rooms ∧ c = truth.counts statics := by
  rcases truth.evaluate_cases statics rooms with ⟨hroom, hok, -⟩ | ⟨hfull, hfault, -⟩
  · rw [hok, Except.ok.injEq, eq_comm]
    exact (and_iff_right hroom).symm
  · rw [hfault]
    exact iff_of_false nofun fun h => hfull h.1

theorem hasRoom_nil : truth.HasRoom statics [] := fun _ _ hroom => nomatch hroom

/-- Nothing is left to write behind an evaluation that gives numbers. -/
theorem listed_of_ok {c : Counts} (h : (truth.evaluate statics rooms).2 = .ok c) :
    truth.listed statics rooms = truth.details statics := by
  have houtcome : (if (truth.written statics rooms).2.isEmpty
      then .ok (truth.counts statics) else .error .writerStopped : Except IoFault Counts)
        = .ok c := h
  split at houtcome
  · next hleft =>
      rw [listed, List.isEmpty_iff.1 hleft]
      exact List.take_length
  · cases houtcome

/-- There are as many lists as are asked for, up to the number of kinds. -/
theorem length_written (truth : GroundTruth) (statics : OffsetSet) (rooms : List (Option Nat)) :
    (truth.written statics rooms).1.length = (rooms.take maxDetailLists).length := by
  rw [← List.length_map DetailList.room, written, DetailList.room_write, List.length_map,
    List.length_map]

/-- There is a text for every room, empty for those that no list uses. -/
theorem length_texts (truth : GroundTruth) (statics : OffsetSet) (rooms : List (Option Nat)) :
    (truth.evaluate statics rooms).1.length = rooms.length := by
  show ((truth.written statics rooms).1.map DetailList.bytes
    ++ (rooms.drop maxDetailLists).map fun _ => []).length = _
  rw [List.length_append, List.length_map, length_written, List.length_map, ← List.length_append,
    List.take_append_drop]

/-- Nothing is written in the lists behind those that there can be. -/
theorem eq_nil_of_unused {place : Nat} {text : List UInt8} (hplace : maxDetailLists ≤ place)
    (htext : (truth.evaluate statics rooms).1[place]? = some text) : text = [] := by
  have hlists : ((truth.written statics rooms).1.map DetailList.bytes).length ≤ place := by
    rw [List.length_map, length_written]
    exact Nat.le_trans (List.length_take_le _ _) hplace
  have hunused : ((truth.written statics rooms).1.map DetailList.bytes
      ++ (rooms.drop maxDetailLists).map fun _ => [])[place]? = some text := htext
  rw [List.getElem?_append_right hlists] at hunused
  obtain ⟨_, -, rfl⟩ := List.mem_map.1 (List.mem_of_getElem? hunused)
  rfl

/-- What an evaluation leaves in a list is a part of all that belongs there. -/
theorem exists_text_of_room {k : DetailKind} {room : Option Nat}
    (hroom : rooms[k.place]? = some room) :
    ∃ text, (truth.evaluate statics rooms).1[k.place]? = some text
      ∧ text <+: truth.textOf k (truth.scored statics) := by
  rcases truth.evaluate_cases statics rooms with
    ⟨-, -, htexts⟩ | ⟨-, -, before, item, after, k', r, hscored, hstop⟩
  · exact ⟨_, htexts k room hroom, List.prefix_rfl⟩
  · by_cases hk : k = k'
    · subst hk
      exact ⟨_, hstop.cut, List.take_prefix _ _⟩
    · refine ⟨_, hstop.others k room hk hroom, ?_⟩
      rw [hscored, textOf_append]
      exact List.prefix_append _ _

/-- **DETAIL LISTS.** Static starts are scored in ascending order, and missed instructions
    behind them in ascending order; each that belongs to a list has one line in it, and the
    lines are as many as the counter says.  If every list has room for all its lines, each
    holds just these, and the numbers are those without any list.  Otherwise the evaluation
    fails at the first line that does not fit: its list is filled to the last byte, and the
    others hold the lines of the items in front of it.  So each list holds a part of its
    lines from the first on, and the lists behind those that there can be stay empty. -/
theorem evaluate_lists (truth : GroundTruth) (statics : OffsetSet) (rooms : List (Option Nat)) :
    let items := truth.scored statics
    let texts := (truth.evaluate statics rooms).1
    let outcome := (truth.evaluate statics rooms).2
    (statics.keys.Pairwise fun s s' => s.toInt < s'.toInt)
    ∧ ((truth.missed statics).Pairwise fun i i' => i.offset.toInt < i'.offset.toInt)
    ∧ (∀ (item : Scored) (k : DetailKind), truth.kindOf? item = some k →
      IsLine (truth.lineOf item))
    ∧ (∀ k : DetailKind,
      (truth.textOf k items).count lineFeed = (truth.counts statics).ofKind k)
    ∧ (truth.evaluate statics []).2 = .ok (truth.counts statics)
    ∧ (truth.HasRoom statics rooms → outcome = .ok (truth.counts statics)
      ∧ ∀ (k : DetailKind) (room : Option Nat), rooms[k.place]? = some room →
        texts[k.place]? = some (truth.textOf k items))
    ∧ (¬ truth.HasRoom statics rooms → outcome = .error .writerStopped
      ∧ ∃ before item after k r, items = before ++ item :: after
        ∧ truth.StopsAt statics rooms texts before item k r)
    ∧ (∀ (k : DetailKind) (room : Option Nat), rooms[k.place]? = some room →
      ∃ text, texts[k.place]? = some text ∧ text <+: truth.textOf k items)
    ∧ texts.length = rooms.length
    ∧ ∀ (place : Nat) (text : List UInt8), maxDetailLists ≤ place →
      texts[place]? = some text → text = [] := by
  intro items texts outcome
  have htable : truth.table.instructions.Pairwise fun i i' => i.offset.toInt < i'.offset.toInt :=
    List.pairwise_map.2 truth.table.ascending
  refine ⟨List.pairwise_map.2 statics.ascending, htable.filter _,
    fun item k => truth.isLine_lineOf k, truth.count_lineFeed_textOf statics, ?_, ?_, ?_,
    fun k room => exists_text_of_room, truth.length_texts statics rooms,
    fun place text => eq_nil_of_unused⟩
  · exact evaluate_eq_ok_iff.2 ⟨hasRoom_nil, rfl⟩
  · intro hroom
    rcases truth.evaluate_cases statics rooms with ⟨-, hall⟩ | ⟨hfull, -⟩
    · exact hall
    · exact absurd hroom hfull
  · intro hfull
    rcases truth.evaluate_cases statics rooms with ⟨hroom, -⟩ | ⟨-, hcut⟩
    · exact absurd hroom hfull
    · exact hcut

/-- The second line of the first list is cut off behind its fifth byte.  The list that comes
    third has a line that was written before it, and the start above it is not listed. -/
theorem evaluate_lists_cut_off :
    let truth : GroundTruth := ⟨.ofListFirst [(0x10, 2), (0x20, 3)], 0⟩
    let statics := OffsetSet.ofOffsets [0x40, 0x21, 0x15, 0x11]
    let rooms := [some 24, none, none, some 0]
    truth.evaluate statics rooms
        = ([Text.Utf8.encode "0x11 in 0x10 len 2\n0x21 ", [],
          Text.Utf8.encode "0x15 after 0x10\n", []], .error .writerStopped)
      ∧ ∃ before item after k r, truth.scored statics = before ++ item :: after
        ∧ truth.StopsAt statics rooms (truth.evaluate statics rooms).1 before item k r := by
  intro truth statics rooms
  have hfull : ¬ truth.HasRoom statics rooms := by
    intro h
    exact absurd (h .falsePositive 24 rfl) (by decide)
  obtain ⟨-, -, -, -, -, -, hcut, -⟩ := evaluate_lists truth statics rooms
  exact ⟨by decide, (hcut hfull).2⟩

end GroundTruth

end ExecTruth
