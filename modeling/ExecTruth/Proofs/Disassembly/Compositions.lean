import ExecTruth.Proofs.Disassembly.Addresses
import ExecTruth.Proofs.Text.Words

/-! # Compositions of listings — what is read of texts with line ends between them

    A line of a listing is read on its own, and what it shows is either put in a set or
    counted.  So a text is read for what its lines show (`shown`, `ofText_eq`), and the order
    of that does not matter (`ofShown_of_perm`).

    A line feed cuts a text in two that are read one after the other (`shown_append`), as no
    line is read otherwise for a carriage return behind it (`parse_concat_return`).  Lines that
    show nothing are left out without a trace (`Filler`). -/

namespace ExecTruth

namespace ListingLine

variable {line front rest column : List Char} {c : Char}

/-! ## Line ends -/

/-- A carriage return at its end does not make a column begin with the mark, or not. -/
theorem undecodable_concat_return :
    badMark.isPrefixOf (Text.trimStart (column ++ ['\r']))
      = badMark.isPrefixOf (Text.trimStart column) := by
  rw [Text.trimStart_concat rfl]
  by_cases h : Text.trimStart column = []
  · rw [if_pos h, h]
  · rw [if_neg h, Bool.eq_iff_iff, List.isPrefixOf_iff_prefix, List.isPrefixOf_iff_prefix,
      List.prefix_concat_iff]
    refine or_iff_right fun heq => ?_
    -- the mark does not end in a carriage return
    have hlast := congrArg List.getLast? heq
    rw [List.getLast?_concat] at hlast
    exact absurd hlast (by decide)

/-- A carriage return behind a line is not seen. -/
theorem parse_concat_return (line : List Char) : parse (line ++ ['\r']) = parse line := by
  rw [parse, Text.trimStart_concat rfl]
  by_cases h : Text.trimStart line = []
  · rw [if_pos h, parse, h]
  · rw [if_neg h, parse]
    cases hcut : Text.cutOnce ':' (Text.trimStart line) with
    | none =>
        have hnone : Text.cutOnce ':' (Text.trimStart line ++ ['\r']) = none := by
          rw [Text.cutOnce_eq_none_iff] at hcut ⊢
          simpa using hcut
        rw [hnone]
    | some cut =>
        obtain ⟨digits, rest⟩ := cut
        have hreturn : '\t' ∉ ['\r'] := by decide
        obtain ⟨front, last, hrest, hall⟩ := Text.cutAt_append hreturn rest
        rw [Text.cutOnce_append hcut]
        dsimp only
        rw [hrest, hall]
        cases address? digits with
        | none => rfl
        | some address =>
            -- the last column is another, and it counts only behind the second tab
            rcases front with _ | ⟨_, _ | ⟨_, _ | ⟨_, _⟩⟩⟩
            · rfl
            · rfl
            · show (if badMark.isPrefixOf (Text.trimStart (last ++ ['\r'])) then _ else _) = _
              rw [undecodable_concat_return]
              rfl
            · rfl

/-- A line is read with the end that its text gives it as without. -/
theorem parse_endedLine (line : List Char) :
    parse (Text.endedLine line.reverse) = parse line := by
  obtain rfl | ⟨init, c, rfl⟩ := List.eq_nil_or_concat' line
  · rfl
  · rw [Text.endedLine_reverse_concat]
    by_cases hc : c = '\r'
    · rw [if_pos hc, hc, parse_concat_return]
    · rw [if_neg hc]

/-! ## Lines that show nothing -/

/-- A line that stands between others for its reader: a blank one, the name of a symbol behind
    its address, or further bytes of the instruction above. -/
inductive Filler : List Char → Prop where
  | blank {line : List Char} (hblanks : Text.Blanks line) : Filler line
  | symbol {digits name : List Char} {n : Nat} (hdigits : Text.Spells 16 digits n) :
      Filler (digits ++ ' ' :: '<' :: (name ++ ['>', ':']))
  | bytes {blanks digits lead bytes : List Char} {n : Nat} (hblanks : Text.Blanks blanks)
      (hdigits : Text.Spells 16 digits n) (hlead : '\t' ∉ lead) (hbytes : '\t' ∉ bytes) :
      Filler (blanks ++ (digits ++ ':' :: (lead ++ '\t' :: bytes)))

theorem trimStart_spells {digits : List Char} {n : Nat} (h : Text.Spells 16 digits n)
    (s : List Char) : Text.trimStart (digits ++ s) = digits ++ s :=
  Text.trimStart_solid (h.solid Text.radix_sixteen) s

theorem colon_notMem {digits : List Char} {n : Nat} (h : Text.Spells 16 digits n) :
    ':' ∉ digits := h.notMem Text.radix_sixteen rfl

/-- A line of blanks has no address. -/
theorem parse_of_blank (h : Text.Blanks line) : parse line = .other := by
  have htrim : Text.trimStart line = [] := List.dropWhile_eq_nil_iff.2 h
  rw [parse, htrim]
  rfl

/-- No address has a blank in it. -/
theorem parse_of_blank_in_front (htrim : Text.trimStart line = front ++ c :: rest)
    (hcolon : ':' ∉ front) (hc : Text.isBlank c = true) : parse line = .other := by
  -- a line that is not passed over has a numeral up to its first colon, and no digit is blank
  by_contra h
  obtain ⟨n, column, haddressed⟩ := exists_addressed h
  obtain ⟨digits, others, hcut, hn, -⟩ := addressed_iff.1 haddressed
  have hdigits := (Text.numeral?_eq_some_iff Text.radix_sixteen).1 hn
  have hne : c ≠ ':' := by
    rintro rfl
    exact nomatch hc
  have hmem : c ∈ digits := Text.mem_of_cutOnce (htrim ▸ hcut) hcolon hne
  rw [hdigits.isBlank_of_mem Text.radix_sixteen hmem] at hc
  exact nomatch hc

/-- A filler shows nothing. -/
theorem parse_of_filler (h : Filler line) : parse line = .other := by
  cases h with
  | blank hblanks => exact parse_of_blank hblanks
  | symbol hdigits =>
      exact parse_of_blank_in_front (trimStart_spells hdigits _) (colon_notMem hdigits) rfl
  | @bytes blanks digits lead bytes n hblanks hdigits hlead hbytes =>
      have hcut := Text.cutOnce_eq_some_iff.2 ⟨Eq.refl (digits ++ ':' :: (lead ++ '\t' :: bytes)),
        colon_notMem hdigits⟩
      have hcolumns : Text.cutAt '\t' (lead ++ '\t' :: bytes) = [lead, bytes] := by
        refine Text.cutAt_eq_iff.2 ⟨List.cons_ne_nil _ _, ?_, by simp⟩
        simp [hlead, hbytes]
      rw [parse, Text.trimStart_append hblanks, trimStart_spells hdigits, hcut]
      dsimp only
      rw [hcolumns]
      cases address? digits <;> rfl

/-! ## What lines show -/

/-- What a line shows, if anything. -/
def told (line : List Char) : List ListingLine :=
  if parse line = .other then [] else [parse line]

theorem told_of_filler (h : Filler line) : told line = [] := if_pos (parse_of_filler h)

theorem told_congr {line' : List Char} (h : parse line = parse line') : told line = told line' := by
  rw [told, h, told]

/-- What is shown by the lines of a text whose current line begins with `seen`, read
    backwards. -/
def shownAfter (seen s : List Char) : List ListingLine := (Text.linesAfter seen s).flatMap told

/-- What the lines of a text show. -/
def shown (s : List Char) : List ListingLine := shownAfter [] s

section

variable (seen s : List Char)

/-- At the end of a text its last line ends, with a line feed or without. -/
theorem shownAfter_nil : shownAfter seen [] = told seen.reverse := by
  cases seen with
  | nil => rfl
  | cons c seen => exact List.flatMap_singleton told _

/-- A line feed ends the current line, and the next begins with nothing. -/
theorem shownAfter_feed : shownAfter seen ('\n' :: s) = told seen.reverse ++ shown s := by
  have hended : told (Text.endedLine seen) = told seen.reverse := by
    refine told_congr ?_
    rw [← parse_endedLine seen.reverse, List.reverse_reverse]
  rw [← hended]
  rfl

/-- Any other character belongs to the current line. -/
theorem shownAfter_cons (hc : c ≠ '\n') : shownAfter seen (c :: s) = shownAfter (c :: seen) s := by
  rw [shownAfter, Text.linesAfter, if_neg hc, shownAfter]

end

/-- Between two texts, a line feed ends what is shown by the first. -/
theorem shownAfter_append (seen a b : List Char) :
    shownAfter seen (a ++ '\n' :: b) = shownAfter seen a ++ shown b := by
  -- what was seen of the current line changes with every character, so it is general
  induction a generalizing seen with
  | nil => rw [List.nil_append, shownAfter_feed, shownAfter_nil]
  | cons c a ih =>
      rw [List.cons_append]
      by_cases hc : c = '\n'
      · rw [hc, shownAfter_feed, shownAfter_feed, List.append_assoc]
        exact congrArg (told seen.reverse ++ ·) (ih [])
      · rw [shownAfter_cons seen _ hc, shownAfter_cons seen _ hc, ih]

/-- What two texts show with a line feed between them is what either shows, one behind the
    other. -/
theorem shown_append (a b : List Char) : shown (a ++ '\n' :: b) = shown a ++ shown b :=
  shownAfter_append [] a b

/-- Texts with line feeds between them show what they show on their own. -/
theorem shown_intercalate (texts : List (List Char)) :
    shown (List.intercalate ['\n'] texts) = texts.flatMap shown := by
  induction texts with
  | nil => rfl
  | cons a texts ih =>
      -- a line feed stands in front of every text but the first
      cases texts with
      | nil =>
          rw [List.intercalate_singleton]
          exact (List.flatMap_singleton shown a).symm
      | cons b texts =>
          rw [List.flatMap_cons, ← ih, List.intercalate_cons_cons, List.append_assoc,
            List.singleton_append, shown_append]

/-- The text with a carriage return in front of every line feed. -/
def withReturns (s : List Char) : List Char :=
  s.flatMap fun c => if c = '\n' then ['\r', '\n'] else [c]

/-- Carriage returns in front of the line feeds show nothing and hide nothing. -/
theorem shownAfter_withReturns (seen s : List Char) :
    shownAfter seen (withReturns s) = shownAfter seen s := by
  -- a return joins the current line, and it is not seen there when the feed behind it comes
  induction s generalizing seen with
  | nil => rfl
  | cons c s ih =>
      by_cases hc : c = '\n'
      · have hreturns : withReturns (c :: s) = '\r' :: '\n' :: withReturns s := by
          rw [withReturns, List.flatMap_cons, if_pos hc]
          rfl
        have htold : told ('\r' :: seen).reverse = told seen.reverse := by
          refine told_congr ?_
          rw [List.reverse_cons, parse_concat_return]
        rw [hreturns, shownAfter_cons seen _ (by decide), shownAfter_feed, htold, hc,
          shownAfter_feed]
        exact congrArg (told seen.reverse ++ ·) (ih [])
      · have hreturns : withReturns (c :: s) = c :: withReturns s := by
          rw [withReturns, List.flatMap_cons, if_neg hc]
          rfl
        rw [hreturns, shownAfter_cons seen _ hc, shownAfter_cons seen _ hc, ih]

/-- What lines show is what they are read as, without those that are passed over. -/
theorem flatMap_told (lines : List (List Char)) :
    lines.flatMap told = (lines.map parse).filter (· ≠ .other) := by
  induction lines with
  | nil => rfl
  | cons line lines ih =>
      rw [List.flatMap_cons, ih, told, List.map_cons]
      by_cases h : parse line = .other
      · rw [if_pos h, List.filter_cons_of_neg (by simp [h])]
        rfl
      · rw [if_neg h, List.filter_cons_of_pos (by simp [h])]
        rfl

end ListingLine

namespace Word

/-- Below 2 ^ 63, an offset is the two's complement of the number that it is. -/
theorem eq_toInt64_iff {o : Int64} {n : Nat} (hn : n < 2 ^ 63) :
    o = n.toUInt64.toInt64 ↔ o.toInt = n := by
  have hcomplement : n.toUInt64.toInt64 = Int64.ofNat n := rfl
  rw [← Int64.toInt_inj, hcomplement, Int64.toInt_ofNat_of_lt hn]

end Word

namespace Listing

open ListingLine

variable {s t : List ListingLine} {o : Int64}

/-! ## Listings -/

/-- The listing of what lines show. -/
def ofShown (s : List ListingLine) : Listing :=
  ⟨.ofOffsets (s.filterMap start?), s.count .undecoded⟩

/-- Nothing is read from a text but what its lines show. -/
theorem ofText_eq (text : String) : ofText text = ofShown (shown text.toList) := by
  have hshown : shown text.toList = ((Text.lines text.toList).map parse).filter (· ≠ .other) :=
    flatMap_told _
  have hstart : (fun x : ListingLine => if decide (x ≠ .other) then x.start? else none)
      = start? := by
    funext x
    cases x <;> rfl
  rw [hshown, ofShown, List.filterMap_filter, hstart, List.count_filter (by decide)]
  rfl

theorem contains_ofShown_append : (ofShown (s ++ t)).starts.contains o = true
    ↔ (ofShown s).starts.contains o = true ∨ (ofShown t).starts.contains o = true := by
  simp only [ofShown, OffsetSet.contains_ofOffsets_iff, List.filterMap_append, List.mem_append]

theorem undecoded_ofShown_append :
    (ofShown (s ++ t)).undecoded = (ofShown s).undecoded + (ofShown t).undecoded :=
  List.count_append

/-- The order in which lines show something does not matter: the starts are a set, and the
    others are counted. -/
theorem ofShown_of_perm (h : s.Perm t) : ofShown s = ofShown t := by
  have hstarts : OffsetSet.ofOffsets (s.filterMap start?) = .ofOffsets (t.filterMap start?) := by
    refine OffsetSet.ext_contains fun o => ?_
    rw [OffsetSet.contains_ofOffsets_iff, OffsetSet.contains_ofOffsets_iff]
    exact (h.filterMap start?).mem_iff
  rw [ofShown, hstarts, h.count_eq, ofShown]

/-- The order of lines does not matter. -/
theorem ofText_of_perm_lines {a b : String}
    (h : (Text.lines a.toList).Perm (Text.lines b.toList)) : ofText a = ofText b := by
  rw [ofText_eq, ofText_eq]
  exact ofShown_of_perm (h.flatMap_right told)

/-- Texts put together are read for what they show on their own. -/
theorem ofText_intercalate (texts : List String) :
    ofText ("\n".intercalate texts) = ofShown (texts.flatMap fun text => shown text.toList) := by
  rw [ofText_eq, String.toList_intercalate]
  show ofShown (shown (List.intercalate ['\n'] _)) = _
  rw [shown_intercalate, List.flatMap_map]

/-- Nor does that of texts with line feeds between them. -/
theorem ofText_of_perm_texts {texts texts' : List String} (h : texts.Perm texts') :
    ofText ("\n".intercalate texts) = ofText ("\n".intercalate texts') := by
  rw [ofText_intercalate, ofText_intercalate]
  exact ofShown_of_perm (h.flatMap_right _)

/-- A filler on a line of its own is a text that shows nothing. -/
theorem shown_of_filler {line : List Char} (h : Filler line) (hline : '\n' ∉ line) :
    shown line = [] := by
  by_cases hnil : line = []
  · rw [hnil]
    rfl
  · rw [shown, shownAfter, ← Text.lines, Text.lines_of_not_mem hline hnil]
    exact (List.flatMap_singleton told line).trans (told_of_filler h)

/-- What shows nothing can be left out. -/
theorem flatMap_filter {α : Type} (f : α → List ListingLine) (p : α → Bool) (l : List α)
    (h : ∀ a ∈ l, p a = false → f a = []) : (l.filter p).flatMap f = l.flatMap f := by
  induction l with
  | nil => rfl
  | cons a l ih =>
      obtain ⟨ha, hl⟩ := List.forall_mem_cons.1 h
      cases hp : p a with
      | true => rw [List.filter_cons_of_pos hp, List.flatMap_cons, List.flatMap_cons, ih hl]
      | false =>
          rw [List.filter_cons_of_neg (by simp [hp]), List.flatMap_cons, ha hp, ih hl,
            List.nil_append]

/-- Fillers can be left out from between other lines. -/
theorem ofText_of_fillers {lines : List String} {kept : String → Bool}
    (h : ∀ line ∈ lines, kept line = false → Filler line.toList ∧ '\n' ∉ line.toList) :
    ofText ("\n".intercalate (lines.filter kept)) = ofText ("\n".intercalate lines) := by
  rw [ofText_intercalate, ofText_intercalate, flatMap_filter]
  intro line hline hleft
  obtain ⟨hfiller, hone⟩ := h line hline hleft
  exact shown_of_filler hfiller hone

open scoped Classical in
/-- **LISTINGS** are sets and counts of lines.  The starts are the addresses below 2 ^ 63 of
    the lines that show an instruction, and the lines with such an address where nothing could
    be decoded are counted.  So a listing of two texts is that of either, and neither the order
    of lines nor the kind of line ends counts, nor any line that shows nothing. -/
theorem listing_by_lines :
    (∀ text : String,
      (∀ o, (ofText text).starts.contains o = true ↔ ∃ line ∈ Text.lines text.toList,
        ∃ n < 2 ^ 63, Shows line n ∧ o.toInt = n)
      ∧ (ofText text).undecoded
        = (Text.lines text.toList).countP (fun line => ∃ n < 2 ^ 63, Fails line n))
    ∧ (∀ a b : String,
      (∀ o, (ofText (a ++ "\n" ++ b)).starts.contains o = true
        ↔ (ofText a).starts.contains o = true ∨ (ofText b).starts.contains o = true)
      ∧ (ofText (a ++ "\n" ++ b)).undecoded = (ofText a).undecoded + (ofText b).undecoded)
    ∧ (∀ a b : String, (Text.lines a.toList).Perm (Text.lines b.toList) → ofText a = ofText b)
    ∧ (∀ texts texts' : List String, texts.Perm texts' →
      ofText ("\n".intercalate texts) = ofText ("\n".intercalate texts'))
    ∧ (∀ text : String, ofText (String.ofList (withReturns text.toList)) = ofText text)
    ∧ ∀ (lines : List String) (kept : String → Bool),
      (∀ line ∈ lines, kept line = false → Filler line.toList ∧ '\n' ∉ line.toList) →
      ofText ("\n".intercalate (lines.filter kept)) = ofText ("\n".intercalate lines) := by
  have hjoin : ∀ a b : String,
      ofText (a ++ "\n" ++ b) = ofShown (shown a.toList ++ shown b.toList) := by
    intro a b
    rw [ofText_eq, String.toList_append, String.toList_append, List.append_assoc]
    exact congrArg ofShown (shown_append a.toList b.toList)
  refine ⟨fun text => ⟨fun o => ?_, undecoded_eq⟩, fun a b => ⟨fun o => ?_, ?_⟩, ?_, ?_, ?_, ?_⟩
  · rw [contains_starts_iff]
    refine exists_congr fun line => and_congr_right fun _ => exists_congr fun n => ?_
    exact and_congr_right fun hn => and_congr_right fun _ => Word.eq_toInt64_iff hn
  · rw [hjoin, contains_ofShown_append, ofText_eq, ofText_eq]
  · rw [hjoin, undecoded_ofShown_append, ofText_eq, ofText_eq]
  · exact fun a b h => ofText_of_perm_lines h
  · exact fun texts texts' h => ofText_of_perm_texts h
  · intro text
    rw [ofText_eq, String.toList_ofList, shown, shownAfter_withReturns, ofText_eq, shown]
  · exact fun lines kept h => ofText_of_fillers h

def movLine : String := "  401000:\t48 b8 88 77\tmovabs"

/-- The bytes of an instruction that go on in a second line, below the name of their symbol. -/
def movLines : List String :=
  ["0000000000401000 <a::b>:", movLine, "  401004:\t33 22", " "]

/-- The three lines around the one with the instruction are fillers: with them or without, and in
    either order, the listing is the same. -/
theorem listing_by_lines_movLines :
    (∀ line ∈ movLines, decide (line = movLine) = false →
      Filler line.toList ∧ '\n' ∉ line.toList)
    ∧ (ofText movLine).starts.contains 0x401000 = true
    ∧ ofText ("\n".intercalate movLines) = ofText movLine
    ∧ ofText ("\n".intercalate movLines.reverse) = ofText movLine := by
  have hsymbol : Filler "0000000000401000 <a::b>:".toList :=
    @Filler.symbol "0000000000401000".toList "a::b".toList 0x401000 ⟨10, rfl⟩
  have hbytes : Filler "  401004:\t33 22".toList :=
    @Filler.bytes "  ".toList "401004".toList [] "33 22".toList 0x401004 (by decide) ⟨0, rfl⟩
      (by decide) (by decide)
  have hfillers : ∀ line ∈ movLines, decide (line = movLine) = false →
      Filler line.toList ∧ '\n' ∉ line.toList := by
    intro line hline hother
    simp only [movLines, List.mem_cons, List.not_mem_nil, or_false] at hline
    rcases hline with rfl | rfl | rfl | rfl
    · exact ⟨hsymbol, by decide⟩
    · simp at hother
    · exact ⟨hbytes, by decide⟩
    · exact ⟨.blank (by decide), by decide⟩
  obtain ⟨-, -, -, hperm, -, hleft⟩ := listing_by_lines
  have hread : ofText ("\n".intercalate movLines) = ofText movLine := by
    rw [← hleft movLines (fun line => decide (line = movLine)) hfillers]
    rfl
  exact ⟨hfillers, rfl, hread, (hperm _ _ (List.reverse_perm movLines)).trans hread⟩

end Listing

end ExecTruth
