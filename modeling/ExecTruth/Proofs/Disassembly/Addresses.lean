import ExecTruth.Disassembly.Listing
import ExecTruth.Proofs.SortedMap
import ExecTruth.Proofs.Text.Cuts
import ExecTruth.Proofs.Text.Numerals
import Mathlib.Algebra.Group.Int.Defs
import Mathlib.Algebra.Group.Nat.Defs

/-! # Addresses in listings — which lines are counted, and which are lost

    A line with an address has it in front, in hexadecimal with a colon behind it, and tabs
    divide what follows into columns; the one behind the second tab holds the instruction, or
    tells that there is none (`Addressed`, `Undecodable`).  Nothing else is read from a
    listing (`parse_eq_instruction_iff`, `parse_eq_undecoded_iff`).

    As a number, an address below 2 ^ 63 is an offset, and the line counts as what it shows.
    An address from there on is an offset only as its two's complement, as load bases and
    static starts have it; but it is read as a number, so that the line is taken for one
    without an address (`parse_of_high`).  A listing shows all its lines exactly as long as
    none of them is that high (`listing_by_address`). -/

namespace ExecTruth

namespace Word

/-- As a number, an address is an offset below 2 ^ 63, and then its own two's complement. -/
theorem offsetOfInt?_natCast (n : Nat) :
    offsetOfInt? (Int.ofNat n) = if n < 2 ^ 63 then some n.toUInt64.toInt64 else none := by
  have hlow : Int64.minValue.toInt = -2 ^ 63 := rfl
  have hhigh : Int64.maxValue.toInt = 2 ^ 63 - 1 := rfl
  by_cases hn : n < 2 ^ 63
  · have hcomplement : n.toUInt64.toInt64 = Int64.ofNat n := rfl
    rw [if_pos hn, offsetOfInt?_eq_some_iff, hcomplement]
    exact Int64.toInt_ofNat_of_lt hn
  · rw [if_neg hn, offsetOfInt?, if_neg]
    show ¬ (_ ∧ (n : Int) ≤ _)
    omega

/-- Numbers of sixty-four bits have offsets of their own. -/
theorem toUInt64_toInt64_inj {n m : Nat} (hn : n < 2 ^ 64) (hm : m < 2 ^ 64)
    (h : n.toUInt64.toInt64 = m.toUInt64.toInt64) : n = m := by
  have hwords : n.toUInt64 = m.toUInt64 := by
    simpa using congrArg Int64.toUInt64 h
  have hnats := congrArg UInt64.toNat hwords
  rwa [UInt64.toNat_ofNat_of_lt' hn, UInt64.toNat_ofNat_of_lt' hm] at hnats

end Word

namespace ListingLine

variable {line column : List Char} {n : Nat} {o : Int64}

/-- The line has an address, and a column behind the second tab. -/
def Addressed (line : List Char) (n : Nat) (column : List Char) : Prop :=
  ∃ blanks digits lead bytes others,
    line = blanks ++ (digits ++ ':' :: List.intercalate ['\t'] (lead :: bytes :: column :: others))
    ∧ (∀ c ∈ blanks, Text.isBlank c = true) ∧ Text.Spells 16 digits n
    ∧ ∀ part ∈ lead :: bytes :: column :: others, '\t' ∉ part

/-- The column tells that the bytes could not be decoded. -/
def Undecodable (column : List Char) : Prop :=
  ∃ blanks rest, column = blanks ++ (badMark ++ rest) ∧ ∀ c ∈ blanks, Text.isBlank c = true

/-- The test for the mark is that for a column with nothing but the mark behind its blanks. -/
theorem isPrefixOf_trimStart_iff :
    badMark.isPrefixOf (Text.trimStart column) = true ↔ Undecodable column := by
  rw [List.isPrefixOf_iff_prefix]
  constructor
  · rintro ⟨rest, hrest⟩
    obtain ⟨blanks, hblanks, hcolumn⟩ := Text.exists_append_trimStart column
    exact ⟨blanks, rest, hrest ▸ hcolumn, hblanks⟩
  · rintro ⟨blanks, rest, rfl, hblanks⟩
    rw [Text.trimStart_append hblanks]
    -- the mark begins with no blank
    exact ⟨rest, (Text.trimStart_cons (c := '(') rfl _).symm⟩

/-- The line shows an instruction at the address. -/
def Shows (line : List Char) (n : Nat) : Prop :=
  ∃ column, Addressed line n column ∧ ¬ Undecodable column

/-- The line tells of an address that nothing could be decoded there. -/
def Fails (line : List Char) (n : Nat) : Prop :=
  ∃ column, Addressed line n column ∧ Undecodable column

/-! ## Reading a line -/

/-- The address and the columns are what the line is cut into. -/
theorem addressed_iff : Addressed line n column
    ↔ ∃ digits rest, Text.cutOnce ':' (Text.trimStart line) = some (digits, rest)
      ∧ Text.numeral? 16 digits = some n
      ∧ ∃ lead bytes others, Text.cutAt '\t' rest = lead :: bytes :: column :: others := by
  constructor
  · rintro ⟨blanks, digits, lead, bytes, others, rfl, hblanks, hdigits, hparts⟩
    have hcolon : ':' ∉ digits := hdigits.notMem Text.radix_sixteen rfl
    refine ⟨digits, _, Text.cutOnce_eq_some_iff.2 ⟨?_, hcolon⟩,
      (Text.numeral?_eq_some_iff Text.radix_sixteen).2 hdigits, lead, bytes, others,
      Text.cutAt_eq_iff.2 ⟨List.cons_ne_nil _ _, hparts, rfl⟩⟩
    rw [Text.trimStart_append hblanks]
    exact Text.trimStart_solid (hdigits.solid Text.radix_sixteen) _
  · rintro ⟨digits, rest, hcut, hn, lead, bytes, others, hcolumns⟩
    obtain ⟨blanks, hblanks, hline⟩ := Text.exists_append_trimStart line
    obtain ⟨-, hparts, rfl⟩ := Text.cutAt_eq_iff.1 hcolumns
    refine ⟨blanks, digits, lead, bytes, others, ?_, hblanks,
      (Text.numeral?_eq_some_iff Text.radix_sixteen).1 hn, hparts⟩
    rw [← (Text.cutOnce_eq_some_iff.1 hcut).1]
    exact hline

/-- What a line with an address is read as. -/
theorem parse_of_addressed (h : Addressed line n column) :
    parse line = match Word.offsetOfInt? (Int.ofNat n) with
      | none => .other
      | some o =>
          if badMark.isPrefixOf (Text.trimStart column) then .undecoded else .instruction o := by
  obtain ⟨digits, rest, hcut, hn, lead, bytes, others, hcolumns⟩ := addressed_iff.1 h
  rw [parse, hcut]
  dsimp only
  rw [hcolumns, address?, hn, Option.bind_some]
  cases Word.offsetOfInt? (Int.ofNat n) <;> rfl

/-- A line that anything is read from has an address. -/
theorem exists_addressed (h : parse line ≠ .other) : ∃ n column, Addressed line n column := by
  rw [parse] at h
  cases hcut : Text.cutOnce ':' (Text.trimStart line) with
  | none =>
      rw [hcut] at h
      exact absurd rfl h
  | some cut =>
      obtain ⟨digits, rest⟩ := cut
      rw [hcut] at h
      dsimp only at h
      split at h
      · next address bytes column others haddress hcolumns =>
          obtain ⟨n, hn, -⟩ := Option.bind_eq_some_iff.1 haddress
          -- the first column is not looked at, but it is always there
          cases hall : Text.cutAt '\t' rest with
          | nil => exact absurd hall (Text.cutAt_ne_nil '\t' rest)
          | cons lead parts =>
              rw [hall] at hcolumns
              cases (show parts = bytes :: column :: others from hcolumns)
              exact ⟨n, column, addressed_iff.2 ⟨digits, rest, hcut, hn, lead, bytes, others, hall⟩⟩
      · exact absurd rfl h

/-- A line with an address from 2 ^ 63 on is taken for one without. -/
theorem parse_of_high (h : Addressed line n column) (hn : 2 ^ 63 ≤ n) : parse line = .other := by
  rw [parse_of_addressed h, Word.offsetOfInt?_natCast, if_neg (Nat.not_lt.2 hn)]

/-- A line that is not passed over has an address below 2 ^ 63. -/
theorem lt_of_parse (h : Addressed line n column) (hparse : parse line ≠ .other) : n < 2 ^ 63 :=
  Nat.lt_of_not_le fun hn => hparse (parse_of_high h hn)

/-- A line that shows an instruction at such an address is read as one. -/
theorem parse_of_shows (h : Shows line n) (hn : n < 2 ^ 63) :
    parse line = .instruction n.toUInt64.toInt64 := by
  obtain ⟨column, haddressed, hdecoded⟩ := h
  rw [parse_of_addressed haddressed, Word.offsetOfInt?_natCast, if_pos hn]
  exact if_neg fun hmark => hdecoded (isPrefixOf_trimStart_iff.1 hmark)

/-- A line where nothing could be decoded, at such an address, is told apart. -/
theorem parse_of_fails (h : Fails line n) (hn : n < 2 ^ 63) : parse line = .undecoded := by
  obtain ⟨column, haddressed, hundecodable⟩ := h
  rw [parse_of_addressed haddressed, Word.offsetOfInt?_natCast, if_pos hn]
  exact if_pos (isPrefixOf_trimStart_iff.2 hundecodable)

/-- What is not passed over is a line of one of the two kinds. -/
theorem shows_or_fails (h : parse line ≠ .other) : ∃ n < 2 ^ 63, Shows line n ∨ Fails line n := by
  obtain ⟨n, column, haddressed⟩ := exists_addressed h
  refine ⟨n, lt_of_parse haddressed h, ?_⟩
  by_cases hundecodable : Undecodable column
  · exact Or.inr ⟨column, haddressed, hundecodable⟩
  · exact Or.inl ⟨column, haddressed, hundecodable⟩

/-- Instructions are read of the lines that show them below 2 ^ 63, and of no others. -/
theorem parse_eq_instruction_iff : parse line = .instruction o
    ↔ ∃ n < 2 ^ 63, Shows line n ∧ o = n.toUInt64.toInt64 := by
  constructor
  · intro h
    obtain ⟨n, hn, hshows | hfails⟩ := shows_or_fails (by rw [h]; exact nofun)
    · rw [parse_of_shows hshows hn] at h
      exact ⟨n, hn, hshows, (ListingLine.instruction.inj h).symm⟩
    · rw [parse_of_fails hfails hn] at h
      exact nomatch h
  · rintro ⟨n, hn, hshows, rfl⟩
    exact parse_of_shows hshows hn

/-- The lines counted are those with an address below 2 ^ 63 where nothing could be decoded. -/
theorem parse_eq_undecoded_iff : parse line = .undecoded ↔ ∃ n < 2 ^ 63, Fails line n := by
  constructor
  · intro h
    obtain ⟨n, hn, hshows | hfails⟩ := shows_or_fails (by rw [h]; exact nofun)
    · rw [parse_of_shows hshows hn] at h
      exact nomatch h
    · exact ⟨n, hn, hfails⟩
  · rintro ⟨n, hn, hfails⟩
    exact parse_of_fails hfails hn

/-- Only an instruction has a start. -/
theorem start?_eq_some_iff {shown : ListingLine} :
    shown.start? = some o ↔ shown = .instruction o := by
  cases shown with
  | instruction address =>
      constructor
      · intro h
        rw [Option.some.inj h]
      · intro h
        rw [ListingLine.instruction.inj h]
        rfl
  | undecoded => exact iff_of_false nofun nofun
  | other => exact iff_of_false nofun nofun

end ListingLine

namespace Listing

open ListingLine

variable {text : String} {n : Nat} {o : Int64}

/-! ## Reading a listing -/

/-- The starts of a listing are the addresses below 2 ^ 63 that its lines show. -/
theorem contains_starts_iff : (ofText text).starts.contains o = true
    ↔ ∃ line ∈ Text.lines text.toList, ∃ n < 2 ^ 63, Shows line n ∧ o = n.toUInt64.toInt64 := by
  have hstarts : (ofText text).starts
      = .ofOffsets (((Text.lines text.toList).map parse).filterMap start?) := rfl
  rw [hstarts, OffsetSet.contains_ofOffsets_iff, List.filterMap_map, List.mem_filterMap]
  refine exists_congr fun line => and_congr_right fun _ => ?_
  exact start?_eq_some_iff.trans parse_eq_instruction_iff

section

open scoped Classical

/-- The count of a listing is that of its lines where nothing could be decoded. -/
theorem undecoded_eq : (ofText text).undecoded
    = (Text.lines text.toList).countP fun line => ∃ n < 2 ^ 63, Fails line n := by
  show ((Text.lines text.toList).map parse).countP _ = _
  rw [List.countP_map]
  refine List.countP_congr fun line _ => ?_
  rw [Function.comp_apply, beq_iff_eq, decide_eq_true_eq, parse_eq_undecoded_iff]

/-- The listing shows all lines of the text: every instruction at the two's complement of its
    address, and how many addresses there are where nothing could be decoded. -/
def ShowsAll (text : String) : Prop :=
  (∀ line ∈ Text.lines text.toList, ∀ n, Shows line n →
    (ofText text).starts.contains n.toUInt64.toInt64 = true)
  ∧ (ofText text).undecoded = (Text.lines text.toList).countP fun line => ∃ n, Fails line n

/-! ## Listings without high addresses -/

/-- Where all addresses are below 2 ^ 63, none is lost. -/
theorem showsAll_of_lt
    (h : ∀ line ∈ Text.lines text.toList, ∀ n, Shows line n ∨ Fails line n → n < 2 ^ 63) :
    ShowsAll text := by
  constructor
  · intro line hline n hshows
    exact contains_starts_iff.2 ⟨line, hline, n, h line hline n (Or.inl hshows), hshows, rfl⟩
  · rw [undecoded_eq]
    refine List.countP_congr fun line hline => ?_
    rw [decide_eq_true_eq, decide_eq_true_eq]
    refine exists_congr fun n => and_iff_right_of_imp fun hfails => ?_
    exact h line hline n (Or.inr hfails)

/-- A narrower condition holds as often as a wider one only if it is as wide. -/
theorem of_countP_eq {α : Type} {p q : α → Bool} {l : List α} (hpq : ∀ a ∈ l, p a → q a)
    (heq : l.countP p = l.countP q) {a : α} (ha : a ∈ l) (hqa : q a) : p a := by
  have hboth : (l.filter q).countP p = (l.filter q).length := by
    rw [← List.countP_eq_length_filter, ← heq, List.countP_filter]
    refine List.countP_congr fun a ha => ?_
    rw [Bool.and_eq_true]
    exact and_iff_left_of_imp (hpq a ha)
  exact List.countP_eq_length.1 hboth a (List.mem_filter.2 ⟨ha, hqa⟩)

/-- Where none is lost, all addresses are below 2 ^ 63: one above it is read as no line at all. -/
theorem lt_of_showsAll (hall : ShowsAll text) {line : List Char}
    (hline : line ∈ Text.lines text.toList) (h : Shows line n ∨ Fails line n)
    (hn : n < 2 ^ 64) : n < 2 ^ 63 := by
  rcases h with hshows | hfails
  · obtain ⟨-, -, m, hm, -, heq⟩ := contains_starts_iff.1 (hall.1 line hline n hshows)
    have hsame := Word.toUInt64_toInt64_inj hn (Nat.lt_trans hm (by decide)) heq
    rwa [hsame]
  · have hcount := undecoded_eq.symm.trans hall.2
    have hlow : decide (∃ m < 2 ^ 63, Fails line m) = true := by
      refine of_countP_eq (fun line _ hfails => ?_) hcount hline (decide_eq_true ⟨n, hfails⟩)
      obtain ⟨m, -, hm⟩ := of_decide_eq_true hfails
      exact decide_eq_true ⟨m, hm⟩
    -- the line is counted, so that its address is low
    obtain ⟨column, haddressed, -⟩ := hfails
    refine lt_of_parse haddressed ?_
    rw [parse_eq_undecoded_iff.2 (of_decide_eq_true hlow)]
    exact nofun

/-- **ADDRESSES**.  The starts of a listing are the addresses below 2 ^ 63 of the lines that
    show an instruction, and the lines with such an address where nothing could be decoded are
    counted.  If no address is too long for a word, the listing shows all its lines exactly if
    none of them has an address from 2 ^ 63 on. -/
theorem listing_by_address (text : String) :
    (∀ o, (ofText text).starts.contains o = true ↔ ∃ line ∈ Text.lines text.toList,
      ∃ n < 2 ^ 63, Shows line n ∧ o = n.toUInt64.toInt64)
    ∧ (ofText text).undecoded
      = (Text.lines text.toList).countP (fun line => ∃ n < 2 ^ 63, Fails line n)
    ∧ ((∀ line ∈ Text.lines text.toList, ∀ n, Shows line n ∨ Fails line n → n < 2 ^ 64) →
      (ShowsAll text ↔ ∀ line ∈ Text.lines text.toList, ∀ n,
        Shows line n ∨ Fails line n → n < 2 ^ 63)) := by
  refine ⟨fun o => contains_starts_iff, undecoded_eq, fun hwords => ⟨?_, showsAll_of_lt⟩⟩
  intro hall line hline n h
  exact lt_of_showsAll hall hline h (hwords line hline n h)

/-- An instruction at the highest address that is an offset. -/
def highestLines : String :=
  "7fffffffffffffff:\t90\tnop\n" ++ "  7FFFFFFFFFFFFFFE:\t0f   \t(bad)  \n"

/-- At the highest address below 2 ^ 63, in capitals and behind blanks, nothing is lost yet. -/
theorem listing_by_address_highestLines :
    (∀ line ∈ Text.lines highestLines.toList, ∀ n, Shows line n ∨ Fails line n → n < 2 ^ 64)
    ∧ ShowsAll highestLines
    ∧ (ofText highestLines).starts.contains 0x7fffffffffffffff = true := by
  have hlines : (Text.lines highestLines.toList).map parse
      = [.instruction 0x7fffffffffffffff, .undecoded] := rfl
  have hlow : ∀ line ∈ Text.lines highestLines.toList, ∀ n, Shows line n ∨ Fails line n →
      n < 2 ^ 63 := by
    intro line hline n h
    have hread : parse line ≠ .other := by
      have hmem := hlines ▸ List.mem_map_of_mem (f := parse) hline
      rcases List.mem_pair.1 hmem with heq | heq <;> rw [heq] <;> exact nofun
    rcases h with ⟨_, haddressed, -⟩ | ⟨_, haddressed, -⟩ <;> exact lt_of_parse haddressed hread
  have hwords : ∀ line ∈ Text.lines highestLines.toList, ∀ n, Shows line n ∨ Fails line n →
      n < 2 ^ 64 := fun line hline n h => Nat.lt_trans (hlow line hline n h) (by decide)
  obtain ⟨-, -, hall⟩ := listing_by_address highestLines
  exact ⟨hwords, (hall hwords).2 hlow, rfl⟩

/-- The instructions of a page that the kernel maps at the top of the address space. -/
def pageLines : String :=
  "ffffffffff600000:\t0f 05\tsyscall\n" ++ "ffffffffff600002:\tff\t(bad)\n"

/-- Both lines of the page are passed over: the listing is that of an empty text. -/
theorem not_showsAll_pageLines :
    (∀ line ∈ Text.lines pageLines.toList, ∃ n, 2 ^ 63 ≤ n ∧ n < 2 ^ 64
      ∧ (Shows line n ∨ Fails line n))
    ∧ ofText pageLines = ⟨.empty, 0⟩ ∧ ¬ ShowsAll pageLines := by
  have hlines : Text.lines pageLines.toList
      = ["ffffffffff600000:\t0f 05\tsyscall".toList, "ffffffffff600002:\tff\t(bad)".toList] := rfl
  have hshows : Shows "ffffffffff600000:\t0f 05\tsyscall".toList 0xffffffffff600000 := by
    refine ⟨_, addressed_iff.2 ⟨_, _, rfl, rfl, _, _, _, rfl⟩, ?_⟩
    rw [← isPrefixOf_trimStart_iff]
    exact Bool.false_ne_true
  have hfails : Fails "ffffffffff600002:\tff\t(bad)".toList 0xffffffffff600002 :=
    ⟨_, addressed_iff.2 ⟨_, _, rfl, rfl, _, _, _, rfl⟩, isPrefixOf_trimStart_iff.1 rfl⟩
  rw [hlines]
  refine ⟨?_, rfl, fun hall => ?_⟩
  · intro line hline
    rcases List.mem_pair.1 hline with rfl | rfl
    · exact ⟨_, by decide, by decide, Or.inl hshows⟩
    · exact ⟨_, by decide, by decide, Or.inr hfails⟩
  · -- if nothing were lost, the page would lie below 2 ^ 63
    have hlow := lt_of_showsAll hall (hlines ▸ List.mem_cons_self) (Or.inl hshows) (by decide)
    exact absurd hlow (by decide)

end

end Listing

end ExecTruth
