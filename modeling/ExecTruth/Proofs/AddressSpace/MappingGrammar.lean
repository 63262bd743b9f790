import ExecTruth.AddressSpace.Mapping
import ExecTruth.Proofs.Text.Numerals
import Mathlib.Data.Option.Basic

/-! # The grammar of a mapping — which lines are one, and of which fields

    A line is a mapping if its first five words are (`Shows`): a range cut at its first dash,
    four bytes of permissions, an offset, a device and an inode.  The path is what follows
    them but for the blanks around it, unless that is nothing or the inode is zero (`Has`).

    The cursor is followed through the words first (`parse?_eq_some_iff_words`), and what
    they stand for is read then, one word on its own (`ofWords_eq_some_iff`).  Both steps go
    in either direction, so that every way to write a mapping is taken for it, with any
    blanks between the fields and any spelling of the numbers (`Writes`). -/

namespace ExecTruth.Mapping

variable {line range perms offset device inode rest : List Char} {m : Mapping}

/-- What the words of a line stand for, and the text behind them. -/
structure Fields where
  start : Nat
  stop : Nat
  perms : List Char
  offset : Nat
  inode : Nat
  rest : List Char

/-- The words stand for the fields. -/
structure Stand (range offset inode : List Char) (f : Fields) : Prop where
  range : ∃ start stop, range = start ++ '-' :: stop ∧ '-' ∉ start
    ∧ Text.SpellsWord 16 start f.start ∧ Text.SpellsWord 16 stop f.stop
  ordered : f.start ≤ f.stop
  perms : (String.ofList f.perms).utf8ByteSize = 4
  offset : Text.SpellsWord 16 offset f.offset
  inode : Text.SpellsWord 10 inode f.inode

/-- The line starts with the words of a mapping, for these fields. -/
def Shows (line : List Char) (f : Fields) : Prop :=
  ∃ range offset device inode,
    Text.Words line [range, f.perms, offset, device, inode] f.rest ∧ Stand range offset inode f

/-- The mapping has these fields, and for its path the text behind them. -/
structure Has (m : Mapping) (f : Fields) : Prop where
  start : m.range.start.toNat = f.start
  stop : m.range.stop.toNat = f.stop
  perms : m.perms = String.ofList f.perms
  offset : m.range.offset.toNat = f.offset
  inode : m.inode.toNat = f.inode
  path : ∃ front path back, f.rest = front ++ (path ++ back) ∧ Text.Blanks front
    ∧ Text.Blanks back ∧ Text.Bare path
    ∧ m.path = if m.inode ≠ 0 ∧ path ≠ [] then some (String.ofList path) else none

/-! ## The cursor -/

/-- Reads a line from its words and the text behind them. -/
def ofWords (range perms offset inode rest : List Char) : Option Mapping := do
  let (start, stop) ← Text.cutOnce '-' range
  let start ← Text.word? 16 start
  let stop ← Text.word? 16 stop
  let offset ← Text.word? 16 offset
  let inode ← Text.word? 10 inode
  let perms := String.ofList perms
  let path := String.ofList (Text.trim rest)
  guard (start ≤ stop ∧ perms.utf8ByteSize = 4)
  return ⟨⟨start, stop, offset⟩, perms, inode,
    if inode ≠ 0 ∧ path ≠ "" then some path else none⟩

/-- A line of five words and a rest is read field by field. -/
theorem parse?_of_words (h : Text.Words line [range, perms, offset, device, inode] rest) :
    parse? line = ofWords range perms offset inode rest := by
  obtain ⟨r₁, hr₁, h₁, h⟩ := h.uncons
  obtain ⟨r₂, hr₂, h₂, h⟩ := h.uncons
  obtain ⟨r₃, hr₃, h₃, h⟩ := h.uncons
  obtain ⟨r₄, hr₄, h₄, h⟩ := h.uncons
  obtain ⟨r₅, hr₅, h₅, h⟩ := h.uncons
  cases h
  rw [← Text.nextWord_drop hr₁] at h₂
  rw [← Text.nextWord_drop hr₂] at h₃
  rw [← Text.nextWord_drop hr₃] at h₄
  rw [← Text.nextWord_drop hr₄] at h₅
  simp only [parse?, h₁, h₂, h₃, h₄, h₅, Option.bind_eq_bind, Option.bind_some,
    Text.trim_drop hr₅]
  rfl

/-- A line that is read has five words. -/
theorem exists_words_of_parse? (h : parse? line = some m) :
    ∃ range perms offset device inode rest,
      Text.Words line [range, perms, offset, device, inode] rest := by
  rw [parse?] at h
  obtain ⟨⟨range, _⟩, h₁, h⟩ := Option.bind_eq_some_iff.1 h
  obtain ⟨⟨perms, _⟩, h₂, h⟩ := Option.bind_eq_some_iff.1 h
  obtain ⟨⟨offset, _⟩, h₃, h⟩ := Option.bind_eq_some_iff.1 h
  obtain ⟨⟨device, _⟩, h₄, h⟩ := Option.bind_eq_some_iff.1 h
  obtain ⟨⟨inode, _⟩, h₅, -⟩ := Option.bind_eq_some_iff.1 h
  -- each word is looked for behind the one before, without the blank that ended that
  obtain ⟨r₁, hr₁, rfl, hwords₁⟩ := Text.exists_words h₁
  rw [Text.nextWord_drop hr₁] at h₂
  obtain ⟨r₂, hr₂, rfl, hwords₂⟩ := Text.exists_words h₂
  rw [Text.nextWord_drop hr₂] at h₃
  obtain ⟨r₃, hr₃, rfl, hwords₃⟩ := Text.exists_words h₃
  rw [Text.nextWord_drop hr₃] at h₄
  obtain ⟨r₄, hr₄, rfl, hwords₄⟩ := Text.exists_words h₄
  rw [Text.nextWord_drop hr₄] at h₅
  obtain ⟨r₅, -, -, hwords₅⟩ := Text.exists_words h₅
  exact ⟨range, perms, offset, device, inode, r₅,
    hwords₁ (hwords₂ (hwords₃ (hwords₄ (hwords₅ (.nil r₅)))))⟩

/-- So a line is a mapping if its five words and its rest make one. -/
theorem parse?_eq_some_iff_words : parse? line = some m
    ↔ ∃ range perms offset device inode rest,
        Text.Words line [range, perms, offset, device, inode] rest
        ∧ ofWords range perms offset inode rest = some m := by
  constructor
  · intro h
    obtain ⟨range, perms, offset, device, inode, rest, hwords⟩ := exists_words_of_parse? h
    exact ⟨range, perms, offset, device, inode, rest, hwords, parse?_of_words hwords ▸ h⟩
  · rintro ⟨range, perms, offset, device, inode, rest, hwords, h⟩
    rwa [parse?_of_words hwords]

/-! ## The words -/

/-- Words that make a mapping stand for numbers. -/
theorem stand_of_ofWords (h : ofWords range perms offset inode rest = some m) :
    ∃ f, f.perms = perms ∧ f.rest = rest ∧ Stand range offset inode f ∧ m.Has f := by
  obtain ⟨⟨start, stop⟩, hcut, h⟩ := Option.bind_eq_some_iff.1 h
  obtain ⟨startWord, hstart, h⟩ := Option.bind_eq_some_iff.1 h
  obtain ⟨stopWord, hstop, h⟩ := Option.bind_eq_some_iff.1 h
  obtain ⟨offsetWord, hoffset, h⟩ := Option.bind_eq_some_iff.1 h
  obtain ⟨inodeWord, hinode, h⟩ := Option.bind_eq_some_iff.1 h
  obtain ⟨_, hguard, h⟩ := Option.bind_eq_some_iff.1 h
  -- the range must not be turned around, and the permissions are four bytes
  have hboth : startWord ≤ stopWord ∧ (String.ofList perms).utf8ByteSize = 4 := by
    by_contra hnot
    exact nomatch (if_neg hnot).symm.trans hguard
  cases h
  obtain ⟨hrange, hdash⟩ := Text.cutOnce_eq_some_iff.1 hcut
  obtain ⟨front, back, hrest, hfront, hback, hbare⟩ := Text.trim_eq_iff.1 (Eq.refl (Text.trim rest))
  rw [Text.word?_eq_some_iff Text.radix_sixteen] at hstart hstop hoffset
  rw [Text.word?_eq_some_iff Text.radix_ten] at hinode
  refine ⟨⟨startWord.toNat, stopWord.toNat, perms, offsetWord.toNat, inodeWord.toNat, rest⟩,
    rfl, rfl, ?_, ?_⟩
  · exact ⟨⟨start, stop, hrange, hdash, hstart, hstop⟩, hboth.1, hboth.2, hoffset, hinode⟩
  · refine ⟨rfl, rfl, rfl, rfl, rfl, front, Text.trim rest, back, hrest, hfront, hback, hbare, ?_⟩
    simp only [Ne, String.ofList_eq_empty_iff]

/-- And words that stand for numbers make one. -/
theorem ofWords_of_stand {f : Fields} (h : Stand range offset inode f) (hm : m.Has f) :
    ofWords range f.perms offset inode f.rest = some m := by
  obtain ⟨⟨start, stop, hrange, hdash, hstart, hstop⟩, hle, hbytes, hoffset, hinode⟩ := h
  obtain ⟨front, path, back, hrest, hfront, hback, hbare, hpath⟩ := hm.path
  rw [← hm.start] at hstart hle
  rw [← hm.stop] at hstop hle
  rw [← hm.offset] at hoffset
  rw [← hm.inode] at hinode
  have hcut := Text.cutOnce_eq_some_iff.2 ⟨hrange, hdash⟩
  have htrim := Text.trim_eq_iff.2 ⟨front, back, hrest, hfront, hback, hbare⟩
  rw [← Text.word?_eq_some_iff Text.radix_sixteen] at hstart hstop hoffset
  rw [← Text.word?_eq_some_iff Text.radix_ten] at hinode
  have hguard : m.range.start ≤ m.range.stop ∧ (String.ofList f.perms).utf8ByteSize = 4 :=
    ⟨hle, hbytes⟩
  rw [ofWords, hcut]
  simp only [hstart, hstop, hoffset, hinode, htrim, Option.bind_eq_bind, Option.bind_some]
  rw [guard, if_pos hguard]
  simp only [Ne, String.ofList_eq_empty_iff]
  rw [← hm.perms]
  exact congrArg some (congrArg _ hpath.symm)

/-- The words are read for what they stand for, and that is all of the mapping. -/
theorem ofWords_eq_some_iff : ofWords range perms offset inode rest = some m
    ↔ ∃ f, f.perms = perms ∧ f.rest = rest ∧ Stand range offset inode f ∧ m.Has f := by
  constructor
  · exact stand_of_ofWords
  · rintro ⟨f, rfl, rfl, hstand, hm⟩
    exact ofWords_of_stand hstand hm

/-- A line is a mapping just if its words stand for the fields of that. -/
theorem parse?_eq_some_iff : parse? line = some m ↔ ∃ f, Shows line f ∧ m.Has f := by
  rw [parse?_eq_some_iff_words]
  constructor
  · rintro ⟨range, perms, offset, device, inode, rest, hwords, h⟩
    obtain ⟨f, rfl, rfl, hstand, hm⟩ := ofWords_eq_some_iff.1 h
    exact ⟨f, ⟨range, offset, device, inode, hwords, hstand⟩, hm⟩
  · rintro ⟨f, ⟨range, offset, device, inode, hwords, hstand⟩, hm⟩
    exact ⟨range, f.perms, offset, device, inode, f.rest, hwords, ofWords_of_stand hstand hm⟩

/-- There is a mapping of any fields that words stand for. -/
theorem exists_has {f : Fields} (h : Stand range offset inode f) : ∃ m : Mapping, m.Has f := by
  obtain ⟨⟨start, stop, -, -, hstart, hstop⟩, -, -, hoffset, hinode⟩ := h
  obtain ⟨front, back, hrest, hfront, hback, hbare⟩ :=
    Text.trim_eq_iff.1 (Eq.refl (Text.trim f.rest))
  have hfits : ∀ n < 2 ^ 64, n.toUInt64.toNat = n := fun n hn => Nat.mod_eq_of_lt hn
  let path? := if f.inode.toUInt64 ≠ 0 ∧ Text.trim f.rest ≠ []
    then some (String.ofList (Text.trim f.rest)) else none
  refine ⟨⟨⟨f.start.toUInt64, f.stop.toUInt64, f.offset.toUInt64⟩, String.ofList f.perms,
    f.inode.toUInt64, path?⟩, hfits _ hstart.1, hfits _ hstop.1, rfl, hfits _ hoffset.1,
    hfits _ hinode.1, ?_⟩
  exact ⟨front, Text.trim f.rest, back, hrest, hfront, hback, hbare, rfl⟩

/-! ## Writing -/

/-- The line is written from the fields of the mapping and a path. -/
def Writes (line : List Char) (m : Mapping) (path : List Char) : Prop :=
  ∃ outer start stop perms offset device inode gap₁ gap₂ gap₃ gap₄ gap₅ padding,
    line = outer ++ (start ++ '-' :: stop) ++ gap₁ ++ perms ++ gap₂ ++ offset ++ gap₃ ++ device
      ++ gap₄ ++ inode ++ gap₅ ++ path ++ padding
    ∧ Text.Blanks outer ∧ Text.Blanks padding
    ∧ (∀ gap ∈ [gap₁, gap₂, gap₃, gap₄, gap₅], gap ≠ [] ∧ Text.Blanks gap)
    ∧ Text.SpellsWord 16 start m.range.start.toNat ∧ Text.SpellsWord 16 stop m.range.stop.toNat
    ∧ m.range.start ≤ m.range.stop
    ∧ String.ofList perms = m.perms ∧ Text.Solid perms ∧ m.perms.utf8ByteSize = 4
    ∧ Text.SpellsWord 16 offset m.range.offset.toNat ∧ Text.Solid device
    ∧ Text.SpellsWord 10 inode m.inode.toNat
    ∧ path ≠ [] ∧ Text.Bare path

/-- No dash stands in a hexadecimal number, so the first one parts the two. -/
theorem dash_notMem {n : Nat} {s : List Char} (h : Text.SpellsWord 16 s n) : '-' ∉ s := by
  obtain ⟨-, digits, hs, hdigits⟩ := h
  have hdash : '-' ∉ digits := hdigits.notMem Text.radix_sixteen rfl
  obtain rfl | rfl := hs
  · exact hdash
  · simpa using hdash

/-- Two numbers and the dash between them are one word. -/
theorem solid_range {start stop : List Char} (hstart : Text.Solid start) (hstop : Text.Solid stop) :
    Text.Solid (start ++ '-' :: stop) := by
  refine ⟨by simp, fun c hc => ?_⟩
  rcases List.mem_append.1 hc with hc | hc
  · exact hstart.2 c hc
  · rcases List.mem_cons.1 hc with rfl | hc
    · rfl
    · exact hstop.2 c hc

/-- What is written is shown, with the path between the last blanks. -/
theorem shows_of_writes {path : List Char} (h : Writes line m path) :
    ∃ f, Shows line f ∧ Has { m with
      path := if m.inode = 0 then none else some (String.ofList path) } f := by
  obtain ⟨outer, start, stop, perms, offset, device, inode, gap₁, gap₂, gap₃, gap₄, gap₅, padding,
    rfl, houter, hpadding, hgaps, hstart, hstop, hle, hperms, hsolid, hbytes, hoffset, hdevice,
    hinode, hpath, hbare⟩ := h
  have hgap : ∀ gap ∈ [gap₁, gap₂, gap₃, gap₄, gap₅], ∀ s, Text.EndsWord (gap ++ s) :=
    fun gap hmem s => Text.endsWord_append (hgaps gap hmem).1 (hgaps gap hmem).2 s
  have hrange := solid_range (hstart.solid Text.radix_sixteen) (hstop.solid Text.radix_sixteen)
  have hoffset' := hoffset.solid Text.radix_sixteen
  have hinode' := hinode.solid Text.radix_ten
  refine ⟨⟨m.range.start.toNat, m.range.stop.toNat, perms, m.range.offset.toNat, m.inode.toNat,
    gap₅ ++ (path ++ padding)⟩, ⟨start ++ '-' :: stop, offset, device, inode, ?_, ?_⟩, ?_⟩
  · -- as a word, the range is in one piece
    generalize start ++ '-' :: stop = range at hrange ⊢
    simp only [List.append_assoc]
    refine .cons houter hrange (hgap gap₁ (by simp) _) ?_
    refine .cons (hgaps gap₁ (by simp)).2 hsolid (hgap gap₂ (by simp) _) ?_
    refine .cons (hgaps gap₂ (by simp)).2 hoffset' (hgap gap₃ (by simp) _) ?_
    refine .cons (hgaps gap₃ (by simp)).2 hdevice (hgap gap₄ (by simp) _) ?_
    exact .cons (hgaps gap₄ (by simp)).2 hinode' (hgap gap₅ (by simp) _) (.nil _)
  · exact ⟨⟨start, stop, rfl, dash_notMem hstart, hstart, hstop⟩, hle, hperms ▸ hbytes, hoffset,
      hinode⟩
  · refine ⟨rfl, rfl, hperms.symm, rfl, rfl, gap₅, path, padding, rfl, (hgaps gap₅ (by simp)).2,
      hpadding, hbare, ?_⟩
    show (if m.inode = 0 then none else _) = if m.inode ≠ 0 ∧ path ≠ [] then _ else none
    -- without an inode there is no file, whatever stands in the place of its path
    by_cases hzero : m.inode = 0
    · rw [if_pos hzero, if_neg fun h => h.1 hzero]
    · rw [if_neg hzero, if_pos ⟨hzero, hpath⟩]

/-! ## The grammar -/

/-- The fields are those of what is read, whatever words they are shown by. -/
theorem has_iff_of_shows {f : Fields} (h : Shows line f) : parse? line = some m ↔ m.Has f := by
  constructor
  · intro hparse
    obtain ⟨range, offset, device, inode, -, hstand⟩ := id h
    obtain ⟨m', hm'⟩ := exists_has hstand
    have hsame : some m = some m' := hparse.symm.trans (parse?_eq_some_iff.2 ⟨f, h, hm'⟩)
    rwa [Option.some.inj hsame]
  · intro hm
    exact parse?_eq_some_iff.2 ⟨f, h, hm⟩

/-- **THE GRAMMAR OF A MAPPING**: a line is read just if its first five words are those of a
    mapping, and then it is read for the fields that they stand for; and whatever way it is
    written in, a mapping is read back, with its path unless the inode is zero. -/
theorem parse?_by_grammar (line : List Char) :
    ((parse? line).isSome = true ↔ ∃ f, Shows line f)
    ∧ (∀ f, Shows line f → ∀ m : Mapping, parse? line = some m ↔ m.Has f)
    ∧ ∀ (m : Mapping) (path : List Char), Writes line m path → parse? line
        = some { m with path := if m.inode = 0 then none else some (String.ofList path) } := by
  refine ⟨?_, fun f hshows m => has_iff_of_shows hshows, fun m path hwrites => ?_⟩
  · rw [Option.isSome_iff_exists]
    constructor
    · rintro ⟨m, hparse⟩
      obtain ⟨f, hshows, -⟩ := parse?_eq_some_iff.1 hparse
      exact ⟨f, hshows⟩
    · rintro ⟨f, hshows⟩
      obtain ⟨range, offset, device, inode, -, hstand⟩ := id hshows
      obtain ⟨m, hm⟩ := exists_has hstand
      exact ⟨m, (has_iff_of_shows hshows).2 hm⟩
  · exact parse?_eq_some_iff.2 (shows_of_writes hwrites)

/-- A file in a directory that ends in a blank. -/
def wide : Mapping := ⟨⟨0x1000, 0x2000, 0x10⟩, "r-xp", 7, some "/my / a"⟩

def wideLine : List Char := "\t1000-+2000 r-xp  010 08:01\t7 \n/my / a ".toList

/-- A line with tabs, a plus sign and a line break among its blanks, a zero in front of a number
    and blanks inside its path. -/
theorem parse?_by_grammar_wide :
    Writes wideLine wide "/my / a".toList ∧ parse? wideLine = some wide
      ∧ ∃ f, Shows wideLine f ∧ wide.Has f := by
  obtain ⟨hsome, hread, hwritten⟩ := parse?_by_grammar wideLine
  have hwrites : Writes wideLine wide "/my / a".toList := by
    refine ⟨"\t".toList, "1000".toList, "+2000".toList, "r-xp".toList, "010".toList, "08:01".toList,
      "7".toList, " ".toList, "  ".toList, " ".toList, "\t".toList, " \n".toList, " ".toList, rfl,
      by decide, by decide, by decide, ⟨by decide, _, Or.inl rfl, 0, rfl⟩,
      ⟨by decide, _, Or.inr rfl, 0, rfl⟩, by decide, rfl, by decide, rfl,
      ⟨by decide, _, Or.inl rfl, 1, rfl⟩, by decide, ⟨by decide, _, Or.inl rfl, 0, rfl⟩,
      by decide, by decide⟩
  have hparse : parse? wideLine = some wide := hwritten wide _ hwrites
  obtain ⟨f, hshows⟩ := hsome.1 (hparse ▸ rfl)
  exact ⟨hwrites, hparse, f, hshows, (hread f hshows wide).1 hparse⟩

end ExecTruth.Mapping
