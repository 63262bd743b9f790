import ExecTruth.Proofs.AddressSpace.Lookups
import ExecTruth.Proofs.AddressSpace.MappingGrammar
import ExecTruth.Proofs.Files.Components

/-! # Backing paths — which mappings are taken for those of the target

    A mapping with a file is written as one line, with the path of the file at its end
    (`BackedMapping`, `Writes`).  A description in which all mappings have a file is rejected
    for nothing but permissions that are no ASCII, and of a path is read all but the blanks
    that it ends in (`parse?_of_reads`): behind the fields of a line, blanks are taken for what
    fills up the line.

    So the mappings that are kept are those whose path is the target's without these blanks
    (`TakenFor`, `ofDescription_eq`).  They are the target's own, unless a path ends in blanks:
    then a mapping is dropped although it is one of the target, or kept although it is one of
    another file, but never rightly kept (`not_takenFor_and_own`). -/

namespace ExecTruth

/-- A mapping with a file. -/
structure BackedMapping where
  range : MappedRange
  ordered : range.start ≤ range.stop
  perms : List Char
  perms_length : perms.length = 4
  perms_solid : ∀ c ∈ perms, Text.isBlank c = false
  device : List Char
  device_ne_nil : device ≠ []
  device_solid : ∀ c ∈ device, Text.isBlank c = false
  inode : UInt64
  inode_ne_zero : inode ≠ 0
  path : List Char
  absolute : path.head? = some '/'
  one_line : '\n' ∉ path

namespace BackedMapping

variable {m : BackedMapping} {line front path : List Char} {target : Path}

/-- The text of a mapping in front of its path. -/
def Leads (front : List Char) (m : BackedMapping) : Prop :=
  ∃ start stop offset inode padding,
    front = (start ++ '-' :: stop) ++ ' ' :: (m.perms ++ ' ' :: (offset ++ ' ' :: (m.device
      ++ ' ' :: (inode ++ ' ' :: padding))))
    ∧ Text.Spells 16 start m.range.start.toNat ∧ Text.Spells 16 stop m.range.stop.toNat
    ∧ Text.Spells 16 offset m.range.offset.toNat ∧ Text.Spells 10 inode m.inode.toNat
    ∧ ∀ c ∈ padding, c = ' '

/-- The line that a mapping is written as. -/
def Writes (line : List Char) (m : BackedMapping) : Prop :=
  ∃ front, line = front ++ m.path ∧ Leads front m

/-- The mappings of a text, one a line; the last line feed can be missing. -/
inductive Describes : List Char → List BackedMapping → Prop where
  | nothing : Describes [] []
  | last {line : List Char} {m : BackedMapping} (h : Writes line m) : Describes line [m]
  | line {line text : List Char} {m : BackedMapping} {ms : List BackedMapping} (h : Writes line m)
      (rest : Describes text ms) : Describes (line ++ '\n' :: text) (m :: ms)

/-- What is left of the line of a mapping has its path but for blanks at the end. -/
def Reads (line : List Char) (m : BackedMapping) : Prop :=
  ∃ front path, line = front ++ path ∧ Leads front m ∧ path.head? = some '/'
    ∧ Text.trimEnd path = Text.trimEnd m.path

/-- The mapping is one of the target. -/
def Own (target : Path) (m : BackedMapping) : Prop :=
  (Path.ofString (String.ofList m.path)).Same target

/-- Without the blanks at its end, the path of the mapping is that of the target. -/
def TakenFor (target : Path) (m : BackedMapping) : Prop :=
  (Path.ofString (String.ofList (Text.trimEnd m.path))).Same target

instance (target : Path) (m : BackedMapping) : Decidable (Own target m) :=
  inferInstanceAs (Decidable (Path.Same _ _))

instance (target : Path) (m : BackedMapping) : Decidable (TakenFor target m) :=
  inferInstanceAs (Decidable (Path.Same _ _))

/-- The path of the mapping ends in a blank. -/
def BlankAtEnd (m : BackedMapping) : Prop := m.path.getLast?.any Text.isBlank = true

instance (m : BackedMapping) : Decidable (BlankAtEnd m) :=
  inferInstanceAs (Decidable (_ = true))

/-! ## Reading a line -/

/-- An absolute path stays absolute when it is trimmed at the end. -/
theorem head?_trimEnd (h : path.head? = some '/') : (Text.trimEnd path).head? = some '/' := by
  obtain ⟨blanks, hblanks, hpath⟩ := Text.exists_trimEnd_append path
  cases htrim : Text.trimEnd path with
  | nil =>
      rw [htrim, List.nil_append] at hpath
      have hblank := hblanks '/' (List.mem_of_head? (hpath ▸ h))
      exact absurd hblank (by decide)
  | cons c rest =>
      rw [hpath, htrim] at h
      exact h

/-- Of padding and a path, only the blanks at the end of the path are trimmed besides the
    padding. -/
theorem trim_append (hpadding : ∀ c ∈ front, c = ' ') (h : path.head? = some '/') :
    Text.trim (front ++ path) = Text.trimEnd path := by
  obtain ⟨rest, rfl⟩ := List.head?_eq_some_iff.1 h
  rw [Text.trim, Text.trimStart_append, Text.trimStart_cons rfl]
  intro c hc
  rw [hpadding c hc]
  rfl

/-- The permissions are a word. -/
theorem perms_ne_nil (m : BackedMapping) : m.perms ≠ [] := by
  intro h
  have hlength := m.perms_length
  rw [h] at hlength
  exact nomatch hlength

/-- What a line is read as: the mapping, less the blanks at its end. -/
theorem parse?_of_leads (hfront : Leads front m) (hpath : path.head? = some '/') :
    Mapping.parse? (front ++ path)
      = if (String.ofList m.perms).utf8ByteSize = 4 then
          some ⟨m.range, String.ofList m.perms, m.inode, some (String.ofList (Text.trimEnd path))⟩
        else none := by
  obtain ⟨start, stop, offset, inode, padding, rfl, hstart, hstop, hoffset, hinode, hpadding⟩ :=
    hfront
  have hrange := Mapping.solid_range (hstart.solid Text.radix_sixteen)
    (hstop.solid Text.radix_sixteen)
  have hcut := Text.cutOnce_eq_some_iff.2
    ⟨Eq.refl (start ++ '-' :: stop), hstart.notMem Text.radix_sixteen rfl⟩
  have hspace : Text.Blanks [' '] := by decide
  have hends : ∀ s, Text.EndsWord (' ' :: s) := Text.endsWord_append (List.cons_ne_nil _ _) hspace
  have hstring : String.ofList (Text.trimEnd path) ≠ "" := by
    obtain ⟨rest, hrest⟩ := List.head?_eq_some_iff.1 (head?_trimEnd hpath)
    rw [hrest, Ne, String.ofList_eq_empty_iff]
    exact List.cons_ne_nil _ _
  have hwords : Text.Words ((start ++ '-' :: stop) ++ ' ' :: (m.perms ++ ' ' :: (offset ++ ' '
      :: (m.device ++ ' ' :: (inode ++ ' ' :: padding)))) ++ path)
      [start ++ '-' :: stop, m.perms, offset, m.device, inode] (' ' :: padding ++ path) := by
    -- the range stays one word while the words behind it are taken apart
    generalize start ++ '-' :: stop = range at hrange
    simp only [List.append_assoc, List.cons_append]
    have hnone : Text.Blanks [] := nofun
    refine .cons hnone hrange (hends _) ?_
    refine .cons hspace ⟨m.perms_ne_nil, m.perms_solid⟩ (hends _) ?_
    refine .cons hspace (hoffset.solid Text.radix_sixteen) (hends _) ?_
    refine .cons hspace ⟨m.device_ne_nil, m.device_solid⟩ (hends _) ?_
    exact .cons hspace (hinode.solid Text.radix_ten) (hends _) (.nil _)
  have htrim : Text.trim (' ' :: padding ++ path) = Text.trimEnd path :=
    trim_append (List.forall_mem_cons.2 ⟨rfl, hpadding⟩) hpath
  rw [Mapping.parse?_of_words hwords]
  simp only [Mapping.ofWords, hcut, Text.word?_of_spells Text.radix_sixteen hstart,
    Text.word?_of_spells Text.radix_sixteen hstop,
    Text.word?_of_spells Text.radix_sixteen hoffset,
    Text.word?_of_spells Text.radix_ten hinode, htrim, Option.bind_eq_bind,
    Option.bind_some]
  by_cases hbytes : (String.ofList m.perms).utf8ByteSize = 4
  · rw [if_pos hbytes, guard, if_pos ⟨m.ordered, hbytes⟩, if_pos ⟨m.inode_ne_zero, hstring⟩]
    rfl
  · rw [if_neg hbytes, guard, if_neg fun h => hbytes h.2]
    rfl

/-- The line as it is written has the whole path. -/
theorem reads_of_writes (h : Writes line m) : Reads line m := by
  obtain ⟨front, rfl, hfront⟩ := h
  exact ⟨front, m.path, rfl, hfront, m.absolute, rfl⟩

/-- A carriage return that is lost with the line feed behind it is a blank. -/
theorem reads_endedLine_of_writes (h : Writes line m) :
    Reads (Text.endedLine line.reverse) m := by
  obtain ⟨front, rfl, hfront⟩ := h
  obtain hpath | ⟨init, c, hpath⟩ := List.eq_nil_or_concat' m.path
  · exact nomatch hpath ▸ m.absolute
  · rw [hpath, ← List.append_assoc, Text.endedLine_reverse_concat, List.append_assoc, ← hpath]
    -- a carriage return at the end of the path goes with the line feed, and is trimmed there too
    by_cases hc : c = '\r'
    · have hblank : ∀ c ∈ ['\r'], Text.isBlank c = true := List.forall_mem_singleton.2 rfl
      rw [if_pos hc]
      rw [hc] at hpath
      have habsolute : (init ++ ['\r']).head? = some '/' := hpath ▸ m.absolute
      refine ⟨front, init, rfl, hfront, ?_, hpath ▸ (Text.trimEnd_append hblank init).symm⟩
      cases init with
      | nil => exact absurd habsolute (by decide)
      | cons d init => exact habsolute
    · rw [if_neg hc]
      exact ⟨front, m.path, rfl, hfront, m.absolute, rfl⟩

/-- Such a line is read as its mapping, unless the permissions are no ASCII. -/
theorem parse?_of_reads (h : Reads line m) :
    Mapping.parse? line
      = if (String.ofList m.perms).utf8ByteSize = 4 then
          some ⟨m.range, String.ofList m.perms, m.inode, some (String.ofList (Text.trimEnd m.path))⟩
        else none := by
  obtain ⟨front, path, rfl, hfront, hpath, htrim⟩ := h
  rw [parse?_of_leads hfront hpath, htrim]

/-- A mapping is written without a line feed. -/
theorem one_line_of_writes (h : Writes line m) : '\n' ∉ line := by
  obtain ⟨_, rfl, start, stop, offset, inode, padding, rfl, hstart, hstop, hoffset, hinode,
    hpadding⟩ := h
  have hsolid : ∀ {s : List Char}, (∀ c ∈ s, Text.isBlank c = false) → '\n' ∉ s :=
    fun hs hmem => absurd (hs _ hmem) (by decide)
  have hdigits : ∀ {s : List Char} {n : Nat}, Text.Spells 16 s n → '\n' ∉ s := fun hs =>
    hsolid fun _ => hs.isBlank_of_mem Text.radix_sixteen
  have hinode' : '\n' ∉ inode := hsolid fun _ => hinode.isBlank_of_mem Text.radix_ten
  have hpadding' : '\n' ∉ padding := fun hmem => absurd (hpadding _ hmem) (by decide)
  simp [hdigits hstart, hdigits hstop, hdigits hoffset, hinode', hpadding', hsolid m.perms_solid,
    hsolid m.device_solid, m.one_line]

/-! ## Permissions -/

/-- Every character takes a byte at least. -/
theorem length_le_length_utf8 (s : List Char) :
    s.length ≤ (s.flatMap String.utf8EncodeChar).length := by
  induction s with
  | nil => exact Nat.le_refl 0
  | cons c rest ih =>
      have hpos := c.utf8Size_pos
      rw [List.flatMap_cons, List.length_append, String.length_utf8EncodeChar, List.length_cons]
      omega

/-- A text has as many bytes as characters if all of it is ASCII. -/
theorem utf8ByteSize_eq_length_iff (s : List Char) :
    (String.ofList s).utf8ByteSize = s.length ↔ ∀ c ∈ s, c.toNat < 128 := by
  have hone : ∀ c : Char, c.utf8Size = 1 ↔ c.toNat < 128 := fun c =>
    Char.utf8Size_eq_one_iff.trans (UInt32.le_iff_toNat_le.trans Nat.lt_succ_iff.symm)
  show (Text.Utf8.encode (String.ofList s)).length = _ ↔ _
  rw [Text.Utf8.encode_ofList]
  -- no character takes less than a byte, so one that takes more is not made up for by others
  induction s with
  | nil => simp
  | cons c rest ih =>
      have hpos := c.utf8Size_pos
      have hle := length_le_length_utf8 rest
      rw [List.flatMap_cons, List.length_append, String.length_utf8EncodeChar, List.length_cons,
        List.forall_mem_cons, ← ih, ← hone c]
      omega

/-- So the four permissions take four bytes if they are ASCII. -/
theorem utf8ByteSize_perms_iff (m : BackedMapping) :
    (String.ofList m.perms).utf8ByteSize = 4 ↔ ∀ c ∈ m.perms, c.toNat < 128 := by
  rw [← utf8ByteSize_eq_length_iff, m.perms_length]

/-- The line of a mapping is rejected only for its permissions. -/
theorem rejected_iff (h : Reads line m) :
    Mapping.Rejected line ↔ ∃ c ∈ m.perms, 128 ≤ c.toNat := by
  have hparse := parse?_of_reads h
  have hsolid : line.all Text.isBlank = false := by
    obtain ⟨front, path, rfl, -, hpath, -⟩ := h
    rw [List.all_eq_false]
    exact ⟨'/', List.mem_append_right _ (List.mem_of_head? hpath), by decide⟩
  rw [Mapping.Rejected, and_iff_right hsolid, hparse]
  by_cases hbytes : (String.ofList m.perms).utf8ByteSize = 4
  · rw [if_pos hbytes]
    refine iff_of_false nofun ?_
    rintro ⟨c, hc, hwide⟩
    exact Nat.not_lt.2 hwide ((utf8ByteSize_perms_iff m).1 hbytes c hc)
  · rw [if_neg hbytes]
    have hwide := mt (utf8ByteSize_perms_iff m).2 hbytes
    refine iff_of_true rfl ?_
    simpa using hwide

/-! ## Blanks at the end of a path -/

/-- A path that does not end in a blank is trimmed to itself. -/
theorem trimEnd_path (h : ¬ BlankAtEnd m) : Text.trimEnd m.path = m.path := by
  refine Text.trimEnd_of_last fun c hc => Bool.eq_false_iff.2 fun hblank => h ?_
  rw [BlankAtEnd, Option.mem_def.1 hc]
  exact hblank

/-- Such a path is taken for what it is. -/
theorem takenFor_iff_own (h : ¬ BlankAtEnd m) : TakenFor target m ↔ Own target m := by
  rw [TakenFor, trimEnd_path h, Own]

/-- A path that ends in blanks is not that of the file that it is taken for. -/
theorem not_takenFor_and_own (h : BlankAtEnd m) : ¬ (TakenFor target m ∧ Own target m) := by
  rintro ⟨htaken, hown⟩
  obtain ⟨blanks, hblanks, hpath⟩ := Text.exists_trimEnd_append m.path
  have hne : blanks ≠ [] := by
    rintro rfl
    obtain ⟨c, hc, hblank⟩ := (Option.any_eq_true _ _).1 h
    rw [hpath, List.append_nil] at hc
    rw [Text.isBlank_of_mem_getLast?_trimEnd hc] at hblank
    exact nomatch hblank
  refine Path.not_same_of_blanks (head?_trimEnd m.absolute) hne hblanks ?_
  rw [← hpath]
  exact htaken.trans hown.symm

end BackedMapping

namespace AddressMap

open BackedMapping

variable {m : BackedMapping} {ms : List BackedMapping} {lines : List (List Char)} {text : String}
  {target : Path}

/-- The ranges of some of the mappings, in their order. -/
def rangesWhere (own : BackedMapping → Prop) [DecidablePred own] (ms : List BackedMapping) :
    List MappedRange :=
  ms.filterMap fun m => if own m then some m.range else none

/-- The map keeps the ranges of some of the mappings, the last one for each first address. -/
def Keeps (map : AddressMap) (own : BackedMapping → Prop) (ms : List BackedMapping) : Prop :=
  ∀ start r, map.ranges.find? start = some r ↔ ∃ front m back, ms = front ++ m :: back
    ∧ own m ∧ m.range = r ∧ r.start = start ∧ ∀ m' ∈ back, own m' → m'.range.start ≠ start

/-! ## Reading a description -/

/-- The lines of a description are those of its mappings, each with its path but for blanks at the
    end. -/
theorem reads_of_describes {text : List Char} (h : Describes text ms) :
    List.Forall₂ Reads (Text.lines text) ms := by
  induction h with
  | nothing => exact .nil
  | @last line m hwrites =>
      have hne : line ≠ [] := by
        obtain ⟨front, rfl, -⟩ := hwrites
        obtain ⟨rest, hpath⟩ := List.head?_eq_some_iff.1 m.absolute
        simp [hpath]
      rw [Text.lines_of_not_mem (one_line_of_writes hwrites) hne]
      exact .cons (reads_of_writes hwrites) .nil
  | line hwrites _ ih =>
      rw [Text.lines_append (one_line_of_writes hwrites)]
      exact .cons (reads_endedLine_of_writes hwrites) ih

/-- A line of them is rejected if some permissions are no ASCII. -/
theorem exists_rejected_iff (h : List.Forall₂ Reads lines ms) :
    (∃ line ∈ lines, Mapping.Rejected line) ↔ ∃ m ∈ ms, ∃ c ∈ m.perms, 128 ≤ c.toNat := by
  induction h with
  | nil => simp
  | cons hreads _ ih =>
      rw [List.exists_mem_cons_iff, List.exists_mem_cons_iff, ih, rejected_iff hreads]

/-- The ranges read are those of the mappings that are taken for the target's. -/
theorem ranges_of_reads (h : List.Forall₂ Reads lines ms)
    (hascii : ∀ m ∈ ms, ∀ c ∈ m.perms, c.toNat < 128) :
    lines.filterMap (fun line => (Mapping.parse? line).bind (Mapping.rangeOf? target))
      = rangesWhere (TakenFor target) ms := by
  rw [rangesWhere]
  induction h with
  | nil => rfl
  | cons hreads _ ih =>
      obtain ⟨hm, hrest⟩ := List.forall_mem_cons.1 hascii
      have hparse := parse?_of_reads hreads
      rw [if_pos ((utf8ByteSize_perms_iff _).2 hm)] at hparse
      rw [List.filterMap_cons, List.filterMap_cons, ih hrest, hparse]
      rfl

/-- The map is made of the mappings that are taken for those of the target. -/
theorem ofDescription_eq (h : Describes text.toList ms)
    (hascii : ∀ m ∈ ms, ∀ c ∈ m.perms, c.toNat < 128) :
    ofDescription target text = .ok (ofRanges (rangesWhere (TakenFor target) ms)) := by
  cases hanswer : ofDescription target text with
  | error fault =>
      have hrejected :=
        Mapping.exists_firstRejected_iff.1 ⟨fault, ofDescription_eq_error_iff.1 hanswer⟩
      obtain ⟨m, hm, c, hc, hwide⟩ := (exists_rejected_iff (reads_of_describes h)).1 hrejected
      exact absurd (hascii m hm c hc) (Nat.not_lt.2 hwide)
  | ok map =>
      rw [(ofDescription_eq_ok_iff.1 hanswer).2, Mapping.rangesOf,
        ranges_of_reads (reads_of_describes h) hascii]

/-- The map of some of the mappings keeps these, and of equal first addresses the last. -/
theorem keeps_ofRanges (own : BackedMapping → Prop) [DecidablePred own] (ms : List BackedMapping) :
    Keeps (ofRanges (rangesWhere own ms)) own ms := by
  intro start r
  rw [SortedMap.find?_eq_some_iff, mem_entries_ofRanges_iff]
  constructor
  · rintro ⟨front, back, hranges, hstart, hback⟩
    -- where the ranges are cut, the mappings are cut, with those skipped that have none
    obtain ⟨front', behind, rfl, -, hbehind⟩ := List.filterMap_eq_append_iff.1 hranges
    obtain ⟨skipped, m, back', rfl, -, hm, rfl⟩ := List.filterMap_eq_cons_iff.1 hbehind
    obtain ⟨hown, hr⟩ := Option.ite_none_right_eq_some.1 hm
    refine ⟨front' ++ skipped, m, back', (List.append_assoc _ _ _).symm, hown, Option.some.inj hr,
      hstart, fun m' hm' hown' => hback _ (List.mem_filterMap.2 ⟨m', hm', if_pos hown'⟩)⟩
  · rintro ⟨front, m, back, rfl, hown, rfl, hstart, hback⟩
    refine ⟨rangesWhere own front, rangesWhere own back, ?_, hstart, fun q hq => ?_⟩
    · rw [rangesWhere, List.filterMap_append]
      exact congrArg _ (List.filterMap_cons_some (if_pos hown))
    · obtain ⟨m', hm', hq⟩ := List.mem_filterMap.1 hq
      obtain ⟨hown', hrange⟩ := Option.ite_none_right_eq_some.1 hq
      exact Option.some.inj hrange ▸ hback m' hm' hown'

/-! ## Mappings that begin apart -/

/-- What a map keeps is told by which of the mappings are meant. -/
theorem Keeps.congr {map : AddressMap} {own own' : BackedMapping → Prop} (h : map.Keeps own ms)
    (hiff : ∀ m ∈ ms, own m ↔ own' m) : map.Keeps own' ms := by
  intro start r
  rw [h start r]
  refine exists_congr fun front => exists_congr fun m => exists_congr fun back => ?_
  refine and_congr_right fun hms => ?_
  have hm := hiff m (by simp [hms])
  have hback : ∀ m' ∈ back, own m' ↔ own' m' := fun m' hm' => hiff m' (by simp [hms, hm'])
  rw [hm]
  refine and_congr_right fun _ => and_congr_right fun _ => and_congr_right fun _ => ?_
  exact forall₂_congr fun m' hm' => by rw [hback m' hm']

/-- Of mappings that begin apart, the range of each one is kept or not. -/
theorem Keeps.find?_eq_iff {map : AddressMap} {own : BackedMapping → Prop} (h : map.Keeps own ms)
    (hapart : (ms.map (·.range.start)).Nodup) (hm : m ∈ ms) :
    map.ranges.find? m.range.start = some m.range ↔ own m := by
  rw [h m.range.start m.range]
  constructor
  · rintro ⟨front, m', back, rfl, hown, hrange, -⟩
    have hsame : m' = m := List.inj_on_of_nodup_map hapart (by simp) hm (by rw [hrange])
    exact hsame ▸ hown
  · intro hown
    obtain ⟨front, back, rfl⟩ := List.append_of_mem hm
    refine ⟨front, m, back, rfl, hown, rfl, rfl, fun m' hm' _ heq => ?_⟩
    rw [List.map_append, List.map_cons] at hapart
    have hfresh := (List.nodup_cons.1 (List.nodup_append.1 hapart).2.1).1
    exact hfresh (heq ▸ List.mem_map_of_mem (f := fun m : BackedMapping => m.range.start) hm')

/-- **BACKING PATHS**.  A description in which every mapping has a file with an absolute path is
    rejected only for permissions that are no ASCII.  Otherwise the map keeps the mappings whose
    path is the target's without the blanks at its end, the last one for each first address.  A
    path that does not end in blanks is taken for what it is, and one that does is not.  So if
    the mappings begin apart, the map keeps exactly those of the target unless one of them has
    a path that ends in blanks, and is that of the target with the blanks or without. -/
theorem kept_of_description (h : Describes text.toList ms) {id : NameId} {pool : NamePool}
    (htarget : pool.find? target = some id) :
    let answer := (ofText text (some id) pool).1
    ((∃ fault, answer = .error fault) ↔ ∃ m ∈ ms, ∃ c ∈ m.perms, 128 ≤ c.toNat)
    ∧ (∀ m ∈ ms, (¬ BlankAtEnd m → (TakenFor target m ↔ Own target m))
      ∧ (BlankAtEnd m → ¬ (TakenFor target m ∧ Own target m)))
    ∧ ∀ map, answer = .ok map → map.Keeps (TakenFor target) ms
      ∧ ((ms.map (·.range.start)).Nodup → (map.Keeps (Own target) ms
        ↔ ∀ m ∈ ms, BlankAtEnd m → ¬ TakenFor target m ∧ ¬ Own target m)) := by
  intro answer
  have hanswer : answer = ofDescription target text := ofText_eq htarget
  have hfault : (∃ fault, answer = .error fault) ↔ ∃ m ∈ ms, ∃ c ∈ m.perms, 128 ≤ c.toNat := by
    rw [← exists_rejected_iff (reads_of_describes h), ← Mapping.exists_firstRejected_iff, hanswer]
    exact exists_congr fun fault => ofDescription_eq_error_iff
  refine ⟨hfault, fun m _ => ⟨takenFor_iff_own, not_takenFor_and_own⟩, fun map hmap => ?_⟩
  have hascii : ∀ m ∈ ms, ∀ c ∈ m.perms, c.toNat < 128 := by
    intro m hm c hc
    refine Nat.lt_of_not_le fun hwide => ?_
    obtain ⟨fault, hfault⟩ := hfault.2 ⟨m, hm, c, hc, hwide⟩
    exact nomatch hmap.symm.trans hfault
  have hkeeps : map.Keeps (TakenFor target) ms := by
    rw [hanswer, ofDescription_eq h hascii] at hmap
    exact Except.ok.inj hmap ▸ keeps_ofRanges (TakenFor target) ms
  refine ⟨hkeeps, fun hapart => ⟨fun hown m hm hblank => ?_, fun hfree => ?_⟩⟩
  · have hboth : TakenFor target m ↔ Own target m :=
      (hkeeps.find?_eq_iff hapart hm).symm.trans (hown.find?_eq_iff hapart hm)
    have hnot : ¬ (TakenFor target m ∧ Own target m) := not_takenFor_and_own hblank
    exact ⟨fun htaken => hnot ⟨htaken, hboth.1 htaken⟩, fun hown => hnot ⟨hboth.2 hown, hown⟩⟩
  · refine hkeeps.congr fun m hm => ?_
    -- only at a blank in the end the two notions of the target part
    by_cases hblank : BlankAtEnd m
    · exact iff_of_false (hfree m hm hblank).1 (hfree m hm hblank).2
    · exact takenFor_iff_own hblank

/-- A mapping, with its range and path. -/
def mappedAt (range : MappedRange) (ordered : range.start ≤ range.stop) (path : List Char)
    (absolute : path.head? = some '/') (one_line : '\n' ∉ path) : BackedMapping where
  range := range
  ordered := ordered
  perms := ['r', '-', 'x', 'p']
  perms_length := rfl
  perms_solid := by simp [Text.isBlank]
  device := ['0', '8', ':', '0', '1']
  device_ne_nil := by simp
  device_solid := by simp [Text.isBlank]
  inode := 7
  inode_ne_zero := by decide
  path := path
  absolute := absolute
  one_line := one_line

theorem ascii_mappedAt {range : MappedRange} {ordered : range.start ≤ range.stop}
    {path : List Char} {absolute : path.head? = some '/'} {one_line : '\n' ∉ path} :
    ∀ c ∈ (mappedAt range ordered path absolute one_line).perms, c.toNat < 128 := by
  simp [mappedAt]

/-- A directory that ends in a blank, and a file that begins with one. -/
def spaced : BackedMapping :=
  mappedAt ⟨0x1000, 0x2000, 0⟩ (by decide) "/my / a".toList rfl (by decide)

def plain : BackedMapping :=
  mappedAt ⟨0x3000, 0x4000, 0x10⟩ (by decide) "/bin/a".toList rfl (by decide)

/-- A file that ends in a blank. -/
def blank : BackedMapping :=
  mappedAt ⟨0x5000, 0x6000, 0⟩ (by decide) "/bin/a ".toList rfl (by decide)

/-- Blanks inside a path stand in the line as they are. -/
theorem writes_spaced : Writes "1000-2000 r-xp 0 08:01 7 /my / a".toList spaced :=
  ⟨"1000-2000 r-xp 0 08:01 7 ".toList, rfl, "1000".toList, "2000".toList, "0".toList, "7".toList,
    [], rfl, ⟨0, rfl⟩, ⟨0, rfl⟩, ⟨0, rfl⟩, ⟨0, rfl⟩, nofun⟩

/-- More than one blank may stand in front of a path. -/
theorem writes_plain : Writes "3000-4000 r-xp 010 08:01 7  /bin/a".toList plain :=
  ⟨"3000-4000 r-xp 010 08:01 7  ".toList, rfl, "3000".toList, "4000".toList, "010".toList,
    "7".toList, [' '], rfl, ⟨0, rfl⟩, ⟨0, rfl⟩, ⟨1, rfl⟩, ⟨0, rfl⟩, by simp⟩

/-- The blank at the end of a path is the last character of its line. -/
theorem writes_blank : Writes "5000-6000 r-xp 0 08:01 7 /bin/a ".toList blank :=
  ⟨"5000-6000 r-xp 0 08:01 7 ".toList, rfl, "5000".toList, "6000".toList, "0".toList, "7".toList,
    [], rfl, ⟨0, rfl⟩, ⟨0, rfl⟩, ⟨0, rfl⟩, ⟨0, rfl⟩, nofun⟩

/-- The target is spelled with repeated separators and a `.`, and has blanks inside: of two lines
    whose paths end in no blank the map keeps its own and not the other file's. -/
theorem kept_of_description_spaced :
    let text := String.ofList ("1000-2000 r-xp 0 08:01 7 /my / a".toList ++ '\n'
      :: "3000-4000 r-xp 010 08:01 7  /bin/a".toList)
    let target := Path.ofString "/my //./ a"
    let pool := (NamePool.empty.intern target).2
    Describes text.toList [spaced, plain] ∧ pool.find? target = some 0
    ∧ ([spaced, plain].map (·.range.start)).Nodup ∧ (∀ m ∈ [spaced, plain], ¬ BlankAtEnd m)
    ∧ ∃ map, (ofText text (some 0) pool).1 = .ok map
      ∧ map.Keeps (Own target) [spaced, plain] := by
  intro text target pool
  have htext : Describes text.toList [spaced, plain] := by
    rw [String.toList_ofList]
    exact .line writes_spaced (.last writes_plain)
  have hname : pool.find? target = some 0 := rfl
  have hapart : ([spaced, plain].map (·.range.start)).Nodup := by decide
  have hend : ∀ m ∈ [spaced, plain], ¬ BlankAtEnd m := by decide
  obtain ⟨hfault, -, hmap⟩ := kept_of_description htext hname
  cases hanswer : (ofText text (some 0) pool).1 with
  | error fault =>
      obtain ⟨m, hm, c, hc, hwide⟩ := hfault.1 ⟨fault, hanswer⟩
      have hascii : c.toNat < 128 := by
        rcases List.mem_pair.1 hm with rfl | rfl <;> exact ascii_mappedAt c hc
      exact absurd hwide (Nat.not_le.2 hascii)
  | ok map =>
      have hkeeps := ((hmap map hanswer).2 hapart).2 fun m hm hblank => absurd hblank (hend m hm)
      exact ⟨htext, hname, hapart, hend, map, rfl, hkeeps⟩

/-- Of two files one is kept that is not the target, because of the blank that its path ends in. -/
theorem not_keeps_own_of_blank :
    let text := String.ofList ("3000-4000 r-xp 010 08:01 7  /bin/a".toList ++ '\n'
      :: ("5000-6000 r-xp 0 08:01 7 /bin/a ".toList ++ ['\n']))
    let target := Path.ofString "/bin/a"
    let pool := (NamePool.empty.intern target).2
    Describes text.toList [plain, blank] ∧ pool.find? target = some 0 ∧ ¬ Own target blank
    ∧ ∃ map, (ofText text (some 0) pool).1 = .ok map
      ∧ map.ranges.find? 0x5000 = some blank.range ∧ ¬ map.Keeps (Own target) [plain, blank] := by
  intro text target pool
  have htext : Describes text.toList [plain, blank] := by
    rw [String.toList_ofList]
    exact .line writes_plain (.line writes_blank .nothing)
  have hname : pool.find? target = some 0 := rfl
  have hother : ¬ Own target blank := by decide
  have hkeeps := keeps_ofRanges (TakenFor target) [plain, blank]
  have hapart : ([plain, blank].map (·.range.start)).Nodup := by decide
  have hfind := (hkeeps.find?_eq_iff (m := blank) hapart (by simp)).2 (by decide)
  refine ⟨htext, hname, hother, _, ?_, hfind, fun hown => ?_⟩
  · rw [ofText_eq hname]
    refine ofDescription_eq htext fun m hm => ?_
    rcases List.mem_pair.1 hm with rfl | rfl <;> exact ascii_mappedAt
  · exact hother ((hown.find?_eq_iff hapart (by simp)).1 hfind)

end AddressMap

end ExecTruth
