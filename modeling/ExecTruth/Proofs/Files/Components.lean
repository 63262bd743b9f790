import ExecTruth.Files.Path
import ExecTruth.Proofs.Digest
import ExecTruth.Proofs.Text.Cuts

/-! # Components — what tells two paths apart

    What is put behind a path, without a slash in it, changes the name at its end, unless the
    name becomes one of dots (`not_same_append`).  No blank is a slash or a dot, so that blanks
    at the end of a path make it another path (`not_same_of_blanks`). -/

namespace ExecTruth

namespace Path

variable {part bytes p w : List UInt8} {s blanks : List Char} {c : Char}

/-- Of the parts between slashes, the names are those that are neither empty nor a dot or two. -/
theorem component?_eq_name_iff : component? part = some (.name bytes)
    ↔ part = bytes ∧ part ≠ [] ∧ part ≠ [dot] ∧ part ≠ [dot, dot] := by
  rw [component?]
  by_cases hempty : part = [] ∨ part = [dot]
  · rw [if_pos hempty]
    refine iff_of_false nofun ?_
    rintro ⟨-, hne, hdot, -⟩
    exact hempty.elim hne hdot
  · rw [if_neg hempty]
    obtain ⟨hne, hdot⟩ := not_or.1 hempty
    by_cases hup : part = [dot, dot]
    · rw [if_pos hup]
      exact iff_of_false nofun fun h => h.2.2.2 hup
    · rw [if_neg hup, Option.some.injEq, Component.name.injEq]
      exact (and_iff_left ⟨hne, hdot, hup⟩).symm

/-- The slash in front is the root, and the rest is read part by part. -/
theorem components_of_absolute (h : (⟨p⟩ : Path).isAbsolute = true) :
    (⟨p⟩ : Path).components = .root :: (Text.cutAt slash p).filterMap component? := if_pos h

/-- What is put behind an absolute path leaves it absolute. -/
theorem isAbsolute_append (h : (⟨p⟩ : Path).isAbsolute = true) :
    (⟨p ++ w⟩ : Path).isAbsolute = true := by
  cases p with
  | nil => exact nomatch h
  | cons b p => exact h

/-- Bytes without slash and dot at the end of a path make it another path. -/
theorem not_same_append (habsolute : (⟨p⟩ : Path).isAbsolute = true) (hw : w ≠ [])
    (hslash : slash ∉ w) (hdot : dot ∉ w) : ¬ Same ⟨p⟩ ⟨p ++ w⟩ := by
  obtain ⟨front, last, hparts, hall⟩ := Text.cutAt_append hslash p
  have hend : ∀ part, (∀ b ∈ part, b = dot) → last ++ w ≠ part := by
    rintro part hpart rfl
    obtain ⟨b, hb⟩ := List.exists_mem_of_ne_nil w hw
    exact hdot (hpart b (List.mem_append_right _ hb) ▸ hb)
  have hname : component? (last ++ w) = some (.name (last ++ w)) :=
    component?_eq_name_iff.2 ⟨rfl, hend _ (by simp), hend _ (by simp), hend _ (by simp)⟩
  intro hsame
  rw [Same, components_of_absolute habsolute, components_of_absolute (isAbsolute_append habsolute),
    hparts, hall, List.filterMap_append, List.filterMap_append, List.cons_inj_right,
    List.append_cancel_left_eq, List.filterMap_cons_some hname] at hsame
  -- the last part was passed over before, or it was a name and is a longer one now
  cases hlast : component? last with
  | none =>
      rw [List.filterMap_cons_none hlast] at hsame
      exact nomatch hsame
  | some component =>
      rw [List.filterMap_cons_some hlast] at hsame
      rw [(List.cons.inj hsame).1] at hlast
      obtain ⟨heq, -⟩ := component?_eq_name_iff.1 hlast
      exact hw (List.self_eq_append_right.1 heq)

/-! ## Paths of text -/

/-- No byte of a blank is a slash or a dot. -/
theorem not_mem_of_blank (h : Text.isBlank c = true) :
    slash ∉ String.utf8EncodeChar c ∧ dot ∉ String.utf8EncodeChar c := by
  have hall : ∀ n ∈ [9, 10, 11, 12, 13, 0x20, 0x85, 0xA0, 0x1680, 0x2000, 0x2001, 0x2002, 0x2003,
      0x2004, 0x2005, 0x2006, 0x2007, 0x2008, 0x2009, 0x200A, 0x2028, 0x2029, 0x202F, 0x205F,
      0x3000], slash ∉ String.utf8EncodeChar (Char.ofNat n)
        ∧ dot ∉ String.utf8EncodeChar (Char.ofNat n) := by
    decide
  rw [← Char.ofNat_toNat c]
  refine hall c.toNat ?_
  have hpoint := Text.isBlank_iff.1 h
  simp only [List.mem_cons, List.not_mem_nil]
  omega

/-- A text that begins with a slash is an absolute path. -/
theorem isAbsolute_ofList (h : s.head? = some '/') :
    (ofString (String.ofList s)).isAbsolute = true := by
  obtain ⟨rest, rfl⟩ := List.head?_eq_some_iff.1 h
  rw [ofString, Text.Utf8.encode_ofList, List.flatMap_cons]
  rfl

/-- Blanks at the end of an absolute path make it another one. -/
theorem not_same_of_blanks (habsolute : s.head? = some '/') (hne : blanks ≠ [])
    (hblanks : ∀ c ∈ blanks, Text.isBlank c = true) :
    ¬ (ofString (String.ofList s)).Same (ofString (String.ofList (s ++ blanks))) := by
  have hroot := isAbsolute_ofList habsolute
  rw [ofString, Text.Utf8.encode_ofList] at hroot ⊢
  rw [ofString, Text.Utf8.encode_ofList, List.flatMap_append]
  have hfree : ∀ b ∈ blanks.flatMap String.utf8EncodeChar, b ≠ slash ∧ b ≠ dot := by
    intro b hb
    obtain ⟨c, hc, hb⟩ := List.mem_flatMap.1 hb
    obtain ⟨hslash, hdot⟩ := not_mem_of_blank (hblanks c hc)
    exact ⟨fun heq => hslash (heq ▸ hb), fun heq => hdot (heq ▸ hb)⟩
  refine not_same_append hroot ?_ (fun hb => (hfree _ hb).1 rfl) fun hb => (hfree _ hb).2 rfl
  intro hempty
  obtain ⟨c, hc⟩ := List.exists_mem_of_ne_nil blanks hne
  -- no character has no bytes
  have hbytes := congrArg List.length (List.flatMap_eq_nil_iff.1 hempty c hc)
  rw [String.length_utf8EncodeChar] at hbytes
  exact absurd hbytes (Nat.ne_of_gt c.utf8Size_pos)

end Path

end ExecTruth
