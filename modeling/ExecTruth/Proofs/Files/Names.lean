import ExecTruth.Files.Walk
import ExecTruth.Proofs.Files.Spellings
import Mathlib.Data.List.Basic

/-! # Names — the names of files, and their order byte by byte

    A name has no slash in it and is not that of the directory itself or of the one above
    (`IsName`).  Put behind the path of a directory it is the last step there (`steps_join`).  It
    has an extension exactly if there is a dot in it with something in front of it, and the
    extension is what stands behind the last dot (`splitExtension_eq_iff`).

    Sorted by distinct names, things are in strictly ascending order (`ascending_mergeSort`),
    and that order is the only one: two ascending lists of the same things are the same
    (`eq_of_ascending`). -/

namespace ExecTruth.Path

variable {name stem ending : List UInt8} {p : Path}

/-- The bytes are a part of a path, and lead to an entry of a directory. -/
structure IsName (name : List UInt8) : Prop where
  slash_notMem : slash ∉ name
  step : step? name = some (.name name)

/-- One byte that is no dot is enough. -/
theorem isName_of_mem {b : UInt8} (hslash : slash ∉ name) (hb : b ∈ name) (hdot : b ≠ dot) :
    IsName name := by
  refine ⟨hslash, ?_⟩
  have hne : name ≠ [] := List.ne_nil_of_mem hb
  have hhere : name ≠ [dot] := by
    rintro rfl
    exact hdot (List.mem_singleton.1 hb)
  have hup : name ≠ [dot, dot] := by
    rintro rfl
    exact hdot (by simpa using hb)
  rw [step?, if_neg hne, if_neg hhere, if_neg hup]

theorem IsName.ne_nil (h : IsName name) : name ≠ [] := by
  rintro rfl
  exact nomatch h.step

/-! ## Names behind paths -/

/-- The path of a name behind the path of a directory. -/
theorem join_name (hp : p.bytes ≠ []) (h : IsName name) : p.join ⟨name⟩
    = if p.bytes.getLast? = some slash then ⟨p.bytes ++ name⟩ else ⟨p.bytes ++ slash :: name⟩ := by
  have hrelative : ¬ (⟨name⟩ : Path).isAbsolute = true := by
    rw [isAbsolute, beq_iff_eq]
    intro hhead
    exact h.slash_notMem (List.mem_of_head? hhead)
  rw [join, if_neg hrelative]
  simp only [hp, false_or]

theorem parts_name (h : slash ∉ name) : (⟨name⟩ : Path).parts = [name] := by
  refine Text.cutAt_eq_iff.2 ⟨List.cons_ne_nil _ _, fun part hpart => ?_, ?_⟩
  · rw [List.mem_singleton.1 hpart]
    exact h
  · rw [List.intercalate_singleton]

/-- A name joined to a path does not change where the path begins. -/
theorem isAbsolute_join (hp : p.bytes ≠ []) (h : IsName name) :
    (p.join ⟨name⟩).isAbsolute = p.isAbsolute := by
  obtain ⟨b, bytes, hbytes⟩ := List.exists_cons_of_ne_nil hp
  rw [join_name hp h]
  split <;> simp [isAbsolute, hbytes]

/-- A slash at the end of the path of the directory does not count. -/
theorem steps_join (hp : p.bytes ≠ []) (h : IsName name) :
    (p.join ⟨name⟩).steps = p.parts.filterMap step? ++ [.name name] := by
  have hname : (⟨name⟩ : Path).parts.filterMap step? = [.name name] := by
    rw [parts_name h.slash_notMem, List.filterMap_cons_some h.step, List.filterMap_nil]
  have hlast : ∀ front, ¬ (front ++ name).getLast? = some slash := by
    intro front hend
    rw [List.getLast?_append_of_ne_nil _ h.ne_nil] at hend
    exact h.slash_notMem (List.mem_of_getLast? hend)
  have hparts : (p.join ⟨name⟩).parts.filterMap step?
      = p.parts.filterMap step? ++ [.name name] := by
    rw [join_name hp h]
    split
    · next hslash =>
        -- the empty part behind the slash is no step
        obtain ⟨front, hfront⟩ := List.getLast?_eq_some_iff.1 hslash
        have hempty : p.parts = (⟨front⟩ : Path).parts ++ [[]] := by
          obtain ⟨bytes⟩ := p
          subst hfront
          exact parts_append front []
        have hjoined : (⟨p.bytes ++ name⟩ : Path).parts
            = (⟨front⟩ : Path).parts ++ (⟨name⟩ : Path).parts := by
          rw [hfront, List.append_assoc]
          exact parts_append front name
        rw [hjoined, hempty, List.filterMap_append, List.filterMap_append, hname]
        simp [step?]
    · rw [parts_append, List.filterMap_append, hname]
  have hend : ¬ (p.join ⟨name⟩).bytes.getLast? = some slash := by
    rw [join_name hp h]
    split
    · exact hlast p.bytes
    · rw [← List.singleton_append, ← List.append_assoc]
      exact hlast (p.bytes ++ [slash])
  rw [steps, hparts, if_neg fun hslash => hend hslash.1]

/-! ## Extensions -/

/-- Behind the last dot, a name read backwards. -/
theorem dropWhile_reverse (hdot : dot ∉ ending) (stem : List UInt8) :
    (stem ++ dot :: ending).reverse.takeWhile (· != dot) = ending.reverse
    ∧ (stem ++ dot :: ending).reverse.dropWhile (· != dot) = dot :: stem.reverse := by
  have hall : ∀ b ∈ ending.reverse, (b != dot) = true := by
    intro b hb
    rw [bne_iff_ne]
    rintro rfl
    exact hdot (List.mem_reverse.1 hb)
  have hreverse : (stem ++ dot :: ending).reverse = ending.reverse ++ dot :: stem.reverse := by
    simp
  rw [hreverse, List.takeWhile_append_of_pos hall, List.dropWhile_append_of_pos hall]
  exact ⟨List.append_nil _, rfl⟩

/-- A name without a dot, or with its last dot. -/
theorem exists_last_dot (name : List UInt8) :
    dot ∉ name ∨ ∃ stem ending, dot ∉ ending ∧ name = stem ++ dot :: ending := by
  by_cases hmem : dot ∈ name
  · obtain ⟨back, front, heq, hnot⟩ := List.eq_append_cons_of_mem (List.mem_reverse.2 hmem)
    refine Or.inr ⟨front.reverse, back.reverse, fun h => hnot (List.mem_reverse.1 h), ?_⟩
    rw [← List.reverse_inj, heq]
    simp
  · exact Or.inl hmem

/-- A name without a dot has no extension. -/
theorem splitExtension_of_no_dot (h : dot ∉ name) : splitExtension name = (name, none) := by
  have hdots : name ≠ [dot, dot] := by
    rintro rfl
    exact h List.mem_cons_self
  have hall : ∀ b ∈ name.reverse, (b != dot) = true := by
    intro b hb
    rw [bne_iff_ne]
    rintro rfl
    exact h (List.mem_reverse.1 hb)
  have htake : name.reverse.takeWhile (· != dot) = name.reverse := by
    rw [← List.append_nil name.reverse, List.takeWhile_append_of_pos hall, List.takeWhile_nil]
  rw [splitExtension, if_neg hdots, htake]
  exact if_pos (Or.inl List.length_reverse)

/-- The last dot begins the extension, unless nothing stands in front of it, or the name is two
    dots. -/
theorem splitExtension_of_dot (hdot : dot ∉ ending) (stem : List UInt8) :
    splitExtension (stem ++ dot :: ending)
      = if stem = [] ∨ stem = [dot] ∧ ending = [] then (stem ++ dot :: ending, none)
        else (stem, some ending) := by
  obtain ⟨htake, hdrop⟩ := dropWhile_reverse hdot stem
  have hdots : stem ++ dot :: ending = [dot, dot] ↔ stem = [] ∧ ending = [dot]
      ∨ stem = [dot] ∧ ending = [] := by
    rcases stem with _ | ⟨b, _ | ⟨b', stem⟩⟩ <;> simp
  have hending : ending ≠ [dot] := by
    rintro rfl
    exact hdot List.mem_cons_self
  have hlength : ending.reverse.length ≠ (stem ++ dot :: ending).length := by
    simp only [List.length_reverse, List.length_append, List.length_cons]
    omega
  rw [splitExtension, htake, hdrop]
  -- of the names whose last dot is at the end, only the two dots are a special case
  by_cases hbare : stem = [dot] ∧ ending = []
  · rw [if_pos (hdots.2 (Or.inr hbare)), if_pos (Or.inr hbare)]
  · rw [if_neg fun h => (hdots.1 h).elim (fun h => hending h.2) hbare]
    simp only [hlength, hbare, false_or, or_false, List.drop_succ_cons, List.drop_zero,
      List.reverse_eq_nil_iff, List.reverse_reverse]

/-- A name has an extension if a dot stands in front of that and something in front of the
    dot, and two dots alone are no such name. -/
theorem splitExtension_eq_iff : splitExtension name = (stem, some ending)
    ↔ name = stem ++ dot :: ending ∧ dot ∉ ending ∧ stem ≠ [] ∧ ¬ (stem = [dot] ∧ ending = []) := by
  constructor
  · intro h
    rcases exists_last_dot name with hnone | ⟨stem', ending', hdot, rfl⟩
    · cases (splitExtension_of_no_dot hnone).symm.trans h
    · rw [splitExtension_of_dot hdot] at h
      split at h
      · cases h
      · next hnot =>
          cases h
          exact ⟨rfl, hdot, fun h => hnot (Or.inl h), fun h => hnot (Or.inr h)⟩
  · rintro ⟨rfl, hdot, hne, hbare⟩
    rw [splitExtension_of_dot hdot, if_neg (not_or.2 ⟨hne, hbare⟩)]

/-! ## Order -/

variable {α : Type} {key : α → List UInt8} {l l' : List α}

/-- Names are compared byte by byte, from the left. -/
theorem nameLe_iff {a b : List UInt8} : nameLe a b = true ↔ a ≤ b := by
  rw [nameLe, Bool.not_eq_true', decide_eq_false_iff_not]
  exact Iff.rfl

/-- Things with distinct keys are sorted into strictly ascending order. -/
theorem ascending_mergeSort (h : (l.map key).Nodup) :
    (l.mergeSort fun a b => nameLe (key a) (key b)).Pairwise fun a b => key a < key b := by
  have hsorted : (l.mergeSort fun a b => nameLe (key a) (key b)).Pairwise
      fun a b => nameLe (key a) (key b) := by
    refine List.pairwise_mergeSort (fun a b c hab hbc => ?_) (fun a b => ?_) l
    · exact nameLe_iff.2 (List.le_trans (nameLe_iff.1 hab) (nameLe_iff.1 hbc))
    · rw [Bool.or_eq_true, nameLe_iff, nameLe_iff]
      exact List.le_total (key a) (key b)
  have hperm := List.mergeSort_perm l fun a b => nameLe (key a) (key b)
  have hdistinct : (l.mergeSort fun a b => nameLe (key a) (key b)).Pairwise
      fun a b => key a ≠ key b := List.pairwise_map.1 ((hperm.map key).nodup_iff.2 h)
  refine hsorted.imp₂ (fun a b hle hne => ?_) hdistinct
  by_contra hlt
  exact hne (List.le_antisymm (nameLe_iff.1 hle) hlt)

/-- Strictly ascending lists of the same things are the same. -/
theorem eq_of_ascending (hl : l.Pairwise fun a b => key a < key b)
    (hl' : l'.Pairwise fun a b => key a < key b) (hmem : ∀ a, a ∈ l ↔ a ∈ l') : l = l' := by
  have hnodup : ∀ {l : List α}, (l.Pairwise fun a b => key a < key b) → l.Nodup := by
    intro l h
    refine h.imp fun {a b} hlt heq => ?_
    rw [heq] at hlt
    exact List.lt_irrefl _ hlt
  refine List.Perm.eq_of_pairwise (fun a b _ _ hab hba => ?_) hl hl'
    ((List.perm_ext_iff_of_nodup (hnodup hl) (hnodup hl')).2 hmem)
  exact absurd (List.lt_trans hab hba) (List.lt_irrefl _)

end ExecTruth.Path
