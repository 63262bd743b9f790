import ExecTruth.Proofs.AddressSpace.Descriptions
import ExecTruth.Proofs.Files.Spellings
import Mathlib.Data.List.Dedup

/-! # Interned names — one name for all spellings of a path

    Of paths that are named one after the other, two get the same name exactly if they are
    the same path, and the pool keeps the spelling of the first of them.  That holds for every
    history of a pool, because one more path changes no name that was given before
    (`find?_of_mem_zip`) and adds a spelling only if none of the path is there
    (`find?_spellings_intern`).

    A map that is made of a description compares names only, so it does not depend on the
    pool in which its target has a name, and a target without a name has no range
    (`names_by_components`). -/

namespace ExecTruth

namespace NamePool

variable {pool : NamePool} {p q : Path} {id : NameId} {ps qs : List Path}

/-- Paths may be interned in two parts. -/
theorem internAll_append (pool : NamePool) (ps qs : List Path) :
    pool.internAll (ps ++ qs) = ((pool.internAll ps).1 ++ ((pool.internAll ps).2.internAll qs).1,
      ((pool.internAll ps).2.internAll qs).2) := by
  induction ps generalizing pool with
  | nil => rfl
  | cons p ps ih => rw [List.cons_append, internAll_cons, ih, internAll_cons]; rfl

/-- Every path has a name. -/
theorem length_internAll (pool : NamePool) (ps : List Path) :
    (pool.internAll ps).1.length = ps.length := by
  induction ps generalizing pool with
  | nil => rfl
  | cons p ps ih => exact congrArg (· + 1) (ih _)

/-- The name that a path was given is still its name in the end. -/
theorem find?_of_mem_zip (h : (p, id) ∈ ps.zip (pool.internAll ps).1) :
    (pool.internAll ps).2.find? p = some id := by
  -- a name once given is kept by all that is interned later
  induction ps generalizing pool with
  | nil => exact nomatch h
  | cons q ps ih =>
      rw [internAll_cons] at h ⊢
      rcases List.mem_cons.1 h with heq | h
      · cases heq
        have hnamed : (pool.intern p).2.find? p = some (pool.intern p).1 :=
          (find?_intern pool p p).trans (if_pos rfl)
        exact find?_internAll_of_some hnamed ps
      · exact ih h

/-! ## Spellings -/

/-- Spellings stay, and new ones come behind them. -/
theorem prefix_spellings_internAll (pool : NamePool) (ps : List Path) :
    pool.spellings <+: (pool.internAll ps).2.spellings := by
  induction ps generalizing pool with
  | nil => exact List.prefix_rfl
  | cons p ps ih =>
      refine List.IsPrefix.trans ?_ (ih (pool.intern p).2)
      cases hp : pool.find? p with
      | some id =>
          simp only [intern_of_some hp, List.prefix_rfl]
      | none =>
          rw [intern_of_none hp]
          exact List.prefix_append _ _

/-- A name keeps its spelling. -/
theorem spelling?_internAll_of_some (h : pool.spelling? id = some p) (ps : List Path) :
    (pool.internAll ps).2.spelling? id = some p := by
  obtain ⟨more, hmore⟩ := prefix_spellings_internAll pool ps
  obtain ⟨hlt, hget⟩ := List.getElem?_eq_some_iff.1 h
  rw [spelling?, ← hmore, List.getElem?_append_left hlt]
  exact h

/-- The spelling of the name of a path is the one that is the same path. -/
theorem spelling?_of_find? (h : pool.find? p = some id) :
    pool.spelling? id = pool.spellings.find? (·.Same p) := by
  obtain ⟨hlt, hsame, hfirst⟩ := List.findIdx?_eq_some_iff_getElem.1 h
  have hfound : pool.spellings.find? (·.Same p) = some pool.spellings[id] := by
    refine List.find?_eq_some_iff_getElem.2 ⟨hsame, id, hlt, rfl, fun j hj => ?_⟩
    rw [Bool.not_eq_true', Bool.eq_false_iff]
    exact hfirst j hj
  rw [hfound, spelling?, List.getElem?_eq_getElem hlt]

/-- Naming a path adds its spelling behind those of others, unless one of it is there. -/
theorem find?_spellings_intern (pool : NamePool) (p q : Path) :
    (pool.intern p).2.spellings.find? (·.Same q) = (pool.spellings ++ [p]).find? (·.Same q) := by
  cases hp : pool.find? p with
  | none => rw [intern_of_none hp]
  | some id =>
      rw [intern_of_some hp, List.find?_append]
      by_cases hsame : p.Same q
      · -- a spelling of the path is there
        obtain ⟨hlt, hspelt, -⟩ := List.findIdx?_eq_some_iff_getElem.1 hp
        have hq : pool.spellings[id].Same q := (of_decide_eq_true hspelt).trans hsame
        have hfound : (pool.spellings.find? (·.Same q)).isSome :=
          List.find?_isSome.2 ⟨_, List.getElem_mem hlt, decide_eq_true hq⟩
        exact (Option.or_of_isSome hfound).symm
      · rw [List.find?_cons_of_neg (by simpa using hsame), List.find?_nil, Option.or_none]

/-- The spelling of a path is the first one ever met that has its components. -/
theorem find?_spellings_internAll (pool : NamePool) (ps : List Path) (q : Path) :
    (pool.internAll ps).2.spellings.find? (·.Same q)
      = (pool.spellings ++ ps).find? (·.Same q) := by
  induction ps generalizing pool with
  | nil => rw [List.append_nil]; rfl
  | cons p ps ih =>
      rw [internAll_cons]
      dsimp only
      rw [ih, List.find?_append, find?_spellings_intern, ← List.find?_append, List.append_assoc]
      rfl

/-- The components of the spellings are those of the paths that were named. -/
theorem mem_spellings_iff (ps : List Path) (cs : List Path.Component) :
    cs ∈ (empty.internAll ps).2.spellings.map Path.components ↔ cs ∈ ps.map Path.components := by
  have hsame : ∀ q : Path,
      (∃ s ∈ (empty.internAll ps).2.spellings, s.Same q) ↔ ∃ s ∈ ps, s.Same q := by
    intro q
    have hfind := congrArg Option.isSome (find?_spellings_internAll empty ps q)
    rw [show empty.spellings ++ ps = ps from rfl, Bool.eq_iff_iff, List.find?_isSome,
      List.find?_isSome] at hfind
    simpa only [decide_eq_true_eq] using hfind
  constructor
  · intro h
    obtain ⟨s, hs, rfl⟩ := List.mem_map.1 h
    exact List.mem_map.2 ((hsame s).1 ⟨s, hs, rfl⟩)
  · intro h
    obtain ⟨s, hs, rfl⟩ := List.mem_map.1 h
    exact List.mem_map.2 ((hsame s).2 ⟨s, hs, rfl⟩)

/-- A pool has a name for each list of components among the paths that were named. -/
theorem size_internAll (ps : List Path) :
    (empty.internAll ps).2.size = (ps.map Path.components).dedup.length := by
  have hnodup : ((empty.internAll ps).2.spellings.map Path.components).Nodup :=
    List.pairwise_map.2 (empty.internAll ps).2.distinct
  have hperm := (List.perm_ext_iff_of_nodup hnodup (List.nodup_dedup (ps.map Path.components))).2
    fun cs => (mem_spellings_iff ps cs).trans List.mem_dedup.symm
  rw [size, ← List.length_map Path.components]
  exact hperm.length_eq

end NamePool

namespace AddressMap

/-- All spellings of a target have the same ranges. -/
theorem ofDescription_congr {target target' : Path} (h : target.Same target') (text : String) :
    ofDescription target text = ofDescription target' text := by
  have hrange : Mapping.rangeOf? target = Mapping.rangeOf? target' := by
    funext m
    rw [Mapping.rangeOf?, Mapping.rangeOf?]
    congr 1
    funext p
    have hiff : (Path.ofString p).Same target ↔ (Path.ofString p).Same target' :=
      ⟨fun hp => hp.trans h, fun hp => hp.trans h.symm⟩
    rw [if_congr hiff rfl rfl]
  rw [ofDescription, ofDescription, Mapping.rangesOf, Mapping.rangesOf, hrange]

/-- A target without a name has no range. -/
theorem ofText_none (text : String) (pool : NamePool) : (ofText text none pool).1
    = match (Mapping.ofText text).2 with
      | some fault => .error fault
      | none => .ok ⟨.empty⟩ := by
  rw [ofText]
  dsimp only
  cases (Mapping.ofText text).2 with
  | some fault => rfl
  | none =>
      dsimp only
      rw [List.filter_eq_nil_iff.2 fun e _ => by simp]
      rfl

end AddressMap

open Relation (ReflTransGen)

/-- **INTERNED NAMES**.  Whatever paths are named one after the other, two calls give the same
    name exactly if their paths are the same, which is to say that they come to one spelling
    when what does not count is left out.  A name has the spelling that was first, there are
    as many names as there are different paths, and later calls change neither names nor
    spellings.

    So a description gives a target the same ranges, or the same fault, in all pools in which
    the target has a name, by whatever spelling.  A target without a name has no ranges. -/
theorem NamePool.names_by_components (paths later : List Path) :
    let names := (empty.internAll paths).1
    let pool := (empty.internAll paths).2
    let calls := paths.zip names
    (∀ p q : Path, p.Same q ↔ ∃ bytes,
      ReflTransGen Path.Drops p.bytes bytes ∧ ReflTransGen Path.Drops q.bytes bytes)
    ∧ names.length = paths.length
    ∧ (∀ call ∈ calls, ∀ call' ∈ calls, call.2 = call'.2 ↔ call.1.Same call'.1)
    ∧ (∀ call ∈ calls, pool.find? call.1 = some call.2
      ∧ pool.spelling? call.2 = paths.find? (·.Same call.1))
    ∧ pool.size = (paths.map Path.components).dedup.length
    ∧ names <+: (empty.internAll (paths ++ later)).1
    ∧ (∀ (name : NameId) (spelling : Path), pool.spelling? name = some spelling →
      (empty.internAll (paths ++ later)).2.spelling? name = some spelling)
    ∧ (∀ (text : String) (target target' : Path) (held held' : NamePool) (name name' : NameId),
      target.Same target' → held.find? target = some name → held'.find? target' = some name' →
      (AddressMap.ofText text (some name) held).1 = (AddressMap.ofText text (some name') held').1)
    ∧ ∀ (text : String) (held : NamePool), (AddressMap.ofText text none held).1
      = match (Mapping.ofText text).2 with
        | some fault => .error fault
        | none => .ok ⟨.empty⟩ := by
  intro names pool calls
  have hlater := internAll_append empty paths later
  have hnamed : ∀ call ∈ calls, pool.find? call.1 = some call.2 := fun call hcall =>
    find?_of_mem_zip hcall
  refine ⟨fun p q => Path.same_iff_drops, length_internAll empty paths,
    fun call hcall call' hcall' => ?_, fun call hcall => ⟨hnamed call hcall, ?_⟩,
    size_internAll paths, ?_, fun name spelling hspelling => ?_,
    fun text target target' held held' name name' hsame hheld hheld' => ?_,
    AddressMap.ofText_none⟩
  · constructor
    · intro heq
      exact same_of_find? (hnamed call hcall) (heq ▸ hnamed call' hcall')
    · intro hsame
      have hnames := find?_congr pool hsame
      rw [hnamed call hcall, hnamed call' hcall'] at hnames
      exact Option.some.inj hnames
  · rw [spelling?_of_find? (hnamed call hcall)]
    exact find?_spellings_internAll empty paths call.1
  · rw [hlater]
    exact List.prefix_append _ _
  · rw [hlater]
    exact spelling?_internAll_of_some hspelling later
  · -- the pools drop out: either reading is one for the components of its target
    rw [AddressMap.ofText_eq hheld, AddressMap.ofText_eq hheld',
      AddressMap.ofDescription_congr hsame]

private def fivePaths : List Path :=
  ["/a/b", "./a", "/a//./b/", "a", "/a/../b"].map Path.ofString

private def otherPaths : List Path := ["x", "/a/b/"].map Path.ofString

private def twoLines : String :=
  "1000-2000 r-xp 0 08:01 7 /a/./b\n3000-4000 r-xp 0 08:01 8 ./a\n"

/-- The third path is the first again, and no other two are the same.  In a pool that knows
    the first by another spelling and another name, the range is the same. -/
theorem NamePool.names_by_components_five :
    let pool := (empty.internAll fivePaths).2
    let other := (empty.internAll otherPaths).2
    (empty.internAll fivePaths).1 = [0, 1, 0, 2, 3]
    ∧ pool.spelling? 0 = some (Path.ofString "/a/b") ∧ pool.size = 4
    ∧ (Path.ofString "/a/b").Same (Path.ofString "/a/b/")
    ∧ pool.find? (Path.ofString "/a/b") = some 0 ∧ other.find? (Path.ofString "/a/b/") = some 1
    ∧ (AddressMap.ofText twoLines (some 0) pool).1 = .ok (.ofRanges [⟨0x1000, 0x2000, 0⟩])
    ∧ (AddressMap.ofText twoLines (some 1) other).1 = .ok (.ofRanges [⟨0x1000, 0x2000, 0⟩]) := by
  intro pool other
  obtain ⟨-, -, -, hcalls, -, -, -, hranges, -⟩ := names_by_components fivePaths []
  have hnamed := hcalls (Path.ofString "/a//./b/", 0) (by decide)
  have hother : other.find? (Path.ofString "/a/b/") = some 1 := by decide
  have hsame : (Path.ofString "/a/b").Same (Path.ofString "/a/b/") := by decide
  have hpool : pool.find? (Path.ofString "/a/b") = some 0 := by decide
  have hread : (AddressMap.ofText twoLines (some 0) pool).1
      = .ok (.ofRanges [⟨0x1000, 0x2000, 0⟩]) := by rfl
  refine ⟨by decide, hnamed.2.trans (by decide), by decide, hsame, hpool, hother, hread, ?_⟩
  exact (hranges twoLines _ _ pool other 0 1 hsame hpool hother).symm.trans hread

end ExecTruth
