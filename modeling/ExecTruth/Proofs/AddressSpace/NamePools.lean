import ExecTruth.AddressSpace.NamePool

/-! # Names in a pool — what naming one path does to the names of all

    Naming a path gives a name to its spellings and changes no name that was given before
    (`find?_intern`).  So whoever has a name keeps it while other paths are named, and a
    path is given that name exactly if it is the same path (`intern_eq_iff_same`).  It does
    not matter which other names the pool holds: of paths that are named one after the
    other, those with the name of a path are those that are the same (`filter_internAll`). -/

namespace ExecTruth.NamePool

variable {pool : NamePool} {p q : Path} {id : NameId}

/-- All spellings of a path have one name. -/
theorem find?_congr (pool : NamePool) (h : p.Same q) : pool.find? p = pool.find? q := by
  have hspelling : (fun r : Path => decide (r.Same p)) = fun r => decide (r.Same q) := by
    funext r
    have hiff : r.Same p ↔ r.Same q := ⟨fun hr => hr.trans h, fun hr => hr.trans h.symm⟩
    exact decide_eq_decide.2 hiff
  rw [find?, hspelling]
  rfl

/-- Paths with one name have the same components. -/
theorem same_of_find? (hp : pool.find? p = some id) (hq : pool.find? q = some id) : p.Same q := by
  obtain ⟨hid, hsame, -⟩ := List.findIdx?_eq_some_iff_getElem.1 hp
  obtain ⟨_, hsame', -⟩ := List.findIdx?_eq_some_iff_getElem.1 hq
  exact (of_decide_eq_true hsame).symm.trans (of_decide_eq_true hsame')

/-- A path that has a name keeps it, and nothing changes. -/
theorem intern_of_some (h : pool.find? p = some id) : pool.intern p = (id, pool) := by
  unfold intern
  split
  · next heq => rw [Option.some.inj (heq.symm.trans h)]
  · next heq => exact nomatch heq.symm.trans h

/-- A new path is named by the number of those before. -/
theorem intern_of_none (h : pool.find? p = none) :
    pool.intern p = (pool.size, ⟨pool.spellings ++ [p], pairwise_concat h⟩) := by
  unfold intern
  split
  · next heq => exact nomatch heq.symm.trans h
  · rfl

/-- Naming a path gives its spellings their name, and leaves all other names as they are. -/
theorem find?_intern (pool : NamePool) (p q : Path) :
    (pool.intern p).2.find? q
      = if p.Same q then some (pool.intern p).1 else pool.find? q := by
  cases hp : pool.find? p with
  | some id =>
      rw [intern_of_some hp]
      by_cases hsame : p.Same q
      · rw [if_pos hsame, ← find?_congr pool hsame, hp]
      · rw [if_neg hsame]
  | none =>
      rw [intern_of_none hp]
      show List.findIdx? _ (pool.spellings ++ [p]) = _
      rw [List.findIdx?_append, List.findIdx?_singleton]
      by_cases hsame : p.Same q
      · -- no spelling was there before, so the new one is found
        have hq : pool.find? q = none := by rw [← find?_congr pool hsame, hp]
        rw [if_pos hsame, if_pos (decide_eq_true hsame)]
        rw [find?] at hq
        rw [hq]
        show some (0 + pool.spellings.length) = some pool.spellings.length
        rw [Nat.zero_add]
      · rw [if_neg hsame, if_neg (by simp [hsame])]
        exact Option.or_none

/-- Interning takes no name from a path. -/
theorem find?_intern_of_some (hq : pool.find? q = some id) (p : Path) :
    (pool.intern p).2.find? q = some id := by
  rw [find?_intern]
  by_cases hsame : p.Same q
  · have hp : pool.find? p = some id := (find?_congr pool hsame).trans hq
    rw [if_pos hsame, intern_of_some hp]
  · rw [if_neg hsame, hq]

/-- A path is given the name of another exactly if it is the same path. -/
theorem intern_eq_iff_same (hq : pool.find? q = some id) : (pool.intern p).1 = id ↔ p.Same q := by
  have hp : (pool.intern p).2.find? p = some (pool.intern p).1 :=
    (find?_intern pool p p).trans (if_pos rfl)
  constructor
  · intro heq
    rw [heq] at hp
    exact same_of_find? hp (find?_intern_of_some hq p)
  · intro hsame
    have hname : pool.find? p = some id := (find?_congr pool hsame).trans hq
    rw [intern_of_some hname]

/-! ## Several paths -/

theorem internAll_cons (pool : NamePool) (p : Path) (ps : List Path) :
    pool.internAll (p :: ps)
      = ((pool.intern p).1 :: ((pool.intern p).2.internAll ps).1,
          ((pool.intern p).2.internAll ps).2) := rfl

/-- However many paths are interned, a name stays. -/
theorem find?_internAll_of_some (hq : pool.find? q = some id) (ps : List Path) :
    (pool.internAll ps).2.find? q = some id := by
  induction ps generalizing pool with
  | nil => exact hq
  | cons p rest ih => exact ih (find?_intern_of_some hq p)

/-- Of things that come with paths, those whose paths are given the name of a path are those
    whose paths are the same. -/
theorem filter_internAll {α : Type} (hq : pool.find? q = some id) (things : List (Path × α)) :
    (((pool.internAll (things.map (·.1))).1.zip things).filter fun e => some e.1 = some id).map
        (·.2)
      = things.filter fun thing => thing.1.Same q := by
  induction things generalizing pool with
  | nil => rfl
  | cons thing rest ih =>
      have hrest := ih (find?_intern_of_some hq thing.1)
      have hname : (pool.intern thing.1).1 = id ↔ thing.1.Same q := intern_eq_iff_same hq
      rw [List.map_cons, internAll_cons, List.zip_cons_cons]
      by_cases hsame : thing.1.Same q
      · rw [List.filter_cons_of_pos (by simp [hname.2 hsame]),
          List.filter_cons_of_pos (by simp [hsame]), List.map_cons, hrest]
      · have hother : (pool.intern thing.1).1 ≠ id := fun heq => hsame (hname.1 heq)
        rw [List.filter_cons_of_neg (by simp [hother]),
          List.filter_cons_of_neg (by simp [hsame]), hrest]

end ExecTruth.NamePool
