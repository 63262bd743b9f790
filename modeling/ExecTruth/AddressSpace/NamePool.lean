import ExecTruth.Files.Path

/-! # Name pools — paths that stand for all paths that are the same

    A pool keeps one spelling of every path it was given, the first one.  The place
    of that spelling is the name that all spellings of the path share. -/

namespace ExecTruth

/-- Spellings of paths, no two of which are the same path. -/
structure NamePool where
  spellings : List Path
  distinct : spellings.Pairwise fun p q => ¬ p.Same q

/-- A path of a pool, by the place of its spelling. -/
abbrev NameId := Nat

namespace NamePool

/-- The pool without names. -/
def empty : NamePool := ⟨[], List.Pairwise.nil⟩

instance : EmptyCollection NamePool := ⟨empty⟩

instance : Inhabited NamePool := ⟨empty⟩

/-- The number of names. -/
def size (pool : NamePool) : Nat := pool.spellings.length

/-- The name of a path. -/
def find? (pool : NamePool) (p : Path) : Option NameId :=
  pool.spellings.findIdx? fun q => decide (q.Same p)

/-- A spelling that is not found differs from those there, so no path has two. -/
theorem pairwise_concat {pool : NamePool} {p : Path} (h : pool.find? p = none) :
    (pool.spellings ++ [p]).Pairwise fun p q => ¬ p.Same q := by
  refine List.pairwise_append.2 ⟨pool.distinct, List.pairwise_singleton _ _, ?_⟩
  intro q hq r hr
  rw [List.mem_singleton.1 hr]
  simpa using List.findIdx?_eq_none_iff.1 h q hq

/-- The name of a path, given to it if it has none. -/
def intern (pool : NamePool) (p : Path) : NameId × NamePool :=
  match h : pool.find? p with
  | some id => (id, pool)
  | none => (pool.size, ⟨pool.spellings ++ [p], pairwise_concat h⟩)

/-- The spelling of a name. -/
def spelling? (pool : NamePool) (id : NameId) : Option Path := pool.spellings[id]?

/-- The names of several paths, one after the other. -/
def internAll (pool : NamePool) : List Path → List NameId × NamePool
  | [] => ([], pool)
  | p :: ps =>
      let (id, pool) := pool.intern p
      let (ids, pool) := pool.internAll ps
      (id :: ids, pool)

end NamePool

end ExecTruth
