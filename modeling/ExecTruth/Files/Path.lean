import ExecTruth.Text.Lines
import ExecTruth.Text.Quoted

/-! # Paths — names of files as bytes

    A path is any byte string; a slash separates its parts.  Two paths are the
    same if their components are: empty parts do not count, nor do single dots
    except the one a relative path begins with, while double dots do.  `steps` is
    the finer reading that a walk through directories needs, where a slash at the
    end asks for a directory. -/

namespace ExecTruth

/-- A path as it is spelt. -/
structure Path where
  bytes : List UInt8
  deriving DecidableEq, Repr, Inhabited

namespace Path

/-- The byte that separates parts. -/
def slash : UInt8 := 47

/-- The byte that parts for the same or the parent directory consist of. -/
def dot : UInt8 := 46

/-- The path that a text spells. -/
def ofString (s : String) : Path := ⟨Text.Utf8.encode s⟩

/-- The path as text, with U+FFFD for what is no text. -/
def display (p : Path) : String := Text.Utf8.decodeLossy p.bytes

/-- The path in double quotes. -/
def quoted (p : Path) : String := Text.quotedBytes p.bytes

/-- Whether the path begins at the root. -/
def isAbsolute (p : Path) : Bool := p.bytes.head? == some slash

/-- The parts between slashes, empty ones included. -/
def parts (p : Path) : List (List UInt8) := Text.cutAt slash p.bytes

/-- A part of a path that counts when paths are compared. -/
inductive Component where
  /-- The root. -/
  | root
  /-- The dot that a relative path begins with. -/
  | here
  /-- Two dots. -/
  | up
  /-- Any other part. -/
  | name (bytes : List UInt8)
  deriving DecidableEq, Repr

/-- The component of a part that is not the first of a relative path. -/
def component? (part : List UInt8) : Option Component :=
  if part = [] ∨ part = [dot] then none
  else if part = [dot, dot] then some .up
  else some (.name part)

/-- The components of a path. -/
def components (p : Path) : List Component :=
  let rest := p.parts.filterMap component?
  if p.isAbsolute then .root :: rest
  else if p.parts.head? = some [dot] then .here :: rest
  else rest

/-- Whether two paths are the same component by component. -/
def Same (p q : Path) : Prop := p.components = q.components

instance (p q : Path) : Decidable (Same p q) :=
  inferInstanceAs (Decidable (p.components = q.components))

/-- The bytes of a component. -/
def Component.bytes : Component → List UInt8
  | .root => []
  | .here => [dot]
  | .up => [dot, dot]
  | .name bytes => bytes

/-- The path that components spell. -/
def ofComponents : List Component → Path
  | [.root] => ⟨[slash]⟩
  | cs => ⟨List.intercalate [slash] (cs.map Component.bytes)⟩

/-- The path without its last component; none for the root and the empty path. -/
def parent? (p : Path) : Option Path :=
  match p.components with
  | [] | [.root] => none
  | cs => some (ofComponents cs.dropLast)

/-- The last component, if it is a name. -/
def fileName? (p : Path) : Option (List UInt8) :=
  match p.components.getLast? with
  | some (.name bytes) => some bytes
  | _ => none

/-- The path of `q` as seen from the directory `p`. -/
def join (p q : Path) : Path :=
  if q.isAbsolute then q
  else if p.bytes = [] ∨ p.bytes.getLast? = some slash then ⟨p.bytes ++ q.bytes⟩
  else ⟨p.bytes ++ slash :: q.bytes⟩

/-- A file name cut at its last dot, unless that dot begins it. -/
def splitExtension (name : List UInt8) : List UInt8 × Option (List UInt8) :=
  if name = [dot, dot] then (name, none)
  else
    let after := name.reverse.takeWhile (· != dot)
    let before := (name.reverse.dropWhile (· != dot)).drop 1
    if after.length = name.length ∨ before = [] then (name, none)
    else (before.reverse, some after.reverse)

/-- Whether a file name comes before another or is the same, byte by byte. -/
def nameLe (a b : List UInt8) : Bool := !decide (b < a)

/-- One step of a walk through directories. -/
inductive Step where
  /-- To the same place, which has to be a directory. -/
  | here
  /-- To the directory above. -/
  | up
  /-- To the entry of that name. -/
  | name (bytes : List UInt8)
  /-- The slash at the end of a path, which has to lead to a directory. -/
  | trailing
  deriving DecidableEq, Repr

/-- The step of a part. -/
def step? (part : List UInt8) : Option Step :=
  if part = [] then none
  else if part = [dot] then some .here
  else if part = [dot, dot] then some .up
  else some (.name part)

/-- The steps of a path. -/
def steps (p : Path) : List Step :=
  let named := p.parts.filterMap step?
  if p.bytes.getLast? = some slash ∧ named ≠ [] then named ++ [.trailing] else named

end Path

end ExecTruth
