import ExecTruth.Proofs.Files.Components
import Mathlib.Data.List.Basic
import Mathlib.Logic.Relation

/-! # Spellings — what may be left out of a path

    Two spellings are the same path if leaving out bytes that do not count makes them one
    spelling: a slash behind a slash, a dot between slashes or behind the last of them, and
    the slash at the end (`same_iff_drops`).  Nothing else may be left out, so neither the dot
    that a path begins with nor two dots, nor the slash that is all of a path.

    What is left in the end is the spelling of the components (`drops_ofComponents`), and what
    is left out on the way changes none of them (`Drops.components_eq`). -/

namespace ExecTruth.Path

open Relation (ReflTransGen)

/-- The second spelling is the first without a byte or two that do not count. -/
inductive Drops : List UInt8 → List UInt8 → Prop
  /-- One of two slashes. -/
  | doubleSlash (a b : List UInt8) : Drops (a ++ slash :: slash :: b) (a ++ slash :: b)
  /-- A dot between slashes, with one of them. -/
  | dotBetween (a b : List UInt8) : Drops (a ++ slash :: dot :: slash :: b) (a ++ slash :: b)
  /-- A dot behind the last slash. -/
  | dotBehind (a : List UInt8) : Drops (a ++ [slash, dot]) (a ++ [slash])
  /-- The slash at the end. -/
  | lastSlash {a : List UInt8} (ha : a ≠ []) : Drops (a ++ [slash]) a

variable {p q : Path} {part a b : List UInt8} {parts : List (List UInt8)} {c : Component}
  {cs : List Component}

/-- The parts that are passed over are the empty ones and the dots. -/
theorem component?_eq_none_iff : component? part = none ↔ part = [] ∨ part = [dot] := by
  rw [component?]
  by_cases hempty : part = [] ∨ part = [dot]
  · rw [if_pos hempty]
    exact iff_of_true rfl hempty
  · rw [if_neg hempty]
    refine iff_of_false (fun h => ?_) hempty
    split at h <;> cases h

/-- A part is spelt as the component that it is, and never is the root. -/
theorem bytes_of_component? (h : component? part = some c) : c.bytes = part ∧ c ≠ .root := by
  cases c with
  | name bytes => exact ⟨(component?_eq_name_iff.1 h).1.symm, Component.noConfusion⟩
  | up =>
      rw [component?] at h
      split at h
      · cases h
      · split at h
        · next hup => exact ⟨hup.symm, Component.noConfusion⟩
        · cases h
  | root | here =>
      rw [component?] at h
      split at h
      · cases h
      · split at h <;> cases h

/-! ## Leaving out changes no component -/

/-- The component that the beginning of a path is, before the parts are looked at. -/
def start (p : Path) : List Component :=
  if p.isAbsolute then [.root] else if p.parts.head? = some [dot] then [.here] else []

/-- The components are that of the beginning and those of the parts. -/
theorem components_eq (p : Path) : p.components = p.start ++ p.parts.filterMap component? := by
  rw [components, start]
  split
  · rfl
  · split <;> rfl

/-- A slash ends a part on either side. -/
theorem parts_append (a b : List UInt8) :
    (⟨a ++ slash :: b⟩ : Path).parts = (⟨a⟩ : Path).parts ++ (⟨b⟩ : Path).parts := by
  rw [parts, parts, parts, Text.cutAt_eq_splitOn, Text.cutAt_eq_splitOn, Text.cutAt_eq_splitOn]
  exact List.splitOn_append_cons_self a b

/-- What stands behind a slash does not change how the path begins. -/
theorem start_append (a b : List UInt8) :
    (⟨a ++ slash :: b⟩ : Path).start = if a = [] then [.root] else (⟨a⟩ : Path).start := by
  cases a with
  | nil => rfl
  | cons c a =>
      have hhead : (⟨c :: a ++ slash :: b⟩ : Path).parts.head? = (⟨c :: a⟩ : Path).parts.head? := by
        rw [parts_append]
        exact List.head?_append_of_ne_nil _ (Text.cutAt_ne_nil slash (c :: a))
      rw [if_neg (List.cons_ne_nil c a), start, start, hhead]
      rfl

/-- What stands behind a slash has the components of its parts, and no beginning. -/
theorem components_append (a b : List UInt8) : (⟨a ++ slash :: b⟩ : Path).components
    = (if a = [] then [.root] else (⟨a⟩ : Path).start)
      ++ (⟨a⟩ : Path).parts.filterMap component? ++ (⟨b⟩ : Path).parts.filterMap component? := by
  rw [components_eq, start_append, parts_append, List.filterMap_append, List.append_assoc]

/-- Leaving out what is passed over leaves the components. -/
theorem Drops.components_eq (h : Drops a b) :
    (⟨a⟩ : Path).components = (⟨b⟩ : Path).components := by
  cases h with
  | doubleSlash a b | dotBetween a b | dotBehind a =>
      -- the part that is left out is no component
      rw [components_append, components_append]
      rfl
  | lastSlash ha =>
      -- nor is the empty part behind the slash
      rw [components_append, if_neg ha, Path.components_eq]
      exact List.append_nil _

/-- So does leaving it out again and again. -/
theorem components_of_drops (h : ReflTransGen Drops a b) :
    (⟨a⟩ : Path).components = (⟨b⟩ : Path).components := by
  induction h with
  | refl => rfl
  | tail _ hdrop ih => exact ih.trans hdrop.components_eq

/-! ## What is left in the end -/

/-- Parts behind another, each with the slash in front of it. -/
def behind (parts : List (List UInt8)) : List UInt8 := parts.flatMap (slash :: ·)

/-- Slashes stand between parts as they stand in front of all but the first. -/
theorem intercalate_eq (part : List UInt8) (parts : List (List UInt8)) :
    List.intercalate [slash] (part :: parts) = part ++ behind parts := by
  induction parts generalizing part with
  | nil => rw [List.intercalate_singleton, behind, List.flatMap_nil, List.append_nil]
  | cons next parts ih =>
      rw [List.intercalate_cons_cons, ih, List.append_assoc]
      rfl

/-- What is spelt behind the part `a`; a slash, if that were nothing at all. -/
def spelt (a : List UInt8) (cs : List Component) : List UInt8 :=
  if a ++ behind (cs.map Component.bytes) = [] then [slash]
  else a ++ behind (cs.map Component.bytes)

theorem append_behind_cons (a part : List UInt8) (parts : List (List UInt8)) :
    a ++ behind (part :: parts) = (a ++ slash :: part) ++ behind parts := by
  rw [behind, List.flatMap_cons, ← List.append_assoc]
  rfl

theorem spelt_cons (a : List UInt8) (c : Component) (cs : List Component) :
    spelt a (c :: cs) = spelt (a ++ slash :: c.bytes) cs := by
  rw [spelt, spelt, List.map_cons, append_behind_cons]

/-- A part that is no component can be left out, with the slash behind it. -/
theorem drops_between (hpart : component? part = none) (a next : List UInt8)
    (parts : List (List UInt8)) :
    Drops (a ++ behind (part :: next :: parts)) (a ++ behind (next :: parts)) := by
  rcases component?_eq_none_iff.1 hpart with rfl | rfl
  · exact .doubleSlash a (next ++ behind parts)
  · exact .dotBetween a (next ++ behind parts)

/-- The last part can be left out, with the slash in front of it unless that is all. -/
theorem drops_last (hpart : component? part = none) (a : List UInt8) :
    ReflTransGen Drops (a ++ behind [part]) (spelt a []) := by
  have hslash : ReflTransGen Drops (a ++ [slash]) (spelt a []) := by
    have hend : a ++ behind ([].map Component.bytes) = a := List.append_nil a
    rw [spelt, hend]
    by_cases ha : a = []
    · rw [if_pos ha, ha]
      exact .refl
    · rw [if_neg ha]
      exact .single (.lastSlash ha)
  rcases component?_eq_none_iff.1 hpart with rfl | rfl
  · exact hslash
  · exact .head (.dotBehind a) hslash

/-- Of parts behind another, those that are no components can be left out. -/
theorem drops_behind (h : a ≠ [] ∨ parts ≠ []) :
    ReflTransGen Drops (a ++ behind parts) (spelt a (parts.filterMap component?)) := by
  induction parts generalizing a with
  | nil =>
      have ha : a ++ behind [] ≠ [] := by
        rw [behind, List.flatMap_nil, List.append_nil]
        exact h.resolve_right (not_not_intro rfl)
      rw [spelt, List.filterMap_nil, List.map_nil, if_neg ha]
  | cons part parts ih =>
      cases hpart : component? part with
      | some c =>
          -- the part is kept, and the others stand behind it
          obtain ⟨rfl, -⟩ := bytes_of_component? hpart
          rw [List.filterMap_cons_some hpart, spelt_cons, append_behind_cons]
          exact ih (Or.inl (by simp))
      | none =>
          rw [List.filterMap_cons_none hpart]
          cases parts with
          | nil => exact drops_last hpart a
          | cons next parts =>
              exact .head (drops_between hpart a next parts)
                (ih (Or.inr (List.cons_ne_nil next parts)))

/-- The first component stands without a slash in front; the root is one itself. -/
theorem bytes_ofComponents (h : c = .root → cs ≠ []) :
    (ofComponents (c :: cs)).bytes = c.bytes ++ behind (cs.map Component.bytes) := by
  have hjoin : (ofComponents (c :: cs)).bytes
      = List.intercalate [slash] ((c :: cs).map Component.bytes) := by
    cases c with
    | root =>
        cases cs with
        | nil => exact absurd rfl (h rfl)
        | cons d cs => rfl
    | _ => rfl
  rw [hjoin, List.map_cons, intercalate_eq]

/-- What a path begins with is a component, also if it is a dot. -/
theorem exists_first (hpart : part ≠ []) (parts : List (List UInt8)) :
    ∃ c, c.bytes = part ∧ c ≠ .root
      ∧ (if some part = some [dot] then [.here] else []) ++ (part :: parts).filterMap component?
        = c :: parts.filterMap component? := by
  -- a dot at the very beginning is a component, and nowhere else
  by_cases hdot : part = [dot]
  · have hnone : component? part = none := component?_eq_none_iff.2 (Or.inr hdot)
    rw [if_pos (congrArg some hdot), List.filterMap_cons_none hnone]
    exact ⟨.here, hdot.symm, Component.noConfusion, rfl⟩
  · rw [if_neg fun heq => hdot (Option.some.inj heq)]
    cases hcomponent : component? part with
    | none =>
        rcases component?_eq_none_iff.1 hcomponent with hnil | heq
        · exact absurd hnil hpart
        · exact absurd heq hdot
    | some c =>
        obtain ⟨hbytes, hroot⟩ := bytes_of_component? hcomponent
        exact ⟨c, hbytes, hroot, List.filterMap_cons_some hcomponent⟩

/-- The first part of a path is a component, unless it is empty; then the path begins at the
    root, or is empty. -/
theorem components_of_parts (h : p.parts = part :: parts) :
    (part = [] ∧ parts = [] ∧ p.components = [])
    ∨ (part = [] ∧ parts ≠ [] ∧ p.components = .root :: parts.filterMap component?)
    ∨ part ≠ [] ∧ ∃ c, c.bytes = part ∧ c ≠ .root
      ∧ p.components = c :: parts.filterMap component? := by
  obtain ⟨-, hfree, hbytes⟩ := Text.cutAt_eq_iff.1 h
  rw [intercalate_eq] at hbytes
  have hcomponents := components_eq p
  rw [start, isAbsolute, h, hbytes, List.head?_cons] at hcomponents
  -- an empty first part stands in front of a slash, or is all there is
  cases part with
  | nil =>
      cases parts with
      | nil => exact Or.inl ⟨rfl, rfl, hcomponents⟩
      | cons next parts => exact Or.inr (Or.inl ⟨rfl, List.cons_ne_nil next parts, hcomponents⟩)
  | cons byte bytes =>
      have hslash : byte ≠ slash := fun heq => hfree _ List.mem_cons_self (heq ▸ List.mem_cons_self)
      have hrelative : ¬ (((byte :: bytes) ++ behind parts).head? == some slash) = true := by
        simpa using hslash
      have hne : byte :: bytes ≠ [] := List.cons_ne_nil byte bytes
      obtain ⟨c, hc, hroot, hfirst⟩ := exists_first hne parts
      rw [if_neg hrelative, hfirst] at hcomponents
      exact Or.inr (Or.inr ⟨hne, c, hc, hroot, hcomponents⟩)

/-- Every path can be brought to the spelling of its components. -/
theorem drops_ofComponents (p : Path) :
    ReflTransGen Drops p.bytes (ofComponents p.components).bytes := by
  obtain ⟨part, parts, hparts⟩ := List.exists_cons_of_ne_nil (Text.cutAt_ne_nil slash p.bytes)
  obtain ⟨-, -, hbytes⟩ := Text.cutAt_eq_iff.1 hparts
  rw [intercalate_eq] at hbytes
  rcases components_of_parts hparts with
    ⟨rfl, rfl, hnone⟩ | ⟨rfl, hne, hroot⟩ | ⟨hne, c, rfl, hc, hcomponents⟩
  · rw [hnone, hbytes]
    exact .refl
  · have hdrops := @drops_behind [] parts (Or.inr hne)
    rw [hroot, hbytes]
    cases hkept : parts.filterMap component? with
    | nil =>
        -- only the slash is left
        rw [hkept] at hdrops
        exact hdrops
    | cons d cs =>
        rw [hkept] at hdrops
        rw [bytes_ofComponents fun _ => List.cons_ne_nil d cs]
        exact hdrops
  · have hdrops := @drops_behind c.bytes parts (Or.inl hne)
    rw [spelt, if_neg fun h => hne (List.append_eq_nil_iff.1 h).1] at hdrops
    rw [hcomponents, hbytes, bytes_ofComponents fun h => absurd h hc]
    exact hdrops

/-- **SPELLINGS**.  Two paths are the same if leaving out what does not count makes them one
    spelling. -/
theorem same_iff_drops :
    p.Same q ↔ ∃ bytes, ReflTransGen Drops p.bytes bytes ∧ ReflTransGen Drops q.bytes bytes := by
  constructor
  · intro h
    refine ⟨_, drops_ofComponents p, ?_⟩
    rw [show p.components = q.components from h]
    exact drops_ofComponents q
  · rintro ⟨bytes, hp, hq⟩
    exact (components_of_drops hp).trans (components_of_drops hq).symm

end ExecTruth.Path
