import ExecTruth.Stream.Blocks

/-! # Held back — blocks lose nothing, and keep the order of each file

    Pieces that are written to several files by turns are held back and handed on in blocks.
    Those of one file are handed on in their order, whatever is written to the others
    between them: its blocks, one behind the other, are its pieces (`textOf_ofPieces`).  While
    pieces are to come, what is held of a file stands between what was handed on and what
    is to come (`textOf_after`). -/

namespace ExecTruth.Blocks

/-- The bytes of the pieces for a file. -/
def bytesFor (place : Nat) (pieces : List (Nat × List UInt8)) : List UInt8 :=
  (pieces.filter (·.1 = place)).flatMap (·.2)

/-- The bytes of the blocks for a file. -/
def textOf (place : Nat) (blocks : List Block) : List UInt8 :=
  bytesFor place (blocks.map fun b => (b.place, b.bytes))

variable {place place' : Nat} {b : Block} {seen blocks : List Block} {held : List Held} {h : Held}
  {pieces : List (Nat × List UInt8)}

/-- Pieces one behind the other give their bytes one behind the other. -/
theorem bytesFor_append (place : Nat) (pieces pieces' : List (Nat × List UInt8)) :
    bytesFor place (pieces ++ pieces') = bytesFor place pieces ++ bytesFor place pieces' := by
  rw [bytesFor, List.filter_append, List.flatMap_append]
  rfl

/-- A piece for a place adds its bytes there. -/
theorem bytesFor_cons_self (h : place' = place) (piece : List UInt8)
    (pieces : List (Nat × List UInt8)) :
    bytesFor place ((place', piece) :: pieces) = piece ++ bytesFor place pieces := by
  subst h
  rw [bytesFor, List.filter_cons_of_pos (by simp), List.flatMap_cons]
  rfl

/-- A piece for another place adds nothing. -/
theorem bytesFor_cons_of_ne (h : place' ≠ place) (piece : List UInt8)
    (pieces : List (Nat × List UInt8)) :
    bytesFor place ((place', piece) :: pieces) = bytesFor place pieces := by
  rw [bytesFor, List.filter_cons_of_neg (by simpa using h)]
  rfl

/-- What one file gets of pieces for it alone. -/
theorem bytesFor_map_self {α : Type} (h : place' = place) (f : α → List UInt8) (l : List α) :
    bytesFor place (l.map fun x => (place', f x)) = l.flatMap f := by
  subst h
  induction l with
  | nil => rfl
  | cons x rest ih => rw [List.map_cons, bytesFor_cons_self rfl, ih, List.flatMap_cons]

/-- Pieces for one place give nothing for another. -/
theorem bytesFor_map_of_ne {α : Type} (h : place' ≠ place) (f : α → List UInt8) (l : List α) :
    bytesFor place (l.map fun x => (place', f x)) = [] := by
  induction l with
  | nil => rfl
  | cons x rest ih => rw [List.map_cons, bytesFor_cons_of_ne h, ih]

/-- Blocks one behind the other give their texts one behind the other. -/
theorem textOf_append (place : Nat) (blocks blocks' : List Block) :
    textOf place (blocks ++ blocks') = textOf place blocks ++ textOf place blocks' := by
  rw [textOf, List.map_append, bytesFor_append]
  rfl

theorem textOf_cons_self (h : b.place = place) (blocks : List Block) :
    textOf place (b :: blocks) = b.bytes ++ textOf place blocks := bytesFor_cons_self h _ _

theorem textOf_cons_of_ne (h : b.place ≠ place) (blocks : List Block) :
    textOf place (b :: blocks) = textOf place blocks := bytesFor_cons_of_ne h _ _

theorem textOf_singleton (h : b.place = place) : textOf place [b] = b.bytes :=
  (textOf_cons_self h []).trans (List.append_nil b.bytes)

/-- A piece is held behind the others. -/
theorem Held.bytes_add (h : Held) (piece : List UInt8) :
    (h.add piece).bytes = h.bytes ++ piece := by
  show (piece :: h.pieces).reverse.flatten = _
  rw [List.reverse_cons, List.flatten_append, List.flatten_singleton]
  rfl

/-- At the end, a file gets what is held for it. -/
theorem textOf_zipIdx (held : List Held) (first : Nat) (hplace : first ≤ place) :
    textOf place ((held.zipIdx first).map fun x => ⟨x.2, x.1.bytes⟩)
      = (held[place - first]?).elim [] Held.bytes := by
  induction held generalizing first with
  | nil => rfl
  | cons h rest ih =>
      rw [List.zipIdx_cons, List.map_cons]
      by_cases heq : first = place
      · -- the files behind have other places
        have hothers : textOf place ((rest.zipIdx (first + 1)).map fun x => ⟨x.2, x.1.bytes⟩)
            = [] := by
          rw [textOf, List.map_map, bytesFor, List.filter_eq_nil_iff.2 ?_, List.flatMap_nil]
          intro b hb
          obtain ⟨⟨held', i⟩, hmem, rfl⟩ := List.mem_map.1 hb
          have hi := (List.mem_zipIdx hmem).1
          simp only [Function.comp_apply, decide_eq_true_eq]
          omega
        rw [textOf_cons_self heq, hothers, List.append_nil, heq, Nat.sub_self]
        rfl
      · have hsucc : place - first = place - (first + 1) + 1 := by omega
        rw [textOf_cons_of_ne heq, ih (first + 1) (by omega), hsucc, List.getElem?_cons_succ]

/-- Of a file, what was handed on, what is held and what is to come stay one text. -/
theorem textOf_after (hplace : held[place]? = some h) :
    textOf place (after seen held pieces)
      = textOf place seen.reverse ++ (h.bytes ++ bytesFor place pieces) := by
  induction pieces generalizing seen held h with
  | nil =>
      rw [after, textOf_append]
      congr 1
      have hzip := textOf_zipIdx held 0 (Nat.zero_le place)
      rw [Nat.sub_zero, hplace] at hzip
      rw [bytesFor, List.filter_nil, List.flatMap_nil, List.append_nil]
      exact hzip
  | cons next pieces ih =>
      obtain ⟨place', piece⟩ := next
      rw [after]
      -- a piece for another place changes what is held back there, and nothing here
      by_cases heq : place' = place
      · subst heq
        have hlt := (List.getElem?_eq_some_iff.1 hplace).1
        simp only [hplace]
        rw [bytesFor_cons_self rfl]
        split
        · rw [ih (List.getElem?_set_self hlt), Held.bytes_add, List.append_assoc]
        · have hblock : textOf place' [⟨place', h.bytes⟩] = h.bytes := textOf_singleton rfl
          rw [ih (List.getElem?_set_self hlt), List.reverse_cons, textOf_append, hblock,
            Held.bytes_add, List.append_assoc]
          rfl
      · rw [bytesFor_cons_of_ne heq]
        have hset : ∀ h', (held.set place' h')[place]? = some h := fun h' => by
          rw [List.getElem?_set_ne heq, hplace]
        cases hget : held[place']? with
        | none => exact ih hplace
        | some h' =>
            dsimp only
            split
            · exact ih (hset _)
            · rw [ih (hset _), List.reverse_cons, textOf_append, textOf_cons_of_ne heq]
              exact congrArg (· ++ _) (List.append_nil _)

/-- The blocks of a file are its pieces, one behind the other. -/
theorem textOf_ofPieces {files : Nat} (hplace : place < files)
    (pieces : List (Nat × List UInt8)) :
    textOf place (ofPieces files pieces) = bytesFor place pieces := by
  have hempty : (List.replicate files Held.empty)[place]? = some .empty :=
    List.getElem?_replicate_of_lt hplace
  exact textOf_after hempty

end ExecTruth.Blocks
