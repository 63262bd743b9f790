import ExecTruth.Capture.Instruction
import Mathlib.Data.List.Dedup

/-! # Unions of sorted maps — which map a key has its value from

    A union is built by adding one pair after the other, and all that matters of
    it is what a look-up finds.  `find?_overriding` and `find?_extendNew` say that
    of the two unions, `find?_extendAll` of the union of any number of maps, and
    `ofListFirst_entries` that a map is given back by its listing.

    Searching below a key finds the pair with the greatest key of those below it
    (`below?_eq_some_iff`), and searching at or below one that of those not above it
    (`atOrBelow?_eq_some_iff`).

    A set of offsets is a map without values, and so is given back by the list of its keys
    (`OffsetSet.ofOffsets_keys`). -/

namespace ExecTruth.SortedMap

variable {κ ν : Type} [Ranked κ]

/-! ## Look-ups and listings -/

/-- A value found among pairs stands there under its key. -/
theorem mem_of_valueIn {k : κ} {v : ν} {l : List (κ × ν)} (h : valueIn k l = some v) :
    (k, v) ∈ l := by
  induction l with
  | nil => exact nomatch h
  | cons e r ih =>
      rw [valueIn_cons] at h
      by_cases hk : rank e.1 = rank k
      · rw [if_pos hk] at h
        have he : e = (k, v) := Prod.ext (Ranked.rank_inj hk) (Option.some.inj h)
        rw [he]
        exact List.mem_cons_self
      · rw [if_neg hk] at h
        exact List.mem_cons_of_mem _ (ih h)

/-- A pair of an ascending list is what a look-up of its key finds. -/
theorem valueIn_of_mem {k : κ} {v : ν} {l : List (κ × ν)}
    (h : l.Pairwise fun a b => rank a.1 < rank b.1) (hm : (k, v) ∈ l) :
    valueIn k l = some v := by
  induction l with
  | nil => exact nomatch hm
  | cons e r ih =>
      obtain ⟨he, hr⟩ := List.pairwise_cons.1 h
      rw [valueIn_cons]
      rcases List.mem_cons.1 hm with rfl | hm
      · rw [if_pos rfl]
      · -- the keys ascend, so none in front of the entry is the same
        have hlt : rank e.1 < rank k := he _ hm
        rw [if_neg (by omega)]
        exact ih hr hm

/-- A look-up finds exactly the pairs of the map. -/
theorem find?_eq_some_iff {m : SortedMap κ ν} {k : κ} {v : ν} :
    m.find? k = some v ↔ (k, v) ∈ m.entries :=
  ⟨mem_of_valueIn, valueIn_of_mem m.ascending⟩

/-- The keys are those under which something is found. -/
theorem mem_keys_iff {m : SortedMap κ ν} {k : κ} : k ∈ m.keys ↔ m.contains k = true := by
  rw [keys, contains, Option.isSome_iff_exists, List.mem_map]
  constructor
  · rintro ⟨e, he, rfl⟩
    exact ⟨e.2, find?_eq_some_iff.2 he⟩
  · rintro ⟨v, hv⟩
    exact ⟨(k, v), find?_eq_some_iff.1 hv, rfl⟩

/-- No key is listed twice. -/
theorem nodup_keys (m : SortedMap κ ν) : m.keys.Nodup := by
  refine List.pairwise_map.2 (m.ascending.imp fun {a b} h e => ?_)
  rw [e] at h
  exact Int.lt_irrefl _ h

@[simp] theorem length_keys (m : SortedMap κ ν) : m.keys.length = m.size := List.length_map _

/-- After inserting a key the map has it, and the keys that it had. -/
theorem contains_insert_iff {m : SortedMap κ ν} {k k' : κ} {v : ν} :
    (m.insert k v).contains k' = true ↔ k = k' ∨ m.contains k' = true := by
  rw [contains, find?_insert]
  by_cases hk : rank k = rank k'
  · rw [if_pos hk]
    exact iff_of_true rfl (Or.inl (Ranked.rank_inj hk))
  · rw [if_neg hk, or_iff_right fun heq => hk (congrArg rank heq)]
    exact Iff.rfl

/-- The keys are as many as any list names that names them all and nothing else. -/
theorem size_eq_length_dedup [DecidableEq κ] {m : SortedMap κ ν} {l : List κ}
    (h : ∀ k, m.contains k = true ↔ k ∈ l) : m.size = l.dedup.length := by
  rw [← length_keys]
  refine ((List.perm_ext_iff_of_nodup m.nodup_keys l.nodup_dedup).2 fun k => ?_).length_eq
  rw [mem_keys_iff, List.mem_dedup, h]

/-- Searching the listing finds what the lowest key has to give. -/
theorem findSome?_entries_eq_some_iff {β : Type} {m : SortedMap κ ν} {f : κ × ν → Option β}
    {b : β} : m.entries.findSome? f = some b ↔ ∃ e ∈ m.entries, f e = some b
      ∧ ∀ e' ∈ m.entries, rank e'.1 < rank e.1 → f e' = none := by
  rw [List.findSome?_eq_some_iff]
  have hascending := m.ascending
  constructor
  · rintro ⟨before, e, after, hentries, hb, hnone⟩
    rw [hentries] at hascending ⊢
    obtain ⟨hbelow, -⟩ := List.pairwise_cons.1 (List.pairwise_append.1 hascending).2.1
    refine ⟨e, List.mem_append_right _ List.mem_cons_self, hb, fun e' he' hlt => ?_⟩
    -- the pairs from `e` on do not have lower keys
    rcases List.mem_append.1 he' with he' | he'
    · exact hnone e' he'
    · rcases List.mem_cons.1 he' with rfl | he'
      · exact absurd hlt (Int.lt_irrefl _)
      · exact absurd (hbelow e' he') (Int.lt_asymm hlt)
  · rintro ⟨e, he, hb, hnone⟩
    obtain ⟨before, after, hentries⟩ := List.append_of_mem he
    rw [hentries] at hascending
    refine ⟨before, e, after, hentries, hb, fun e' he' => ?_⟩
    exact hnone e' (hentries ▸ List.mem_append_left _ he')
      ((List.pairwise_append.1 hascending).2.2 e' he' e List.mem_cons_self)

/-! ## The greatest key below another -/

/-- Taking while a test holds is taking all that pass it, if what passes comes first. -/
private theorem takeWhile_eq_filter {α : Type} {p : α → Bool} {l : List α}
    (h : l.Pairwise fun a b => p b = true → p a = true) : l.takeWhile p = l.filter p := by
  induction l with
  | nil => rfl
  | cons a r ih =>
      obtain ⟨ha, hr⟩ := List.pairwise_cons.1 h
      by_cases hp : p a = true
      · rw [List.takeWhile_cons_of_pos hp, List.filter_cons_of_pos hp, ih hr]
      · -- nothing behind `a` passes
        have hnone : ∀ b ∈ r, ¬ p b = true := fun b hb hpb => hp (ha b hb hpb)
        rw [List.takeWhile_cons_of_neg hp, List.filter_cons_of_neg hp,
          List.filter_eq_nil_iff.2 hnone]

/-- The last of ascending pairs is the one with the greatest key. -/
private theorem getLast?_eq_some_iff_greatest {l : List (κ × ν)} {e : κ × ν}
    (h : l.Pairwise fun a b => rank a.1 < rank b.1) :
    l.getLast? = some e ↔ e ∈ l ∧ ∀ e' ∈ l, rank e'.1 ≤ rank e.1 := by
  constructor
  · intro hlast
    obtain ⟨front, rfl⟩ := List.getLast?_eq_some_iff.1 hlast
    refine ⟨by simp, fun e' he' => ?_⟩
    rcases List.mem_append.1 he' with he' | he'
    · exact Int.le_of_lt ((List.pairwise_append.1 h).2.2 e' he' e (List.mem_singleton_self e))
    · obtain rfl := List.mem_singleton.1 he'
      exact Int.le_refl _
  · rintro ⟨he, hgreatest⟩
    obtain ⟨front, back, rfl⟩ := List.append_of_mem he
    -- a pair behind `e` would have a greater key
    have hback : back = [] := by
      refine List.eq_nil_iff_forall_not_mem.2 fun e' he' => ?_
      have hlt : rank e.1 < rank e'.1 :=
        (List.pairwise_cons.1 (List.pairwise_append.1 h).2.1).1 e' he'
      have hle : rank e'.1 ≤ rank e.1 := hgreatest e' (by simp [he'])
      omega
    rw [hback]
    exact List.getLast?_concat

/-- Of the pairs that pass a test that lower keys pass too, the last one taken is that with
    the greatest key. -/
private theorem getLast?_takeWhile_eq_some_iff {m : SortedMap κ ν} {p : κ × ν → Bool}
    (hp : ∀ a b : κ × ν, rank a.1 < rank b.1 → p b = true → p a = true) {e : κ × ν} :
    (m.entries.takeWhile p).getLast? = some e ↔ e ∈ m.entries ∧ p e = true
      ∧ ∀ e' ∈ m.entries, p e' = true → rank e'.1 ≤ rank e.1 := by
  rw [takeWhile_eq_filter (m.ascending.imp fun {a b} hab => hp a b hab),
    getLast?_eq_some_iff_greatest (m.ascending.filter _)]
  simp only [List.mem_filter, and_assoc, and_imp]

private theorem getLast?_takeWhile_eq_none_iff {m : SortedMap κ ν} {p : κ × ν → Bool}
    (hp : ∀ a b : κ × ν, rank a.1 < rank b.1 → p b = true → p a = true) :
    (m.entries.takeWhile p).getLast? = none ↔ ∀ e ∈ m.entries, ¬ p e = true := by
  rw [takeWhile_eq_filter (m.ascending.imp fun {a b} hab => hp a b hab),
    List.getLast?_eq_none_iff, List.filter_eq_nil_iff]

private theorem isBelow_of_lt (k : κ) (a b : κ × ν) (hab : rank a.1 < rank b.1)
    (hb : decide (rank b.1 < rank k) = true) : decide (rank a.1 < rank k) = true :=
  decide_eq_true (Int.lt_trans hab (of_decide_eq_true hb))

private theorem isAtOrBelow_of_lt (k : κ) (a b : κ × ν) (hab : rank a.1 < rank b.1)
    (hb : decide (rank b.1 ≤ rank k) = true) : decide (rank a.1 ≤ rank k) = true :=
  decide_eq_true (Int.le_of_lt (Int.lt_of_lt_of_le hab (of_decide_eq_true hb)))

/-- The pair found below a key is the last one of those below it. -/
theorem below?_eq_getLast?_filter (m : SortedMap κ ν) (k : κ) :
    m.below? k = (m.entries.filter fun e => rank e.1 < rank k).getLast? := by
  rw [below?, takeWhile_eq_filter (m.ascending.imp fun {a b} hab => isBelow_of_lt k a b hab)]

/-- The pair found below a key is that with the greatest key of those below it. -/
theorem below?_eq_some_iff {m : SortedMap κ ν} {k : κ} {e : κ × ν} :
    m.below? k = some e ↔ e ∈ m.entries ∧ rank e.1 < rank k
      ∧ ∀ e' ∈ m.entries, rank e'.1 < rank k → rank e'.1 ≤ rank e.1 := by
  rw [below?, getLast?_takeWhile_eq_some_iff (isBelow_of_lt k)]
  simp only [decide_eq_true_eq]

/-- There is no entry below a key if all entries are at it or above. -/
theorem below?_eq_none_iff {m : SortedMap κ ν} {k : κ} :
    m.below? k = none ↔ ∀ e ∈ m.entries, ¬ rank e.1 < rank k := by
  rw [below?, getLast?_takeWhile_eq_none_iff (isBelow_of_lt k)]
  simp only [decide_eq_true_eq]

/-- The pair found at or below a key is that with the greatest key of those not above it. -/
theorem atOrBelow?_eq_some_iff {m : SortedMap κ ν} {k : κ} {e : κ × ν} :
    m.atOrBelow? k = some e ↔ e ∈ m.entries ∧ rank e.1 ≤ rank k
      ∧ ∀ e' ∈ m.entries, rank e'.1 ≤ rank k → rank e'.1 ≤ rank e.1 := by
  rw [atOrBelow?, getLast?_takeWhile_eq_some_iff (isAtOrBelow_of_lt k)]
  simp only [decide_eq_true_eq]

/-- There is no entry at a key or below if all entries are above. -/
theorem atOrBelow?_eq_none_iff {m : SortedMap κ ν} {k : κ} :
    m.atOrBelow? k = none ↔ ∀ e ∈ m.entries, ¬ rank e.1 ≤ rank k := by
  rw [atOrBelow?, getLast?_takeWhile_eq_none_iff (isAtOrBelow_of_lt k)]
  simp only [decide_eq_true_eq]

/-! ## Unions -/

private theorem valueIn_tail_eq_none {k : κ} {e : κ × ν} {r : List (κ × ν)}
    (h : (e :: r).Pairwise fun a b => rank a.1 < rank b.1) (hk : rank e.1 = rank k) :
    valueIn k r = none :=
  valueIn_eq_none fun d hd => by have := (List.pairwise_cons.1 h).1 d hd; omega

/-- Inserting ascending pairs one by one lets each of them win. -/
theorem find?_foldl_insert {l : List (κ × ν)}
    (h : l.Pairwise fun a b => rank a.1 < rank b.1) (m : SortedMap κ ν) (k : κ) :
    (l.foldl (fun m e => m.insert e.1 e.2) m).find? k = (valueIn k l).or (m.find? k) := by
  induction l generalizing m with
  | nil => rfl
  | cons e r ih =>
      rw [List.foldl_cons, ih (List.pairwise_cons.1 h).2, find?_insert, valueIn_cons]
      by_cases hk : rank e.1 = rank k
      · -- no later pair has the key again
        rw [if_pos hk, if_pos hk, valueIn_tail_eq_none h hk]
        rfl
      · rw [if_neg hk, if_neg hk]

/-- Inserting pairs as new one by one lets the first of them win that is new. -/
theorem find?_foldl_insertNew (l : List (κ × ν)) (m : SortedMap κ ν) (k : κ) :
    (l.foldl (fun m e => m.insertNew e.1 e.2) m).find? k = (m.find? k).or (valueIn k l) := by
  -- what is there already comes before all that is inserted
  induction l generalizing m with
  | nil => rw [List.foldl_nil]; cases m.find? k <;> rfl
  | cons e r ih =>
      rw [List.foldl_cons, ih, find?_insertNew, valueIn_cons]
      by_cases hk : rank e.1 = rank k
      · rw [if_pos hk, if_pos hk, Ranked.rank_inj hk]
        cases m.find? k <;> rfl
      · rw [if_neg hk, if_neg hk]

/-- A key of both maps has its value from the winner. -/
theorem find?_overriding (winner other : SortedMap κ ν) (k : κ) :
    (winner.overriding other).find? k = (winner.find? k).or (other.find? k) :=
  find?_foldl_insert winner.ascending other k

/-- Which of three maps wins does not depend on which two are put together first. -/
theorem overriding_assoc (a b c : SortedMap κ ν) :
    (a.overriding b).overriding c = a.overriding (b.overriding c) := by
  refine ext_find? fun k => ?_
  rw [find?_overriding, find?_overriding, find?_overriding, find?_overriding, Option.or_assoc]

/-- Nothing overrides nothing. -/
theorem empty_overriding (m : SortedMap κ ν) : (empty : SortedMap κ ν).overriding m = m := by
  refine ext_find? fun k => ?_
  rw [find?_overriding, find?_empty, Option.none_or]

/-- Over nothing there is nothing to override. -/
theorem overriding_empty (m : SortedMap κ ν) : m.overriding empty = m := by
  refine ext_find? fun k => ?_
  rw [find?_overriding, find?_empty, Option.or_none]

/-- Both the winner's keys and the other's are there. -/
theorem contains_overriding_iff {winner other : SortedMap κ ν} {k : κ} :
    (winner.overriding other).contains k = true
      ↔ winner.contains k = true ∨ other.contains k = true := by
  rw [contains, find?_overriding, Option.isSome_or, Bool.or_eq_true]
  exact Iff.rfl

/-- The keys of a map are told by which keys it contains. -/
theorem keys_eq_of_contains {m m' : SortedMap κ ν}
    (h : ∀ k, m.contains k = true ↔ m'.contains k = true) : m.keys = m'.keys := by
  have hascending : ∀ m : SortedMap κ ν, m.keys.Pairwise fun a b => rank a < rank b :=
    fun m => List.pairwise_map.2 m.ascending
  have hperm : m.keys.Perm m'.keys := (List.perm_ext_iff_of_nodup m.nodup_keys m'.nodup_keys).2
    fun k => mem_keys_iff.trans ((h k).trans mem_keys_iff.symm)
  refine hperm.eq_of_pairwise (fun a b _ _ hab hba => ?_) (hascending m) (hascending m')
  exact absurd hab (Int.not_lt.2 (Int.le_of_lt hba))

/-- A key of both maps has its value from the first. -/
theorem find?_extendNew (first later : SortedMap κ ν) (k : κ) :
    (first.extendNew later).find? k = (first.find? k).or (later.find? k) :=
  find?_foldl_insertNew later.entries first k

/-- A key of several maps has its value from the first that has it. -/
theorem find?_extendAll {α : Type} (f : α → SortedMap κ ν) (l : List α) (m : SortedMap κ ν)
    (k : κ) :
    (l.foldl (fun m a => m.extendNew (f a)) m).find? k
      = (m.find? k).or (l.findSome? fun a => (f a).find? k) := by
  induction l generalizing m with
  | nil => rw [List.foldl_nil, List.findSome?_nil, Option.or_none]
  | cons a r ih =>
      rw [List.foldl_cons, ih, find?_extendNew, List.findSome?_cons, Option.or_assoc]
      cases (f a).find? k <;> rfl

/-! ## Maps of lists -/

/-- A map of a list has the first value that the list gives to a key. -/
theorem find?_ofListFirst (l : List (κ × ν)) (k : κ) :
    (ofListFirst l).find? k = valueIn k l := by
  induction l with
  | nil => rfl
  | cons e r ih =>
      show ((ofListFirst r).insert e.1 e.2).find? k = valueIn k (e :: r)
      rw [find?_insert, valueIn_cons, ih]

/-- The entries in front decide, and those behind where they have none. -/
theorem valueIn_append (k : κ) (l l' : List (κ × ν)) :
    valueIn k (l ++ l') = (valueIn k l).or (valueIn k l') := by
  rw [valueIn, List.find?_append, Option.map_or]
  rfl

/-- A map of a list has the last value that the list gives to a key. -/
theorem find?_ofList (l : List (κ × ν)) (k : κ) :
    (ofList l).find? k = valueIn k l.reverse := by
  induction l with
  | nil => rfl
  | cons e r ih =>
      show ((ofList r).insertNew e.1 e.2).find? k = valueIn k (e :: r).reverse
      rw [find?_insertNew, List.reverse_cons, valueIn_append, ← ih, valueIn_cons]
      by_cases hk : rank e.1 = rank k
      · rw [if_pos hk, if_pos hk, Ranked.rank_inj hk]
        cases (ofList r).find? k <;> rfl
      · rw [if_neg hk, if_neg hk]
        exact (Option.or_none).symm

/-- The value of a key stands in the list behind all others of that key. -/
theorem find?_ofList_eq_some_iff {l : List (κ × ν)} {k : κ} {v : ν} :
    (ofList l).find? k = some v
      ↔ ∃ front back, l = front ++ (k, v) :: back ∧ ∀ e ∈ back, e.1 ≠ k := by
  rw [find?_ofList, valueIn, Option.map_eq_some_iff]
  constructor
  · rintro ⟨e, he, rfl⟩
    obtain ⟨hk, behind, before, hl, hbehind⟩ := List.find?_eq_some_iff_append.1 he
    obtain rfl : e.1 = k := Ranked.rank_inj (by simpa using hk)
    refine ⟨before.reverse, behind.reverse, ?_, fun e' he' heq => ?_⟩
    · rw [← List.reverse_reverse l, hl]
      simp
    · have hother := hbehind e' (List.mem_reverse.1 he')
      rw [heq] at hother
      simp at hother
  · rintro ⟨front, back, rfl, hback⟩
    refine ⟨(k, v), List.find?_eq_some_iff_append.2
      ⟨by simp, back.reverse, front.reverse, by simp, fun e he => ?_⟩, rfl⟩
    have hne : ¬ rank e.1 = rank k := fun hr =>
      hback e (List.mem_reverse.1 he) (Ranked.rank_inj hr)
    simp [hne]

/-- A key has a value among pairs if one of them has it. -/
theorem isSome_valueIn_iff {k : κ} {l : List (κ × ν)} :
    (valueIn k l).isSome = true ↔ k ∈ l.map (·.1) := by
  rw [valueIn, Option.isSome_map, List.find?_isSome, List.mem_map]
  refine exists_congr fun e => and_congr_right fun _ => ?_
  rw [beq_iff_eq]
  exact ⟨fun hr => Ranked.rank_inj hr, fun heq => congrArg rank heq⟩

/-- The keys of a map of a list are those of the list. -/
theorem contains_ofList_iff {l : List (κ × ν)} {k : κ} :
    (ofList l).contains k = true ↔ k ∈ l.map (·.1) := by
  rw [contains, find?_ofList, isSome_valueIn_iff, List.map_reverse, List.mem_reverse]

/-- Pairs without a repeated key are all in the map. -/
theorem size_ofList [DecidableEq κ] {l : List (κ × ν)} (h : (l.map (·.1)).Nodup) :
    (ofList l).size = l.length := by
  rw [size_eq_length_dedup fun _ => contains_ofList_iff, h.dedup, List.length_map]

/-- A map is the map of its listing. -/
theorem ofListFirst_entries (m : SortedMap κ ν) : ofListFirst m.entries = m :=
  ext_find? fun k => find?_ofListFirst m.entries k

/-- A list lists its map exactly if it is ascending. -/
theorem entries_ofListFirst_eq_iff {l : List (κ × ν)} :
    (ofListFirst l).entries = l ↔ l.Pairwise fun a b => rank a.1 < rank b.1 := by
  constructor
  · intro h
    rw [← h]
    exact (ofListFirst l).ascending
  · intro h
    exact congrArg entries (ofListFirst_entries ⟨l, h⟩)

/-- A map has no more pairs than its list. -/
theorem size_ofListFirst_le [DecidableEq κ] (l : List (κ × ν)) :
    (ofListFirst l).size ≤ l.length := by
  have hkeys : ∀ k, (ofListFirst l).contains k = true ↔ k ∈ l.map (·.1) := by
    intro k
    rw [contains, find?_ofListFirst, isSome_valueIn_iff]
  have hle := (List.dedup_sublist (l.map (·.1))).length_le
  rw [List.length_map] at hle
  rw [size_eq_length_dedup hkeys]
  exact hle

end ExecTruth.SortedMap

namespace ExecTruth.OffsetSet

/-! ## Sets of offsets -/

variable {l : List Int64}

/-- The set of a list has the offsets of the list. -/
theorem contains_ofOffsets_iff {o : Int64} : (ofOffsets l).contains o = true ↔ o ∈ l := by
  rw [ofOffsets, SortedMap.contains_ofList_iff, List.map_map]
  show o ∈ l.map id ↔ _
  rw [List.map_id]

/-- A set lists the offsets that it is made of exactly if they are ascending. -/
theorem keys_ofOffsets_eq_iff :
    (ofOffsets l).keys = l ↔ l.Pairwise fun a b => a.toInt < b.toInt := by
  constructor
  · intro h
    rw [← h]
    exact List.pairwise_map.2 (ofOffsets l).ascending
  · intro h
    have hoffsets : (l.map fun o => (o, ())).map Prod.fst = l := by
      rw [List.map_map]
      exact List.map_id l
    let listed : OffsetSet := ⟨l.map fun o => (o, ()), List.pairwise_map.2 h⟩
    have hlisted : listed.keys = l := hoffsets
    refine Eq.trans (SortedMap.keys_eq_of_contains fun o => ?_) hlisted
    rw [contains_ofOffsets_iff, ← SortedMap.mem_keys_iff, hlisted]

/-- A set is made of the offsets that it lists. -/
theorem ofOffsets_keys (set : OffsetSet) : ofOffsets set.keys = set := by
  refine SortedMap.ext_find? fun o => ?_
  have hsame : (ofOffsets set.keys).contains o = set.contains o := by
    rw [Bool.eq_iff_iff, contains_ofOffsets_iff, SortedMap.mem_keys_iff]
  rw [SortedMap.contains, SortedMap.contains] at hsame
  -- an offset has no other value than that it is there
  cases hfound : set.find? o with
  | none =>
      rw [hfound] at hsame
      exact Option.isNone_iff_eq_none.1 (Option.isSome_eq_false_iff.1 hsame)
  | some u =>
      rw [hfound] at hsame
      obtain ⟨u', hu'⟩ := Option.isSome_iff_exists.1 hsame
      exact hu'

/-- A set is told by which offsets it contains. -/
theorem ext_contains {set set' : OffsetSet}
    (h : ∀ o, set.contains o = true ↔ set'.contains o = true) : set = set' := by
  rw [← ofOffsets_keys set, ← ofOffsets_keys set', SortedMap.keys_eq_of_contains h]

end ExecTruth.OffsetSet
