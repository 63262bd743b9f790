/-! # Sorted maps — finite maps kept in ascending order of their keys

    A map is the list of its pairs, strictly ascending by key, so that two maps
    with the same pairs are equal, and their listing order is the order of the
    keys.  There are two ways to add a pair: `insert` lets the new value win and
    `insertNew` lets the value already present win.  `find?_insert` and
    `find?_insertNew` say what each does to a look-up, and `ext_find?` that
    look-ups determine the map. -/

namespace ExecTruth

/-- Keys that stand at different places of the integers, which orders them. -/
class Ranked (κ : Type) where
  /-- The place of a key. -/
  rank : κ → Int
  /-- Different keys stand at different places. -/
  rank_inj : ∀ {a b : κ}, rank a = rank b → a = b

export Ranked (rank)

instance : Ranked Nat := ⟨Int.ofNat, Int.ofNat.inj⟩

instance : Ranked Int64 := ⟨Int64.toInt, Int64.toInt_inj.1⟩

instance : Ranked UInt64 :=
  ⟨fun w => Int.ofNat w.toNat, fun h => UInt64.toNat_inj.1 (Int.ofNat.inj h)⟩

/-- A finite map as the list of its pairs, strictly ascending by key. -/
@[ext] structure SortedMap (κ ν : Type) [Ranked κ] where
  entries : List (κ × ν)
  ascending : entries.Pairwise fun a b => rank a.1 < rank b.1

namespace SortedMap

variable {κ ν : Type} [Ranked κ]

/-- Gives `k` a place among the pairs: `fresh` if it has no value yet, else the
    value it has, changed by `update`. -/
def place (k : κ) (update : ν → ν) (fresh : ν) : List (κ × ν) → List (κ × ν)
  | [] => [(k, fresh)]
  | e :: r =>
      if rank k < rank e.1 then (k, fresh) :: e :: r
      else if rank k = rank e.1 then (e.1, update e.2) :: r
      else e :: place k update fresh r

/-- Placing a key adds it and no other. -/
theorem key_of_mem_place {k : κ} {update : ν → ν} {fresh : ν} {l : List (κ × ν)}
    {e : κ × ν} (h : e ∈ place k update fresh l) :
    e.1 = k ∨ ∃ e' ∈ l, e'.1 = e.1 := by
  induction l with
  | nil => left; simpa [place] using congrArg Prod.fst (List.mem_singleton.1 h)
  | cons d r ih =>
      unfold place at h
      split at h
      · rcases List.mem_cons.1 h with rfl | h
        · exact Or.inl rfl
        · exact Or.inr ⟨e, h, rfl⟩
      · split at h
        · rcases List.mem_cons.1 h with rfl | h
          · exact Or.inr ⟨d, List.mem_cons_self, rfl⟩
          · exact Or.inr ⟨e, List.mem_cons_of_mem _ h, rfl⟩
        · rcases List.mem_cons.1 h with rfl | h
          · exact Or.inr ⟨e, List.mem_cons_self, rfl⟩
          · rcases ih h with h | ⟨e', h, h'⟩
            · exact Or.inl h
            · exact Or.inr ⟨e', List.mem_cons_of_mem _ h, h'⟩

/-- The entries stay in ascending order, by induction along them. -/
theorem ascending_place {k : κ} {update : ν → ν} {fresh : ν} {l : List (κ × ν)}
    (h : l.Pairwise fun a b => rank a.1 < rank b.1) :
    (place k update fresh l).Pairwise fun a b => rank a.1 < rank b.1 := by
  induction l with
  | nil => simp [place]
  | cons d r ih =>
      obtain ⟨hd, hr⟩ := List.pairwise_cons.1 h
      unfold place
      split
      · refine List.pairwise_cons.2 ⟨fun e he => ?_, h⟩
        rcases List.mem_cons.1 he with rfl | he
        · assumption
        · exact Int.lt_trans ‹rank k < rank d.1› (hd e he)
      · split
        · exact List.pairwise_cons.2 ⟨hd, hr⟩
        · refine List.pairwise_cons.2 ⟨fun e he => ?_, ih hr⟩
          rcases key_of_mem_place he with hk | ⟨e', he', hk⟩
          · rw [hk]; omega
          · rw [← hk]; exact hd e' he'

/-- The map without pairs. -/
def empty : SortedMap κ ν := ⟨[], List.Pairwise.nil⟩

instance : EmptyCollection (SortedMap κ ν) := ⟨empty⟩

instance : Inhabited (SortedMap κ ν) := ⟨empty⟩

instance [DecidableEq κ] [DecidableEq ν] : DecidableEq (SortedMap κ ν) := fun a b =>
  decidable_of_iff (a.entries = b.entries) SortedMap.ext_iff.symm

/-- Gives `k` the value `v`, whatever it had before. -/
def insert (m : SortedMap κ ν) (k : κ) (v : ν) : SortedMap κ ν :=
  ⟨place k (fun _ => v) v m.entries, ascending_place m.ascending⟩

/-- Gives `k` the value `v` unless it has a value already. -/
def insertNew (m : SortedMap κ ν) (k : κ) (v : ν) : SortedMap κ ν :=
  ⟨place k id v m.entries, ascending_place m.ascending⟩

/-- The value of `k` among pairs. -/
def valueIn (k : κ) (l : List (κ × ν)) : Option ν :=
  (l.find? fun e => rank e.1 == rank k).map (·.2)

/-- The value of `k`. -/
def find? (m : SortedMap κ ν) (k : κ) : Option ν := valueIn k m.entries

/-- Whether `k` has a value. -/
def contains (m : SortedMap κ ν) (k : κ) : Bool := (m.find? k).isSome

/-- The pair with the greatest key strictly below `k`. -/
def below? (m : SortedMap κ ν) (k : κ) : Option (κ × ν) :=
  (m.entries.takeWhile fun e => rank e.1 < rank k).getLast?

/-- The pair with the greatest key that is not above `k`. -/
def atOrBelow? (m : SortedMap κ ν) (k : κ) : Option (κ × ν) :=
  (m.entries.takeWhile fun e => rank e.1 ≤ rank k).getLast?

/-- The number of pairs. -/
def size (m : SortedMap κ ν) : Nat := m.entries.length

/-- The keys in ascending order. -/
def keys (m : SortedMap κ ν) : List κ := m.entries.map (·.1)

/-- The map of a list of pairs in any order, where the last value of a key wins. -/
def ofList (l : List (κ × ν)) : SortedMap κ ν :=
  l.foldr (fun e m => m.insertNew e.1 e.2) empty

/-- The map of a list of pairs in any order, where the first value of a key wins. -/
def ofListFirst (l : List (κ × ν)) : SortedMap κ ν :=
  l.foldr (fun e m => m.insert e.1 e.2) empty

/-- The pairs of both maps; a key of both has its value in `winner`. -/
def overriding (winner other : SortedMap κ ν) : SortedMap κ ν :=
  winner.entries.foldl (fun m e => m.insert e.1 e.2) other

/-- The pairs of both maps; a key of both keeps its value in `first`. -/
def extendNew (first later : SortedMap κ ν) : SortedMap κ ν :=
  later.entries.foldl (fun m e => m.insertNew e.1 e.2) first

/-! ## Look-ups -/

/-- The value of a key is that of the first entry with it. -/
theorem valueIn_cons (k : κ) (e : κ × ν) (r : List (κ × ν)) :
    valueIn k (e :: r) = if rank e.1 = rank k then some e.2 else valueIn k r := by
  unfold valueIn
  by_cases h : rank e.1 = rank k <;> simp [h]

/-- In front of all entries nothing is found. -/
theorem valueIn_eq_none {k : κ} {l : List (κ × ν)} (h : ∀ e ∈ l, rank k < rank e.1) :
    valueIn k l = none := by
  induction l with
  | nil => rfl
  | cons e r ih =>
      have he := h e List.mem_cons_self
      rw [valueIn_cons, if_neg (by omega)]
      exact ih fun e' he' => h e' (List.mem_cons_of_mem _ he')

/-- Placing a key gives it its value and leaves those of the others. -/
theorem valueIn_place {k : κ} {update : ν → ν} {fresh : ν} {l : List (κ × ν)}
    (h : l.Pairwise fun a b => rank a.1 < rank b.1) (k' : κ) :
    valueIn k' (place k update fresh l)
      = if rank k = rank k' then some ((valueIn k l).elim fresh update)
        else valueIn k' l := by
  induction l with
  | nil => rw [place, valueIn_cons]; rfl
  | cons e r ih =>
      obtain ⟨he, hr⟩ := List.pairwise_cons.1 h
      unfold place
      by_cases hlt : rank k < rank e.1
      · have hnone : valueIn k (e :: r) = none := by
          refine valueIn_eq_none fun e' he' => ?_
          rcases List.mem_cons.1 he' with rfl | he'
          · exact hlt
          · exact Int.lt_trans hlt (he e' he')
        rw [if_pos hlt, valueIn_cons, hnone]
        rfl
      · rw [if_neg hlt]
        by_cases heq : rank k = rank e.1
        · rw [if_pos heq, valueIn_cons, valueIn_cons, valueIn_cons, ← heq]
          by_cases hk : rank k = rank k' <;> simp [hk]
        · rw [if_neg heq, valueIn_cons, ih hr, valueIn_cons, valueIn_cons]
          have hne : ¬ rank e.1 = rank k := fun e' => heq e'.symm
          rw [if_neg hne]
          by_cases hk : rank k = rank k'
          · rw [if_neg (by omega), if_pos hk, if_pos hk]
          · rw [if_neg hk, if_neg hk]

/-- The value inserted is found under its key, and nothing else changes. -/
theorem find?_insert (m : SortedMap κ ν) (k : κ) (v : ν) (k' : κ) :
    (m.insert k v).find? k' = if rank k = rank k' then some v else m.find? k' := by
  unfold find? insert
  rw [valueIn_place m.ascending]
  cases valueIn k m.entries <;> rfl

/-- A value inserted as new is found under its key unless another one was there, and
    nothing else changes. -/
theorem find?_insertNew (m : SortedMap κ ν) (k : κ) (v : ν) (k' : κ) :
    (m.insertNew k v).find? k'
      = if rank k = rank k' then some ((m.find? k).getD v) else m.find? k' := by
  unfold find? insertNew
  rw [valueIn_place m.ascending]
  cases valueIn k m.entries <;> rfl

theorem find?_empty (k : κ) : (empty : SortedMap κ ν).find? k = none := rfl

/-- Ascending entries are told by what is found in them. -/
theorem eq_of_valueIn {l l' : List (κ × ν)} (h : l.Pairwise fun a b => rank a.1 < rank b.1)
    (h' : l'.Pairwise fun a b => rank a.1 < rank b.1)
    (hv : ∀ k, valueIn k l = valueIn k l') : l = l' := by
  induction l generalizing l' with
  | nil =>
      cases l' with
      | nil => rfl
      | cons e r => have he := hv e.1; simp [valueIn] at he
  | cons d q ih =>
      obtain ⟨hd, hq⟩ := List.pairwise_cons.1 h
      cases l' with
      | nil => have he := hv d.1; simp [valueIn] at he
      | cons e r =>
          obtain ⟨he, hr⟩ := List.pairwise_cons.1 h'
          have hde : rank d.1 = rank e.1 := by
            have h1 := hv d.1
            have h2 := hv e.1
            rw [valueIn_cons, if_pos rfl, valueIn_cons] at h1
            rw [valueIn_cons, valueIn_cons, if_pos rfl] at h2
            by_cases hlt : rank d.1 < rank e.1
            · rw [if_neg (by omega), valueIn_eq_none fun x hx => by
                have := he x hx; omega] at h1
              exact absurd h1 (by simp)
            · by_cases hgt : rank e.1 < rank d.1
              · rw [if_neg (by omega), valueIn_eq_none fun x hx => by
                  have := hd x hx; omega] at h2
                exact absurd h2 (by simp)
              · omega
          have hv2 : d.2 = e.2 := by
            have h1 := hv d.1
            rw [valueIn_cons, if_pos rfl, valueIn_cons, if_pos hde.symm] at h1
            exact Option.some.inj h1
          have hrest : q = r := by
            refine ih hq hr fun k => ?_
            have hk := hv k
            rw [valueIn_cons, valueIn_cons, ← hde] at hk
            by_cases hdk : rank d.1 = rank k
            · rw [valueIn_eq_none fun x hx => by have := hd x hx; omega,
                valueIn_eq_none fun x hx => by have := he x hx; omega]
            · rwa [if_neg hdk, if_neg hdk] at hk
          rw [hrest]
          exact congrArg (· :: r) (Prod.ext (Ranked.rank_inj hde) hv2)

/-- Maps in which every key has the same value are the same map. -/
theorem ext_find? {a b : SortedMap κ ν} (h : ∀ k, a.find? k = b.find? k) : a = b :=
  SortedMap.ext (eq_of_valueIn a.ascending b.ascending h)

end SortedMap

end ExecTruth
