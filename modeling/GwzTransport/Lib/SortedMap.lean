import Mathlib.Tactic
import Mathlib.Data.List.Basic

/-!
# Finite maps in the order of their keys

An ordered map is a list of pairs with increasing keys.  Iteration visits the keys in order, so
"the first entry such that" has a meaning, and the number of values with a property is a count
over the list.

* `get?`, `insert`, `erase` with their three equations;
* `map`: every value changed in its place;
* `keysWhere`, `firstWhere`: the keys, or the first key, of the entries with a property;
* `countWhere` and `sum`, and what `insert` and `erase` do to them;
* `ext_get?`: a map is what its lookups say.
-/

/-- A finite map, as the list of its entries in the order of the keys. -/
structure SortedMap (K V : Type) [LinearOrder K] where
  toList : List (K × V)
  sorted : toList.Pairwise fun a b => a.1 < b.1

namespace SortedMap

variable {K V : Type} [LinearOrder K] {k : K} {l : List (K × V)}

/-! ### Lists of entries -/

/-- Insertion at the key's place; an entry of the same key is replaced. -/
def insertList (k : K) (v : V) : List (K × V) → List (K × V)
  | [] => [(k, v)]
  | e :: l =>
    if k < e.1 then (k, v) :: e :: l
    else if k = e.1 then (k, v) :: l
    else e :: insertList k v l

/-- The value of the first entry with the key. -/
def lookup (k : K) : List (K × V) → Option V
  | [] => none
  | e :: l => if e.1 = k then some e.2 else lookup k l

theorem mem_insertList {v : V} {a : K × V} (h : a ∈ insertList k v l) : a = (k, v) ∨ a ∈ l := by
  induction l with
  | nil => exact .inl (List.mem_singleton.1 h)
  | cons e l ih =>
    simp only [insertList] at h
    split_ifs at h
    · exact List.mem_cons.1 h
    · rcases List.mem_cons.1 h with rfl | h
      · exact .inl rfl
      · exact .inr (List.mem_cons_of_mem _ h)
    · rcases List.mem_cons.1 h with rfl | h
      · exact .inr (List.mem_cons_self)
      · exact (ih h).imp_right (List.mem_cons_of_mem _)

theorem sorted_insertList (k : K) (v : V) (h : l.Pairwise fun a b => a.1 < b.1) :
    (insertList k v l).Pairwise fun a b => a.1 < b.1 := by
  induction l with
  | nil => exact List.pairwise_singleton _ _
  | cons e l ih =>
    rcases List.pairwise_cons.1 h with ⟨he, hl⟩
    simp only [insertList]
    split_ifs with hlt heq
    · refine List.pairwise_cons.2 ⟨?_, h⟩
      intro a ha
      rcases List.mem_cons.1 ha with rfl | ha
      · exact hlt
      · exact hlt.trans (he a ha)
    · exact List.pairwise_cons.2 ⟨heq ▸ he, hl⟩
    · refine List.pairwise_cons.2 ⟨?_, ih hl⟩
      intro a ha
      rcases mem_insertList ha with rfl | ha
      · exact lt_of_le_of_ne (not_lt.1 hlt) (Ne.symm heq)
      · exact he a ha

theorem lookup_insertList_self (k : K) (v : V) (l : List (K × V)) :
    lookup k (insertList k v l) = some v := by
  induction l with
  | nil => simp [insertList, lookup]
  | cons e l ih =>
    simp only [insertList]
    split_ifs with hlt heq
    · simp [lookup]
    · simp [lookup]
    · simp [lookup, Ne.symm heq, ih]

theorem lookup_insertList_of_ne {j : K} (h : j ≠ k) (v : V) (l : List (K × V)) :
    lookup j (insertList k v l) = lookup j l := by
  induction l with
  | nil => simp [insertList, lookup, Ne.symm h]
  | cons e l ih =>
    simp only [insertList]
    split_ifs with hlt heq
    · simp [lookup, Ne.symm h]
    · have he : e.1 ≠ j := heq ▸ Ne.symm h
      simp [lookup, Ne.symm h, he]
    · simp [lookup, ih]

theorem lookup_filter_self (k : K) (l : List (K × V)) :
    lookup k (l.filter fun e => decide (e.1 ≠ k)) = none := by
  induction l with
  | nil => rfl
  | cons e l ih =>
    by_cases he : e.1 = k
    · rwa [List.filter_cons_of_neg (by simpa using he)]
    · rw [List.filter_cons_of_pos (by simpa using he)]
      simp only [lookup, he, if_false, ih]

theorem lookup_filter_of_ne {j : K} (h : j ≠ k) (l : List (K × V)) :
    lookup j (l.filter fun e => decide (e.1 ≠ k)) = lookup j l := by
  induction l with
  | nil => rfl
  | cons e l ih =>
    by_cases he : e.1 = k
    · rw [List.filter_cons_of_neg (by simpa using he), ih]
      simp only [lookup, he, Ne.symm h, if_false]
    · rw [List.filter_cons_of_pos (by simpa using he)]
      simp only [lookup, ih]

theorem mem_of_lookup {v : V} (h : lookup k l = some v) :
    (k, v) ∈ l := by
  induction l with
  | nil => cases h
  | cons e l ih =>
    simp only [lookup] at h
    split_ifs at h with he
    · cases h
      exact he ▸ List.mem_cons_self
    · exact List.mem_cons_of_mem _ (ih h)

theorem lookup_of_mem {v : V}
    (hl : l.Pairwise fun a b => a.1 < b.1) (h : (k, v) ∈ l) : lookup k l = some v := by
  induction l with
  | nil => cases h
  | cons e l ih =>
    rcases List.pairwise_cons.1 hl with ⟨he, hl⟩
    rcases List.mem_cons.1 h with rfl | h
    · simp [lookup]
    · have hne : e.1 ≠ k := (he _ h).ne
      simp [lookup, hne, ih hl h]

theorem lookup_eq_none_of_lt (h : ∀ e ∈ l, k < e.1) :
    lookup k l = none := by
  by_contra hne
  rcases Option.ne_none_iff_exists'.1 hne with ⟨v, hv⟩
  exact lt_irrefl k (h _ (mem_of_lookup hv))

/-- The new value comes in, the value it replaces goes out. -/
theorem sum_insertList (f : V → ℕ) (k : K) (v : V) (hl : l.Pairwise fun a b => a.1 < b.1) :
    ((insertList k v l).map fun e => f e.2).sum + ((lookup k l).map f).getD 0 =
      (l.map fun e => f e.2).sum + f v := by
  induction l with
  | nil => simp [insertList, lookup]
  | cons e l ih =>
    rcases List.pairwise_cons.1 hl with ⟨he, hl⟩
    simp only [insertList]
    split_ifs with hlt heq
    · have hnone : lookup k (e :: l) = none := by
        refine lookup_eq_none_of_lt fun a ha => ?_
        rcases List.mem_cons.1 ha with rfl | ha
        · exact hlt
        · exact hlt.trans (he a ha)
      rw [hnone]
      simp only [List.map_cons, List.sum_cons, Option.map_none, Option.getD_none]
      omega
    · have hsome : lookup k (e :: l) = some e.2 := by simp [lookup, heq]
      rw [hsome]
      simp only [List.map_cons, List.sum_cons, Option.map_some, Option.getD_some]
      omega
    · have hrest : lookup k (e :: l) = lookup k l := by simp [lookup, Ne.symm heq]
      have := ih hl
      rw [hrest]
      simp only [List.map_cons, List.sum_cons]
      omega

theorem sum_filter_ne (f : V → ℕ) (k : K) (hl : l.Pairwise fun a b => a.1 < b.1) :
    ((l.filter fun e => decide (e.1 ≠ k)).map fun e => f e.2).sum + ((lookup k l).map f).getD 0 =
      (l.map fun e => f e.2).sum := by
  induction l with
  | nil => rfl
  | cons e l ih =>
    rcases List.pairwise_cons.1 hl with ⟨he, hl⟩
    have := ih hl
    by_cases hk : e.1 = k
    · have hnone : lookup k l = none := lookup_eq_none_of_lt (hk ▸ he)
      rw [hnone] at this
      rw [List.filter_cons_of_neg (by simpa using hk)]
      simp only [lookup, hk, if_true, List.map_cons, List.sum_cons, Option.map_some,
        Option.getD_some]
      simp only [Option.map_none, Option.getD_none] at this
      omega
    · rw [List.filter_cons_of_pos (by simpa using hk)]
      simp only [lookup, hk, if_false, List.map_cons, List.sum_cons]
      omega

omit [LinearOrder K] in
theorem countP_eq_sum (p : V → Bool) (l : List (K × V)) :
    l.countP (fun e => p e.2) = (l.map fun e => (p e.2).toNat).sum := by
  induction l with
  | nil => rfl
  | cons e l ih =>
    rw [List.countP_cons, ih, List.map_cons, List.sum_cons, Nat.add_comm]
    cases p e.2 <;> rfl

theorem any_toNat (p : V → Bool) (o : Option V) :
    (o.any p).toNat = (o.map fun v => (p v).toNat).getD 0 := by
  cases o <;> rfl

/-- One more for the new value, one less for the value it replaces. -/
theorem countP_insertList (p : V → Bool) (k : K) (v : V) (hl : l.Pairwise fun a b => a.1 < b.1) :
    (insertList k v l).countP (fun e => p e.2) + ((lookup k l).any p).toNat =
      l.countP (fun e => p e.2) + (p v).toNat := by
  rw [countP_eq_sum, countP_eq_sum, any_toNat]
  exact sum_insertList (fun v => (p v).toNat) k v hl

theorem countP_filter_ne (p : V → Bool) (k : K) (hl : l.Pairwise fun a b => a.1 < b.1) :
    (l.filter fun e => decide (e.1 ≠ k)).countP (fun e => p e.2) + ((lookup k l).any p).toNat =
      l.countP (fun e => p e.2) := by
  rw [countP_eq_sum, countP_eq_sum, any_toNat]
  exact sum_filter_ne (fun v => (p v).toNat) k hl

theorem lookup_map {W : Type} (f : K → V → W) (k : K) (l : List (K × V)) :
    lookup k (l.map fun e => (e.1, f e.1 e.2)) = (lookup k l).map (f k) := by
  induction l with
  | nil => rfl
  | cons e l ih =>
    by_cases he : e.1 = k
    · subst he
      simp [lookup]
    · simpa [lookup, he] using ih

/-! ### The map -/

def empty : SortedMap K V := ⟨[], .nil⟩

def get? (m : SortedMap K V) (k : K) : Option V := lookup k m.toList

def insert (m : SortedMap K V) (k : K) (v : V) : SortedMap K V :=
  ⟨insertList k v m.toList, sorted_insertList k v m.sorted⟩

def erase (m : SortedMap K V) (k : K) : SortedMap K V :=
  ⟨m.toList.filter fun e => decide (e.1 ≠ k), m.sorted.sublist List.filter_sublist⟩

/-- Every value changed, in its place. -/
def map (m : SortedMap K V) (f : K → V → V) : SortedMap K V :=
  ⟨m.toList.map fun e => (e.1, f e.1 e.2), List.pairwise_map.2 m.sorted⟩

def size (m : SortedMap K V) : ℕ := m.toList.length

/-- The keys of the entries with a property, in order. -/
def keysWhere (m : SortedMap K V) (p : K → V → Bool) : List K :=
  (m.toList.filter fun e => p e.1 e.2).map (·.1)

/-- The first key whose entry has a property. -/
def firstWhere (m : SortedMap K V) (p : K → V → Bool) : Option K := (m.keysWhere p).head?

def isEmpty (m : SortedMap K V) : Bool := m.toList.isEmpty

/-- The total of a quantity over the values. -/
def sum (m : SortedMap K V) (f : V → ℕ) : ℕ := (m.toList.map fun e => f e.2).sum

/-- The number of values with a property. -/
def countWhere (m : SortedMap K V) (p : V → Bool) : ℕ := m.toList.countP fun e => p e.2

variable (m : SortedMap K V)

@[simp] theorem get?_empty (k : K) : (empty : SortedMap K V).get? k = none := rfl

@[simp] theorem get?_insert_self (k : K) (v : V) : (m.insert k v).get? k = some v :=
  lookup_insertList_self k v _

theorem get?_insert_of_ne {j : K} (h : j ≠ k) (v : V) : (m.insert k v).get? j = m.get? j :=
  lookup_insertList_of_ne h v _

@[simp] theorem get?_erase_self (k : K) : (m.erase k).get? k = none := lookup_filter_self k _

theorem get?_erase_of_ne {j : K} (h : j ≠ k) : (m.erase k).get? j = m.get? j :=
  lookup_filter_of_ne h _

theorem get?_insert (j k : K) (v : V) :
    (m.insert k v).get? j = if j = k then some v else m.get? j := by
  split_ifs with h
  · rw [h, get?_insert_self]
  · exact m.get?_insert_of_ne h v

theorem get?_erase (j k : K) : (m.erase k).get? j = if j = k then none else m.get? j := by
  split_ifs with h
  · rw [h, get?_erase_self]
  · exact m.get?_erase_of_ne h

@[simp] theorem get?_map (f : K → V → V) (k : K) : (m.map f).get? k = (m.get? k).map (f k) :=
  lookup_map f k _

/-- What is read of the values after an insertion. -/
theorem map_get?_insert {β : Type*} (f : Option V → β) (k : K) (v : V) :
    (fun j => f ((m.insert k v).get? j)) =
      Function.update (fun j => f (m.get? j)) k (f (some v)) := by
  funext j
  by_cases h : j = k
  · subst h
    simp
  · simp [get?_insert_of_ne _ h, Function.update_of_ne h]

theorem map_get?_erase {β : Type*} (f : Option V → β) (k : K) :
    (fun j => f ((m.erase k).get? j)) = Function.update (fun j => f (m.get? j)) k (f none) := by
  funext j
  by_cases h : j = k
  · subst h
    simp
  · simp [get?_erase_of_ne _ h, Function.update_of_ne h]

theorem forall_insert {P : K → V → Prop} {v : V} (h : ∀ j w, m.get? j = some w → P j w)
    (hk : P k v) : ∀ j w, (m.insert k v).get? j = some w → P j w := by
  intro j w hw
  by_cases hj : j = k
  · subst hj
    rw [get?_insert_self] at hw
    exact Option.some.inj hw ▸ hk
  · rw [get?_insert_of_ne _ hj] at hw
    exact h j w hw

theorem forall_erase {P : K → V → Prop} (k : K) (h : ∀ j w, m.get? j = some w → P j w) :
    ∀ j w, (m.erase k).get? j = some w → P j w := by
  intro j w hw
  by_cases hj : j = k
  · subst hj
    simp at hw
  · rw [get?_erase_of_ne _ hj] at hw
    exact h j w hw

theorem mem_toList {v : V} : (k, v) ∈ m.toList ↔ m.get? k = some v :=
  ⟨lookup_of_mem m.sorted, mem_of_lookup⟩

theorem mem_keysWhere {p : K → V → Bool} :
    k ∈ m.keysWhere p ↔ ∃ v, m.get? k = some v ∧ p k v = true := by
  simp only [keysWhere, List.mem_map, List.mem_filter]
  constructor
  · rintro ⟨⟨j, v⟩, ⟨hmem, hp⟩, rfl⟩
    exact ⟨v, m.mem_toList.1 hmem, hp⟩
  · rintro ⟨v, hv, hp⟩
    exact ⟨(k, v), ⟨m.mem_toList.2 hv, hp⟩, rfl⟩

theorem pairwise_keysWhere (p : K → V → Bool) : (m.keysWhere p).Pairwise (· < ·) :=
  List.pairwise_map.2 (m.sorted.sublist List.filter_sublist)

theorem nodup_keysWhere (p : K → V → Bool) : (m.keysWhere p).Nodup :=
  (m.pairwise_keysWhere p).imp ne_of_lt

theorem get?_of_firstWhere {p : K → V → Bool} (h : m.firstWhere p = some k) :
    ∃ v, m.get? k = some v ∧ p k v = true :=
  m.mem_keysWhere.1 (List.mem_of_mem_head? h)

theorem countWhere_insert (p : V → Bool) (k : K) (v : V) :
    (m.insert k v).countWhere p + ((m.get? k).any p).toNat = m.countWhere p + (p v).toNat :=
  countP_insertList p k v m.sorted

theorem countWhere_le_insert {p : V → Bool} {v : V}
    (h : ∀ x, m.get? k = some x → p x = true → p v = true) :
    m.countWhere p ≤ (m.insert k v).countWhere p := by
  have hcount := m.countWhere_insert p k v
  have hle : ((m.get? k).any p).toNat ≤ (p v).toNat := by
    cases hx : (m.get? k).any p with
    | false => exact Nat.zero_le _
    | true =>
      obtain ⟨x, hk, hp⟩ := (Option.any_eq_true _ _).1 hx
      rw [h x hk hp]
  omega

theorem countWhere_erase (p : V → Bool) (k : K) :
    (m.erase k).countWhere p + ((m.get? k).any p).toNat = m.countWhere p :=
  countP_filter_ne p k m.sorted

theorem countWhere_erase_le (p : V → Bool) (k : K) : (m.erase k).countWhere p ≤ m.countWhere p := by
  have := m.countWhere_erase p k
  omega

theorem countWhere_foldl_erase_le (p : V → Bool) (l : List K) :
    (l.foldl erase m).countWhere p ≤ m.countWhere p := by
  induction l generalizing m with
  | nil => exact le_rfl
  | cons k l ih => exact (ih (m.erase k)).trans (m.countWhere_erase_le p k)

theorem sum_insert (f : V → ℕ) (k : K) (v : V) :
    (m.insert k v).sum f + ((m.get? k).map f).getD 0 = m.sum f + f v :=
  sum_insertList f k v m.sorted

theorem sum_erase (f : V → ℕ) (k : K) :
    (m.erase k).sum f + ((m.get? k).map f).getD 0 = m.sum f :=
  sum_filter_ne f k m.sorted

theorem size_eq_sum : m.size = m.sum fun _ => 1 := by
  simp [size, sum]

theorem isEmpty_iff : m.isEmpty = true ↔ ∀ k, m.get? k = none := by
  constructor
  · intro h k
    rw [get?, List.isEmpty_iff.1 h, lookup]
  · intro h
    refine List.isEmpty_iff.2 (List.eq_nil_iff_forall_not_mem.2 fun e he => ?_)
    have hsome := m.mem_toList.1 (show (e.1, e.2) ∈ m.toList from he)
    rw [h] at hsome
    cases hsome

theorem ext_get? {m m' : SortedMap K V} (h : ∀ k, m.get? k = m'.get? k) : m = m' := by
  have hmem : ∀ e, e ∈ m.toList ↔ e ∈ m'.toList := by
    rintro ⟨k, v⟩
    rw [mem_toList, mem_toList, h]
  have hnodup : ∀ m : SortedMap K V, m.toList.Nodup := fun m =>
    m.sorted.imp fun hab heq => hab.ne (congrArg Prod.fst heq)
  have hperm := (List.perm_ext_iff_of_nodup (hnodup m) (hnodup m')).2 hmem
  have hlist : m.toList = m'.toList :=
    hperm.eq_of_pairwise (fun a b _ _ hab hba => absurd hab hba.asymm) m.sorted m'.sorted
  cases m
  cases m'
  cases hlist
  rfl

theorem insert_erase (k : K) (v : V) : (m.erase k).insert k v = m.insert k v := by
  refine ext_get? fun j => ?_
  rw [get?_insert, get?_insert, get?_erase]
  split_ifs <;> rfl

theorem erase_eq_self (h : m.get? k = none) : m.erase k = m := by
  refine ext_get? fun j => ?_
  rw [get?_erase]
  split_ifs with hj
  · rw [hj, h]
  · rfl

theorem insert_insert (k : K) (v w : V) : (m.insert k v).insert k w = m.insert k w := by
  refine ext_get? fun j => ?_
  rw [get?_insert, get?_insert, get?_insert]
  split_ifs <;> rfl

theorem insert_get? {v : V} (h : m.get? k = some v) : m.insert k v = m := by
  refine ext_get? fun j => ?_
  rw [get?_insert]
  split_ifs with hj
  · rw [hj, h]
  · rfl

theorem size_eq_countWhere : m.size = m.countWhere fun _ => true := by
  simp [size, countWhere]

theorem size_erase (k : K) : (m.erase k).size + (m.get? k).isSome.toNat = m.size := by
  have hcount := m.countWhere_erase (fun _ => true) k
  rw [← size_eq_countWhere, ← size_eq_countWhere] at hcount
  cases hk : m.get? k <;> simpa [hk] using hcount

theorem size_insert (k : K) (v : V) :
    (m.insert k v).size + (m.get? k).isSome.toNat = m.size + 1 := by
  have hcount := m.countWhere_insert (fun _ => true) k v
  rw [← size_eq_countWhere, ← size_eq_countWhere] at hcount
  cases hk : m.get? k <;> simpa [hk] using hcount

theorem countWhere_map (p : V → Bool) (f : K → V → V) :
    (m.map f).countWhere p = m.toList.countP fun e => p (f e.1 e.2) := by
  simp [countWhere, map, List.countP_map, Function.comp_def]

theorem length_keysWhere (p : V → Bool) : (m.keysWhere fun _ v => p v).length = m.countWhere p := by
  simp [keysWhere, countWhere, List.countP_eq_length_filter]

end SortedMap
