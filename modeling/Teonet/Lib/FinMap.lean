import Mathlib.Data.List.AList
import Mathlib.Tactic.SplitIfs

/-! # Finite maps

A map with finitely many keys is Mathlib's association list without duplicate keys.  `get`,
`add` (insert or replace), `remove` and `modify` are its operations; each has one lemma that says
what a later `get` returns, in `if` form, so a case split on the key settles a lookup.  `addNew`
leaves a key that is present alone, and `get_foldl_addNew` says that the first value for a key
stays. -/

/-- A finite map from `κ` to `ν`. -/
abbrev FinMap (κ ν : Type) : Type := AList (fun _ : κ => ν)

namespace FinMap

variable {κ ν : Type} [DecidableEq κ]

/-- The value at a key. -/
def get (m : FinMap κ ν) (k : κ) : Option ν := m.lookup k

/-- Insert or replace the value at a key. -/
def add (m : FinMap κ ν) (k : κ) (v : ν) : FinMap κ ν := m.insert k v

/-- Drop a key. -/
def remove (m : FinMap κ ν) (k : κ) : FinMap κ ν := m.erase k

/-- Change the value at a key that is present. -/
def modify (m : FinMap κ ν) (k : κ) (f : ν → ν) : FinMap κ ν :=
  match m.get k with
  | some v => m.add k (f v)
  | none => m

/-- The map without keys. -/
def empty : FinMap κ ν := ∅

/-- No key is present. -/
def isEmpty (m : FinMap κ ν) : Bool := m.entries.isEmpty

/-- The pairs in the order in which a walk over the map meets them. -/
def toPairs (m : FinMap κ ν) : List (κ × ν) := m.entries.map fun e => (e.1, e.2)

@[simp] theorem get_empty (k : κ) : (empty : FinMap κ ν).get k = none :=
  AList.lookup_empty k

theorem get_add (m : FinMap κ ν) (k k' : κ) (v : ν) :
    (m.add k v).get k' = if k' = k then some v else m.get k' := by
  unfold get add
  by_cases h : k' = k
  · subst h
    rw [if_pos rfl, AList.lookup_insert]
  · rw [if_neg h, AList.lookup_insert_ne h]

theorem get_remove (m : FinMap κ ν) (k k' : κ) :
    (m.remove k).get k' = if k' = k then none else m.get k' := by
  unfold get remove
  by_cases h : k' = k
  · subst h
    rw [if_pos rfl, AList.lookup_erase]
  · rw [if_neg h, AList.lookup_erase_ne h]

@[simp] theorem get_add_self (m : FinMap κ ν) (k : κ) (v : ν) : (m.add k v).get k = some v := by
  rw [get_add, if_pos rfl]

theorem get_add_of_ne (m : FinMap κ ν) {k k' : κ} (h : k' ≠ k) (v : ν) :
    (m.add k v).get k' = m.get k' := by
  rw [get_add, if_neg h]

theorem get_remove_of_ne (m : FinMap κ ν) {k k' : κ} (h : k' ≠ k) :
    (m.remove k).get k' = m.get k' := by
  rw [get_remove, if_neg h]

theorem get_modify (m : FinMap κ ν) (k k' : κ) (f : ν → ν) :
    (m.modify k f).get k' = if k' = k then (m.get k).map f else m.get k' := by
  rw [modify]
  cases hk : m.get k with
  | some v => rw [get_add]; rfl
  | none =>
    show m.get k' = _
    by_cases h : k' = k
    · rw [if_pos h, h, hk]; rfl
    · rw [if_neg h]

theorem get_modify_of_ne (m : FinMap κ ν) {k k' : κ} (h : k' ≠ k) (f : ν → ν) :
    (m.modify k f).get k' = m.get k' := by
  rw [get_modify, if_neg h]

/-! ### Walks -/

theorem mem_toPairs (m : FinMap κ ν) (k : κ) (v : ν) : (k, v) ∈ m.toPairs ↔ m.get k = some v := by
  rw [get, ← Option.mem_def, AList.mem_lookup_iff, toPairs]
  simp

omit [DecidableEq κ] in
/-- A walk meets each key once. -/
theorem nodup_toPairs (m : FinMap κ ν) : (m.toPairs.map Prod.fst).Nodup := by
  rw [toPairs, List.map_map]
  exact m.nodupKeys

/-- A key that is present stands at one place, and `remove` takes out that place. -/
theorem exists_entries_of_get (m : FinMap κ ν) {k : κ} {v : ν} (h : m.get k = some v) :
    ∃ l₁ l₂, m.entries = l₁ ++ ⟨k, v⟩ :: l₂ ∧ (m.remove k).entries = l₁ ++ l₂ := by
  have hmem := AList.mem_lookup_iff.mp (Option.mem_def.mpr h)
  obtain ⟨v', l₁, l₂, -, hl, hk⟩ := List.exists_of_kerase (List.mem_map_of_mem hmem)
  have hv : v' = v := by
    have hv' : (⟨k, v'⟩ : Sigma fun _ : κ => ν) ∈ m.entries := by
      rw [hl]
      simp
    exact eq_of_heq (m.nodupKeys.eq_of_mk_mem hv' hmem ▸ HEq.rfl)
  subst hv
  exact ⟨l₁, l₂, hl, hk⟩

/-- A walk meets the other keys, whether or not the key is dropped. -/
theorem perm_toPairs_remove (m : FinMap κ ν) {k : κ} {v : ν} (h : m.get k = some v) :
    m.toPairs.Perm ((k, v) :: (m.remove k).toPairs) := by
  obtain ⟨l₁, l₂, hl, herase⟩ := exists_entries_of_get m h
  rw [toPairs, toPairs, hl, herase, List.map_append, List.map_cons, List.map_append]
  exact List.perm_middle

/-- A walk is shorter after a key that was present is dropped. -/
theorem length_toPairs_remove (m : FinMap κ ν) {k : κ} {v : ν} (h : m.get k = some v) :
    (m.remove k).toPairs.length + 1 = m.toPairs.length :=
  (perm_toPairs_remove m h).length_eq.symm

/-! ### Sizes -/

/-- The number of keys. -/
def size (m : FinMap κ ν) : ℕ := m.entries.length

theorem size_remove (m : FinMap κ ν) {k : κ} {v : ν} (h : m.get k = some v) :
    (m.remove k).size + 1 = m.size := by
  have hlen := length_toPairs_remove m h
  rwa [toPairs, toPairs, List.length_map, List.length_map] at hlen

theorem size_add (m : FinMap κ ν) (k : κ) (v : ν) : (m.add k v).size = (m.remove k).size + 1 := by
  have hentries : (m.add k v).entries = ⟨k, v⟩ :: (m.remove k).entries := AList.entries_insert
  rw [size, hentries]
  rfl

/-- A new key is one more. -/
theorem size_add_of_absent (m : FinMap κ ν) {k : κ} (h : m.get k = none) (v : ν) :
    (m.add k v).size = m.size + 1 := by
  have hkey : k ∉ m := AList.lookup_eq_none.mp h
  have hsame : (m.remove k).entries = m.entries := List.kerase_of_notMem_keys hkey
  rw [size_add, size, hsame]
  rfl

/-- A value that replaces another is none more. -/
theorem size_add_of_present (m : FinMap κ ν) {k : κ} {w : ν} (h : m.get k = some w) (v : ν) :
    (m.add k v).size = m.size := by
  rw [size_add, size_remove m h]

theorem size_modify (m : FinMap κ ν) (k : κ) (f : ν → ν) : (m.modify k f).size = m.size := by
  unfold modify
  cases h : m.get k with
  | none => rfl
  | some v => exact size_add_of_present m h (f v)

theorem get_modify_eq_none_iff (m : FinMap κ ν) (k k' : κ) (f : ν → ν) :
    (m.modify k f).get k' = none ↔ m.get k' = none := by
  rw [get_modify]
  split_ifs with h
  · rw [h, Option.map_eq_none_iff]
  · rfl

/-! ### All values at once -/

/-- Change every value. -/
def mapValues (m : FinMap κ ν) (f : ν → ν) : FinMap κ ν where
  entries := m.entries.map (.map id fun _ => f)
  nodupKeys := m.nodupKeys.map₂ (fun _ => f) m.entries

theorem get_mapValues (m : FinMap κ ν) (f : ν → ν) (k : κ) :
    (m.mapValues f).get k = (m.get k).map f :=
  List.dlookup_map₂ (f := fun _ => f) k

omit [DecidableEq κ] in
theorem size_mapValues (m : FinMap κ ν) (f : ν → ν) : (m.mapValues f).size = m.size :=
  List.length_map _

/-! ### The first value stays -/

/-- Insert the value at a key that is not present. -/
def addNew (m : FinMap κ ν) (k : κ) (v : ν) : FinMap κ ν :=
  match m.get k with
  | none => m.add k v
  | some _ => m

theorem get_addNew (m : FinMap κ ν) (k k' : κ) (v : ν) :
    (m.addNew k v).get k' = (m.get k').or (if k' = k then some v else none) := by
  unfold addNew
  cases h : m.get k with
  | none =>
    dsimp only
    rw [get_add]
    split_ifs with hk
    · rw [hk, h, Option.none_or]
    · rw [Option.or_none]
  | some w =>
    dsimp only
    split_ifs with hk
    · rw [hk, h, Option.some_or]
    · rw [Option.or_none]

/-- What a key has after a sequence of insertions: what it had, else the first value for it. -/
theorem get_foldl_addNew (l : List (κ × ν)) (m : FinMap κ ν) (k : κ) :
    (l.foldl (fun m p => m.addNew p.1 p.2) m).get k =
      (m.get k).or ((l.find? fun p => p.1 = k).map Prod.snd) := by
  induction l generalizing m with
  | nil => exact Option.or_none.symm
  | cons p l ih =>
    rw [List.foldl_cons, ih, get_addNew, Option.or_assoc, List.find?_cons]
    by_cases hk : p.1 = k
    · rw [if_pos hk.symm, decide_eq_true hk]
      rfl
    · rw [if_neg (Ne.symm hk), decide_eq_false hk, Option.none_or]

/-! ### Sums over a map -/

/-- The sum of `f` over the values. -/
def weight (f : ν → ℕ) (m : FinMap κ ν) : ℕ := m.entries.foldr (fun e n => f e.2 + n) 0

theorem foldr_add_append {ε : Type} (g : ε → ℕ) (l₁ l₂ : List ε) :
    (l₁ ++ l₂).foldr (fun e n => g e + n) 0 =
      l₁.foldr (fun e n => g e + n) 0 + l₂.foldr (fun e n => g e + n) 0 := by
  induction l₁ with
  | nil => simp
  | cons e l₁ ih =>
    rw [List.cons_append, List.foldr_cons, List.foldr_cons, ih]
    omega

/-- The value at a key counts apart from the others. -/
theorem weight_remove (f : ν → ℕ) (m : FinMap κ ν) {k : κ} {v : ν} (h : m.get k = some v) :
    (m.remove k).weight f + f v = m.weight f := by
  obtain ⟨l₁, l₂, hl, herase⟩ := exists_entries_of_get m h
  rw [weight, weight, herase, hl, foldr_add_append fun e : Sigma fun _ : κ => ν => f e.2,
    foldr_add_append fun e : Sigma fun _ : κ => ν => f e.2, List.foldr_cons]
  dsimp only
  omega

theorem weight_remove_le (f : ν → ℕ) (m : FinMap κ ν) (k : κ) :
    (m.remove k).weight f ≤ m.weight f := by
  cases h : m.get k with
  | none =>
    have hkey : k ∉ m := AList.lookup_eq_none.mp h
    have hsame : (m.remove k).entries = m.entries := List.kerase_of_notMem_keys hkey
    rw [weight, hsame]
    rfl
  | some v =>
    have hsum := weight_remove f m h
    omega

theorem weight_add_le (f : ν → ℕ) (m : FinMap κ ν) (k : κ) (v : ν) :
    (m.add k v).weight f ≤ m.weight f + f v := by
  have hentries : (m.add k v).entries = ⟨k, v⟩ :: (m.remove k).entries := AList.entries_insert
  have hle := weight_remove_le f m k
  have hsum : (m.add k v).weight f = f v + (m.remove k).weight f := by
    rw [weight, hentries, List.foldr_cons]
    rfl
  omega

/-- A value that replaces another counts in its place. -/
theorem weight_add_of_present (f : ν → ℕ) (m : FinMap κ ν) {k : κ} {w : ν} (h : m.get k = some w)
    (v : ν) : (m.add k v).weight f + f w = m.weight f + f v := by
  have hentries : (m.add k v).entries = ⟨k, v⟩ :: (m.remove k).entries := AList.entries_insert
  have hremove := weight_remove f m h
  have hsum : (m.add k v).weight f = f v + (m.remove k).weight f := by
    rw [weight, hentries, List.foldr_cons]
    rfl
  omega

end FinMap
