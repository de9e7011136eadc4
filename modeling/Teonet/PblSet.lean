import Mathlib.Algebra.Group.Nat.Defs
import Mathlib.Data.Int.Notation
import Mathlib.Data.List.GetD
import Mathlib.Data.Nat.Bitwise
import Mathlib.Data.Nat.Prime.Basic
import Mathlib.Tactic.Common
import Teonet.Lib.Probing

/-! # Hash sets (`pblSet.c` of the embedded `libpbl`)

All tables of the program are hash maps, and a hash map is a hash set of its entries.  The set keeps
its elements in an array of pointers whose length is a power of two, and looks for an element from
the slot of its hash value on in steps of an odd size.  It grows when it is three quarters full, and
an element that is removed leaves a hole that later elements of the walk are moved into.

The loops of the source have no bound of their own, so they are given one here, and a function that
has used it up returns `none`.  The invariant is `PblHashSet.Inv`; under it the lookups, the removal
and the addition end, and find, take out and add what they should: `probe_spec`,
`pblHashSetRemoveElement_spec` and `pblHashSetAdd_spec`. -/

namespace Teonet

open Probing

variable {α : Type}

/-! ### The set -/

/-- `PblHashSet`; the capacity is the length of the array.  The load factor is always `0.75`. -/
structure PblHashSet (α : Type) where
  pointerArray : List (Option α) := []
  size : ℕ := 0
  changeCounter : ℕ := 0
  stepSize : ℕ := 3

/-- The functions that are set in a collection; the second one stands for
`pblCollectionElementCompare`. -/
structure PblElementOps (α : Type) where
  hashValue : α → ℕ
  compare : α → α → ℤ

namespace PblHashSet

variable (set : PblHashSet α)

def capacity : ℕ := set.pointerArray.length

/-- The pointer at an index. -/
def slot (i : ℕ) : Option α := set.pointerArray.getD i none

/-- An index without the bits above the capacity. -/
def mask (i : ℕ) : ℕ := i &&& (set.capacity - 1)

/-- The elements in the order of the array, which is that of an iterator. -/
def elements : List α := set.pointerArray.filterMap id

end PblHashSet

variable (ops : PblElementOps α) (set : PblHashSet α)

/-! ### Looking up -/

/-- The loop of the lookups: the index of an element that compares equal, or nothing where an empty
slot is met first. -/
def probe (element : α) : ℕ → ℕ → Option (Option ℕ)
  | 0, _ => none
  | fuel + 1, index =>
    match set.slot index with
    | none => some none
    | some pointer =>
      if ops.compare pointer element = 0 then some (some index)
      else probe element fuel (set.mask (index + set.stepSize))

/-- What the lookups have in common. -/
def pblHashSetFind (element : α) : Option (Option ℕ) :=
  if set.size = 0 ∨ set.capacity < 1 then some none
  else probe ops set element set.capacity (set.mask (ops.hashValue element))

/-- `pblHashSetGetElement`. -/
def pblHashSetGetElement (element : α) : Option (Option α) :=
  (pblHashSetFind ops set element).map fun i => i.bind set.slot

/-- `pblHashSetContains`. -/
def pblHashSetContains (element : α) : Option ℤ :=
  (pblHashSetFind ops set element).map fun i => if i.isSome then 1 else 0

/-- `pblHashSetReplaceElement`: the element that was replaced. -/
def pblHashSetReplaceElement (element : α) : Option (PblHashSet α × Option α) :=
  (pblHashSetFind ops set element).map fun i =>
    match i with
    | none => (set, none)
    | some i => ({ set with pointerArray := set.pointerArray.set i (some element) }, set.slot i)

/-! ### Removing -/

/-- The innermost loop: does the walk from `index` meet `hashValue` before `nextIndex`? -/
def meetsBefore (hashValue nextIndex : ℕ) : ℕ → ℕ → Option Bool
  | 0, _ => none
  | fuel + 1, index =>
    if index = nextIndex then some (decide (hashValue = index))
    else if hashValue = index then some true
    else meetsBefore hashValue nextIndex fuel (set.mask (index + set.stepSize))

/-- The two loops that keep the collision chains in order: the hole is at `indexToRemove`. -/
def closeHole : ℕ → PblHashSet α → ℕ → ℕ → Option (PblHashSet α)
  | 0, _, _, _ => none
  | fuel + 1, set, indexToRemove, nextIndex =>
    match set.slot nextIndex with
    | none => some set
    | some element =>
      let hashValue := set.mask (ops.hashValue element)
      let move : Option (PblHashSet α) :=
        let array := (set.pointerArray.set indexToRemove (some element)).set nextIndex none
        closeHole fuel { set with pointerArray := array } nextIndex
          (set.mask (nextIndex + set.stepSize))
      let skip : Option (PblHashSet α) :=
        closeHole fuel set indexToRemove (set.mask (nextIndex + set.stepSize))
      if hashValue = indexToRemove then move
      else if hashValue = nextIndex then skip
      else
        match meetsBefore set hashValue nextIndex set.capacity
            (set.mask (indexToRemove + set.stepSize)) with
        | none => none
        | some true => skip
        | some false => move

/-- `pblHashSetRemoveElement`. -/
def pblHashSetRemoveElement (element : α) : Option (PblHashSet α × ℤ) :=
  match pblHashSetFind ops set element with
  | none => none
  | some none => some (set, 0)
  | some (some indexToRemove) =>
    let set := { set with
      changeCounter := set.changeCounter + 1
      size := set.size - 1
      pointerArray := set.pointerArray.set indexToRemove none }
    (closeHole ops set.capacity set indexToRemove (set.mask (indexToRemove + set.stepSize))).map
      fun set => (set, 1)

/-! ### Adding -/

def pblPrimeStepSize : List ℕ :=
  [5, 11, 17, 37,
    67, 131, 257, 521,
    1031, 2053, 4099, 8209,
    16411, 32771, 65537, 131101,
    262147, 524309, 1048583, 2097169,
    4194319, 8388617, 16777259, 33554467,
    67108879, 134217757]

def pblCapacities : List ℕ :=
  [0x8, 0x10, 0x20, 0x40,
    0x80, 0x100, 0x200, 0x400,
    0x800, 0x1000, 0x2000, 0x4000,
    0x8000, 0x10000, 0x20000, 0x40000,
    0x80000, 0x100000, 0x200000, 0x400000,
    0x800000, 0x1000000, 0x2000000, 0x4000000,
    0x8000000, 0x10000000, 0x20000000, 0x40000000]

/-- A number of elements divided by the load factor. -/
def divLoadFactor (size : ℕ) : ℕ := 4 * size / 3

/-- The step size in the round `i` of the loop over the capacities. -/
def roundStepSize (i : ℕ) : ℕ := if i > 1 then pblPrimeStepSize.getD (i - 2) 0 else 3

/-- The loop over the capacities: the first one that is large enough, with its step size. -/
def targetCapacity (neededCapacity : ℕ) : Option (ℕ × ℕ) :=
  ((List.range 28).find? fun i => neededCapacity ≤ pblCapacities.getD i 0).map fun i =>
    (pblCapacities.getD i 0, roundStepSize i)

/-- The loop that rehashes the table; negative if an element could not be added. -/
def rehash (add : PblHashSet α → α → Option (PblHashSet α × ℤ)) :
    List (Option α) → PblHashSet α → Option (PblHashSet α × ℤ)
  | [], newSet => some (newSet, 0)
  | none :: pointers, newSet => rehash add pointers newSet
  | some element :: pointers, newSet =>
    match add newSet element with
    | none => none
    | some (newSet, rc) => if rc < 0 then some (newSet, -1) else rehash add pointers newSet

/-- `pblHashSetEnsureCapacity`; `add` is `pblHashSetAdd`. -/
def pblHashSetEnsureCapacity (add : PblHashSet α → α → Option (PblHashSet α × ℤ))
    (set : PblHashSet α) (minCapacity : ℕ) : Option (PblHashSet α × ℤ) :=
  match targetCapacity (divLoadFactor minCapacity + 1) with
  | none => some (set, -1)
  | some (target, stepSize) =>
    if target ≤ set.capacity then some (set, set.capacity)
    else
      let newSet : PblHashSet α :=
        { pointerArray := List.replicate target none, stepSize := stepSize }
      let r := if set.size > 0 then rehash add set.pointerArray newSet else some (newSet, 0)
      match r with
      | none => none
      | some (newSet, rc) =>
        if rc < 0 then some (set, -1)
        else
          some ({ set with
            pointerArray := newSet.pointerArray
            stepSize := newSet.stepSize
            changeCounter := set.changeCounter + 1 }, newSet.capacity)

/-- Where the inner loop of `pblHashSetAdd` ends: at an empty slot, at an element that compares
equal, or back at the first index. -/
inductive AddProbe
  | empty (index : ℕ)
  | present
  | full

/-- The inner loop of `pblHashSetAdd`. -/
def addProbe (element : α) (elementIndex : ℕ) : ℕ → ℕ → Option AddProbe
  | 0, _ => none
  | fuel + 1, index =>
    match set.slot index with
    | none => some (.empty index)
    | some pointer =>
      if ops.compare pointer element = 0 then some .present
      else
        let index := set.mask (index + set.stepSize)
        if elementIndex = index then some .full else addProbe element elementIndex fuel index

/-- The outer loop of `pblHashSetAdd`.  The rounds, and the additions to a larger table inside, are
counted. -/
def addLoop : ℕ → PblHashSet α → α → ℕ → Option (PblHashSet α × ℤ)
  | 0, _, _, _ => none
  | fuel + 1, set, element, minCapacity =>
    let grown :=
      if divLoadFactor minCapacity > set.capacity then
        pblHashSetEnsureCapacity (fun set element => addLoop fuel set element (set.size + 1)) set
          minCapacity
      else some (set, set.capacity)
    match grown with
    | none => none
    | some (set, rc) =>
      if rc < 0 then some (set, -1)
      else
        let elementIndex := set.mask (ops.hashValue element)
        match addProbe ops set element elementIndex set.capacity elementIndex with
        | none => none
        | some (.empty index) =>
          some ({ set with
            pointerArray := set.pointerArray.set index (some element)
            size := set.size + 1
            changeCounter := set.changeCounter + 1 }, 1)
        | some .present => some (set, 0)
        | some .full => addLoop fuel set element (set.capacity + 1)

/-- `pblHashSetAdd`. -/
def pblHashSetAdd (element : α) : Option (PblHashSet α × ℤ) :=
  addLoop ops 2 set element (set.size + 1)

/-! ### Slots and elements -/

/-- The elements of an array. -/
def arrayElements (l : List (Option α)) : List α := l.filterMap id

theorem getD_set {l : List (Option α)} {i : ℕ} (hi : i < l.length) (v : Option α) :
    (fun j => (l.set i v).getD j none) = Function.update (fun j => l.getD j none) i v := by
  funext j
  rw [List.getD_eq_getElem?_getD, List.getElem?_set]
  by_cases hij : i = j
  · subst hij
    rw [if_pos rfl, if_pos hi, Function.update_self]
    rfl
  · rw [if_neg hij, Function.update_of_ne (Ne.symm hij), List.getD_eq_getElem?_getD]

/-- What is stored is one element more, and what it replaces is one element less. -/
theorem arrayElements_set {l : List (Option α)} {i : ℕ} (hi : i < l.length) (v : Option α) :
    (v.toList ++ arrayElements l).Perm
      ((l.getD i none).toList ++ arrayElements (l.set i v)) := by
  have hcons : ∀ o : Option α, (arrayElements (l.take i ++ o :: l.drop (i + 1))).Perm
      (o.toList ++ (arrayElements (l.take i) ++ arrayElements (l.drop (i + 1)))) := by
    intro o
    have heq : arrayElements (l.take i ++ o :: l.drop (i + 1)) =
        arrayElements (l.take i) ++ (o.toList ++ arrayElements (l.drop (i + 1))) := by
      unfold arrayElements
      rw [List.filterMap_append, List.filterMap_cons]
      cases o <;> rfl
    rw [heq]
    exact List.perm_append_comm_assoc _ _ _
  have hl : l.take i ++ l.getD i none :: l.drop (i + 1) = l := by
    rw [List.getD_eq_getElem _ _ hi, List.getElem_cons_drop, List.take_append_drop]
  have hset : l.set i v = l.take i ++ v :: l.drop (i + 1) :=
    List.set_eq_take_append_cons_drop.trans (if_pos hi)
  have hold := hcons (l.getD i none)
  rw [hl] at hold
  rw [hset]
  exact (hold.append_left _).trans ((List.perm_append_comm_assoc _ _ _).trans
    ((hcons v).symm.append_left _))

theorem arrayElements_set_some {l : List (Option α)} {i : ℕ} (hi : i < l.length)
    (hempty : l.getD i none = none) (e : α) :
    (arrayElements (l.set i (some e))).Perm (e :: arrayElements l) := by
  have h := arrayElements_set hi (some e)
  rw [hempty] at h
  exact h.symm

theorem arrayElements_set_none {l : List (Option α)} {i : ℕ} (hi : i < l.length) {e : α}
    (he : l.getD i none = some e) : (arrayElements l).Perm (e :: arrayElements (l.set i none)) := by
  have h := arrayElements_set hi none
  rwa [he] at h

theorem mem_arrayElements {l : List (Option α)} {e : α} :
    e ∈ arrayElements l ↔ ∃ i < l.length, l.getD i none = some e := by
  rw [arrayElements, List.mem_filterMap]
  constructor
  · rintro ⟨o, ho, rfl⟩
    obtain ⟨i, hi, heq⟩ := List.mem_iff_getElem.mp ho
    exact ⟨i, hi, (List.getD_eq_getElem _ _ hi).trans heq⟩
  · rintro ⟨i, hi, heq⟩
    rw [List.getD_eq_getElem _ _ hi] at heq
    exact ⟨some e, heq ▸ List.getElem_mem hi, rfl⟩

/-- There is an empty slot where there are fewer elements than slots. -/
theorem exists_getD_eq_none {l : List (Option α)} (h : (arrayElements l).length < l.length) :
    ∃ i < l.length, l.getD i none = none := by
  induction l with
  | nil => exact absurd h (Nat.lt_irrefl 0)
  | cons o l ih =>
    cases o with
    | none => exact ⟨0, Nat.succ_pos _, rfl⟩
    | some e =>
      obtain ⟨i, hi, heq⟩ := ih (Nat.lt_of_succ_lt_succ h)
      exact ⟨i + 1, Nat.succ_lt_succ hi, heq⟩

theorem arrayElements_replicate (n : ℕ) :
    arrayElements (List.replicate n none : List (Option α)) = [] := by
  rw [arrayElements, List.filterMap_eq_nil_iff]
  intro o ho
  rw [List.eq_of_mem_replicate ho]
  rfl

/-! ### The invariant -/

/-- Equal elements are as their name says, and have the same hash value. -/
structure PblElementOps.Lawful (ops : PblElementOps α) : Prop where
  refl : ∀ a, ops.compare a a = 0
  symm : ∀ a b, ops.compare a b = 0 → ops.compare b a = 0
  trans : ∀ a b c, ops.compare a b = 0 → ops.compare b c = 0 → ops.compare a c = 0
  hash : ∀ a b, ops.compare a b = 0 → ops.hashValue a = ops.hashValue b

/-- The home of an element. -/
def PblHashSet.home (ops : PblElementOps α) (set : PblHashSet α) (e : α) : ℕ :=
  set.mask (ops.hashValue e)

/-- The array is empty or its length is a power of two, and the step size is odd; the size is the
number of the elements, at most three quarters of the capacity; no two of them are equal, and each
is found on its walk. -/
structure PblHashSet.Inv (ops : PblElementOps α) (set : PblHashSet α) : Prop where
  capacity : set.capacity = 0 ∨ ∃ b, 3 ≤ b ∧ b ≤ 30 ∧ set.capacity = 2 ^ b
  step : Nat.Coprime 2 set.stepSize
  size : set.size = set.elements.length
  load : divLoadFactor set.size ≤ set.capacity
  distinct : set.elements.Pairwise fun a b => ops.compare a b ≠ 0
  probed : Probed set.capacity set.stepSize (set.home ops) set.slot

namespace PblHashSet.Inv

variable {ops : PblElementOps α} {set : PblHashSet α}

theorem elements_eq (set : PblHashSet α) : set.elements = arrayElements set.pointerArray := rfl

/-- A set without slots has no elements. -/
theorem elements_eq_nil (h : set.capacity < 1) : set.elements = [] := by
  have hnil : set.pointerArray = [] :=
    List.length_eq_zero_iff.mp (Nat.lt_one_iff.mp h)
  rw [elements_eq, hnil]
  rfl

/-- A set with slots has a power of two of them. -/
theorem exists_pow (h : set.Inv ops) (hcap : 0 < set.capacity) :
    ∃ b, 3 ≤ b ∧ b ≤ 30 ∧ set.capacity = 2 ^ b :=
  h.capacity.resolve_left hcap.ne'

theorem eight_le (h : set.Inv ops) (hcap : 0 < set.capacity) : 8 ≤ set.capacity := by
  obtain ⟨b, hb, -, heq⟩ := h.exists_pow hcap
  rw [heq]
  exact Nat.pow_le_pow_right (show 0 < 2 by decide) hb

theorem size_lt (h : set.Inv ops) (hcap : 0 < set.capacity) : set.size < set.capacity := by
  have hload := h.load
  have height := h.eight_le hcap
  unfold divLoadFactor at hload
  omega

theorem coprime (h : set.Inv ops) (hcap : 0 < set.capacity) :
    Nat.Coprime set.capacity set.stepSize := by
  obtain ⟨b, -, -, hb⟩ := h.exists_pow hcap
  rw [hb]
  exact Nat.Coprime.pow_left b h.step

/-- The mask is the remainder. -/
theorem mask_eq (h : set.Inv ops) (hcap : 0 < set.capacity) (i : ℕ) :
    set.mask i = i % set.capacity := by
  obtain ⟨b, -, -, hb⟩ := h.exists_pow hcap
  rw [PblHashSet.mask, hb, Nat.and_two_pow_sub_one_eq_mod]

theorem home_lt (h : set.Inv ops) (hcap : 0 < set.capacity) (e : α) :
    set.home ops e < set.capacity := by
  rw [PblHashSet.home, h.mask_eq hcap]
  exact Nat.mod_lt _ hcap

/-- The next index of a walk. -/
theorem mask_walk (h : set.Inv ops) (hcap : 0 < set.capacity) (start k : ℕ) :
    set.mask (walk set.capacity set.stepSize start k + set.stepSize) =
      walk set.capacity set.stepSize start (k + 1) := by
  rw [h.mask_eq hcap, walk_succ]

/-- There is an empty slot. -/
theorem exists_empty (h : set.Inv ops) (hcap : 0 < set.capacity) :
    ∃ i < set.capacity, set.slot i = none :=
  exists_getD_eq_none (by rw [← elements_eq, ← h.size]; exact h.size_lt hcap)

theorem mem_elements {e : α} : e ∈ set.elements ↔ ∃ i < set.capacity, set.slot i = some e :=
  mem_arrayElements

/-- Equal elements have the same home. -/
theorem home_eq (hops : ops.Lawful) {a b : α} (h : ops.compare a b = 0) :
    set.home ops a = set.home ops b := by
  rw [PblHashSet.home, PblHashSet.home, hops.hash a b h]

/-- An element that compares equal to none on its walk up to an empty slot compares equal to none. -/
theorem no_match (h : set.Inv ops) (hops : ops.Lawful) (x : α) {k : ℕ}
    (hempty : set.slot (walk set.capacity set.stepSize (set.home ops x) k) = none)
    (hmiss : ∀ j < k, ∃ e, set.slot (walk set.capacity set.stepSize (set.home ops x) j) = some e ∧
      ops.compare e x ≠ 0) : ∀ e ∈ set.elements, ops.compare e x ≠ 0 := by
  intro e he hsame
  obtain ⟨i, hi, hslot⟩ := mem_elements.mp he
  refine h.probed.home_ne hempty hi hslot (fun j hj hslot' => ?_) (home_eq hops hsame)
  obtain ⟨e', he', hne⟩ := hmiss j hj
  obtain rfl := Option.some.inj (hslot'.symm.trans he')
  exact hne hsame

/-- A walk cannot go through taken slots only. -/
theorem not_full (h : set.Inv ops) (hcap : 0 < set.capacity) (start : ℕ) :
    ¬ ∀ j < set.capacity, set.slot (walk set.capacity set.stepSize start j) ≠ none := by
  intro hfull
  obtain ⟨i, hi, hnone⟩ := h.exists_empty hcap
  obtain ⟨k, hk, rfl⟩ := exists_walk (h.coprime hcap) start hi
  exact hfull k hk hnone

/-- The order does not matter to the elements being different. -/
theorem distinct_perm (hops : ops.Lawful) {l l' : List α} (h : l.Perm l') :
    (l.Pairwise fun a b => ops.compare a b ≠ 0) ↔ l'.Pairwise fun a b => ops.compare a b ≠ 0 :=
  h.pairwise_iff fun {a b} hne heq => hne (hops.symm b a heq)

end PblHashSet.Inv

/-! ### Lookups -/

variable {ops : PblElementOps α} {set : PblHashSet α}

open PblHashSet.Inv

/-- **The loop of the lookups** ends: at the element that compares equal, if there is one. -/
theorem probe_spec (h : set.Inv ops) (hops : ops.Lawful) (hcap : 0 < set.capacity) (x : α) :
    ∀ fuel k, k + fuel = set.capacity →
      (∀ j < k, ∃ e, set.slot (walk set.capacity set.stepSize (set.home ops x) j) = some e ∧
        ops.compare e x ≠ 0) →
      (probe ops set x fuel (walk set.capacity set.stepSize (set.home ops x) k) = some none ∧
        ∀ e ∈ set.elements, ops.compare e x ≠ 0) ∨
      ∃ i e, probe ops set x fuel (walk set.capacity set.stepSize (set.home ops x) k) =
        some (some i) ∧ i < set.capacity ∧ set.slot i = some e ∧ ops.compare e x = 0
  | 0, k, hk, hmiss => by
      refine absurd (fun j hj => ?_) (h.not_full hcap (set.home ops x))
      obtain ⟨e, he, -⟩ := hmiss j (by omega)
      rw [he]
      exact Option.some_ne_none e
  | fuel + 1, k, hk, hmiss => by
      rw [probe]
      cases hslot : set.slot (walk set.capacity set.stepSize (set.home ops x) k) with
      | none => exact .inl ⟨rfl, h.no_match hops x hslot hmiss⟩
      | some e =>
        dsimp only
        split_ifs with hsame
        · exact .inr ⟨_, e, rfl, walk_lt hcap _ _ _, hslot, hsame⟩
        · rw [h.mask_walk hcap]
          refine probe_spec h hops hcap x fuel (k + 1) (by omega) fun j hj => ?_
          rcases Nat.lt_succ_iff_lt_or_eq.mp hj with hlt | rfl
          · exact hmiss j hlt
          · exact ⟨e, hslot, hsame⟩

/-- **The lookups** end at the index of the element that compares equal, if there is one. -/
theorem pblHashSetFind_spec (h : set.Inv ops) (hops : ops.Lawful) (x : α) :
    (pblHashSetFind ops set x = some none ∧ ∀ e ∈ set.elements, ops.compare e x ≠ 0) ∨
    ∃ i e, pblHashSetFind ops set x = some (some i) ∧ i < set.capacity ∧ set.slot i = some e ∧
      ops.compare e x = 0 := by
  unfold pblHashSetFind
  split_ifs with hnone
  · have hnil : set.elements = [] := by
      rcases hnone with hsize | hcap
      · exact List.length_eq_zero_iff.mp (h.size.symm.trans hsize)
      · exact elements_eq_nil hcap
    rw [hnil]
    exact .inl ⟨rfl, fun e he => absurd he List.not_mem_nil⟩
  · have hcap : 0 < set.capacity := by omega
    have hspec := probe_spec h hops hcap x set.capacity 0 (Nat.zero_add _)
      fun j hj => absurd hj (Nat.not_lt_zero j)
    rwa [walk_zero (h.home_lt hcap x)] at hspec

/-- The element that compares equal is found. -/
theorem pblHashSetGetElement_spec (h : set.Inv ops) (hops : ops.Lawful) (x : α) :
    (pblHashSetGetElement ops set x = some none ∧ ∀ e ∈ set.elements, ops.compare e x ≠ 0) ∨
    ∃ e ∈ set.elements, pblHashSetGetElement ops set x = some (some e) ∧ ops.compare e x = 0 := by
  unfold pblHashSetGetElement
  rcases pblHashSetFind_spec h hops x with ⟨hfind, hnone⟩ | ⟨i, e, hfind, hi, hslot, hsame⟩
  · rw [hfind]
    exact .inl ⟨rfl, hnone⟩
  · rw [hfind]
    exact .inr ⟨e, mem_elements.mpr ⟨i, hi, hslot⟩, congrArg some hslot, hsame⟩

theorem pblHashSetContains_spec (h : set.Inv ops) (hops : ops.Lawful) (x : α) :
    (pblHashSetContains ops set x = some 0 ∧ ∀ e ∈ set.elements, ops.compare e x ≠ 0) ∨
    (pblHashSetContains ops set x = some 1 ∧ ∃ e ∈ set.elements, ops.compare e x = 0) := by
  unfold pblHashSetContains
  rcases pblHashSetFind_spec h hops x with ⟨hfind, hnone⟩ | ⟨i, e, hfind, hi, hslot, hsame⟩
  · rw [hfind]
    exact .inl ⟨rfl, hnone⟩
  · rw [hfind]
    exact .inr ⟨rfl, e, mem_elements.mpr ⟨i, hi, hslot⟩, hsame⟩

/-- An array of the same length has the same homes. -/
theorem PblHashSet.home_of_length (ops : PblElementOps α) (set set' : PblHashSet α)
    (h : set'.capacity = set.capacity) : set'.home ops = set.home ops := by
  funext e
  rw [PblHashSet.home, PblHashSet.home, PblHashSet.mask, PblHashSet.mask, h]

/-- Another array of the same length. -/
theorem PblHashSet.Inv.of_array (h : set.Inv ops) {array : List (Option α)} {size : ℕ}
    (changeCounter : ℕ) (hlen : array.length = set.capacity)
    (hsize : size = (arrayElements array).length) (hload : divLoadFactor size ≤ set.capacity)
    (hdistinct : (arrayElements array).Pairwise fun a b => ops.compare a b ≠ 0)
    (hprobed : Probed set.capacity set.stepSize (set.home ops) fun i => array.getD i none) :
    PblHashSet.Inv ops ⟨array, size, changeCounter, set.stepSize⟩ where
  capacity := by
    rw [PblHashSet.capacity, hlen]
    exact h.capacity
  step := h.step
  size := hsize
  load := by
    rw [PblHashSet.capacity, hlen]
    exact hload
  distinct := hdistinct
  probed := by
    rw [PblHashSet.home_of_length ops set ⟨array, size, changeCounter, set.stepSize⟩ hlen,
      PblHashSet.capacity, hlen]
    exact hprobed

/-- The set with another element at an index. -/
def PblHashSet.replaced (set : PblHashSet α) (i : ℕ) (x : α) : PblHashSet α :=
  { set with pointerArray := set.pointerArray.set i (some x) }

/-- **Replacing**: the new element takes the place of the one that compares equal, if there is
one. -/
theorem pblHashSetReplaceElement_spec (h : set.Inv ops) (hops : ops.Lawful) (x : α) :
    (pblHashSetReplaceElement ops set x = some (set, none) ∧
      ∀ e ∈ set.elements, ops.compare e x ≠ 0) ∨
    ∃ i e rest, pblHashSetReplaceElement ops set x = some (set.replaced i x, some e) ∧
      i < set.capacity ∧ set.slot i = some e ∧ (set.replaced i x).Inv ops ∧
      ops.compare e x = 0 ∧ set.elements.Perm (e :: rest) ∧
      (set.replaced i x).elements.Perm (x :: rest) := by
  unfold pblHashSetReplaceElement
  rcases pblHashSetFind_spec h hops x with ⟨hfind, hnone⟩ | ⟨i, e, hfind, hi, hslot, hsame⟩
  · rw [hfind]
    exact .inl ⟨rfl, hnone⟩
  · have hold : set.elements.Perm (e :: arrayElements (set.pointerArray.set i none)) :=
      arrayElements_set_none hi hslot
    have hnew : (arrayElements (set.pointerArray.set i (some x))).Perm
        (x :: arrayElements (set.pointerArray.set i none)) := by
      have hset := arrayElements_set hi (some x)
      rw [show set.pointerArray.getD i none = some e from hslot] at hset
      exact (hset.symm.trans ((hold.cons x).trans (.swap e x _))).cons_inv
    have hdistinct : (x :: arrayElements (set.pointerArray.set i none)).Pairwise
        fun a b => ops.compare a b ≠ 0 := by
      obtain ⟨hfirst, hrest⟩ := List.pairwise_cons.mp ((distinct_perm hops hold).mp h.distinct)
      exact List.pairwise_cons.mpr ⟨fun b hb hxb => hfirst b hb (hops.trans e x b hsame hxb), hrest⟩
    have hprobed : Probed set.capacity set.stepSize (set.home ops)
        fun j => (set.pointerArray.set i (some x)).getD j none := by
      rw [getD_set hi]
      exact h.probed.replace hi hslot (home_eq hops hsame).symm
    have hsize : set.size = (arrayElements (set.pointerArray.set i (some x))).length := by
      rw [h.size, hold.length_eq, hnew.length_eq]
      rfl
    rw [hfind]
    dsimp only [Option.map_some]
    rw [hslot]
    exact .inr ⟨i, e, _, rfl, hi, hslot, h.of_array set.changeCounter List.length_set hsize h.load
      ((distinct_perm hops hnew).mpr hdistinct) hprobed, hsame, hold, hnew⟩

/-! ### Removal -/

/-- A set with the capacity and the step size of another one. -/
structure SameShape (set cur : PblHashSet α) : Prop where
  capacity : cur.capacity = set.capacity
  stepSize : cur.stepSize = set.stepSize

variable {cur : PblHashSet α} {free : ℕ}

theorem SameShape.mask_eq (hcur : SameShape set cur) (i : ℕ) : cur.mask i = set.mask i := by
  rw [PblHashSet.mask, PblHashSet.mask, hcur.capacity]

/-- The next index of a walk. -/
theorem SameShape.mask_walk (hcur : SameShape set cur) (h : set.Inv ops) (hcap : 0 < set.capacity)
    (k : ℕ) : cur.mask (walk set.capacity set.stepSize free k + cur.stepSize) =
      walk set.capacity set.stepSize free (k + 1) := by
  rw [hcur.mask_eq, hcur.stepSize, h.mask_walk hcap]

/-- The innermost loop tells whether a place lies in the interval. -/
theorem meetsBefore_spec (h : set.Inv ops) (hcap : 0 < set.capacity) (hcur : SameShape set cur)
    {d x : ℕ} (hd : d < set.capacity) (hx : x < set.capacity) (hne : d ≠ x) :
    ∀ fuel j, j ≤ x → x < j + fuel →
      meetsBefore cur (walk set.capacity set.stepSize free d)
        (walk set.capacity set.stepSize free x) fuel (walk set.capacity set.stepSize free j) =
        some (decide (j ≤ d ∧ d < x))
  | 0, j, hjx, hfuel => by omega
  | fuel + 1, j, hjx, hfuel => by
      have hinj : ∀ {a b}, a < set.capacity → b < set.capacity →
          walk set.capacity set.stepSize free a = walk set.capacity set.stepSize free b → a = b :=
        fun ha hb heq => walk_inj (h.coprime hcap) ha hb heq
      rw [meetsBefore]
      split_ifs with hend hmeet
      · obtain rfl := hinj (by omega) hx hend
        rw [decide_eq_false fun heq => hne (hinj hd hx heq), decide_eq_false (by omega)]
      · obtain rfl := hinj hd (by omega) hmeet
        rw [decide_eq_true ⟨Nat.le_refl d, by omega⟩]
      · rw [hcur.mask_walk h hcap]
        have hjx' : j ≠ x := by
          rintro rfl
          exact hend rfl
        have hjd : j ≠ d := by
          rintro rfl
          exact hmeet rfl
        rw [meetsBefore_spec h hcap hcur hd hx hne fuel (j + 1) (by omega) (by omega)]
        congr 2
        apply propext
        omega

/-- What the loops that close a hole end with: an array that keeps the invariant and the elements. -/
def HoleCloses (ops : PblElementOps α) (set cur : PblHashSet α) (r : Option (PblHashSet α)) : Prop :=
  ∃ array, r = some { cur with pointerArray := array } ∧ array.length = set.capacity ∧
    Probed set.capacity set.stepSize (set.home ops) (fun i => array.getD i none) ∧
    (arrayElements array).Perm cur.elements

/-- The set after an element has been moved to another index. -/
def PblHashSet.moved (cur : PblHashSet α) (e : α) (target source : ℕ) : PblHashSet α :=
  { cur with pointerArray := (cur.pointerArray.set target (some e)).set source none }

/-- Moving an element into the hole keeps the shape and the elements. -/
theorem moved_spec (h : set.Inv ops) (hcap : 0 < set.capacity) (hcur : SameShape set cur) {q x : ℕ}
    (hq : q < set.capacity) (hx : x < set.capacity) (hne : x ≠ q) {e : α}
    (hhole : cur.slot (walk set.capacity set.stepSize free q) = none)
    (hslot : cur.slot (walk set.capacity set.stepSize free x) = some e) :
    SameShape set (cur.moved e (walk set.capacity set.stepSize free q)
      (walk set.capacity set.stepSize free x)) ∧
    (cur.moved e (walk set.capacity set.stepSize free q)
      (walk set.capacity set.stepSize free x)).slot =
      Function.update (Function.update cur.slot (walk set.capacity set.stepSize free q) (some e))
        (walk set.capacity set.stepSize free x) none ∧
    (cur.moved e (walk set.capacity set.stepSize free q)
      (walk set.capacity set.stepSize free x)).elements.Perm cur.elements := by
  have hwalk : walk set.capacity set.stepSize free x ≠ walk set.capacity set.stepSize free q :=
    fun heq => hne (walk_inj (h.coprime hcap) hx hq heq)
  have hlen : cur.pointerArray.length = set.capacity := hcur.capacity
  have hqlen : walk set.capacity set.stepSize free q < cur.pointerArray.length := by
    rw [hlen]
    exact walk_lt hcap _ _ _
  have hxlen : walk set.capacity set.stepSize free x <
      (cur.pointerArray.set (walk set.capacity set.stepSize free q) (some e)).length := by
    rw [List.length_set, hlen]
    exact walk_lt hcap _ _ _
  have hslots := getD_set hqlen (some e)
  refine ⟨⟨?_, hcur.stepSize⟩, ?_, ?_⟩
  · rw [PblHashSet.moved, PblHashSet.capacity, List.length_set, List.length_set, hlen]
  · exact (getD_set hxlen none).trans (by rw [hslots]; rfl)
  · have hstored := arrayElements_set_some hqlen hhole e
    have hxval : (cur.pointerArray.set (walk set.capacity set.stepSize free q)
        (some e)).getD (walk set.capacity set.stepSize free x) none = some e := by
      rw [show _ = _ from congrFun hslots (walk set.capacity set.stepSize free x),
        Function.update_of_ne hwalk]
      exact hslot
    exact ((arrayElements_set_none hxlen hxval).symm.trans hstored).cons_inv

/-- The place where the search ends stays empty. -/
theorem moved_slot_free (h : set.Inv ops) (hcap : 0 < set.capacity) (hcur : SameShape set cur)
    (hline : Line set.capacity set.stepSize (set.home ops) cur.slot free) {q x : ℕ}
    (hhole : Hole set.capacity set.stepSize (set.home ops) free cur.slot q x)
    (hq : q < set.capacity) (hx : x < set.capacity) {e : α}
    (hslot : cur.slot (walk set.capacity set.stepSize free x) = some e) :
    (cur.moved e (walk set.capacity set.stepSize free q)
      (walk set.capacity set.stepSize free x)).slot free = none := by
  rw [(moved_spec h hcap hcur hq hx hhole.lt.ne' hhole.hole hslot).2.1]
  by_cases hxf : free = walk set.capacity set.stepSize free x
  · rw [← hxf, Function.update_self]
  · rw [Function.update_of_ne hxf, Function.update_of_ne (hhole.walk_ne_free hline hq).symm]
    exact hline.empty

/-- **An element goes into the hole** exactly if its home does not lie behind the hole, which three
comparisons tell. -/
theorem closeHole_succ (h : set.Inv ops) (hcap : 0 < set.capacity) (hcur : SameShape set cur)
    (hline : Line set.capacity set.stepSize (set.home ops) cur.slot free) {q x : ℕ}
    (hhole : Hole set.capacity set.stepSize (set.home ops) free cur.slot q x)
    (hq : q < set.capacity) (hx : x < set.capacity) {e : α}
    (hslot : cur.slot (walk set.capacity set.stepSize free x) = some e) (fuel : ℕ) :
    closeHole ops (fuel + 1) cur (walk set.capacity set.stepSize free q)
        (walk set.capacity set.stepSize free x) =
      if place set.capacity set.stepSize (set.home ops) free e ≤ q then
        closeHole ops fuel (cur.moved e (walk set.capacity set.stepSize free q)
            (walk set.capacity set.stepSize free x))
          (walk set.capacity set.stepSize free x) (walk set.capacity set.stepSize free (x + 1))
      else closeHole ops fuel cur (walk set.capacity set.stepSize free q)
        (walk set.capacity set.stepSize free (x + 1)) := by
  have hqx := hhole.lt
  have hhome_le := hhole.line x hx e hslot
  obtain ⟨hd, hwalk⟩ := hline.walk_place e
  have hhome : cur.mask (ops.hashValue e) = walk set.capacity set.stepSize free
      (place set.capacity set.stepSize (set.home ops) free e) := by
    rw [hwalk, hcur.mask_eq]
    rfl
  rw [closeHole, hslot]
  generalize place set.capacity set.stepSize (set.home ops) free e = d at *
  dsimp only
  rw [hhome, hcur.mask_walk h hcap]
  by_cases hdq : walk set.capacity set.stepSize free d = walk set.capacity set.stepSize free q
  · rw [if_pos hdq, if_pos (walk_inj (h.coprime hcap) hd hq hdq).le]
    rfl
  rw [if_neg hdq]
  by_cases hdx : walk set.capacity set.stepSize free d = walk set.capacity set.stepSize free x
  · have hdx' := walk_inj (h.coprime hcap) hd hx hdx
    rw [if_pos hdx, if_neg (by omega)]
  have hne : d ≠ x := by
    rintro rfl
    exact hdx rfl
  obtain ⟨-, hdx', -⟩ := hhome_le
  rw [if_neg hdx, hcur.mask_walk h hcap, hcur.capacity,
    meetsBefore_spec h hcap hcur hd hx hne set.capacity (q + 1) hqx (by omega)]
  by_cases hin : q + 1 ≤ d ∧ d < x
  · rw [decide_eq_true hin]
    exact (if_neg (by omega)).symm
  · rw [decide_eq_false hin]
    exact (if_pos (by omega)).symm

/-- **The loops that close a hole** end. -/
theorem closeHole_spec (h : set.Inv ops) (hcap : 0 < set.capacity) (hfree : free < set.capacity) :
    ∀ fuel (cur : PblHashSet α) (q x : ℕ), SameShape set cur → cur.slot free = none →
      Hole set.capacity set.stepSize (set.home ops) free cur.slot q x → set.capacity < x + fuel →
      HoleCloses ops set cur (closeHole ops fuel cur (walk set.capacity set.stepSize free q)
        (walk set.capacity set.stepSize free x))
  | 0, cur, q, x, _, _, hhole, hfuel => by
      have hle := hhole.le
      omega
  | fuel + 1, cur, q, x, hcur, hempty, hhole, hfuel => by
      have hline : Line set.capacity set.stepSize (set.home ops) cur.slot free :=
        ⟨h.coprime hcap, hfree, h.home_lt hcap, hempty⟩
      have hqx := hhole.lt
      have hxn := hhole.le
      have hq : q < set.capacity := by omega
      cases hslot : cur.slot (walk set.capacity set.stepSize free x) with
      | none =>
        rw [closeHole, hslot]
        exact ⟨cur.pointerArray, rfl, hcur.capacity, hhole.probed hline hslot, .refl _⟩
      | some e =>
        have hx : x < set.capacity := by
          rcases Nat.lt_or_eq_of_le hxn with hlt | rfl
          · exact hlt
          · rw [walk_self hfree, hempty] at hslot
            cases hslot
        rw [closeHole_succ h hcap hcur hline hhole hq hx hslot]
        split_ifs with hdq
        · obtain ⟨hshape, hslots, hperm⟩ := moved_spec h hcap hcur hq hx hqx.ne' hhole.hole hslot
          have hempty' := moved_slot_free h hcap hcur hline hhole hq hx hslot
          have hhole' := hhole.move hline hx hslot hdq
          rw [← hslots] at hhole'
          obtain ⟨array, hclose, hlen, hprobed, hperm'⟩ :=
            closeHole_spec h hcap hfree fuel _ x (x + 1) hshape hempty' hhole' (by omega)
          exact ⟨array, hclose, hlen, hprobed, hperm'.trans hperm⟩
        · exact closeHole_spec h hcap hfree fuel cur q (x + 1) hcur hempty
            (hhole.skip hx hslot (Nat.not_le.mp hdq)) (by omega)

/-- **Removal** takes out the element that compares equal, if there is one. -/
theorem pblHashSetRemoveElement_spec (h : set.Inv ops) (hops : ops.Lawful) (x : α) :
    (pblHashSetRemoveElement ops set x = some (set, 0) ∧
      ∀ e ∈ set.elements, ops.compare e x ≠ 0) ∨
    ∃ set' e, pblHashSetRemoveElement ops set x = some (set', 1) ∧ set'.Inv ops ∧
      set'.changeCounter = set.changeCounter + 1 ∧ ops.compare e x = 0 ∧
      set.elements.Perm (e :: set'.elements) := by
  unfold pblHashSetRemoveElement
  rcases pblHashSetFind_spec h hops x with ⟨hfind, hnone⟩ | ⟨i, e, hfind, hi, hslot, hsame⟩
  · rw [hfind]
    exact .inl ⟨rfl, hnone⟩
  · have hcap : 0 < set.capacity := Nat.zero_lt_of_lt hi
    obtain ⟨free, hfree, hempty⟩ := h.exists_empty hcap
    obtain ⟨q, hq, rfl⟩ := exists_walk (h.coprime hcap) free hi
    have hline : Line set.capacity set.stepSize (set.home ops) set.slot free :=
      ⟨h.coprime hcap, hfree, h.home_lt hcap, hempty⟩
    have hhole := h.probed.hole hline hq hslot
    have hslots := getD_set hi (none : Option α)
    have hempty' : (set.pointerArray.set (walk set.capacity set.stepSize free q) none).getD free
        none = none := by
      rw [show _ = _ from congrFun hslots free]
      by_cases hqf : free = walk set.capacity set.stepSize free q
      · rw [← hqf, Function.update_self]
      · rw [Function.update_of_ne hqf]
        exact hempty
    rw [show Function.update set.slot (walk set.capacity set.stepSize free q) none = _ from
      hslots.symm] at hhole
    have hshape : SameShape set { set with
        changeCounter := set.changeCounter + 1
        size := set.size - 1
        pointerArray := set.pointerArray.set (walk set.capacity set.stepSize free q) none } :=
      ⟨List.length_set, rfl⟩
    obtain ⟨array, hclose, hlen, hprobed, hperm⟩ := closeHole_spec h hcap hfree set.capacity _
      q (q + 1) hshape hempty' hhole (by omega)
    have hold : set.elements.Perm (e :: arrayElements array) :=
      (arrayElements_set_none hi hslot).trans (hperm.symm.cons e)
    have hsize : set.size - 1 = (arrayElements array).length := by
      rw [h.size, hold.length_eq, List.length_cons, Nat.add_sub_cancel]
    have hload : divLoadFactor (set.size - 1) ≤ set.capacity := by
      have hload := h.load
      unfold divLoadFactor at hload ⊢
      omega
    rw [hfind]
    dsimp only
    rw [hshape.mask_walk h hcap, hshape.capacity, hclose]
    exact .inr ⟨_, e, rfl, h.of_array _ hlen hsize hload
      ((distinct_perm hops hold).mp h.distinct).of_cons hprobed, rfl, hsame, hold⟩

/-! ### Addition -/

/-- Where the inner loop of the addition ends: at an element that compares equal, or else at the first
empty slot of the walk. -/
theorem addProbe_spec (h : set.Inv ops) (hcap : 0 < set.capacity) (x : α) :
    ∀ fuel k, k + fuel = set.capacity →
      (∀ j < k, ∃ e, set.slot (walk set.capacity set.stepSize (set.home ops x) j) = some e ∧
        ops.compare e x ≠ 0) →
      (addProbe ops set x (set.home ops x) fuel
          (walk set.capacity set.stepSize (set.home ops x) k) = some .present ∧
        ∃ e ∈ set.elements, ops.compare e x = 0) ∨
      ∃ i < set.capacity, addProbe ops set x (set.home ops x) fuel
          (walk set.capacity set.stepSize (set.home ops x) k) =
          some (.empty (walk set.capacity set.stepSize (set.home ops x) i)) ∧
        set.slot (walk set.capacity set.stepSize (set.home ops x) i) = none ∧
        ∀ j < i, ∃ e, set.slot (walk set.capacity set.stepSize (set.home ops x) j) = some e ∧
          ops.compare e x ≠ 0
  | 0, k, hk, hmiss => by
      refine absurd (fun j hj => ?_) (h.not_full hcap (set.home ops x))
      obtain ⟨e, he, -⟩ := hmiss j (by omega)
      rw [he]
      exact Option.some_ne_none e
  | fuel + 1, k, hk, hmiss => by
      rw [addProbe]
      cases hslot : set.slot (walk set.capacity set.stepSize (set.home ops x) k) with
      | none => exact .inr ⟨k, by omega, rfl, hslot, hmiss⟩
      | some e =>
        dsimp only
        split_ifs with hsame hback
        · exact .inl ⟨rfl, e, mem_elements.mpr ⟨_, walk_lt hcap _ _ _, hslot⟩, hsame⟩
        all_goals
          have hmiss' : ∀ j < k + 1, ∃ e,
              set.slot (walk set.capacity set.stepSize (set.home ops x) j) = some e ∧
              ops.compare e x ≠ 0 := by
            intro j hj
            rcases Nat.lt_succ_iff_lt_or_eq.mp hj with hlt | rfl
            · exact hmiss j hlt
            · exact ⟨e, hslot, hsame⟩
          rw [h.mask_walk hcap] at *
        · -- the walk is not back before it has met every slot, and one of them is empty
          have hzero := walk_zero (h.home_lt hcap x) set.stepSize
          have hlast : ¬ k + 1 < set.capacity := by
            intro hlt
            have := walk_inj (h.coprime hcap) hlt hcap (hback.symm.trans hzero.symm)
            omega
          refine absurd (fun j hj => ?_) (h.not_full hcap (set.home ops x))
          obtain ⟨e', he', -⟩ := hmiss' j (by omega)
          rw [he']
          exact Option.some_ne_none e'
        · exact addProbe_spec h hcap x fuel (k + 1) (by omega) hmiss'

/-- An addition to a table that is large enough. -/
theorem addLoop_spec (h : set.Inv ops) (hops : ops.Lawful) (x : α) (fuel : ℕ)
    (hload : divLoadFactor (set.size + 1) ≤ set.capacity) :
    ∃ set' rc, addLoop ops (fuel + 1) set x (set.size + 1) = some (set', rc) ∧ set'.Inv ops ∧
      SameShape set set' ∧
      ((rc = 0 ∧ set' = set ∧ ∃ e ∈ set.elements, ops.compare e x = 0) ∨
      (rc = 1 ∧ set'.changeCounter = set.changeCounter + 1 ∧
        set'.elements.Perm (x :: set.elements) ∧ ∀ e ∈ set.elements, ops.compare e x ≠ 0)) := by
  have hcap : 0 < set.capacity := by
    unfold divLoadFactor at hload
    omega
  have hspec := addProbe_spec h hcap x set.capacity 0 (Nat.zero_add _)
    fun j hj => absurd hj (Nat.not_lt_zero j)
  rw [walk_zero (h.home_lt hcap x)] at hspec
  rw [addLoop, if_neg (by omega)]
  dsimp only
  rw [if_neg (by omega), show set.mask (ops.hashValue x) = set.home ops x from rfl]
  rcases hspec with ⟨hprobe, hsame⟩ | ⟨k, hk, hprobe, hempty, hmiss⟩
  · rw [hprobe]
    exact ⟨set, 0, rfl, h, ⟨rfl, rfl⟩, .inl ⟨rfl, rfl, hsame⟩⟩
  · have hi := walk_lt hcap set.stepSize (set.home ops x) k
    have hperm := arrayElements_set_some (l := set.pointerArray) hi hempty x
    have hne : ∀ e ∈ set.elements, ops.compare e x ≠ 0 := h.no_match hops x hempty hmiss
    have hdistinct : (x :: arrayElements set.pointerArray).Pairwise
        fun a b => ops.compare a b ≠ 0 :=
      List.pairwise_cons.mpr ⟨fun e he hsame => hne e he (hops.symm x e hsame), h.distinct⟩
    have hsize : set.size + 1 = (arrayElements (set.pointerArray.set
        (walk set.capacity set.stepSize (set.home ops x) k) (some x))).length := by
      rw [hperm.length_eq, List.length_cons, h.size]
      rfl
    have hprobed := h.probed.store (e := x) hk fun j hj => by
      obtain ⟨e, he, -⟩ := hmiss j hj
      rw [he]
      exact Option.some_ne_none e
    rw [show Function.update set.slot _ (some x) = _ from (getD_set hi (some x)).symm] at hprobed
    rw [hprobe]
    exact ⟨_, 1, rfl, h.of_array _ List.length_set hsize hload
      ((distinct_perm hops hperm).mpr hdistinct) hprobed, ⟨List.length_set, rfl⟩,
      .inr ⟨rfl, rfl, hperm, hne⟩⟩

/-- The loop that rehashes takes every element over. -/
theorem rehash_spec (hops : ops.Lawful) (fuel : ℕ) :
    ∀ (pointers : List (Option α)) (newSet : PblHashSet α), newSet.Inv ops →
      (arrayElements pointers ++ newSet.elements).Pairwise (fun a b => ops.compare a b ≠ 0) →
      divLoadFactor ((arrayElements pointers).length + newSet.size) ≤ newSet.capacity →
      ∃ newSet', rehash (fun set element => addLoop ops (fuel + 1) set element (set.size + 1))
          pointers newSet = some (newSet', 0) ∧ newSet'.Inv ops ∧ SameShape newSet newSet' ∧
        newSet'.elements.Perm (arrayElements pointers ++ newSet.elements)
  | [], newSet, h, _, _ => ⟨newSet, rfl, h, ⟨rfl, rfl⟩, .refl _⟩
  | none :: pointers, newSet, h, hdistinct, hload =>
      rehash_spec hops fuel pointers newSet h hdistinct hload
  | some element :: pointers, newSet, h, hdistinct, hload => by
      have hcons : arrayElements (some element :: pointers) = element :: arrayElements pointers :=
        rfl
      rw [hcons, List.cons_append] at hdistinct
      rw [hcons, List.length_cons] at hload
      obtain ⟨hfirst, hrest⟩ := List.pairwise_cons.mp hdistinct
      have hroom : divLoadFactor (newSet.size + 1) ≤ newSet.capacity := by
        unfold divLoadFactor at hload ⊢
        omega
      obtain ⟨set', rc, hadd, h', hshape, ⟨-, -, e, he, hsame⟩ | ⟨rfl, -, hperm, -⟩⟩ :=
        addLoop_spec h hops element fuel hroom
      · exact absurd (hops.symm e element hsame) (hfirst e (List.mem_append_right _ he))
      · have hsize : set'.size = newSet.size + 1 := by
          rw [h'.size, hperm.length_eq, List.length_cons, h.size]
        have hmove : (arrayElements pointers ++ set'.elements).Perm
            (element :: (arrayElements pointers ++ newSet.elements)) :=
          (hperm.append_left _).trans List.perm_middle
        obtain ⟨newSet', hrehash, h'', hshape', hperm'⟩ := rehash_spec hops fuel pointers set' h'
          ((distinct_perm hops hmove).mpr hdistinct) (by
            rw [hshape.capacity, hsize]
            rwa [Nat.add_right_comm, Nat.add_assoc] at hload)
        refine ⟨newSet', ?_, h'', ⟨hshape'.capacity.trans hshape.capacity,
          hshape'.stepSize.trans hshape.stepSize⟩, hperm'.trans hmove⟩
        rw [rehash, hadd]
        dsimp only
        rw [if_neg (by decide)]
        exact hrehash

theorem pblCapacities_getD : ∀ i < 28, pblCapacities.getD i 0 = 2 ^ (3 + i) := by decide

theorem roundStepSize_odd : ∀ i < 28, Nat.Coprime 2 (roundStepSize i) := by decide

/-- The loop over the capacities ends at a power of two and an odd step size, where the table may be
as large. -/
theorem targetCapacity_spec {neededCapacity : ℕ} (h : neededCapacity ≤ 2 ^ 30) :
    ∃ b stepSize, 3 ≤ b ∧ b ≤ 30 ∧ Nat.Coprime 2 stepSize ∧ neededCapacity ≤ 2 ^ b ∧
      targetCapacity neededCapacity = some (2 ^ b, stepSize) := by
  unfold targetCapacity
  cases hfind : (List.range 28).find? fun i => neededCapacity ≤ pblCapacities.getD i 0 with
  | none =>
    have hlast := List.find?_eq_none.mp hfind 27 (by decide)
    rw [pblCapacities_getD 27 (by decide)] at hlast
    exact absurd (decide_eq_true h) hlast
  | some i =>
    have hi : i < 28 := List.mem_range.mp (List.mem_of_find?_eq_some hfind)
    have hfits := List.find?_some hfind
    have hle := of_decide_eq_true hfits
    rw [pblCapacities_getD i hi] at hle
    refine ⟨3 + i, roundStepSize i, by omega, by omega, roundStepSize_odd i hi, hle, ?_⟩
    rw [Option.map_some, pblCapacities_getD i hi]

theorem targetCapacity_eq_none {neededCapacity : ℕ} (h : 2 ^ 30 < neededCapacity) :
    targetCapacity neededCapacity = none := by
  have hfind : ((List.range 28).find? fun i => neededCapacity ≤ pblCapacities.getD i 0) = none := by
    apply List.find?_eq_none.mpr
    intro i hi hle
    have hi' : i < 28 := List.mem_range.mp hi
    have hle' := of_decide_eq_true hle
    rw [pblCapacities_getD i hi'] at hle'
    have hpow : 2 ^ (3 + i) ≤ 2 ^ 30 := Nat.pow_le_pow_right (by decide) (by omega)
    omega
  rw [targetCapacity, hfind]
  rfl

/-- The most elements a table may hold. -/
def maxElements : ℕ := 3 * 2 ^ 28

/-- An empty table. -/
theorem inv_empty (ops : PblElementOps α) {b stepSize : ℕ} (hb : 3 ≤ b) (hb' : b ≤ 30)
    (hodd : Nat.Coprime 2 stepSize) :
    PblHashSet.Inv ops ⟨List.replicate (2 ^ b) none, 0, 0, stepSize⟩ where
  capacity := .inr ⟨b, hb, hb', List.length_replicate⟩
  step := hodd
  size := by rw [elements_eq, arrayElements_replicate]; rfl
  load := by simp [divLoadFactor]
  distinct := by
    rw [elements_eq, arrayElements_replicate]
    exact .nil
  probed i hi e he := by
    simp [PblHashSet.slot] at he

/-- **Growing** keeps the elements, and makes room for another one. -/
theorem pblHashSetEnsureCapacity_spec (h : set.Inv ops) (hops : ops.Lawful) (fuel : ℕ)
    (hsmall : set.capacity < divLoadFactor (set.size + 1)) (hsize : set.size < maxElements) :
    ∃ set' rc, pblHashSetEnsureCapacity
        (fun set element => addLoop ops (fuel + 1) set element (set.size + 1)) set (set.size + 1) =
        some (set', rc) ∧ 0 ≤ rc ∧ set'.Inv ops ∧ set.changeCounter ≤ set'.changeCounter ∧
      set'.elements.Perm set.elements ∧ set'.size = set.size ∧ divLoadFactor (set'.size + 1) ≤ set'.capacity := by
  have hneeded : divLoadFactor (set.size + 1) + 1 ≤ 2 ^ 30 := by
    have hcap : set.capacity ≤ 2 ^ 29 ∨ 2 ^ 30 ≤ set.capacity := by
      rcases h.capacity with hzero | ⟨b, -, hb, hpow⟩
      · exact .inl (by omega)
      · rw [hpow]
        rcases Nat.lt_or_eq_of_le hb with hlt | rfl
        · exact .inl (Nat.pow_le_pow_right (by decide) (by omega))
        · exact .inr (Nat.le_refl _)
    have hload := h.load
    unfold divLoadFactor maxElements at *
    omega
  obtain ⟨b, stepSize, hb, hb', hodd, hle, htarget⟩ := targetCapacity_spec hneeded
  have hempty := inv_empty ops hb hb' hodd
  have hnil : PblHashSet.elements ⟨List.replicate (2 ^ b) (none : Option α), 0, 0, stepSize⟩ = [] :=
    arrayElements_replicate _
  have hcapacity : PblHashSet.capacity
      ⟨List.replicate (2 ^ b) (none : Option α), 0, 0, stepSize⟩ = 2 ^ b := List.length_replicate
  have hdone : ∃ newSet', (if set.size > 0 then
        rehash (fun set element => addLoop ops (fuel + 1) set element (set.size + 1))
          set.pointerArray ⟨List.replicate (2 ^ b) none, 0, 0, stepSize⟩
        else some (⟨List.replicate (2 ^ b) none, 0, 0, stepSize⟩, 0)) = some (newSet', 0) ∧
      newSet'.Inv ops ∧ newSet'.capacity = 2 ^ b ∧ newSet'.elements.Perm set.elements := by
    split_ifs with hpos
    · obtain ⟨newSet', hrehash, hinv, hshape, hperm⟩ := rehash_spec hops fuel set.pointerArray _
        hempty (by rw [hnil, List.append_nil]; exact h.distinct) (by
          show divLoadFactor ((arrayElements set.pointerArray).length + 0) ≤ _
          rw [hcapacity, ← elements_eq, ← h.size]
          unfold divLoadFactor at *
          omega)
      rw [hnil, List.append_nil] at hperm
      exact ⟨newSet', hrehash, hinv, hshape.capacity.trans hcapacity, hperm⟩
    · have hset : set.elements = [] := List.length_eq_zero_iff.mp (by rw [← h.size]; omega)
      exact ⟨_, rfl, hempty, hcapacity, by rw [hnil, hset]⟩
  obtain ⟨newSet', hnew, hinv, hcap, hperm⟩ := hdone
  have hsize' : newSet'.size = set.size := by rw [hinv.size, hperm.length_eq, h.size]
  unfold pblHashSetEnsureCapacity
  rw [htarget]
  dsimp only
  rw [if_neg (by omega), hnew]
  dsimp only
  rw [if_neg (by decide)]
  refine ⟨_, _, rfl, Int.natCast_nonneg _, ?_, Nat.le_succ _, hperm, rfl, ?_⟩
  · rw [← hsize']
    exact ⟨hinv.capacity, hinv.step, hinv.size, hinv.load, hinv.distinct, hinv.probed⟩
  · show divLoadFactor (set.size + 1) ≤ newSet'.capacity
    omega

/-- What an addition does, as its answer tells. -/
inductive Added (ops : PblElementOps α) (set : PblHashSet α) (x : α) : PblHashSet α → ℤ → Prop
  /-- An element that compares equal stays. -/
  | present {set' : PblHashSet α} (h : ∃ e ∈ set.elements, ops.compare e x = 0)
      (hperm : set'.elements.Perm set.elements) (hsize : set.size < maxElements) :
      Added ops set x set' 0
  /-- An iterator notices. -/
  | added {set' : PblHashSet α} (h : ∀ e ∈ set.elements, ops.compare e x ≠ 0)
      (hperm : set'.elements.Perm (x :: set.elements)) (hsize : set.size < maxElements)
      (hcount : set.changeCounter < set'.changeCounter) : Added ops set x set' 1
  /-- The table is as large as it may be. -/
  | refused (hsize : maxElements ≤ set.size) : Added ops set x set (-1)

/-- **Addition** ends, keeps the invariant, and adds an element unless one compares equal. -/
theorem pblHashSetAdd_spec (h : set.Inv ops) (hops : ops.Lawful) (x : α) :
    ∃ set' rc, pblHashSetAdd ops set x = some (set', rc) ∧ set'.Inv ops ∧
      Added ops set x set' rc := by
  have hroom : ∀ {set' : PblHashSet α}, set'.Inv ops → set.changeCounter ≤ set'.changeCounter →
      set'.elements.Perm set.elements → divLoadFactor (set'.size + 1) ≤ set'.capacity →
      set.size < maxElements → ∀ fuel,
      ∃ set'' rc, addLoop ops (fuel + 1) set' x (set'.size + 1) = some (set'', rc) ∧
        set''.Inv ops ∧ Added ops set x set'' rc := by
    intro set' h' hcount hperm hload hsize fuel
    have hmem : ∀ e, e ∈ set'.elements ↔ e ∈ set.elements := fun e => hperm.mem_iff
    obtain ⟨set'', rc, hadd, hinv, -, ⟨rfl, rfl, e, he, hsame⟩ | ⟨rfl, hcount', hperm', hne⟩⟩ :=
      addLoop_spec h' hops x fuel hload
    · exact ⟨_, 0, hadd, hinv, .present ⟨e, (hmem e).mp he, hsame⟩ hperm hsize⟩
    · exact ⟨_, 1, hadd, hinv, .added (fun e he => hne e ((hmem e).mpr he))
        (hperm'.trans (hperm.cons x)) hsize (by omega)⟩
  have hload := h.load
  unfold pblHashSetAdd
  by_cases hgrow : set.capacity < divLoadFactor (set.size + 1)
  · by_cases hsize : set.size < maxElements
    · obtain ⟨set', rc, hensure, hrc, h', hcount, hperm, hsize', hload'⟩ :=
        pblHashSetEnsureCapacity_spec h hops 0 hgrow hsize
      obtain ⟨set'', rc', hadd, hinv, hadded⟩ := hroom h' hcount hperm hload' hsize 1
      refine ⟨set'', rc', ?_, hinv, hadded⟩
      rw [addLoop, if_neg (by omega)] at hadd
      rw [addLoop, if_pos hgrow, hensure]
      dsimp only at hadd ⊢
      rw [if_neg (by omega)] at hadd ⊢
      exact hadd
    · have htarget : targetCapacity (divLoadFactor (set.size + 1) + 1) = none := by
        apply targetCapacity_eq_none
        unfold divLoadFactor maxElements at *
        omega
      refine ⟨set, -1, ?_, h, .refused (by omega)⟩
      rw [addLoop, if_pos hgrow, pblHashSetEnsureCapacity, htarget]
      rfl
  · have hsize : set.size < maxElements := by
      have hcap : set.capacity ≤ 2 ^ 30 := by
        rcases h.capacity with hzero | ⟨b, -, hb, hpow⟩
        · omega
        · rw [hpow]
          exact Nat.pow_le_pow_right (by decide) hb
      unfold divLoadFactor maxElements at *
      omega
    exact hroom h (Nat.le_refl _) (.refl _) (by omega) hsize 1

end Teonet
