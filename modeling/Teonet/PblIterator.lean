import Teonet.PblSet

/-! # Iterators over hash sets (`pblIterator.c`, `pblSet.c` of the embedded `libpbl`)

An iterator holds the index of the slot that it gives next.  It counts the elements that it has given,
and notices by the change counter of the set that the set was changed after it was made; it then
gives nothing any more.

`Ahead` and `Behind` say what an iterator has still to give, in the order of the array
(`Ahead.next`) or against it (`Behind.previous`).  An element that is replaced by an equal one stays
where it is (`Ahead.replaced`), so that it is given in its new form. -/

namespace Teonet

variable {α : Type} (set : PblHashSet α)

/-! ### The walk over the slots -/

/-- The first slot in a list of them with an element. -/
def PblHashSet.findElement (slots : List ℕ) : Option ℕ :=
  slots.find? fun i => (set.slot i).isSome

def pblHashElementFirst : Option ℕ :=
  if set.size = 0 then none else set.findElement (List.range set.capacity)

def pblHashElementNext (pointer : ℕ) : Option ℕ :=
  if set.size = 0 then none
  else set.findElement (List.range' (pointer + 1) (set.capacity - (pointer + 1)))

def pblHashElementLast : Option ℕ :=
  if set.size = 0 then none else set.findElement (List.range set.capacity).reverse

def pblHashElementPrevious (pointer : ℕ) : Option ℕ :=
  if set.size = 0 then none else set.findElement (List.range pointer).reverse

/-! ### Iterators -/

/-- `PblHashIterator`: the pointers are the indices of slots. -/
structure PblHashIterator where
  changeCounter : ℕ
  index : ℕ
  prev : Option ℕ := none
  next : Option ℕ := none

/-- `pblIteratorInit`. -/
def pblIteratorInit : PblHashIterator :=
  { changeCounter := set.changeCounter, index := 0, next := pblHashElementFirst set }

/-- `pblIteratorReverseInit`. -/
def pblIteratorReverseInit : PblHashIterator :=
  { changeCounter := set.changeCounter, index := set.size, prev := pblHashElementLast set }

variable (iterator : PblHashIterator)

/-- `pblIteratorHasNext`. -/
def pblIteratorHasNext : ℤ :=
  if iterator.changeCounter ≠ set.changeCounter then -1
  else if iterator.index < set.size then 1 else 0

/-- `pblIteratorHasPrevious`. -/
def pblIteratorHasPrevious : ℤ :=
  if iterator.changeCounter ≠ set.changeCounter then -1
  else if 0 < iterator.index ∧ iterator.index ≤ set.size then 1 else 0

/-- `pblIteratorNext`; `none` is the pointer `-1`. -/
def pblIteratorNext : PblHashIterator × Option α :=
  if pblIteratorHasNext set iterator ≤ 0 then (iterator, none)
  else
    match iterator.next with
    | none => (iterator, none)
    | some pointer =>
      ({ iterator with
        prev := some pointer
        next := pblHashElementNext set pointer
        index := iterator.index + 1 }, set.slot pointer)

/-- `pblIteratorPrevious`. -/
def pblIteratorPrevious : PblHashIterator × Option α :=
  if pblIteratorHasPrevious set iterator ≤ 0 then (iterator, none)
  else
    match iterator.prev with
    | none => (iterator, none)
    | some pointer =>
      ({ iterator with
        next := some pointer
        prev := pblHashElementPrevious set pointer
        index := iterator.index - 1 }, set.slot pointer)

/-! ### Getting and removing by index -/

/-- The loop of `pblSetGet` that goes forward; `count` is one more than the index. -/
def pblSetGetLoop : ℕ → PblHashIterator → Option α → Option α
  | 0, _, element => element
  | count + 1, iterator, element =>
    let hasMore := pblIteratorHasNext set iterator
    if hasMore < 0 then none
    else if hasMore = 0 then element
    else
      match pblIteratorNext set iterator with
      | (_, none) => none
      | (iterator, some element) => pblSetGetLoop count iterator (some element)

/-- `pblSetGet` for the index `0`. -/
def pblSetGetFirst : Option α :=
  if set.size = 0 then none else pblSetGetLoop set 1 (pblIteratorInit set) none

/-- `pblSetRemove`, that is `pblSetRemoveAt` for the index `0`. -/
def pblSetRemove (ops : PblElementOps α) : Option (PblHashSet α × Option α) :=
  match pblSetGetFirst set with
  | none => some (set, none)
  | some element =>
    (pblHashSetRemoveElement ops set element).map fun r =>
      (r.1, if r.2 = 0 then none else some element)

/-! ### What an iterator has still to give -/

variable {set : PblHashSet α} {iterator : PblHashIterator}

theorem slot_eq_getElem {i : ℕ} (hi : i < set.pointerArray.length) :
    set.slot i = set.pointerArray[i] :=
  List.getD_eq_getElem _ _ hi

/-- The first slot from an index on with an element, and the elements from there on. -/
theorem findElement_range' (set : PblHashSet α) :
    ∀ n i, i + n = set.capacity →
      (set.findElement (List.range' i n) = none ∧ arrayElements (set.pointerArray.drop i) = []) ∨
      ∃ p e, p < set.capacity ∧ set.findElement (List.range' i n) = some p ∧ set.slot p = some e ∧
        arrayElements (set.pointerArray.drop i) =
          e :: arrayElements (set.pointerArray.drop (p + 1))
  | 0, i, hi => by
      refine .inl ⟨rfl, ?_⟩
      rw [List.drop_eq_nil_of_le (by rw [PblHashSet.capacity] at hi; omega)]
      rfl
  | n + 1, i, hi => by
      have hlt : i < set.capacity := by omega
      have hdrop : set.pointerArray.drop i = set.slot i :: set.pointerArray.drop (i + 1) := by
        rw [slot_eq_getElem hlt, List.drop_eq_getElem_cons hlt]
      have hrange : set.findElement (List.range' i (n + 1)) =
          if (set.slot i).isSome then some i else set.findElement (List.range' (i + 1) n) := by
        rw [PblHashSet.findElement, List.range'_succ, List.find?_cons]
        cases (set.slot i).isSome <;> rfl
      rw [hdrop, hrange]
      cases hslot : set.slot i with
      | some e => exact .inr ⟨i, e, hlt, rfl, hslot, rfl⟩
      | none => exact findElement_range' set n (i + 1) (by omega)

/-- The last slot before an index with an element, and the elements before it. -/
theorem findElement_reverse (set : PblHashSet α) :
    ∀ i, i ≤ set.capacity →
      (set.findElement (List.range i).reverse = none ∧
        arrayElements (set.pointerArray.take i) = []) ∨
      ∃ p e, p < i ∧ set.findElement (List.range i).reverse = some p ∧ set.slot p = some e ∧
        arrayElements (set.pointerArray.take i) = arrayElements (set.pointerArray.take p) ++ [e]
  | 0, _ => .inl ⟨rfl, rfl⟩
  | i + 1, hi => by
      have htake : arrayElements (set.pointerArray.take (i + 1)) =
          arrayElements (set.pointerArray.take i) ++ (set.slot i).toList := by
        have hlt : i < set.pointerArray.length := hi
        rw [slot_eq_getElem hlt, List.take_succ_eq_append_getElem hlt, arrayElements,
          List.filterMap_append]
        cases set.pointerArray[i] <;> rfl
      have hrange : set.findElement (List.range (i + 1)).reverse =
          if (set.slot i).isSome then some i else set.findElement (List.range i).reverse := by
        rw [PblHashSet.findElement, List.range_succ, List.reverse_append, List.reverse_singleton,
          List.singleton_append, List.find?_cons]
        cases (set.slot i).isSome <;> rfl
      rw [htake, hrange]
      cases hslot : set.slot i with
      | some e => exact .inr ⟨i, e, Nat.lt_succ_self i, rfl, hslot, rfl⟩
      | none =>
        rcases findElement_reverse set i (by omega) with ⟨hfind, hnil⟩ | ⟨p, e, hp, hfind, he, heq⟩
        · exact .inl ⟨hfind, by rw [hnil]; rfl⟩
        · exact .inr ⟨p, e, by omega, hfind, he, by rw [heq]; exact List.append_nil _⟩

/-- The elements that an iterator has still to give, in the order of the array. -/
structure Ahead (set : PblHashSet α) (iterator : PblHashIterator) (l : List α) : Prop where
  changeCounter : iterator.changeCounter = set.changeCounter
  index : iterator.index + l.length = set.size
  next : ∃ i ≤ set.capacity, l = arrayElements (set.pointerArray.drop i) ∧
    (l ≠ [] → iterator.next = set.findElement (List.range' i (set.capacity - i)))

/-- The elements that a reverse iterator has still to give. -/
structure Behind (set : PblHashSet α) (iterator : PblHashIterator) (l : List α) : Prop where
  changeCounter : iterator.changeCounter = set.changeCounter
  index : iterator.index = l.length
  index_le : iterator.index ≤ set.size
  prev : ∃ i ≤ set.capacity, l = (arrayElements (set.pointerArray.take i)).reverse ∧
    (l ≠ [] → iterator.prev = set.findElement (List.range i).reverse)

/-- A new iterator has all elements ahead. -/
theorem ahead_init (hsize : set.size = set.elements.length) :
    Ahead set (pblIteratorInit set) set.elements where
  changeCounter := rfl
  index := by rw [hsize]; exact Nat.zero_add _
  next := by
    refine ⟨0, Nat.zero_le _, rfl, fun hne => ?_⟩
    have hpos : set.size ≠ 0 := by
      rw [hsize]
      exact fun hzero => hne (List.length_eq_zero_iff.mp hzero)
    show pblHashElementFirst set = _
    rw [pblHashElementFirst, if_neg hpos, List.range_eq_range', Nat.sub_zero]

theorem behind_init (hsize : set.size = set.elements.length) :
    Behind set (pblIteratorReverseInit set) set.elements.reverse where
  changeCounter := rfl
  index := by rw [List.length_reverse]; exact hsize
  index_le := Nat.le_refl _
  prev := by
    have hall : set.elements = arrayElements (set.pointerArray.take set.capacity) := by
      rw [PblHashSet.capacity, List.take_length]
      rfl
    refine ⟨set.capacity, Nat.le_refl _, by rw [hall], fun hne => ?_⟩
    have hpos : set.size ≠ 0 := by
      rw [hsize]
      exact fun hzero => hne (by rw [List.length_eq_zero_iff.mp hzero]; rfl)
    show pblHashElementLast set = _
    rw [pblHashElementLast, if_neg hpos]

theorem Ahead.hasNext {l : List α} (h : Ahead set iterator l) :
    pblIteratorHasNext set iterator = if l = [] then 0 else 1 := by
  have hindex := h.index
  rw [pblIteratorHasNext, if_neg (fun hne => hne h.changeCounter)]
  cases l with
  | nil =>
    rw [List.length_nil] at hindex
    rw [if_neg (by omega), if_pos rfl]
  | cons e l =>
    rw [List.length_cons] at hindex
    rw [if_pos (by omega), if_neg (by simp)]

/-- **An iterator gives the next element.** -/
theorem Ahead.step {e : α} {l : List α} (h : Ahead set iterator (e :: l)) :
    ∃ iterator', pblIteratorNext set iterator = (iterator', some e) ∧ Ahead set iterator' l := by
  obtain ⟨i, hi, hl, hnext⟩ := h.next
  have hindex := h.index
  rw [List.length_cons] at hindex
  rw [pblIteratorNext, h.hasNext, if_neg (by simp), hnext (by simp)]
  rcases findElement_range' set (set.capacity - i) i (by omega) with
    ⟨-, hnil⟩ | ⟨p, e', hp, hfind, hslot, hcons⟩
  · rw [hnil] at hl
    cases hl
  · rw [hcons] at hl
    obtain ⟨rfl, htail⟩ := List.cons.inj hl
    rw [hfind]
    dsimp only
    rw [hslot]
    refine ⟨_, rfl, h.changeCounter, ?_, p + 1, hp, htail, fun _ => ?_⟩
    · show iterator.index + 1 + l.length = set.size
      omega
    · show pblHashElementNext set p = _
      rw [pblHashElementNext, if_neg (by omega)]

theorem Behind.hasPrevious {l : List α} (h : Behind set iterator l) :
    pblIteratorHasPrevious set iterator = if l = [] then 0 else 1 := by
  have hindex := h.index
  rw [pblIteratorHasPrevious, if_neg (fun hne => hne h.changeCounter)]
  cases l with
  | nil =>
    rw [List.length_nil] at hindex
    rw [if_neg (by omega), if_pos rfl]
  | cons e l =>
    rw [List.length_cons] at hindex
    rw [if_pos ⟨by omega, h.index_le⟩, if_neg (by simp)]

/-- **A reverse iterator gives the previous element.** -/
theorem Behind.step {e : α} {l : List α} (h : Behind set iterator (e :: l)) :
    ∃ iterator', pblIteratorPrevious set iterator = (iterator', some e) ∧
      Behind set iterator' l := by
  obtain ⟨i, hi, hl, hprev⟩ := h.prev
  have hindex := h.index
  have hle := h.index_le
  rw [List.length_cons] at hindex
  rw [pblIteratorPrevious, h.hasPrevious, if_neg (by simp), hprev (by simp)]
  rcases findElement_reverse set i hi with ⟨-, hnil⟩ | ⟨p, e', hp, hfind, hslot, happend⟩
  · rw [hnil] at hl
    cases hl
  · rw [happend, List.reverse_append] at hl
    obtain ⟨rfl, htail⟩ := List.cons.inj hl
    rw [hfind]
    dsimp only
    rw [hslot]
    refine ⟨_, rfl, h.changeCounter, ?_, ?_, p, by omega, htail, fun _ => ?_⟩
    · show iterator.index - 1 = l.length
      omega
    · show iterator.index - 1 ≤ set.size
      omega
    · show pblHashElementPrevious set p = _
      rw [pblHashElementPrevious, if_neg (by omega)]

/-! ### A set that is changed -/

/-- An iterator of a set that was changed after it. -/
theorem hasNext_of_lt (h : iterator.changeCounter < set.changeCounter) :
    pblIteratorHasNext set iterator = -1 ∧ pblIteratorNext set iterator = (iterator, none) := by
  have hhas : pblIteratorHasNext set iterator = -1 := by
    rw [pblIteratorHasNext, if_pos h.ne]
  exact ⟨hhas, by rw [pblIteratorNext, hhas, if_pos (by decide)]⟩

theorem hasPrevious_of_lt (h : iterator.changeCounter < set.changeCounter) :
    pblIteratorHasPrevious set iterator = -1 ∧
      pblIteratorPrevious set iterator = (iterator, none) := by
  have hhas : pblIteratorHasPrevious set iterator = -1 := by
    rw [pblIteratorHasPrevious, if_pos h.ne]
  exact ⟨hhas, by rw [pblIteratorPrevious, hhas, if_pos (by decide)]⟩

/-- What an array looks like through a function under which the new element is as the old one. -/
theorem map_set {β : Type} {f : α → β} {l : List (Option α)} {i : ℕ} {e x : α} (hi : i < l.length)
    (he : l.getD i none = some e) (hf : f x = f e) :
    (l.set i (some x)).map (Option.map f) = l.map (Option.map f) := by
  rw [List.getD_eq_getElem _ _ hi] at he
  have hi' : i < (l.map (Option.map f)).length := by rwa [List.length_map]
  have hsame : Option.map f (some x) = (l.map (Option.map f))[i] := by
    rw [List.getElem_map, he, Option.map_some, Option.map_some, hf]
  rw [List.map_set, hsame, List.set_getElem_self]

theorem map_arrayElements {β : Type} (f : α → β) (l : List (Option α)) :
    (arrayElements l).map f = arrayElements (l.map (Option.map f)) := by
  rw [arrayElements, arrayElements, List.map_filterMap, List.filterMap_map]
  rfl

section replaced
variable {β : Type} {f : α → β} {i : ℕ} {e x : α} (hi : i < set.capacity)
  (he : set.slot i = some e) (hf : f x = f e)
include hi he

theorem findElement_replaced : (set.replaced i x).findElement = set.findElement := by
  have hsome : (fun j => ((set.replaced i x).slot j).isSome) = fun j => (set.slot j).isSome := by
    funext j
    rw [show (set.replaced i x).slot j = _ from congrFun (getD_set hi (some x)) j]
    by_cases hij : j = i
    · rw [hij, Function.update_self, he]
      rfl
    · rw [Function.update_of_ne hij]
      rfl
  funext slots
  rw [PblHashSet.findElement, PblHashSet.findElement, hsome]

include hf

/-- What is ahead of an iterator stays, but for the element that is replaced. -/
theorem Ahead.replaced {l : List α} (h : Ahead set iterator l) :
    ∃ l', Ahead (set.replaced i x) iterator l' ∧ l'.map f = l.map f := by
  obtain ⟨j, hj, hl, hnext⟩ := h.next
  have hmap : (arrayElements ((set.replaced i x).pointerArray.drop j)).map f = l.map f := by
    rw [hl, map_arrayElements, map_arrayElements, List.map_drop, List.map_drop]
    congr 2
    exact map_set hi he hf
  have hlen := congrArg List.length hmap
  rw [List.length_map, List.length_map] at hlen
  have hcap : (set.replaced i x).capacity = set.capacity := List.length_set
  refine ⟨_, ⟨h.changeCounter, by rw [hlen]; exact h.index, j, hcap ▸ hj, rfl, fun hne => ?_⟩, hmap⟩
  rw [findElement_replaced hi he, hcap]
  apply hnext
  rintro rfl
  exact hne (List.length_eq_zero_iff.mp hlen)

theorem Behind.replaced {l : List α} (h : Behind set iterator l) :
    ∃ l', Behind (set.replaced i x) iterator l' ∧ l'.map f = l.map f := by
  obtain ⟨j, hj, hl, hprev⟩ := h.prev
  have hmap : (arrayElements ((set.replaced i x).pointerArray.take j)).reverse.map f =
      l.map f := by
    rw [hl, List.map_reverse, List.map_reverse, map_arrayElements, map_arrayElements,
      List.map_take, List.map_take]
    congr 3
    exact map_set hi he hf
  have hlen := congrArg List.length hmap
  rw [List.length_map, List.length_map] at hlen
  have hcap : (set.replaced i x).capacity = set.capacity := List.length_set
  refine ⟨_, ⟨h.changeCounter, by rw [hlen]; exact h.index, h.index_le, j, hcap ▸ hj, rfl,
    fun hne => ?_⟩, hmap⟩
  rw [findElement_replaced hi he]
  apply hprev
  rintro rfl
  exact hne (List.length_eq_zero_iff.mp hlen)

end replaced

/-! ### Taking the first element out -/

variable {ops : PblElementOps α}

open PblHashSet.Inv

/-- `pblSetRemove` takes out the first element of the array. -/
theorem pblSetRemove_spec (h : set.Inv ops) (hops : ops.Lawful) (hpos : 0 < set.size) :
    ∃ set' e, pblSetRemove set ops = some (set', some e) ∧ set'.Inv ops ∧
      set'.changeCounter = set.changeCounter + 1 ∧ set.elements.Perm (e :: set'.elements) := by
  have hahead := ahead_init h.size
  have hne : set.elements ≠ [] := by
    intro hnil
    rw [h.size, hnil] at hpos
    exact Nat.lt_irrefl 0 hpos
  obtain ⟨e, rest, hcons⟩ := List.exists_cons_of_ne_nil hne
  rw [hcons] at hahead
  obtain ⟨iterator', hnext, -⟩ := hahead.step
  have hfirst : pblSetGetFirst set = some e := by
    rw [pblSetGetFirst, if_neg hpos.ne', pblSetGetLoop, hahead.hasNext, hnext]
    rfl
  unfold pblSetRemove
  rw [hfirst]
  rcases pblHashSetRemoveElement_spec h hops e with
    ⟨-, hnone⟩ | ⟨set', e', hremove, hinv, hcount, hsame, hperm⟩
  · exact absurd (hops.refl e) (hnone e (by rw [hcons]; exact List.mem_cons_self))
  · have heq : e' = e := by
      by_contra hdiff
      have hmem : e' ∈ rest := by
        have hmem' := hperm.mem_iff.mpr List.mem_cons_self
        rw [hcons] at hmem'
        exact (List.mem_cons.mp hmem').resolve_left hdiff
      have hdistinct := h.distinct
      rw [hcons] at hdistinct
      exact (List.pairwise_cons.mp hdistinct).1 e' hmem (hops.symm e' e hsame)
    subst heq
    dsimp only
    rw [hremove]
    exact ⟨set', e', rfl, hinv, hcount, hperm⟩

end Teonet
