import Teonet.Lib.FinMap
import Teonet.PblIterator

/-! # Hash maps (`pblMap.c` of the embedded `libpbl`)

The peers, the clients, the collected parts of commands, the callbacks that wait and the streams are
all kept in hash maps.  A map is a hash set whose elements are entries, and it is asked with keys,
which compare to entries by their bytes.

`pblMap_refines` says that a map that starts empty answers every sequence of calls as a finite map
does, up to the number of entries that a table may hold.  `pblMap_iterates` says what an iterator
gives while the map is used: each key once, with the value that it has at that time, until a key is
added or taken out, and nothing from then on. -/

namespace Teonet

/-! ### Entries and keys -/

/-- The key of an entry.  Lengths are compared as `int`, so that it has fewer than `2 ^ 31` bytes. -/
abbrev MapKey : Type := {key : List UInt8 // key.length < 2 ^ 31}

/-- What the compare function and the hash function take, told apart by its tag. -/
inductive PblMapElement
  /-- `PblMapEntry`, with the tag `PBL_MAP_ENTRY_TAG`. -/
  | entry (key : MapKey) (value : List UInt8)
  /-- `PblMapKey`, with the tag `PBL_MAP_KEY_TAG`. -/
  | key (key : MapKey)

namespace PblMapElement

/-- The bytes that are compared. -/
def bytes : PblMapElement → MapKey
  | entry k _ => k
  | key k => k

/-- The value of an entry; a key is never in a map. -/
def value : PblMapElement → List UInt8
  | entry _ value => value
  | key _ => []

end PblMapElement

/-- `memcmp` on the length of the shorter buffer. -/
def memcmp : List UInt8 → List UInt8 → ℤ
  | l :: left, r :: right => if l = r then memcmp left right else (l.toNat : ℤ) - r.toNat
  | _, _ => 0

def pbl_memcmp (left right : List UInt8) : ℤ :=
  if left.length = 0 then if right.length = 0 then 0 else -1
  else if right.length = 0 then 1
  else if memcmp left right ≠ 0 then memcmp left right
  else (left.length : ℤ) - right.length

/-- One round of the hash function: an `int` is shifted, and keeps its sign to the right. -/
def hashRound (ret : BitVec 32) (byte : UInt8) : BitVec 32 :=
  ret ^^^ (ret <<< 5 + BitVec.ofNat 32 byte.toNat + ret.sshiftRight 2)

def pblHt_J_Zobel_Hash (key : List UInt8) : BitVec 32 :=
  key.foldl hashRound 104729#32 &&& 0x7fffffff#32

def pblHtHashValue (key : List UInt8) : ℕ :=
  (pblHt_J_Zobel_Hash key &&& 0x7fffffff#32).toNat

def pblMapEntryHashValue (element : PblMapElement) : ℕ :=
  if element.bytes.val.length = 0 then 0 else pblHtHashValue element.bytes.val

def pblMapEntryCompareFunction : PblMapElement → PblMapElement → ℤ
  | .entry left _, .entry right _ => pbl_memcmp left.val right.val
  | .entry left _, .key right => pbl_memcmp left.val right.val
  | .key left, .entry right _ => pbl_memcmp left.val right.val
  | .key left, .key right => pbl_memcmp left.val right.val

/-- The functions that `pblMapNewHashMap` sets. -/
def pblMapOps : PblElementOps PblMapElement :=
  ⟨pblMapEntryHashValue, pblMapEntryCompareFunction⟩

/-- `PblMap` of `pblMapNewHashMap`: its set of entries. -/
abbrev PblMap : Type := PblHashSet PblMapElement

/-! ### The operations -/

variable (map : PblMap)

/-- `pblMapAdd`. -/
def pblMapAdd (key : MapKey) (value : List UInt8) : Option (PblMap × ℤ) :=
  match pblHashSetReplaceElement pblMapOps map (.entry key value) with
  | none => none
  | some (map, some _) => some (map, 0)
  | some (map, none) =>
    (pblHashSetAdd pblMapOps map (.entry key value)).map fun r =>
      (r.1, if r.2 < 0 then -1 else 1)

/-- `pblMapGet`. -/
def pblMapGet (key : MapKey) : Option (Option (List UInt8)) :=
  (pblHashSetGetElement pblMapOps map (.key key)).map fun e => e.map (·.value)

/-- `pblMapContainsKey`. -/
def pblMapContainsKey (key : MapKey) : Option ℤ :=
  pblHashSetContains pblMapOps map (.key key)

/-- `pblMapRemove`: the value that was removed. -/
def pblMapRemove (key : MapKey) : Option (PblMap × Option (List UInt8)) :=
  match pblHashSetGetElement pblMapOps map (.key key) with
  | none => none
  | some none => some (map, none)
  | some (some mapEntry) =>
    (pblHashSetRemoveElement pblMapOps map mapEntry).map fun r => (r.1, some mapEntry.value)

/-- The loop of `pblMapClear`. -/
def pblMapClearLoop : ℕ → PblMap → Option PblMap
  | 0, _ => none
  | fuel + 1, map =>
    if map.size > 0 then
      match pblSetRemove map pblMapOps with
      | none => none
      | some (map, _) => pblMapClearLoop fuel map
    else some map

/-- `pblMapClear`. -/
def pblMapClear : Option PblMap := pblMapClearLoop (map.size + 1) map

/-! ### Calls -/

/-- A call of one of the functions. -/
inductive PblMapCall
  | add (key : MapKey) (value : List UInt8)
  | get (key : MapKey)
  | containsKey (key : MapKey)
  | remove (key : MapKey)
  | clear
  | size

/-- What a call returns. -/
inductive PblMapAnswer
  | rc (rc : ℤ)
  | value (value : Option (List UInt8))
  | unit
deriving DecidableEq

/-- A call on a map. -/
def PblMapCall.run (map : PblMap) : PblMapCall → Option (PblMap × PblMapAnswer)
  | add key value => (pblMapAdd map key value).map fun r => (r.1, .rc r.2)
  | get key => (pblMapGet map key).map fun value => (map, .value value)
  | containsKey key => (pblMapContainsKey map key).map fun rc => (map, .rc rc)
  | remove key => (pblMapRemove map key).map fun r => (r.1, .value r.2)
  | clear => (pblMapClear map).map fun map => (map, .unit)
  | size => some (map, .rc map.size)

/-- Calls one after the other, with what they return. -/
def pblMapRun : PblMap → List PblMapCall → Option (PblMap × List PblMapAnswer)
  | map, [] => some (map, [])
  | map, call :: calls =>
    match call.run map with
    | none => none
    | some (map, answer) =>
      (pblMapRun map calls).map fun r => (r.1, answer :: r.2)

/-- `pblMapNewHashMap`. -/
def pblMapNewHashMap : PblMap := {}

/-- What a map is for: the same calls on a finite map. -/
def PblMapCall.onFinMap (m : FinMap MapKey (List UInt8)) :
    PblMapCall → FinMap MapKey (List UInt8) × PblMapAnswer
  | add key value =>
    match m.get key with
    | some _ => (m.add key value, .rc 0)
    | none => if m.size < maxElements then (m.add key value, .rc 1) else (m, .rc (-1))
  | get key => (m, .value (m.get key))
  | containsKey key => (m, .rc (if (m.get key).isSome then 1 else 0))
  | remove key => (m.remove key, .value (m.get key))
  | clear => (FinMap.empty, .unit)
  | size => (m, .rc m.size)

/-- Calls one after the other on a finite map. -/
def finMapRun : FinMap MapKey (List UInt8) → List PblMapCall →
    FinMap MapKey (List UInt8) × List PblMapAnswer
  | m, [] => (m, [])
  | m, call :: calls =>
    let r := finMapRun (call.onFinMap m).1 calls
    (r.1, (call.onFinMap m).2 :: r.2)

/-! ### Equal keys -/

theorem memcmp_eq_zero : ∀ {left right : List UInt8}, left.length = right.length →
    (memcmp left right = 0 ↔ left = right)
  | [], [], _ => by simp [memcmp]
  | l :: left, r :: right, hlen => by
      rw [memcmp]
      split_ifs with h
      · rw [memcmp_eq_zero (Nat.succ.inj hlen), h, List.cons.injEq, and_iff_right rfl]
      · have hne : l.toNat ≠ r.toNat := fun heq => h (UInt8.toNat_inj.mp heq)
        constructor
        · intro hzero
          omega
        · intro heq
          exact absurd (List.cons.inj heq).1 h

theorem memcmp_self (key : List UInt8) : memcmp key key = 0 := (memcmp_eq_zero rfl).mpr rfl

/-- Two buffers compare equal when they are. -/
theorem pbl_memcmp_eq_zero (left right : List UInt8) : pbl_memcmp left right = 0 ↔ left = right := by
  constructor
  · unfold pbl_memcmp
    split_ifs with hl hr hr hcmp
    · intro _
      rw [List.length_eq_zero_iff.mp hl, List.length_eq_zero_iff.mp hr]
    · intro h
      exact absurd h (by decide)
    · intro h
      exact absurd h (by decide)
    · intro h
      exact absurd h hcmp
    · intro h
      exact (memcmp_eq_zero (by omega)).mp (not_not.mp hcmp)
  · rintro rfl
    unfold pbl_memcmp
    split_ifs with hlen hne
    · rfl
    · exact absurd (memcmp_self left) hne
    · exact sub_self _

theorem compare_eq_zero (a b : PblMapElement) :
    pblMapOps.compare a b = 0 ↔ a.bytes = b.bytes := by
  have h : pblMapOps.compare a b = pbl_memcmp a.bytes.val b.bytes.val := by
    cases a <;> cases b <;> rfl
  rw [h, pbl_memcmp_eq_zero, Subtype.ext_iff]

theorem pblMapOps_lawful : pblMapOps.Lawful where
  refl a := (compare_eq_zero a a).mpr rfl
  symm a b h := (compare_eq_zero b a).mpr ((compare_eq_zero a b).mp h).symm
  trans a b c hab hbc :=
    (compare_eq_zero a c).mpr (((compare_eq_zero a b).mp hab).trans ((compare_eq_zero b c).mp hbc))
  hash a b h := by
    show pblMapEntryHashValue a = pblMapEntryHashValue b
    rw [pblMapEntryHashValue, pblMapEntryHashValue, (compare_eq_zero a b).mp h]

/-! ### Refinement -/

/-- The entries of a finite map. -/
def mapEntries (m : FinMap MapKey (List UInt8)) : List PblMapElement :=
  m.toPairs.map fun p => .entry p.1 p.2

/-- The hash map holds the entries of the finite map, in some order. -/
structure PblMap.Represents (map : PblMap) (m : FinMap MapKey (List UInt8)) : Prop where
  inv : map.Inv pblMapOps
  entries : map.elements.Perm (mapEntries m)

open PblMap PblHashSet.Inv

variable {map : PblMap} {m : FinMap MapKey (List UInt8)} {key : MapKey}

theorem mem_mapEntries {e : PblMapElement} :
    e ∈ mapEntries m ↔ ∃ value, e = .entry e.bytes value ∧ m.get e.bytes = some value := by
  rw [mapEntries, List.mem_map]
  constructor
  · rintro ⟨⟨k, v⟩, hmem, rfl⟩
    exact ⟨v, rfl, (FinMap.mem_toPairs m k v).mp hmem⟩
  · rintro ⟨v, heq, hget⟩
    exact ⟨(e.bytes, v), (FinMap.mem_toPairs m _ v).mpr hget, heq.symm⟩

namespace PblMap.Represents

theorem size_eq (h : map.Represents m) : map.size = m.size := by
  rw [h.inv.size, h.entries.length_eq, mapEntries, List.length_map, FinMap.toPairs,
    List.length_map]
  rfl

theorem mem_elements (h : map.Represents m) {e : PblMapElement} (he : e ∈ map.elements) :
    ∃ value, e = .entry e.bytes value ∧ m.get e.bytes = some value :=
  mem_mapEntries.mp (h.entries.mem_iff.mp he)

/-- No entry compares equal to a key exactly if the key is not there. -/
theorem get_eq_none (h : map.Represents m) {x : PblMapElement}
    (hnone : ∀ e ∈ map.elements, pblMapOps.compare e x ≠ 0) : m.get x.bytes = none := by
  cases hget : m.get x.bytes with
  | none => rfl
  | some value =>
    have hmem : PblMapElement.entry x.bytes value ∈ map.elements :=
      h.entries.mem_iff.mpr (mem_mapEntries.mpr ⟨value, rfl, hget⟩)
    exact absurd ((compare_eq_zero (.entry x.bytes value) x).mpr rfl) (hnone _ hmem)

/-- An entry that compares equal to a key is the one of the key. -/
theorem get_of_compare (h : map.Represents m) {e x : PblMapElement} (he : e ∈ map.elements)
    (hsame : pblMapOps.compare e x = 0) :
    ∃ value, e = .entry x.bytes value ∧ m.get x.bytes = some value := by
  rw [← (compare_eq_zero e x).mp hsame]
  exact h.mem_elements he

end PblMap.Represents

theorem mapEntries_remove {value : List UInt8} (hget : m.get key = some value) :
    (mapEntries m).Perm (.entry key value :: mapEntries (m.remove key)) :=
  (FinMap.perm_toPairs_remove m hget).map _

theorem mapEntries_add (value : List UInt8) :
    mapEntries (m.add key value) = .entry key value :: mapEntries (m.remove key) := by
  have hentries : (m.add key value).entries = ⟨key, value⟩ :: (m.remove key).entries :=
    AList.entries_insert
  rw [mapEntries, FinMap.toPairs, hentries]
  rfl

theorem mapEntries_add_of_absent (hget : m.get key = none) (value : List UInt8) :
    mapEntries (m.add key value) = .entry key value :: mapEntries m := by
  have hsame : (m.remove key).entries = m.entries :=
    List.kerase_of_notMem_keys (AList.lookup_eq_none.mp hget)
  rw [mapEntries_add, mapEntries, FinMap.toPairs, hsame]
  rfl

/-- An entry is taken out of both. -/
theorem PblMap.Represents.removed (h : map.Represents m) {map' : PblMap} {value : List UInt8}
    (hinv : map'.Inv pblMapOps) (hget : m.get key = some value)
    (hperm : map.elements.Perm (.entry key value :: map'.elements)) :
    map'.Represents (m.remove key) :=
  ⟨hinv, ((hperm.symm.trans h.entries).trans (mapEntries_remove hget)).cons_inv⟩

/-- How a call that leaves the set of the keys alone changes a map. -/
inductive Kept (map : PblMap) : PblMap → Prop
  | same : Kept map map
  | replaced {i : ℕ} {e x : PblMapElement} (hi : i < map.capacity) (he : map.slot i = some e)
      (hkey : x.bytes = e.bytes) : Kept map (map.replaced i x)

/-- Does a call add a key or take one out? -/
def PblMapCall.changesKeys (m : FinMap MapKey (List UInt8)) : PblMapCall → Bool
  | add key _ => (m.get key).isNone && decide (m.size < maxElements)
  | remove key => (m.get key).isSome
  | clear => decide (0 < m.size)
  | _ => false

/-- What a call comes to. -/
structure CallRefines (map : PblMap) (m : FinMap MapKey (List UInt8)) (call : PblMapCall)
    (map' : PblMap) : Prop where
  run : call.run map = some (map', (call.onFinMap m).2)
  represents : map'.Represents (call.onFinMap m).1
  /-- An iterator notices where keys were changed. -/
  changed : call.changesKeys m = true → map.changeCounter < map'.changeCounter
  kept : call.changesKeys m = false → Kept map map'

/-- A call that only looks at the map. -/
theorem refines_of_eq (h : map.Represents m) {call : PblMapCall} (answer : PblMapAnswer)
    (hrun : call.run map = some (map, answer)) (hspec : call.onFinMap m = (m, answer))
    (hkeys : call.changesKeys m = false) : CallRefines map m call map where
  run := by rw [hrun, hspec]
  represents := by rw [hspec]; exact h
  changed := by rw [hkeys]; intro hfalse; cases hfalse
  kept _ := .same

theorem pblMapAdd_refines (h : map.Represents m) (key : MapKey) (value : List UInt8) :
    ∃ map', CallRefines map m (.add key value) map' := by
  rcases pblHashSetReplaceElement_spec h.inv pblMapOps_lawful (.entry key value) with
    ⟨hreplace, hnone⟩ | ⟨i, e, rest, hreplace, hi, hslot, hinv, hsame, hold, hnew⟩
  · have hget : m.get key = none := h.get_eq_none hnone
    obtain ⟨map', rc, hadd, hinv, hadded⟩ :=
      pblHashSetAdd_spec h.inv pblMapOps_lawful (.entry key value)
    have hrun : PblMapCall.run map (.add key value) =
        some (map', .rc (if rc < 0 then -1 else 1)) := by
      rw [PblMapCall.run, pblMapAdd, hreplace]
      dsimp only
      rw [hadd]
      rfl
    cases hadded with
    | present hsame => exact absurd hsame.choose_spec.2 (hnone _ hsame.choose_spec.1)
    | added _ hperm hsize hcount =>
      rw [h.size_eq] at hsize
      have hspec : PblMapCall.onFinMap m (.add key value) = (m.add key value, .rc 1) := by
        simp only [PblMapCall.onFinMap, hget, if_pos hsize]
      have hkeys : PblMapCall.changesKeys m (.add key value) = true := by
        simp [PblMapCall.changesKeys, hget, hsize]
      refine ⟨map', ⟨by rw [hrun, hspec]; rfl, ?_, fun _ => hcount, ?_⟩⟩
      · rw [hspec]
        exact ⟨hinv, by
          rw [mapEntries_add_of_absent hget]
          exact hperm.trans (h.entries.cons _)⟩
      · rw [hkeys]
        intro hfalse
        cases hfalse
    | refused hsize =>
      rw [h.size_eq] at hsize
      have hspec : PblMapCall.onFinMap m (.add key value) = (m, .rc (-1)) := by
        simp only [PblMapCall.onFinMap, hget, if_neg (Nat.not_lt.mpr hsize)]
      exact ⟨map, refines_of_eq h _ hrun hspec (by
        simp [PblMapCall.changesKeys, hget, Nat.not_lt.mpr hsize])⟩
  · obtain ⟨old, rfl, hget⟩ := h.get_of_compare (hold.mem_iff.mpr List.mem_cons_self) hsame
    have hspec : PblMapCall.onFinMap m (.add key value) = (m.add key value, .rc 0) := by
      simp only [PblMapCall.onFinMap, show m.get key = some old from hget]
    have hkeys : PblMapCall.changesKeys m (.add key value) = false := by
      simp [PblMapCall.changesKeys, show m.get key = some old from hget]
    have hrest : rest.Perm (mapEntries (m.remove key)) :=
      ((hold.symm.trans h.entries).trans (mapEntries_remove hget)).cons_inv
    refine ⟨map.replaced i (.entry key value), ⟨?_, ?_, ?_, fun _ => .replaced hi hslot rfl⟩⟩
    · rw [PblMapCall.run, pblMapAdd, hreplace, hspec]
      rfl
    · rw [hspec]
      exact ⟨hinv, by
        rw [mapEntries_add]
        exact hnew.trans (hrest.cons _)⟩
    · rw [hkeys]
      intro hfalse
      cases hfalse

theorem pblMapGet_refines (h : map.Represents m) (key : MapKey) :
    pblMapGet map key = some (m.get key) := by
  rw [pblMapGet]
  rcases pblHashSetGetElement_spec h.inv pblMapOps_lawful (.key key) with
    ⟨hget, hnone⟩ | ⟨e, he, hget, hsame⟩
  · rw [hget, show m.get key = none from h.get_eq_none hnone]
    rfl
  · obtain ⟨value, rfl, hvalue⟩ := h.get_of_compare he hsame
    rw [hget, show m.get key = some value from hvalue]
    rfl

theorem pblMapContainsKey_refines (h : map.Represents m) (key : MapKey) :
    pblMapContainsKey map key = some (if (m.get key).isSome then 1 else 0) := by
  rw [pblMapContainsKey]
  rcases pblHashSetContains_spec h.inv pblMapOps_lawful (.key key) with
    ⟨hget, hnone⟩ | ⟨hget, e, he, hsame⟩
  · rw [hget, show m.get key = none from h.get_eq_none hnone]
    rfl
  · obtain ⟨value, rfl, hvalue⟩ := h.get_of_compare he hsame
    rw [hget, show m.get key = some value from hvalue]
    rfl

theorem pblMapRemove_refines (h : map.Represents m) (key : MapKey) :
    ∃ map', CallRefines map m (.remove key) map' := by
  have hspec : PblMapCall.onFinMap m (.remove key) = (m.remove key, .value (m.get key)) := rfl
  rcases pblHashSetGetElement_spec h.inv pblMapOps_lawful (.key key) with
    ⟨hget, hnone⟩ | ⟨e, he, hget, hsame⟩
  · have habsent : m.get key = none := h.get_eq_none hnone
    have hsame : m.remove key = m :=
      AList.ext (List.kerase_of_notMem_keys (AList.lookup_eq_none.mp habsent))
    refine ⟨map, refines_of_eq h (.value none) ?_ ?_ ?_⟩
    · rw [PblMapCall.run, pblMapRemove, hget]
      rfl
    · rw [hspec, hsame, habsent]
    · rw [PblMapCall.changesKeys, habsent]
      rfl
  · obtain ⟨value, rfl, hvalue⟩ := h.get_of_compare he hsame
    have hvalue' : m.get key = some value := hvalue
    rcases pblHashSetRemoveElement_spec h.inv pblMapOps_lawful (.entry key value) with
      ⟨-, hnone⟩ | ⟨map', e', hremove, hinv, hcount, hsame', hperm⟩
    · exact absurd ((compare_eq_zero _ _).mpr rfl) (hnone _ he)
    · obtain ⟨value', rfl, hget'⟩ := h.get_of_compare (hperm.mem_iff.mpr List.mem_cons_self) hsame'
      obtain rfl : value' = value := Option.some.inj (hget'.symm.trans hvalue')
      refine ⟨map', ⟨?_, h.removed hinv hvalue' hperm, fun _ => by omega, ?_⟩⟩
      · rw [PblMapCall.run, pblMapRemove, hget, hspec, hvalue']
        show Option.map _ (Option.map _
          (pblHashSetRemoveElement pblMapOps map (.entry key value'))) = _
        rw [hremove]
        rfl
      · rw [PblMapCall.changesKeys, hvalue']
        intro hfalse
        cases hfalse

/-- The loop of `pblMapClear` ends with an empty map. -/
theorem pblMapClearLoop_spec : ∀ fuel (map : PblMap) (m : FinMap MapKey (List UInt8)),
    map.Represents m → map.size < fuel →
    ∃ map', pblMapClearLoop fuel map = some map' ∧ map'.Represents FinMap.empty ∧
      map'.changeCounter = map.changeCounter + map.size ∧ (map.size = 0 → map' = map)
  | 0, _, _, _, hfuel => absurd hfuel (Nat.not_lt_zero _)
  | fuel + 1, map, m, h, hfuel => by
      rw [pblMapClearLoop]
      split_ifs with hpos
      · obtain ⟨map', e, hremove, hinv, hcount, hperm⟩ :=
          pblSetRemove_spec h.inv pblMapOps_lawful hpos
        obtain ⟨value, heq, hget⟩ := h.mem_elements (hperm.mem_iff.mpr List.mem_cons_self)
        have h' := h.removed hinv hget (by rwa [← heq])
        have hsize : map'.size + 1 = map.size := by
          rw [h.inv.size, hperm.length_eq, hinv.size, List.length_cons]
        obtain ⟨map'', hclear, hempty, hcount', -⟩ :=
          pblMapClearLoop_spec fuel map' _ h' (by omega)
        rw [hremove]
        exact ⟨map'', hclear, hempty, by omega, fun hzero => by omega⟩
      · have hnil : map.elements = [] :=
          List.length_eq_zero_iff.mp (by rw [← h.inv.size]; omega)
        exact ⟨map, rfl, ⟨h.inv, by rw [hnil]; exact .refl _⟩, by omega, fun _ => rfl⟩

theorem pblMapClear_refines (h : map.Represents m) : ∃ map', CallRefines map m .clear map' := by
  obtain ⟨map', hclear, hempty, hcount, hsame⟩ :=
    pblMapClearLoop_spec (map.size + 1) map m h (Nat.lt_succ_self _)
  have hsize := h.size_eq
  refine ⟨map', ⟨?_, hempty, fun hkeys => ?_, fun hkeys => ?_⟩⟩
  · rw [PblMapCall.run, pblMapClear, hclear]
    rfl
  · have hpos := of_decide_eq_true hkeys
    omega
  · have hzero := of_decide_eq_false hkeys
    rw [hsame (by omega)]
    exact .same

/-- **One call** does what it does on a finite map. -/
theorem exists_refines (h : map.Represents m) (call : PblMapCall) :
    ∃ map', CallRefines map m call map' := by
  cases call with
  | add key value => exact pblMapAdd_refines h key value
  | get key =>
    refine ⟨map, refines_of_eq h _ (by rw [PblMapCall.run, pblMapGet_refines h]; rfl) rfl rfl⟩
  | containsKey key =>
    refine ⟨map, refines_of_eq h _ (by rw [PblMapCall.run, pblMapContainsKey_refines h]; rfl) rfl rfl⟩
  | remove key => exact pblMapRemove_refines h key
  | clear => exact pblMapClear_refines h
  | size => exact ⟨map, refines_of_eq h _ rfl (by rw [h.size_eq]; rfl) rfl⟩

/-- Calls one after the other do what they do on a finite map. -/
theorem pblMapRun_spec (calls : List PblMapCall) (h : map.Represents m) :
    ∃ map', pblMapRun map calls = some (map', (finMapRun m calls).2) ∧
      map'.Represents (finMapRun m calls).1 := by
  induction calls generalizing map m with
  | nil => exact ⟨map, rfl, h⟩
  | cons call calls ih =>
    obtain ⟨map', hcall⟩ := exists_refines h call
    obtain ⟨map'', hrun, h''⟩ := ih hcall.represents
    refine ⟨map'', ?_, h''⟩
    rw [pblMapRun, hcall.run]
    dsimp only
    rw [hrun]
    rfl

/-- A new map is empty. -/
theorem represents_new : pblMapNewHashMap.Represents FinMap.empty where
  inv :=
    { capacity := .inl rfl
      step := by decide
      size := rfl
      load := by decide
      distinct := .nil
      probed := fun i hi => absurd hi (Nat.not_lt_zero i) }
  entries := .refl _

/-- **The hash map is a finite map**: whatever calls are made of it, they all end, and they return
what they return of a finite map. -/
theorem pblMap_refines (calls : List PblMapCall) :
    ∃ map, pblMapRun pblMapNewHashMap calls = some (map, (finMapRun FinMap.empty calls).2) ∧
      map.Represents (finMapRun FinMap.empty calls).1 :=
  pblMapRun_spec calls represents_new

/-! ### Iterators -/

/-- `pblMapIteratorNew` and `pblMapIteratorReverseNew`. -/
inductive Direction
  | forward
  | reverse

def Direction.iterator (map : PblMap) : Direction → PblHashIterator
  | forward => pblIteratorInit map
  | reverse => pblIteratorReverseInit map

/-- The two calls of a loop over a map: is there a next element, and which. -/
def Direction.iterate (map : PblMap) (iterator : PblHashIterator) :
    Direction → PblHashIterator × ℤ × Option PblMapElement
  | forward =>
    ((pblIteratorNext map iterator).1, pblIteratorHasNext map iterator,
      (pblIteratorNext map iterator).2)
  | reverse =>
    ((pblIteratorPrevious map iterator).1, pblIteratorHasPrevious map iterator,
      (pblIteratorPrevious map iterator).2)

/-- What happens to a map while an iterator goes over it. -/
inductive PblMapEvent
  | call (call : PblMapCall)
  | iterate

/-- What a program gets to know: what a call returned, or an element with its key and value. -/
inductive PblMapSeen
  | answer (answer : PblMapAnswer)
  | element (rc : ℤ) (binding : Option (MapKey × List UInt8))

def PblMapEvent.run (d : Direction) (map : PblMap) (iterator : PblHashIterator) :
    PblMapEvent → Option (PblMap × PblHashIterator × PblMapSeen)
  | call c => (c.run map).map fun r => (r.1, iterator, .answer r.2)
  | iterate =>
    let r := d.iterate map iterator
    some (map, r.1, .element r.2.1 (r.2.2.map fun e => (e.bytes, e.value)))

/-- Events one after the other, with what is seen. -/
def pblMapEvents (d : Direction) : PblMap → PblHashIterator → List PblMapEvent →
    Option (List PblMapSeen)
  | _, _, [] => some []
  | map, iterator, event :: events =>
    match event.run d map iterator with
    | none => none
    | some (map, iterator, seen) => (pblMapEvents d map iterator events).map (seen :: ·)

/-- What an iteration is for: the keys that are ahead, until keys are changed; it ends with `none`. -/
def PblMapEvent.onKeys (m : FinMap MapKey (List UInt8)) (ahead : Option (List MapKey)) :
    PblMapEvent → FinMap MapKey (List UInt8) × Option (List MapKey) × PblMapSeen
  | call c => ((c.onFinMap m).1, if c.changesKeys m then none else ahead, .answer (c.onFinMap m).2)
  | iterate =>
    match ahead with
    | none => (m, none, .element (-1) none)
    | some [] => (m, some [], .element 0 none)
    | some (key :: keys) => (m, some keys, .element 1 ((m.get key).map fun value => (key, value)))

/-- Events one after the other on a finite map and the keys that are ahead. -/
def keysEvents : FinMap MapKey (List UInt8) → Option (List MapKey) → List PblMapEvent →
    List PblMapSeen
  | _, _, [] => []
  | m, ahead, event :: events =>
    let r := event.onKeys m ahead
    r.2.2 :: keysEvents r.1 r.2.1 events

/-- The elements that an iterator has still to give. -/
def Direction.Left (map : PblMap) (iterator : PblHashIterator) (l : List PblMapElement) :
    Direction → Prop
  | forward => Ahead map iterator l
  | reverse => Behind map iterator l

/-- The keys that an iterator has still to give; none of them after keys were changed. -/
def Iterates (d : Direction) (map : PblMap) (iterator : PblHashIterator) :
    Option (List MapKey) → Prop
  | none => iterator.changeCounter < map.changeCounter
  | some keys => ∃ l, d.Left map iterator l ∧ l.map PblMapElement.bytes = keys

variable {d : Direction} {iterator : PblHashIterator} {l : List PblMapElement}

namespace Direction

theorem Left.changeCounter (h : d.Left map iterator l) :
    iterator.changeCounter = map.changeCounter := by
  cases d with
  | forward => exact Ahead.changeCounter h
  | reverse => exact Behind.changeCounter h

/-- What is left is in the map. -/
theorem Left.mem (h : d.Left map iterator l) {e : PblMapElement} (he : e ∈ l) :
    e ∈ map.elements := by
  cases d with
  | forward =>
    obtain ⟨i, -, rfl, -⟩ := Ahead.next h
    exact ((List.drop_sublist i _).filterMap id).subset he
  | reverse =>
    obtain ⟨i, -, rfl, -⟩ := Behind.prev h
    exact ((List.take_sublist i _).filterMap id).subset (List.mem_reverse.mp he)

theorem Left.nil (h : d.Left map iterator []) : d.iterate map iterator = (iterator, 0, none) := by
  cases d with
  | forward =>
    have hhas : pblIteratorHasNext map iterator = 0 := Ahead.hasNext h
    rw [iterate, pblIteratorNext, hhas, if_pos (Int.le_refl 0)]
  | reverse =>
    have hhas : pblIteratorHasPrevious map iterator = 0 := Behind.hasPrevious h
    rw [iterate, pblIteratorPrevious, hhas, if_pos (Int.le_refl 0)]

theorem Left.cons {e : PblMapElement} (h : d.Left map iterator (e :: l)) :
    ∃ iterator', d.iterate map iterator = (iterator', 1, some e) ∧ d.Left map iterator' l := by
  cases d with
  | forward =>
    obtain ⟨iterator', hnext, h'⟩ := Ahead.step h
    have hhas : pblIteratorHasNext map iterator = 1 := Ahead.hasNext h
    exact ⟨iterator', by rw [iterate, hnext, hhas], h'⟩
  | reverse =>
    obtain ⟨iterator', hnext, h'⟩ := Behind.step h
    have hhas : pblIteratorHasPrevious map iterator = 1 := Behind.hasPrevious h
    exact ⟨iterator', by rw [iterate, hnext, hhas], h'⟩

theorem iterate_of_lt (h : iterator.changeCounter < map.changeCounter) :
    d.iterate map iterator = (iterator, -1, none) := by
  cases d with
  | forward =>
    obtain ⟨hhas, hnext⟩ := hasNext_of_lt h
    rw [iterate, hhas, hnext]
  | reverse =>
    obtain ⟨hhas, hnext⟩ := hasPrevious_of_lt h
    rw [iterate, hhas, hnext]

/-- A call that leaves the keys alone leaves the keys ahead alone. -/
theorem Left.kept (h : d.Left map iterator l) {map' : PblMap} (hkept : Kept map map') :
    ∃ l', d.Left map' iterator l' ∧ l'.map PblMapElement.bytes = l.map PblMapElement.bytes := by
  cases hkept with
  | same => exact ⟨l, h, rfl⟩
  | replaced hi he hkey =>
    cases d with
    | forward => exact Ahead.replaced hi he hkey h
    | reverse => exact Behind.replaced hi he hkey h

end Direction

theorem Kept.changeCounter {map' : PblMap} (h : Kept map map') :
    map'.changeCounter = map.changeCounter := by
  cases h <;> rfl

/-- **One event** goes on with the iteration, or ends it. -/
theorem pblMapEvent_spec (h : map.Represents m) {ahead : Option (List MapKey)}
    (hahead : Iterates d map iterator ahead) (event : PblMapEvent) :
    ∃ map' iterator', event.run d map iterator =
        some (map', iterator', (event.onKeys m ahead).2.2) ∧
      map'.Represents (event.onKeys m ahead).1 ∧
      Iterates d map' iterator' (event.onKeys m ahead).2.1 := by
  cases event with
  | call call =>
    obtain ⟨map', hcall⟩ := exists_refines h call
    refine ⟨map', iterator, by rw [PblMapEvent.run, hcall.run]; rfl, hcall.represents, ?_⟩
    show Iterates d map' iterator (if call.changesKeys m then none else ahead)
    cases hkeys : call.changesKeys m with
    | true =>
      have hcount := hcall.changed hkeys
      show iterator.changeCounter < map'.changeCounter
      cases ahead with
      | none => exact Nat.lt_trans hahead hcount
      | some keys =>
        obtain ⟨l, hl, -⟩ := hahead
        rwa [hl.changeCounter]
    | false =>
      have hkept := hcall.kept hkeys
      cases ahead with
      | none =>
        show iterator.changeCounter < map'.changeCounter
        rw [hkept.changeCounter]
        exact hahead
      | some keys =>
        obtain ⟨l, hl, rfl⟩ := hahead
        exact hl.kept hkept
  | iterate =>
    cases ahead with
    | none =>
      refine ⟨map, iterator, ?_, h, hahead⟩
      rw [PblMapEvent.run, Direction.iterate_of_lt hahead]
      rfl
    | some keys =>
      obtain ⟨l, hl, rfl⟩ := hahead
      cases l with
      | nil =>
        refine ⟨map, iterator, ?_, h, [], hl, rfl⟩
        rw [PblMapEvent.run, hl.nil]
        rfl
      | cons e l =>
        obtain ⟨iterator', hiterate, hl'⟩ := hl.cons
        obtain ⟨value, heq, hget⟩ := h.mem_elements (hl.mem List.mem_cons_self)
        refine ⟨map, iterator', ?_, h, l, hl', rfl⟩
        rw [PblMapEvent.run, hiterate]
        show some (map, iterator', PblMapSeen.element 1 (some (e.bytes, e.value))) =
          some (map, iterator', .element 1 ((m.get e.bytes).map fun value => (e.bytes, value)))
        rw [hget, heq]
        rfl

/-- **Events one after the other**. -/
theorem pblMapEvents_spec (events : List PblMapEvent) (h : map.Represents m)
    {ahead : Option (List MapKey)} (hahead : Iterates d map iterator ahead) :
    pblMapEvents d map iterator events = some (keysEvents m ahead events) := by
  induction events generalizing map m iterator ahead with
  | nil => rfl
  | cons event events ih =>
    obtain ⟨map', iterator', hrun, h', hahead'⟩ := pblMapEvent_spec h hahead event
    rw [pblMapEvents, hrun]
    dsimp only
    rw [ih h' hahead']
    rfl

/-- **Iterators**: in every map that calls can lead to, the keys stand in some order.  An iterator,
and in the other direction a reverse one, gives each of them once in this order, with the value that
the key has when it is given, whatever calls are made between its steps; once a call has added a
key or taken one out, it gives nothing any more, and says so. -/
theorem pblMap_iterates (calls : List PblMapCall) :
    ∃ map answers keys, pblMapRun pblMapNewHashMap calls = some (map, answers) ∧
      keys.Perm ((finMapRun FinMap.empty calls).1.toPairs.map Prod.fst) ∧
      ∀ events,
        pblMapEvents .forward map (Direction.forward.iterator map) events =
          some (keysEvents (finMapRun FinMap.empty calls).1 (some keys) events) ∧
        pblMapEvents .reverse map (Direction.reverse.iterator map) events =
          some (keysEvents (finMapRun FinMap.empty calls).1 (some keys.reverse) events) := by
  obtain ⟨map, hrun, h⟩ := pblMapRun_spec calls represents_new
  refine ⟨map, _, map.elements.map PblMapElement.bytes, hrun, ?_, fun events => ⟨?_, ?_⟩⟩
  · have hkeys := h.entries.map PblMapElement.bytes
    rwa [mapEntries, List.map_map] at hkeys
  · exact pblMapEvents_spec events h ⟨_, ahead_init h.inv.size, rfl⟩
  · exact pblMapEvents_spec events h ⟨_, behind_init h.inv.size, List.map_reverse⟩

end Teonet
