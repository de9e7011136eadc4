import Mathlib.Data.List.GetD
import Teonet.Lib.PrefixRange
import Teonet.TeoDb

/-! # Lists of keys (`teodb.c`)

`ksnTDBkeyList` walks over the keys of the open file in their order, from the first one that is not
below the prefix with its zero byte, and adds each one to a list as a string.  The keys are any
bytes, and they come one after the other into one buffer on the stack, which is read up to a zero
byte wherever that is.

`listsKeys_iff` says for which contents of the file the list is right.  What lies behind a key in the
buffer (`byteBehind`) is left from the keys before it, or has been on the stack. -/

namespace Teonet

open Block Multimap PrefixRange

variable {φ : Type}

/-! ### The code -/

/-- `KSN_BUFFER_SM_SIZE`. -/
def ksnBufferSmSize : ℕ := 256

/-- A buffer on the stack, with what has been there. -/
def stackBuffer (stack : ℕ → UInt8) : List UInt8 := (List.range ksnBufferSmSize).map stack

/-- The keys in the order in which the file enumerates them. -/
def keyOrder (records : PblRecords) : List PblKey :=
  (records.map Prod.fst).mergeSort fun a b => a.bytes ≤ b.bytes

/-- `pblKfFind` with `PBLGE`, where no key has two records: the key that is found, and those to which
`pblKfNext` goes from there. -/
def pblKfFindGe (keys : List PblKey) (key : Option (List UInt8)) : List PblKey :=
  match pblParamsCheck key with
  | none => []
  | some key => keys.dropWhile fun k => k.bytes < key.bytes

/-- A key is copied into the buffer. -/
def copyKey (okey : List UInt8) (k : PblKey) : List UInt8 := k.bytes ++ okey.drop k.bytes.length

/-- The loop of `ksnTDBkeyList`, until a key does not pass the test. -/
def addKeys (test : List UInt8 → Bool) : List UInt8 → List PblKey → Option (List CString)
  | _, [] => some []
  | okey, k :: keys =>
    let okey := copyKey okey k
    if test okey then do
      let s ← strAt okey 0
      let argv ← addKeys test okey keys
      return s :: argv
    else some []

/-- `ksnTDBkeyList`; it returns the length of the list. -/
def ksnTDBkeyList (stack : ℕ → UInt8) (kf : KsnTDBClass φ) (key : Option CString) :
    Option (List CString) :=
  match kf.k with
  | none => some []
  | some k =>
    let keys := keyOrder k.records
    match key with
    | none => addKeys (fun _ => true) (stackBuffer stack) keys
    | some key =>
      if key.bytes = [] then addKeys (fun _ => true) (stackBuffer stack) keys
      else
        addKeys (fun okey => okey.take key.length = key.bytes) (stackBuffer stack)
          (pblKfFindGe keys (some key.toBuf))

/-! ### Enumerated keys -/

theorem pairwise_keyOrder (records : PblRecords) :
    (keyOrder records).Pairwise fun a b => a.bytes ≤ b.bytes := by
  have h : (keyOrder records).Pairwise fun a b : PblKey => decide (a.bytes ≤ b.bytes) = true := by
    refine List.pairwise_mergeSort (fun a b c hab hbc => ?_) (fun a b => ?_) _
    · exact decide_eq_true (List.le_trans (of_decide_eq_true hab) (of_decide_eq_true hbc))
    · simpa using List.le_total a.bytes b.bytes
  exact h.imp fun hab => of_decide_eq_true hab

theorem nodup_keyOrder {records : PblRecords} (h : (records.map Prod.fst).Nodup) :
    (keyOrder records).Nodup :=
  (List.mergeSort_perm _ _).nodup_iff.mpr h

/-- Where the scan starts, the test is the one for the prefix: a key in the buffer that is shorter
than the prefix is no part of it. -/
theorem take_copyKey_iff {p : List UInt8} {k : PblKey} (hk : p ++ [0] ≤ k.bytes)
    (okey : List UInt8) : (copyKey okey k).take p.length = p ↔ p <+: k.bytes := by
  have htake : (copyKey okey k).take p.length = p ↔ p <+: copyKey okey k := by
    rw [eq_comm, List.prefix_iff_eq_take]
  rw [htake, copyKey]
  constructor
  · intro h
    rcases List.prefix_or_prefix_of_prefix h (List.prefix_append k.bytes _) with hp | ⟨t, ht⟩
    · exact hp
    · have hle : k.bytes ≤ p := by
        have happend : k.bytes ++ [] ≤ k.bytes ++ t := List.append_left_le (List.nil_le t)
        rwa [ht, List.append_nil] at happend
      exact absurd (List.le_trans hk hle) (not_append_bot_le p 0)
  · exact fun h => h.trans (List.prefix_append _ _)

/-- The keys behind the first one that does not pass the test do not matter. -/
theorem addKeys_takeWhile {test : List UInt8 → Bool} {q : PblKey → Bool} {keys : List PblKey}
    (h : ∀ k ∈ keys, ∀ okey, test (copyKey okey k) = q k) (okey : List UInt8) :
    addKeys test okey keys = addKeys (fun _ => true) okey (keys.takeWhile q) := by
  induction keys generalizing okey with
  | nil => rfl
  | cons k keys ih =>
    rw [List.forall_mem_cons] at h
    rw [addKeys, h.1, List.takeWhile_cons]
    cases q k with
    | false => rfl
    | true =>
      simp only [if_true, addKeys]
      rw [ih h.2]

/-! ### What is listed -/

/-- A key up to its end: a zero byte that ends it is not part of its text. -/
def keyText (k : PblKey) : List UInt8 :=
  if k.bytes.getLast? = some 0 then k.bytes.dropLast else k.bytes

/-- The keys of the open file that have the prefix, in their order. -/
def keysWithPrefix (kf : KsnTDBClass φ) (p : List UInt8) : List PblKey :=
  (keyOrder ((kf.k.map PblKeyFile.records).getD [])).filter fun k => p <+: k.bytes

/-- The prefix that is asked for, the empty one with a null pointer. -/
def askedPrefix (key : Option CString) : List UInt8 := (key.map CString.bytes).getD []

/-- The list has an entry for each key with the prefix, which is its text, in their order. -/
def ListsKeys (stack : ℕ → UInt8) (kf : KsnTDBClass φ) (key : Option CString) : Prop :=
  (ksnTDBkeyList stack kf key).map (List.map CString.bytes) =
    some ((keysWithPrefix kf (askedPrefix key)).map keyText)

/-- Byte `n` of the buffer after the keys `before`: each one that is longer puts its own there. -/
def byteBehind (stack : ℕ → UInt8) (before : List PblKey) (n : ℕ) : UInt8 :=
  before.foldl (fun b k => k.bytes.getD n b) (stack n)

/-- A key that comes after the keys `before` and can be read as a string: there is no zero byte in
its text, and one at its end or behind it in the buffer. -/
def Readable (stack : ℕ → UInt8) (before : List PblKey) (k : PblKey) : Prop :=
  0 ∉ keyText k ∧ (k.bytes.getLast? = some 0 ∨ byteBehind stack before k.bytes.length = 0)

theorem length_copyKey (okey : List UInt8) {k : PblKey} (hokey : okey.length = ksnBufferSmSize) :
    (copyKey okey k).length = ksnBufferSmSize := by
  have hle := k.le
  rw [copyKey, List.length_append, List.length_drop, hokey, ksnBufferSmSize]
  omega

theorem getD_copyKey (okey : List UInt8) (k : PblKey) (n : ℕ) :
    (copyKey okey k).getD n 0 = k.bytes.getD n (okey.getD n 0) := by
  rw [copyKey]
  by_cases hn : n < k.bytes.length
  · rw [List.getD_append _ _ _ _ hn, ← List.getElem_eq_getD 0, ← List.getElem_eq_getD]
    exact hn
  · rw [List.getD_append_right _ _ _ _ (by omega), List.getD_eq_default k.bytes _ (by omega),
      List.getD_eq_getElem?_getD, List.getElem?_drop, Nat.add_sub_cancel' (by omega),
      ← List.getD_eq_getElem?_getD]

/-- The entry of the first key. -/
theorem strAt_copyKey_iff {okey : List UInt8} (k : PblKey)
    (hokey : okey.length = ksnBufferSmSize) :
    (strAt (copyKey okey k) 0).map CString.bytes = some (keyText k) ↔
      Readable (fun n => okey.getD n 0) [] k := by
  have hlt : k.bytes.length < okey.length := by
    have hle := k.le
    rw [hokey, ksnBufferSmSize]
    omega
  rw [strAt_bytes_eq_iff, List.drop_zero, copyKey, Readable, keyText]
  refine and_congr_right fun _ => ?_
  by_cases hlast : k.bytes.getLast? = some 0
  · rw [if_pos hlast]
    have hk : k.bytes.dropLast ++ [0] = k.bytes := List.dropLast_append_getLast? 0 hlast
    refine iff_of_true ?_ (.inl hlast)
    rw [hk]
    exact List.prefix_append _ _
  · rw [if_neg hlast, List.prefix_append_right_inj, List.drop_eq_getElem_cons hlt,
      List.cons_prefix_cons, or_iff_right hlast, List.getElem_eq_getD 0]
    exact ⟨fun h => h.1.symm, fun h => ⟨h.symm, List.nil_prefix⟩⟩

theorem readable_cons (okey : List UInt8) (j : PblKey) (before : List PblKey) (k : PblKey) :
    Readable (fun n => okey.getD n 0) (j :: before) k ↔
      Readable (fun n => (copyKey okey j).getD n 0) before k := by
  simp only [Readable, byteBehind, List.foldl_cons, getD_copyKey]

/-- The loop lists the texts of the keys when each of them can be read after those before it. -/
theorem addKeys_iff {okey : List UInt8} (keys : List PblKey)
    (hokey : okey.length = ksnBufferSmSize) :
    (addKeys (fun _ => true) okey keys).map (List.map CString.bytes) = some (keys.map keyText) ↔
      ∀ before k rest, keys = before ++ k :: rest →
        Readable (fun n => okey.getD n 0) before k := by
  induction keys generalizing okey with
  | nil => exact iff_of_true rfl fun before k rest h => by simp at h
  | cons j keys ih =>
    have hfirst := strAt_copyKey_iff j hokey
    have hrest := ih (length_copyKey okey (k := j) hokey)
    have hsplit : (addKeys (fun _ => true) okey (j :: keys)).map (List.map CString.bytes) =
          some ((j :: keys).map keyText) ↔
        (strAt (copyKey okey j) 0).map CString.bytes = some (keyText j) ∧
          (addKeys (fun _ => true) (copyKey okey j) keys).map (List.map CString.bytes) =
            some (keys.map keyText) := by
      rw [addKeys]
      cases strAt (copyKey okey j) 0 <;>
        cases addKeys (fun _ => true) (copyKey okey j) keys <;> simp
    rw [hsplit, hfirst, hrest]
    constructor
    · rintro ⟨hj, hkeys⟩ before k rest hl
      cases before with
      | nil =>
        obtain ⟨rfl, rfl⟩ := List.cons.inj hl
        exact hj
      | cons i before =>
        obtain ⟨rfl, rfl⟩ := List.cons.inj hl
        exact (readable_cons okey j before k).mpr (hkeys before k rest rfl)
    · intro h
      exact ⟨h [] j keys rfl, fun before k rest hl =>
        (readable_cons okey j before k).mp (h (j :: before) k rest (by rw [hl]; rfl))⟩

/-! ### All contents of the store -/

/-- An open file after the calls of `ksnTDBset` with these keys and data.  `ksnTDBsetStr` is one with
the zero byte of a string at the end of the key. -/
def written (file : φ) (writes : List (List UInt8 × List UInt8)) : KsnTDBClass φ :=
  writes.foldl (fun kf w => (ksnTDBset kf (some w.1) (some w.2)).1)
    { k := some { file := file, records := [] } }

/-- A write leaves one record for each key. -/
theorem nodup_setRecord {records : PblRecords} (h : (records.map Prod.fst).Nodup)
    (key data : Option (List UInt8)) : ((setRecord key data records).map Prod.fst).Nodup := by
  unfold setRecord
  cases pblParamsCheck key with
  | none => exact h
  | some pk =>
    cases data with
    | none => exact h
    | some data =>
      dsimp only
      cases hi : lastIdx pk records with
      | none =>
        have habs := lastIdx_eq_none_iff.mp hi
        rw [List.map_append, List.map_singleton, List.nodup_append]
        refine ⟨h, List.nodup_singleton pk, ?_⟩
        rintro _ hmem _ hpk rfl
        obtain ⟨r, hr, heq⟩ := List.mem_map.mp hmem
        exact habs r hr (heq.trans (List.mem_singleton.mp hpk))
      | some i =>
        obtain ⟨d, hd, -⟩ := getElem?_lastIdx hi
        have hkey : (records.map Prod.fst)[i]? = some pk := by
          rw [List.getElem?_map, hd]
          rfl
        obtain ⟨hlt, hpk⟩ := List.getElem?_eq_some_iff.mp hkey
        rw [List.map_set, ← hpk, List.set_getElem_self]
        exact h

/-- The file stays open, with one record for each key. -/
theorem written_open (file : φ) (writes : List (List UInt8 × List UInt8)) :
    ∃ k, (written file writes).k = some k ∧ (k.records.map Prod.fst).Nodup := by
  unfold written
  refine List.foldlRecOn writes _ (motive := fun kf : KsnTDBClass φ =>
    ∃ k, kf.k = some k ∧ (k.records.map Prod.fst).Nodup) ⟨_, rfl, List.nodup_nil⟩ ?_
  rintro kf ⟨k, hk, hnodup⟩ w -
  obtain ⟨kf', hset, -, -, hrecords⟩ := opSpec_set (φ := φ) (some w.1) (some w.2) kf
  have hkf' : (ksnTDBset kf (some w.1) (some w.2)).1 = kf' :=
    congrArg Prod.fst (Option.some.inj hset)
  rw [hkf']
  rw [hk, Option.map_some, Option.map_some, Option.map_eq_some_iff] at hrecords
  obtain ⟨k', hk', hrecords⟩ := hrecords
  exact ⟨k', hk', hrecords ▸ nodup_setRecord hnodup _ _⟩

/-- So no key is listed twice. -/
theorem nodup_keysWithPrefix (file : φ) (writes : List (List UInt8 × List UInt8))
    (p : List UInt8) : (keysWithPrefix (written file writes) p).Nodup := by
  obtain ⟨k, hk, hnodup⟩ := written_open file writes
  rw [keysWithPrefix, hk]
  exact (nodup_keyOrder hnodup).filter _

/-- From the first key that is not below the prefix with its zero byte, the loop meets the keys that
are longer than the prefix. -/
theorem addKeys_findGe {keys : List PblKey} (hkeys : keys.Pairwise fun a b => a.bytes ≤ b.bytes)
    (p : CString) (okey : List UInt8) :
    addKeys (fun okey => okey.take p.length = p.bytes) okey (pblKfFindGe keys (some p.toBuf)) =
      addKeys (fun _ => true) okey
        (keys.filter fun j => p.bytes <+: j.bytes ∧ j.bytes ≠ p.bytes) := by
  by_cases hp : p.toBuf.length ≤ 255
  · have hpos : 0 < p.toBuf.length := by simp
    have hcheck : pblParamsCheck (some p.toBuf) = some ⟨p.toBuf, hpos, hp⟩ :=
      dif_pos ⟨hpos, hp⟩
    have hscan : (keys.dropWhile fun k => k.bytes < p.toBuf).takeWhile
        (fun k => p.bytes <+: k.bytes) =
          keys.filter fun j => p.bytes <+: j.bytes ∧ j.bytes ≠ p.bytes :=
      takeWhile_dropWhile PblKey.bytes (fun c => UInt8.zero_le) hkeys
    rw [pblKfFindGe, hcheck, ← hscan]
    refine addKeys_takeWhile (fun j hj buffer => ?_) okey
    rw [decide_eq_decide]
    exact take_copyKey_iff (le_of_mem_dropWhile PblKey.bytes hkeys hj) buffer
  · have hcheck : pblParamsCheck (some p.toBuf) = none := dif_neg fun h => hp h.2
    have hnone : keys.filter (fun j => p.bytes <+: j.bytes ∧ j.bytes ≠ p.bytes) = [] := by
      rw [List.filter_eq_nil_iff]
      intro j _ hj
      have hpj : p.bytes <+: j.bytes ∧ j.bytes ≠ p.bytes := by simpa using hj
      have hle := j.le
      have hlen := hpj.1.length_le
      have hne : p.bytes.length ≠ j.bytes.length := fun h => hpj.2 (hpj.1.eq_of_length h).symm
      simp only [CString.toBuf_length, CString.length] at hp
      omega
    rw [pblKfFindGe, hcheck, hnone]
    rfl

/-- The loop meets the keys that are longer than the prefix. -/
theorem ksnTDBkeyList_eq (stack : ℕ → UInt8) {kf : KsnTDBClass φ} {k : PblKeyFile φ}
    (hk : kf.k = some k) (key : Option CString) :
    ksnTDBkeyList stack kf key =
      addKeys (fun _ => true) (stackBuffer stack)
        ((keysWithPrefix kf (askedPrefix key)).filter fun j => j.bytes ≠ askedPrefix key) := by
  have hmatch : keysWithPrefix kf (askedPrefix key) =
      (keyOrder k.records).filter fun j => askedPrefix key <+: j.bytes := by
    rw [keysWithPrefix, hk]
    rfl
  have hnil (h : askedPrefix key = []) : (keysWithPrefix kf (askedPrefix key)).filter
      (fun j => j.bytes ≠ askedPrefix key) = keyOrder k.records := by
    rw [hmatch, h, List.filter_filter, List.filter_eq_self]
    intro j _
    have hpos := List.length_pos_iff.mp j.pos
    simpa using hpos
  unfold ksnTDBkeyList
  rw [hk]
  dsimp only
  cases key with
  | none => rw [hnil rfl]
  | some p =>
    dsimp only
    by_cases hp : p.bytes = []
    · rw [if_pos hp, hnil hp]
    · rw [if_neg hp, hmatch, List.filter_filter, addKeys_findGe (pairwise_keyOrder _) p]
      congr 2
      funext j
      rw [Bool.decide_and, Bool.and_comm]
      rfl

/-- The list of a shorter list of keys. -/
theorem length_of_addKeys {test : List UInt8 → Bool} {okey : List UInt8} {keys : List PblKey}
    {argv : List CString} (h : addKeys test okey keys = some argv) :
    argv.length ≤ keys.length := by
  induction keys generalizing okey argv with
  | nil =>
    obtain rfl := Option.some.inj h
    exact Nat.le_refl 0
  | cons k keys ih =>
    rw [addKeys] at h
    split_ifs at h
    · obtain ⟨s, -, h⟩ := Option.bind_eq_some_iff.mp h
      obtain ⟨rest, hrest, h⟩ := Option.bind_eq_some_iff.mp h
      obtain rfl := Option.some.inj h
      exact Nat.succ_le_succ (ih hrest)
    · obtain rfl := Option.some.inj h
      exact Nat.zero_le _

/-- **Lists of keys.**  For all contents that have been written, the list is right exactly when the
prefix is no key itself and each key with the prefix can be read after those before it. -/
theorem listsKeys_iff (stack : ℕ → UInt8) (file : φ) (writes : List (List UInt8 × List UInt8))
    (key : Option CString) :
    ListsKeys stack (written file writes) key ↔
      (∀ k ∈ keysWithPrefix (written file writes) (askedPrefix key), k.bytes ≠ askedPrefix key) ∧
        ∀ before k rest,
          keysWithPrefix (written file writes) (askedPrefix key) = before ++ k :: rest →
            Readable stack before k := by
  obtain ⟨k, hk, -⟩ := written_open file writes
  have hlist := ksnTDBkeyList_eq stack hk key
  have hstack : (stackBuffer stack).length = ksnBufferSmSize := by simp [stackBuffer]
  have hread (before : List PblKey) (j : PblKey) :
      Readable (fun n => (stackBuffer stack).getD n 0) before j ↔ Readable stack before j := by
    have hj := j.le
    have hget : (stackBuffer stack).getD j.bytes.length 0 = stack j.bytes.length := by
      rw [← List.getElem_eq_getD (h := by rw [hstack, ksnBufferSmSize]; omega)]
      simp [stackBuffer]
    simp only [Readable, byteBehind, hget]
  unfold ListsKeys
  by_cases hne : ∀ k ∈ keysWithPrefix (written file writes) (askedPrefix key),
      k.bytes ≠ askedPrefix key
  · have hall : (keysWithPrefix (written file writes) (askedPrefix key)).filter
        (fun j => j.bytes ≠ askedPrefix key) =
          keysWithPrefix (written file writes) (askedPrefix key) := by
      rw [List.filter_eq_self]
      simpa using hne
    rw [hlist, hall, addKeys_iff _ hstack]
    simp only [hread]
    exact (and_iff_right hne).symm
  · refine iff_of_false (fun h => hne fun j hj heq => ?_) fun h => hne h.1
    -- one entry is missing
    obtain ⟨argv, hargv, htexts⟩ := Option.map_eq_some_iff.mp h
    have hle := length_of_addKeys (hlist ▸ hargv)
    have hlen := congrArg List.length htexts
    rw [List.length_map, List.length_map] at hlen
    have hall := List.length_filter_eq_length_iff.mp
      (Nat.le_antisymm (List.length_filter_le _ _) (hlen ▸ hle))
    simpa [heq] using hall j hj

/-- The key `b` without a zero byte at its end is missing in the list for the prefix `b`, and behind
the longer key `ab` it is read as `bb`. -/
theorem not_listsKeys :
    ¬ListsKeys (fun _ => 0) (written () [([98], [])]) (some (CString.ofBuf [98])) ∧
      ¬ListsKeys (fun _ => 0) (written () [([97, 98, 0], []), ([98], [])]) none := by
  have hkeys : keyOrder [(⟨[98], by decide, by decide⟩, [])] = [⟨[98], by decide, by decide⟩] :=
    List.mergeSort_of_pairwise (by decide)
  have hkeys' : keyOrder [(⟨[97, 98, 0], by decide, by decide⟩, []),
      (⟨[98], by decide, by decide⟩, [])] =
        [⟨[97, 98, 0], by decide, by decide⟩, ⟨[98], by decide, by decide⟩] :=
    List.mergeSort_of_pairwise (by decide)
  have hopen : (written () [([98], [])]).k =
      some { file := (), records := [(⟨[98], by decide, by decide⟩, [])], current := some 0 } := rfl
  have hopen' : (written () [([97, 98, 0], []), ([98], [])]).k =
      some { file := (), records := [(⟨[97, 98, 0], by decide, by decide⟩, []),
        (⟨[98], by decide, by decide⟩, [])], current := some 1 } := rfl
  constructor
  · rw [ListsKeys, ksnTDBkeyList, keysWithPrefix, hopen, Option.map_some, Option.getD_some]
    dsimp only
    rw [hkeys]
    decide +kernel
  · rw [ListsKeys, ksnTDBkeyList, keysWithPrefix, hopen', Option.map_some, Option.getD_some]
    dsimp only
    rw [hkeys']
    decide +kernel

end Teonet
