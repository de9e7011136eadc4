import Teonet.TeoDbRequests

/-! # Ranges of keys (`app/teodb.c`)

A request for a range of keys has two indices, as 32-bit numbers in a block and as decimal numbers in
a text.  Both are cut at the number of keys, and the keys between them are listed; the block also
says how many they are, as the difference of the two.

`rangeAnswered_iff` says for which indices that number is the number of the keys that follow it. -/

namespace Teonet

open Block Bytes

variable {env : TeoDbEnv} {data : List UInt8}

/-! ### Numbers in a text -/

theorem foldl_digits (l : List UInt8) (hl : ∀ c ∈ l, Decimal.IsDigit c) (a : ℤ) :
    l.foldl (fun n b => 10 * n + (b.toNat - 48 : ℤ)) a = a * 10 ^ l.length + Decimal.value l := by
  induction l generalizing a with
  | nil => simp [Decimal.value]
  | cons c l ih =>
    rw [List.forall_mem_cons] at hl
    have hc := hl.1.toNat
    have hvalue : (Decimal.digitValue c : ℤ) = c.toNat - 48 := by
      unfold Decimal.digitValue
      omega
    rw [List.foldl_cons, ih hl.2, Decimal.value, List.length_cons]
    push_cast
    rw [hvalue, pow_succ]
    ring

/-- A number that was printed. -/
theorem decimalValue_decimal (n : ℕ) : decimalValue (decimal n) = n := by
  have hdigits := Decimal.isDigit_of_mem_ofNat n
  have hvalue : digitsValue (Decimal.ofNat n) = n := by
    have htake : (Decimal.ofNat n).takeWhile (fun b => 48 ≤ b ∧ b ≤ 57) = Decimal.ofNat n :=
      List.takeWhile_eq_self_iff.mpr fun c hc => decide_eq_true (hdigits c hc)
    rw [digitsValue, htake, foldl_digits _ hdigits, Decimal.value_ofNat]
    simp
  have hbytes : (decimal n).bytes = Decimal.ofNat n := rfl
  unfold decimalValue
  rw [hbytes]
  cases hl : Decimal.ofNat n with
  | nil => exact absurd hl (Decimal.ofNat_ne_nil n)
  | cons c l =>
    rw [hl] at hvalue hdigits
    have hc := (hdigits c List.mem_cons_self).toNat
    have hne : ∀ d : UInt8, d.toNat < 48 → c ≠ d := by
      rintro d hd rfl
      omega
    have hspace : ¬(c = 32 ∨ (9 ≤ c ∧ c ≤ 13)) := by
      rintro (rfl | ⟨-, hle⟩)
      · exact hne 32 (by decide) rfl
      · have hc' : c.toNat ≤ (13 : UInt8).toNat := UInt8.le_iff_toNat_le.mp hle
        have hlt : (13 : UInt8).toNat = 13 := rfl
        omega
    rw [List.dropWhile_cons, if_neg (by simpa using hspace)]
    split
    · rename_i heq
      exact absurd (List.cons.inj heq).1 (hne 45 (by decide))
    · rename_i heq
      exact absurd (List.cons.inj heq).1 (hne 43 (by decide))
    · exact hvalue

/-- `atoi` gives the bits of a printed number of 32 bits. -/
theorem atoi_decimal {n : ℕ} (hn : n < 2 ^ 32) : atoi (decimal n) = toInt n := by
  rw [atoi, decimalValue_decimal]
  congr 1
  omega

/-! ### The answers -/

/-- The field `from` of a range. -/
def rangeFrom (data : List UInt8) : ℕ :=
  getLe 4 ((data.drop (teoDbDataSize + keyLengthOf data)).take 4)

/-- The field `to` of a range. -/
def rangeTo (data : List UInt8) : ℕ :=
  getLe 4 ((data.drop (teoDbDataSize + keyLengthOf data + 4)).take 4)

theorem rangeFrom_lt (data : List UInt8) : rangeFrom data < 2 ^ 32 := getLe_lt 4 _

theorem rangeTo_lt (data : List UInt8) : rangeTo data < 2 ^ 32 := getLe_lt 4 _

/-- The keys between two indices of 32 bits. -/
theorem keyRange_clip_natCast {argv : List CString} (hlen : argv.length < 2 ^ 31) {i j : ℕ}
    (hi : i < 2 ^ 32) (hj : j < 2 ^ 32) :
    keyRange argv (clip (toInt i) argv.length) (clip (toInt j) argv.length) =
      some (keysBetween argv i j) := by
  rw [clip_toInt_natCast hi hlen, clip_toInt_natCast hj hlen,
    keyRange_eq argv _ (Nat.min_le_right _ _)]
  exact congrArg some (keysBetween_min argv i j)

/-- The difference of the indices, cut at the number of keys. -/
def rangeCount (i j n : ℕ) : ℕ := (((min j n : ℕ) - (min i n : ℕ) : ℤ) % 2 ^ 32).toNat

/-- The key in a block with a request for keys. -/
def listKeyOf (data : List UInt8) : Option CString :=
  if keyLengthOf data ≠ 0 then some (CString.ofBuf (data.drop teoDbDataSize)) else none

theorem listKey_eq {data : List UInt8} (h : keyLengthOf data ≠ 0 → 0 ∈ data.drop teoDbDataSize) :
    listKey data (keyLengthOf data) = some (listKeyOf data) := by
  unfold listKey listKeyOf
  split_ifs with hkl
  · rw [strAt_eq (h hkl)]
    rfl
  · rfl

/-- The keys from which a block with a range asks for some. -/
def storedKeys (env : TeoDbEnv) (data : List UInt8) : List CString :=
  env.ksnTDBkeyList (listKeyOf data)

/-- The keys that a block with a range asks for. -/
def askedKeys (env : TeoDbEnv) (data : List UInt8) : List CString :=
  keysBetween (storedKeys env data) (rangeFrom data) (rangeTo data)

/-- An answer to a block with a range: a number, and keys with zero bytes behind them. -/
def rangeAnswer (data : List UInt8) (id count : ℕ) (keys : List CString) : List DbAction :=
  [.list (listKeyOf data), .answer cmdDListRangeAnswer
    (prepareRequestData (keyOf data) (le 4 count ++ keys.flatMap CString.toBuf) id)]

/-- The answer to a block with a range. -/
theorem listBinary_range (env : TeoDbEnv) (hsafe : ListSafe .range data) :
    ∃ id, requestId data = some id ∧
      listBinary env .range data = some (rangeAnswer data id
        (rangeCount (rangeFrom data) (rangeTo data) (storedKeys env data).length)
        (askedKeys env data)) := by
  obtain ⟨hone, hkey, hlen⟩ := hsafe
  dsimp only at hlen
  obtain ⟨id, hid⟩ := Option.isSome_iff_exists.mp ((requestId_isSome_iff data).mpr (by omega))
  refine ⟨id, hid, ?_⟩
  have hargv : (storedKeys env data).length < 2 ^ 31 := env.keyList_lt _
  have hfirst : bytesAt data (teoDbDataSize + keyLengthOf data) 4 =
      some ((data.drop (teoDbDataSize + keyLengthOf data)).take 4) := bytesAt_eq (by omega)
  have hlast : bytesAt data (teoDbDataSize + keyLengthOf data + 4) 4 =
      some ((data.drop (teoDbDataSize + keyLengthOf data + 4)).take 4) := bytesAt_eq (by omega)
  have hkeyOf : bytesAt data teoDbDataSize (keyLengthOf data) = some (keyOf data) :=
    bytesAt_eq (by omega)
  have hfrom : getLe 4 ((data.drop (teoDbDataSize + keyLengthOf data)).take 4) = rangeFrom data :=
    rfl
  have hto : getLe 4 ((data.drop (teoDbDataSize + keyLengthOf data + 4)).take 4) = rangeTo data :=
    rfl
  have hrange := keyRange_clip_natCast hargv (rangeFrom_lt data) (rangeTo_lt data)
  have hstored : env.ksnTDBkeyList (listKeyOf data) = storedKeys env data := rfl
  unfold listBinary
  rw [keyLength_eq hone, Option.bind_eq_bind, Option.bind_some, listKey_eq hkey,
    Option.bind_eq_bind, Option.bind_some]
  dsimp only
  rw [hstored]
  rw [hfirst, Option.bind_eq_bind, Option.bind_some, hlast, Option.bind_eq_bind, Option.bind_some,
    hfrom, hto, hrange, Option.bind_some, hkeyOf, Option.bind_some, hid, Option.bind_some,
    clip_toInt_natCast (rangeFrom_lt data) hargv, clip_toInt_natCast (rangeTo_lt data) hargv,
    listBlock]
  rfl

/-- The answer to a text with a range. -/
theorem listJson_range {json : List UInt8} {jp : DbParam} {i j : ℕ} (hi : i < 2 ^ 32)
    (hj : j < 2 ^ 32) (hjp : dbJsonParse env.toDbJsonEnv (dataToJsonStr json) = some jp)
    (hfrom : (jp .fromIdx).map atoi = some (toInt i)) (hto : (jp .toIdx).map atoi = some (toInt j)) :
    listJson env .range json =
      some [.list (jp .key), .answer cmdDListRangeAnswer (listText ((jp .id).getD .empty)
        (keysBetween (env.ksnTDBkeyList (jp .key)) i j)).toBuf] := by
  obtain ⟨s, hs, hsi⟩ := Option.map_eq_some_iff.mp hfrom
  obtain ⟨t, ht, htj⟩ := Option.map_eq_some_iff.mp hto
  have hrange := keyRange_clip_natCast (env.keyList_lt (jp .key)) hi hj
  unfold listJson
  rw [hjp, Option.bind_eq_bind, Option.bind_some]
  dsimp only
  rw [hs, ht, Option.map_some, Option.map_some, Option.getD_some, Option.getD_some, hsi, htj, hrange, Option.bind_eq_bind, Option.bind_some]

/-! ### The number of keys -/

theorem rangeCount_lt (i j n : ℕ) : rangeCount i j n < 2 ^ 32 := by
  unfold rangeCount
  omega

theorem length_keysBetween (argv : List CString) (i j : ℕ) :
    (keysBetween argv i j).length = min j argv.length - i := by
  rw [keysBetween, List.length_drop, List.length_take]

/-- The difference of the indices is the number of keys between them, unless the second one is below
the first one and below the number of all keys. -/
theorem rangeCount_eq_iff {argv : List CString} (hlen : argv.length < 2 ^ 31) (i j : ℕ) :
    rangeCount i j argv.length = (keysBetween argv i j).length ↔ ¬(j < i ∧ j < argv.length) := by
  rw [length_keysBetween, rangeCount]
  omega

theorem length_askedKeys_lt (env : TeoDbEnv) (data : List UInt8) :
    (askedKeys env data).length < 2 ^ 32 := by
  have hargv : (storedKeys env data).length < 2 ^ 31 := env.keyList_lt _
  rw [askedKeys, length_keysBetween]
  omega

theorem prepareRequestData_inj {key data data' : List UInt8} {id : ℕ}
    (h : prepareRequestData key data id = prepareRequestData key data' id) : data = data' := by
  have hdrop : ∀ data, (prepareRequestData key data id).drop (9 + key.length) = data := by
    intro data
    rw [prepareRequestData, List.drop_left']
    simp
    omega
  rw [← hdrop data, h, hdrop data']

/-- An answer determines the number that it states. -/
theorem rangeAnswer_inj {data : List UInt8} {id count count' : ℕ} {keys : List CString}
    (hcount : count < 2 ^ 32) (hcount' : count' < 2 ^ 32)
    (h : rangeAnswer data id count keys = rangeAnswer data id count' keys) : count = count' := by
  unfold rangeAnswer at h
  have hblock := prepareRequestData_inj (DbAction.answer.inj (List.cons.inj (List.cons.inj h).2).1).2
  have hfield := (le_eq_le_iff 4 count count').mp (List.append_cancel_right hblock)
  rwa [show 256 ^ 4 = 2 ^ 32 by decide, Nat.mod_eq_of_lt hcount, Nat.mod_eq_of_lt hcount'] at hfield

/-- The answer to a block with a range states how many keys follow, and these are the ones that were
asked for; and the answer to every text with the same numbers and the same key lists the same
keys. -/
def RangeAnswered (env : TeoDbEnv) (data : List UInt8) : Prop :=
  (∃ id, requestId data = some id ∧ dbRequest env (.list .range) data =
    some (rangeAnswer data id (askedKeys env data).length (askedKeys env data))) ∧
  ∀ json jp, isJson json = true → dbJsonParse env.toDbJsonEnv (dataToJsonStr json) = some jp →
    jp .key = listKeyOf data → (jp .fromIdx).map atoi = some (toInt (rangeFrom data)) →
    (jp .toIdx).map atoi = some (toInt (rangeTo data)) →
    dbRequest env (.list .range) json = some [.list (listKeyOf data), .answer cmdDListRangeAnswer
      (listText ((jp .id).getD .empty) (askedKeys env data)).toBuf]

theorem dbRequest_binary (env : TeoDbEnv) (cmd : ListCmd) (h : isJson data = false) :
    dbRequest env (.list cmd) data = listBinary env cmd data := by
  rw [dbRequest, h]
  rfl

/-- If the answer is right, the number that the code computes is that of the keys. -/
theorem RangeAnswered.count_eq (hrange : RangeAnswered env data) (hbinary : isJson data = false)
    (hsafe : ListSafe .range data) :
    rangeCount (rangeFrom data) (rangeTo data) (storedKeys env data).length =
      (askedKeys env data).length := by
  obtain ⟨⟨id, hid, hright⟩, -⟩ := hrange
  obtain ⟨id', hid', hanswer⟩ := listBinary_range env hsafe
  rw [hid] at hid'
  obtain rfl := Option.some.inj hid'
  rw [dbRequest_binary env .range hbinary, hanswer] at hright
  exact rangeAnswer_inj (rangeCount_lt _ _ _) (length_askedKeys_lt env data) (Option.some.inj hright)

/-- **Ranges of keys** are answered with their number and with the same keys in both forms, unless
the second index is below the first one and below the number of keys. -/
theorem rangeAnswered_iff (env : TeoDbEnv) {data : List UInt8} (hbinary : isJson data = false)
    (hsafe : ListSafe .range data) :
    RangeAnswered env data ↔
      ¬(rangeTo data < rangeFrom data ∧ rangeTo data < (storedKeys env data).length) := by
  have hargv : (storedKeys env data).length < 2 ^ 31 := env.keyList_lt _
  rw [← rangeCount_eq_iff hargv]
  refine ⟨fun h => h.count_eq hbinary hsafe, fun hcount => ?_⟩
  obtain ⟨id, hid, hanswer⟩ := listBinary_range env hsafe
  refine ⟨⟨id, hid, ?_⟩, fun json jp hjson hjp hkey hfrom hto => ?_⟩
  · have hcount' : rangeCount (rangeFrom data) (rangeTo data) (storedKeys env data).length =
        (askedKeys env data).length := hcount
    rw [dbRequest_binary env .range hbinary, hanswer, hcount']
  · have htext := listJson_range (rangeFrom_lt data) (rangeTo_lt data) hjp hfrom hto
    rw [hkey] at htext
    rw [dbRequest, hjson]
    exact htext

/-- A text with the two indices in decimal is answered with the same keys. -/
theorem RangeAnswered.of_decimal (h : RangeAnswered env data) {json : List UInt8} {jp : DbParam}
    (hjson : isJson json = true)
    (hjp : dbJsonParse env.toDbJsonEnv (dataToJsonStr json) = some jp)
    (hkey : jp .key = listKeyOf data) (hfrom : jp .fromIdx = some (decimal (rangeFrom data)))
    (hto : jp .toIdx = some (decimal (rangeTo data))) :
    dbRequest env (.list .range) json = some [.list (listKeyOf data), .answer cmdDListRangeAnswer
      (listText ((jp .id).getD .empty) (askedKeys env data)).toBuf] := by
  refine h.2 json jp hjson hjp hkey ?_ ?_
  · rw [hfrom, Option.map_some, atoi_decimal (rangeFrom_lt data)]
  · rw [hto, Option.map_some, atoi_decimal (rangeTo_lt data)]

/-- A store with the keys `a` and `b`. -/
def twoKeys : TeoDbEnv :=
  { emptyStore with
    ksnTDBkeyList := fun _ => [CString.ofBuf [97], CString.ofBuf [98]]
    keyList_lt := fun _ => by decide }

/-- A block with a range of all keys. -/
def rangeRequest (fromIdx toIdx : UInt8) : List UInt8 :=
  [0, 0, 0, 0, 0, 0, 0, 0, 0, fromIdx, 0, 0, 0, toIdx, 0, 0, 0]

/-- The key with the index 1 is asked for. -/
theorem rangeAnswered_iff_second : RangeAnswered twoKeys (rangeRequest 1 2) :=
  (rangeAnswered_iff twoKeys (by decide)
    ⟨by decide, fun h => absurd rfl h, by decide⟩).mpr (by decide)

/-- From the index 1 up to the index 0: no key, and the number of them is `2 ^ 32 - 1`. -/
theorem not_rangeAnswered : ¬RangeAnswered twoKeys (rangeRequest 1 0) := by
  intro h
  have hcount := h.count_eq (by decide) ⟨by decide, fun h => absurd rfl h, by decide⟩
  exact absurd hcount (by decide)

end Teonet
