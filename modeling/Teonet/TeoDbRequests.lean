import Mathlib.Data.Int.Bitwise
import Teonet.Lib.Block
import Teonet.Lib.Bytes
import Teonet.PeersJson
import Teonet.TeoDbJson

/-! # Requests to the key-value store (`app/teodb.c`)

The handler of the five requests reads a block, `teo_db_data`, or a JSON text, and calls the store.
Reads are those of `Teonet.Lib.Block`: a read outside the block of the request, or of a copy that was
made of it, is `none`, and so is a null pointer that is given to the store as a key, and an index
outside the list of keys.

What the functions of the store return is a parameter (`TeoDbEnv`).  `requestSafe_iff` says which
requests the handler survives. -/

namespace Teonet

open Block Bytes TextBuffer TokenScan

/-! ### The block of a request -/

/-- `sizeof(teo_db_data)`. -/
def teoDbDataSize : ℕ := 9

/-- `tdd->key_length`. -/
def keyLength (data : List UInt8) : Option ℕ := (byteAt data 0).map UInt8.toNat

/-- `tdd->data_length`. -/
def dataLength (data : List UInt8) : Option ℕ := (bytesAt data 1 4).map (getLe 4)

/-- `tdd->id`. -/
def requestId (data : List UInt8) : Option ℕ := (bytesAt data 5 4).map (getLe 4)

/-- `prepare_request_data`, of a key and data that were read. -/
def prepareRequestData (key data : List UInt8) (id : ℕ) : List UInt8 :=
  le 1 key.length ++ le 4 data.length ++ le 4 id ++ key ++ data

/-- `get_data_type`. -/
def isJson (data : List UInt8) : Bool := 4 < data.length ∧ data.take 4 = jsonTag

/-! ### The store -/

/-- The tokenizer, whether messages of the level `DEBUG` are made, and what the functions of the store
return.  A list of keys is counted in an `int`. -/
structure TeoDbEnv extends DbJsonEnv where
  debug : Bool
  ksnTDBset : List UInt8 → List UInt8 → ℤ
  ksnTDBdelete : List UInt8 → ℤ
  ksnTDBget : List UInt8 → Option (List UInt8)
  ksnTDBkeyList : Option CString → List CString
  keyList_lt : ∀ key, (ksnTDBkeyList key).length < 2 ^ 31

/-- What the handler does. -/
inductive DbAction
  | set (key data : List UInt8)
  | delete (key : List UInt8)
  | get (key : List UInt8)
  | list (key : Option CString)
  /-- `teoSScrSend` with `EV_D_SET` -/
  | subscribers (key : List UInt8)
  /-- `send_answer` -/
  | answer (cmd : ℕ) (data : List UInt8)
deriving DecidableEq

/-- `ksn_printf` of a string in the block of the request. -/
def printed (env : TeoDbEnv) (data : List UInt8) (i : ℕ) : Option Unit :=
  if env.debug then (strAt data i).map fun _ => () else some ()

/-! ### `CMD_D_SET` -/

/-- The key and the data that are set, or the key that is deleted, if the data is empty. -/
def setOrDelete (env : TeoDbEnv) (key value : List UInt8) : ℤ × DbAction :=
  if value ≠ [] then (env.ksnTDBset key value, .set key value)
  else (env.ksnTDBdelete key, .delete key)

/-- `CMD_D_SET` with a text. -/
def setJson (env : TeoDbEnv) (data : List UInt8) : Option (List DbAction) := do
  let jp ← dbJsonParse env.toDbJsonEnv (dataToJsonStr data)
  match jp .key with
  | none => some []
  | some key =>
    if key.bytes = [] then some []
    else
      let value := match jp .data with
        | some value => if value.bytes = [] then [] else value.toBuf
        | none => []
      let (rv, action) := setOrDelete env key.toBuf value
      some (if rv = 0 then [action, .subscribers key.toBuf] else [action])

/-- The check of a block with a key and data: its size, if it is right. -/
def checkSize (data : List UInt8) : Option (Option (ℕ × ℕ)) := do
  let kl ← keyLength data
  if kl = 0 then some none
  else do
    let dl ← dataLength data
    -- the sum of the two lengths is a `uint32_t`
    some (if (kl + dl) % 2 ^ 32 + teoDbDataSize = data.length then some (kl, dl) else none)

/-- `CMD_D_SET` with a block. -/
def setBinary (env : TeoDbEnv) (data : List UInt8) : Option (List DbAction) := do
  match ← checkSize data with
  | none => some []
  | some (kl, dl) => do
    let key ← bytesAt data teoDbDataSize kl
    let value ← bytesAt data (teoDbDataSize + kl) dl
    let (rv, action) := setOrDelete env key value
    if rv = 0 then do
      printed env data teoDbDataSize
      printed env data (teoDbDataSize + kl)
      some [action, .subscribers key]
    else some [action]

/-! ### `CMD_D_GET` -/

def cmdDGetAnswer : ℕ := 132

/-- `%s` of a string that may be null. -/
def orNull (s : Option CString) : CString := s.getD (lit "(null)")

/-- `CMD_D_GET` with a text.  `%s` prints a stored value up to its zero byte; for a value that has
none, which a block can store, the source reads on behind the value, and here the text ends with it. -/
def getJson (env : TeoDbEnv) (data : List UInt8) : Option (List DbAction) := do
  let jp ← dbJsonParse env.toDbJsonEnv (dataToJsonStr data)
  -- `ksnTDBgetStr` takes the length of the key
  let key ← jp .key
  let value := (env.ksnTDBget key.toBuf).map CString.ofBuf
  let text := concat [lit "\x7b \"key\":\"", key, lit "\", \"data\":\"", value.getD .empty,
    lit "\", \"id\":\"", (jp .id).getD .empty, lit "\" \x7d"]
  some [.get key.toBuf, .answer cmdDGetAnswer text.toBuf]

/-- `CMD_D_GET` with a block. -/
def getBinary (env : TeoDbEnv) (data : List UInt8) : Option (List DbAction) := do
  match ← checkSize data with
  | none => some []
  | some (kl, _) => do
    let key ← bytesAt data teoDbDataSize kl
    printed env data teoDbDataSize
    let id ← requestId data
    let value := (env.ksnTDBget key).getD []
    some [.get key, .answer cmdDGetAnswer (prepareRequestData key value id)]

/-! ### `CMD_D_LIST`, `CMD_D_LIST_RANGE` and `CMD_D_LIST_LENGTH` -/

def cmdDListAnswer : ℕ := 133

def cmdDListLengthAnswer : ℕ := 135

def cmdDListRangeAnswer : ℕ := 137

/-- `if(i > list_len) i = list_len`: the comparison is one of `uint32_t`. -/
def clip (i : ℤ) (listLen : ℕ) : ℤ := if (listLen : ℤ) < i % 2 ^ 32 then listLen else i

/-- `argv[i]`. -/
def argvAt (argv : List CString) (i : ℤ) : Option CString := if 0 ≤ i then argv[i.toNat]? else none

/-- The `n` keys from an index on. -/
def keysFrom (argv : List CString) : ℕ → ℤ → Option (List CString)
  | 0, _ => some []
  | n + 1, i => do
    let key ← argvAt argv i
    let keys ← keysFrom argv n (i + 1)
    return key :: keys

/-- The loop `for(i = from; i < to; i++)` over the keys. -/
def keyRange (argv : List CString) (fromIdx toIdx : ℤ) : Option (List CString) :=
  keysFrom argv (toIdx - fromIdx).toNat fromIdx

/-- The text of a key in a list. -/
def listItem (id : CString) (key : CString) : CString :=
  concat [lit "\x7b \"key\":\"", key, lit "\", \"id\": \"", id, lit "\" \x7d"]

/-- The text of a list, with commas between the keys. -/
def listText (id : CString) (keys : List CString) : CString :=
  concat ([lit "[ "] ++ (keys.map (listItem id)).intersperse (lit ", ") ++ [lit " ]"])

/-- The three requests for keys. -/
inductive ListCmd
  | list
  | range
  | length
deriving DecidableEq

/-- A request for keys with a text. -/
def listJson (env : TeoDbEnv) (cmd : ListCmd) (data : List UInt8) : Option (List DbAction) := do
  let jp ← dbJsonParse env.toDbJsonEnv (dataToJsonStr data)
  let argv := env.ksnTDBkeyList (jp .key)
  let id := (jp .id).getD .empty
  match cmd with
  | .length =>
    let text := concat [lit "\x7b \"key\":\"", orNull (jp .key), lit "\", \"id\": \"", id,
      lit "\", \"listLen\": ", decimal argv.length, lit " \x7d"]
    some [.list (jp .key), .answer cmdDListLengthAnswer text.toBuf]
  | .list => do
    let keys ← keyRange argv 0 argv.length
    some [.list (jp .key), .answer cmdDListAnswer (listText id keys).toBuf]
  | .range => do
    let fromIdx := clip (((jp .fromIdx).map atoi).getD 0) argv.length
    let toIdx := clip (((jp .toIdx).map atoi).getD 0) argv.length
    let keys ← keyRange argv fromIdx toIdx
    some [.list (jp .key), .answer cmdDListRangeAnswer (listText id keys).toBuf]

/-- The bytes of an answer with keys: their number, as the code computes it, and the keys. -/
def listBlock (fromIdx toIdx : ℤ) (keys : List CString) : List UInt8 :=
  le 4 ((toIdx - fromIdx) % 2 ^ 32).toNat ++ keys.flatMap CString.toBuf

/-- The key of a request for keys with a block. -/
def listKey (data : List UInt8) (kl : ℕ) : Option (Option CString) :=
  if kl ≠ 0 then (strAt data teoDbDataSize).map some else some none

/-- A request for keys with a block. -/
def listBinary (env : TeoDbEnv) (cmd : ListCmd) (data : List UInt8) : Option (List DbAction) := do
  let kl ← keyLength data
  let keyStr ← listKey data kl
  let argv := env.ksnTDBkeyList keyStr
  match cmd with
  | .length => do
    -- the key is read from the copy that `strdup` made
    let key ← bytesAt ((keyStr.map CString.toBuf).getD []) 0 kl
    let id ← requestId data
    some [.list keyStr,
      .answer cmdDListLengthAnswer (prepareRequestData key (le 4 argv.length) id)]
  | .list => do
    let keys ← keyRange argv 0 argv.length
    let key ← bytesAt data teoDbDataSize kl
    let id ← requestId data
    some [.list keyStr,
      .answer cmdDListAnswer (prepareRequestData key (listBlock 0 argv.length keys) id)]
  | .range => do
    let first ← bytesAt data (teoDbDataSize + kl) 4
    let last ← bytesAt data (teoDbDataSize + kl + 4) 4
    let fromIdx := clip (toInt (getLe 4 first)) argv.length
    let toIdx := clip (toInt (getLe 4 last)) argv.length
    let keys ← keyRange argv fromIdx toIdx
    let key ← bytesAt data teoDbDataSize kl
    let id ← requestId data
    some [.list keyStr,
      .answer cmdDListRangeAnswer (prepareRequestData key (listBlock fromIdx toIdx keys) id)]

/-! ### The handler -/

/-- The five requests. -/
inductive DbCmd
  | set
  | get
  | list (cmd : ListCmd)
deriving DecidableEq

/-- The requests of `event_cb`. -/
def dbRequest (env : TeoDbEnv) (cmd : DbCmd) (data : List UInt8) : Option (List DbAction) :=
  match cmd with
  | .set => if isJson data then setJson env data else setBinary env data
  | .get => if isJson data then getJson env data else getBinary env data
  | .list cmd => if isJson data then listJson env cmd data else listBinary env cmd data

/-! ### Ranges of keys -/

/-- A limit of a range is cut at the number of keys, as a number without sign. -/
theorem clip_toInt (n : ℤ) {listLen : ℕ} (hlen : listLen < 2 ^ 31) :
    clip (toInt n) listLen = (min (n % 2 ^ 32).toNat listLen : ℕ) := by
  have hmod : toInt n % 2 ^ 32 = n % 2 ^ 32 := Int.bmod_emod
  unfold clip
  rw [hmod]
  split
  · omega
  · have hself : toInt n = n % 2 ^ 32 := by
      rw [toInt, Int.bmod_def]
      omega
    omega

theorem clip_toInt_natCast {i : ℕ} (hi : i < 2 ^ 32) {listLen : ℕ} (hlen : listLen < 2 ^ 31) :
    clip (toInt i) listLen = (min i listLen : ℕ) := by
  have hmod : ((i : ℤ) % 2 ^ 32).toNat = i := by omega
  rw [clip_toInt _ hlen, hmod]

theorem keysFrom_eq (argv : List CString) (n : ℕ) : ∀ i : ℕ, i + n ≤ argv.length →
    keysFrom argv n i = some ((argv.drop i).take n) := by
  induction n with
  | zero => exact fun _ _ => rfl
  | succ n ih =>
    intro i hi
    have hlt : i < argv.length := by omega
    have hrest := ih (i + 1) (by omega)
    have hkey : argvAt argv i = some argv[i] := by
      rw [argvAt, if_pos (Int.natCast_nonneg i), Int.toNat_natCast, List.getElem?_eq_getElem hlt]
    rw [Nat.cast_succ] at hrest
    rw [keysFrom, hkey, hrest, List.drop_eq_getElem_cons hlt]
    rfl

/-- The loop over a range that ends inside the list meets its keys. -/
theorem keyRange_eq (argv : List CString) (i : ℕ) {j : ℕ} (hj : j ≤ argv.length) :
    keyRange argv i j = some ((argv.take j).drop i) := by
  unfold keyRange
  rcases Nat.le_total i j with hle | hge
  · rw [keysFrom_eq argv _ i (by omega), List.drop_take]
    congr 2
    omega
  · rw [show ((j : ℤ) - i).toNat = 0 by omega, List.drop_eq_nil_of_le]
    · rfl
    · rw [List.length_take]
      omega

/-- The keys with an index from `i` up to, but not including, `j`. -/
def keysBetween (argv : List CString) (i j : ℕ) : List CString := (argv.take j).drop i

theorem keysBetween_min (argv : List CString) (i j : ℕ) :
    keysBetween argv (min i argv.length) (min j argv.length) = keysBetween argv i j := by
  unfold keysBetween
  rw [← List.take_eq_take_min]
  rcases Nat.le_total i argv.length with hle | hge
  · rw [Nat.min_eq_left hle]
  · rw [Nat.min_eq_right hge, List.drop_eq_nil_of_le (List.length_take_le' _ _),
      List.drop_eq_nil_of_le ((List.length_take_le' _ _).trans hge)]

theorem keyRange_clip (argv : List CString) (hlen : argv.length < 2 ^ 31) (m n : ℤ) :
    keyRange argv (clip (toInt m) argv.length) (clip (toInt n) argv.length) =
      some (keysBetween argv (m % 2 ^ 32).toNat (n % 2 ^ 32).toNat) := by
  rw [clip_toInt m hlen, clip_toInt n hlen, keyRange_eq argv _ (Nat.min_le_right _ _)]
  exact congrArg some (keysBetween_min argv _ _)

theorem keyRange_all (argv : List CString) : keyRange argv 0 argv.length = some argv := by
  have h := keyRange_eq argv 0 le_rfl
  rwa [List.take_length] at h

/-! ### The sizes of a block -/

/-- The byte `key_length` of a block. -/
def keyLengthOf (data : List UInt8) : ℕ := (data.getD 0 0).toNat

/-- The field `data_length` of a block. -/
def dataLengthOf (data : List UInt8) : ℕ := getLe 4 ((data.drop 1).take 4)

/-- The lengths that are looked at lie in the block. -/
def HasLengths (data : List UInt8) : Prop :=
  1 ≤ data.length ∧ (keyLengthOf data ≠ 0 → 5 ≤ data.length)

/-- The lengths pass the check, in which they are added as 32-bit numbers. -/
def PassesCheck (data : List UInt8) : Prop :=
  keyLengthOf data ≠ 0 ∧
    (keyLengthOf data + dataLengthOf data) % 2 ^ 32 + teoDbDataSize = data.length

/-- The lengths are those of the block. -/
def FillsBlock (data : List UInt8) : Prop :=
  keyLengthOf data + dataLengthOf data + teoDbDataSize = data.length

instance (data : List UInt8) : Decidable (HasLengths data) :=
  inferInstanceAs (Decidable (1 ≤ data.length ∧ (keyLengthOf data ≠ 0 → 5 ≤ data.length)))

instance (data : List UInt8) : Decidable (PassesCheck data) :=
  inferInstanceAs (Decidable (keyLengthOf data ≠ 0 ∧ _ = data.length))

instance (data : List UInt8) : Decidable (FillsBlock data) :=
  inferInstanceAs (Decidable (_ = data.length))

theorem keyLength_eq {data : List UInt8} (h : 1 ≤ data.length) :
    keyLength data = some (keyLengthOf data) := by
  rw [keyLength, byteAt_eq h]
  rfl

theorem keyLength_eq_none {data : List UInt8} (h : ¬1 ≤ data.length) : keyLength data = none := by
  obtain rfl : data = [] := List.length_eq_zero_iff.mp (by omega)
  rfl

theorem keyLengthOf_lt (data : List UInt8) : keyLengthOf data < 256 := (data.getD 0 0).toNat_lt

theorem dataLengthOf_lt (data : List UInt8) : dataLengthOf data < 2 ^ 32 := getLe_lt 4 _

theorem checkSize_eq (data : List UInt8) :
    checkSize data =
      if HasLengths data then
        some (if PassesCheck data then some (keyLengthOf data, dataLengthOf data) else none)
      else none := by
  unfold checkSize
  by_cases hone : 1 ≤ data.length
  · rw [keyLength_eq hone, Option.bind_eq_bind, Option.bind_some]
    by_cases hkl : keyLengthOf data = 0
    · have hhas : HasLengths data := ⟨hone, fun h => absurd hkl h⟩
      have hnot : ¬PassesCheck data := fun h => h.1 hkl
      rw [if_pos hkl, if_pos hhas, if_neg hnot]
    · rw [if_neg hkl]
      by_cases hfive : 5 ≤ data.length
      · have hhas : HasLengths data := ⟨hone, fun _ => hfive⟩
        have hdl : dataLength data = some (dataLengthOf data) := by
          rw [dataLength, bytesAt_eq hfive]
          rfl
        rw [if_pos hhas, hdl, Option.bind_some]
        refine congrArg some (if_congr ?_ rfl rfl)
        exact (and_iff_right hkl).symm
      · have hnot : ¬HasLengths data := fun h => hfive (h.2 hkl)
        have hdl : dataLength data = none := by
          rw [dataLength, bytesAt, if_neg hfive]
          rfl
        rw [if_neg hnot, hdl]
        rfl
  · have hnot : ¬HasLengths data := fun h => hone h.1
    rw [keyLength_eq_none hone, if_neg hnot]
    rfl

/-- A block that passes the check has room for the key only if the lengths are its own: where their
sum is cut to 32 bits, what is left is less than the key. -/
theorem PassesCheck.fillsBlock_iff {data : List UInt8} (h : PassesCheck data) :
    FillsBlock data ↔ teoDbDataSize + keyLengthOf data ≤ data.length := by
  have hkl := keyLengthOf_lt data
  have hdl := dataLengthOf_lt data
  obtain ⟨-, hsize⟩ := h
  unfold FillsBlock
  constructor
  · omega
  · intro hle
    rcases Nat.lt_or_ge (keyLengthOf data + dataLengthOf data) (2 ^ 32) with hlt | hge
    · rwa [Nat.mod_eq_of_lt hlt] at hsize
    · omega

/-! ### Safe requests -/

/-- A message is made, and then the rest is done. -/
theorem isSome_printed_bind (env : TeoDbEnv) (data : List UInt8) (i : ℕ) {α : Type}
    (x : Option α) :
    ((printed env data i).bind fun _ => x).isSome ↔
      (env.debug = true → 0 ∈ data.drop i) ∧ x.isSome := by
  unfold printed strAt
  cases env.debug with
  | false => simp
  | true =>
    by_cases h : 0 ∈ data.drop i <;> simp [h]

/-- The key of a block that passes the check, and its data. -/
def keyOf (data : List UInt8) : List UInt8 := (data.drop teoDbDataSize).take (keyLengthOf data)

def valueOf (data : List UInt8) : List UInt8 :=
  (data.drop (teoDbDataSize + keyLengthOf data)).take (dataLengthOf data)

/-- A block with `CMD_D_SET` is safe: where it passes the check, its lengths are its own, and where
the store takes it and messages are made, there is a zero byte behind the key. -/
def SetSafe (env : TeoDbEnv) (data : List UInt8) : Prop :=
  HasLengths data ∧ (PassesCheck data → FillsBlock data ∧
    ((setOrDelete env (keyOf data) (valueOf data)).1 = 0 → env.debug = true →
      0 ∈ data.drop (teoDbDataSize + keyLengthOf data)))

/-- A block with `CMD_D_GET` is safe. -/
def GetSafe (env : TeoDbEnv) (data : List UInt8) : Prop :=
  HasLengths data ∧ (PassesCheck data →
    FillsBlock data ∧ (env.debug = true → 0 ∈ data.drop teoDbDataSize))

/-- A block with a request for keys is safe: a key is terminated inside the block, and what the answer
takes from the block, or from the copy of the key, is there. -/
def ListSafe (cmd : ListCmd) (data : List UInt8) : Prop :=
  1 ≤ data.length ∧ (keyLengthOf data ≠ 0 → 0 ∈ data.drop teoDbDataSize) ∧
    match cmd with
    | .list => teoDbDataSize + keyLengthOf data ≤ data.length
    | .range => teoDbDataSize + keyLengthOf data + 8 ≤ data.length
    | .length => teoDbDataSize ≤ data.length ∧ (keyLengthOf data ≠ 0 →
        keyLengthOf data ≤ (CString.ofBuf (data.drop teoDbDataSize)).length + 1)

/-- A block that is checked first: nothing is read behind it if it does not pass. -/
theorem isSome_checkSize_bind {α : Type} {data : List UInt8} {rest : Option (ℕ × ℕ) → Option α}
    (hnone : (rest none).isSome) :
    ((checkSize data).bind rest).isSome ↔ HasLengths data ∧ (PassesCheck data →
      (rest (some (keyLengthOf data, dataLengthOf data))).isSome) := by
  rw [checkSize_eq]
  by_cases hhas : HasLengths data
  · rw [if_pos hhas, Option.bind_some]
    by_cases hcheck : PassesCheck data
    · rw [if_pos hcheck]
      exact ⟨fun h => ⟨hhas, fun _ => h⟩, fun h => h.2 hcheck⟩
    · rw [if_neg hcheck]
      exact iff_of_true hnone ⟨hhas, fun h => absurd h hcheck⟩
  · rw [if_neg hhas]
    exact iff_of_false Bool.false_ne_true fun h => hhas h.1

/-- The key is in a block that passes the check when the lengths are its own. -/
theorem bytesAt_key {data : List UInt8} (h : PassesCheck data) :
    bytesAt data teoDbDataSize (keyLengthOf data) =
      if FillsBlock data then some (keyOf data) else none :=
  if_congr h.fillsBlock_iff.symm rfl rfl

theorem setBinary_isSome_iff (env : TeoDbEnv) (data : List UInt8) :
    (setBinary env data).isSome ↔ SetSafe env data := by
  refine (isSome_checkSize_bind rfl).trans (and_congr_right fun _ => imp_congr_right fun hcheck => ?_)
  by_cases hfill : FillsBlock data
  · have hvalue : bytesAt data (teoDbDataSize + keyLengthOf data) (dataLengthOf data) =
        some (valueOf data) := by
      refine bytesAt_eq ?_
      unfold FillsBlock at hfill
      omega
    dsimp only
    rw [bytesAt_key hcheck, if_pos hfill]
    simp only [hvalue, Option.bind_eq_bind, Option.bind_some, hfill, true_and]
    split_ifs with hrv
    · simp only [isSome_printed_bind, Option.isSome_some, and_true, hrv, true_implies]
      refine ⟨fun h => h.2, fun h => ⟨fun hdebug => ?_, h⟩⟩
      have hmem := h hdebug
      rw [← List.drop_drop] at hmem
      exact List.mem_of_mem_drop hmem
    · simp [hrv]
  · dsimp only
    rw [bytesAt_key hcheck, if_neg hfill]
    simp [hfill]

theorem getBinary_isSome_iff (env : TeoDbEnv) (data : List UInt8) :
    (getBinary env data).isSome ↔ GetSafe env data := by
  refine (isSome_checkSize_bind rfl).trans (and_congr_right fun _ => imp_congr_right fun hcheck => ?_)
  by_cases hfill : FillsBlock data
  · have hid : requestId data = some (getLe 4 ((data.drop 5).take 4)) := by
      rw [requestId, bytesAt_eq]
      · rfl
      · unfold FillsBlock teoDbDataSize at hfill
        omega
    dsimp only
    rw [bytesAt_key hcheck, if_pos hfill]
    simp only [hid, Option.bind_eq_bind, Option.bind_some, hfill, true_and, isSome_printed_bind,
      Option.isSome_some, and_true]
  · dsimp only
    rw [bytesAt_key hcheck, if_neg hfill]
    simp [hfill]

theorem requestId_isSome_iff (data : List UInt8) :
    (requestId data).isSome ↔ teoDbDataSize ≤ data.length := by
  rw [requestId, Option.isSome_map, bytesAt_isSome_iff]
  rfl

theorem listKey_isSome_iff (data : List UInt8) (kl : ℕ) :
    (listKey data kl).isSome ↔ (kl ≠ 0 → 0 ∈ data.drop teoDbDataSize) := by
  unfold listKey strAt
  by_cases hkl : kl = 0
  · simp [hkl]
  · by_cases hmem : 0 ∈ data.drop teoDbDataSize <;> simp [hkl, hmem]

/-- The copy of the key that `strdup` made, if there is a key. -/
theorem length_copy_of_listKey {data : List UInt8} {kl : ℕ} {keyStr : Option CString}
    (h : listKey data kl = some keyStr) :
    kl ≤ ((keyStr.map CString.toBuf).getD []).length ↔
      (kl ≠ 0 → kl ≤ (CString.ofBuf (data.drop teoDbDataSize)).length + 1) := by
  unfold listKey strAt at h
  split_ifs at h with hkl hmem
  · obtain rfl := Option.some.inj h
    simp [hkl]
  · cases h
  · obtain rfl := Option.some.inj h
    simp [not_not.mp hkl]

theorem listBinary_isSome_iff (env : TeoDbEnv) (cmd : ListCmd) (data : List UInt8) :
    (listBinary env cmd data).isSome ↔ ListSafe cmd data := by
  unfold listBinary ListSafe
  by_cases hone : 1 ≤ data.length
  · rw [keyLength_eq hone]
    simp only [Option.bind_eq_bind, Option.bind_some, hone, true_and]
    rw [← listKey_isSome_iff]
    cases hkey : listKey data (keyLengthOf data) with
    | none => simp
    | some keyStr =>
      simp only [Option.bind_some, Option.isSome_some, true_and]
      have hid : ∀ h : teoDbDataSize ≤ data.length, ∃ id, requestId data = some id :=
        fun h => Option.isSome_iff_exists.mp ((requestId_isSome_iff data).mpr h)
      cases cmd with
      | list =>
        dsimp only
        rw [keyRange_all, Option.bind_some]
        by_cases hlen : teoDbDataSize + keyLengthOf data ≤ data.length
        · obtain ⟨id, hid⟩ := hid (by omega)
          simp [bytesAt_eq hlen, hid, hlen]
        · simp [bytesAt, hlen]
      | range =>
        dsimp only
        by_cases hlen : teoDbDataSize + keyLengthOf data + 8 ≤ data.length
        · obtain ⟨id, hid⟩ := hid (by omega)
          rw [bytesAt_eq (show teoDbDataSize + keyLengthOf data + 4 ≤ data.length by omega),
            bytesAt_eq (show teoDbDataSize + keyLengthOf data + 4 + 4 ≤ data.length by omega),
            bytesAt_eq (show teoDbDataSize + keyLengthOf data ≤ data.length by omega), hid]
          simp only [Option.bind_some, keyRange_clip _ (env.keyList_lt keyStr)]
          simp [hlen]
        · have hlast : bytesAt data (teoDbDataSize + keyLengthOf data + 4) 4 = none :=
            if_neg (by omega)
          rw [hlast]
          cases bytesAt data (teoDbDataSize + keyLengthOf data) 4 <;> simp [hlen]
      | length =>
        dsimp only
        rw [← length_copy_of_listKey hkey]
        by_cases hcopy : keyLengthOf data ≤ ((keyStr.map CString.toBuf).getD []).length
        · rw [bytesAt_eq (by omega), Option.bind_some]
          by_cases hlen : teoDbDataSize ≤ data.length
          · obtain ⟨id, hid⟩ := hid hlen
            simp [hid, hlen, hcopy]
          · have hnone : requestId data = none := by
              rw [← Option.not_isSome_iff_eq_none, requestId_isSome_iff]
              exact hlen
            simp [hnone, hlen]
        · simp [bytesAt, hcopy]
  · rw [keyLength_eq_none hone]
    simp [hone]

theorem setJson_isSome_iff (env : TeoDbEnv) (data : List UInt8) :
    (setJson env data).isSome ↔ ¬LastIsName env.toDbJsonEnv (dataToJsonStr data) := by
  rw [← dbJsonParse_isSome_iff, setJson]
  cases dbJsonParse env.toDbJsonEnv (dataToJsonStr data) with
  | none => simp
  | some jp =>
    simp only [Option.bind_eq_bind, Option.bind_some, Option.isSome_some, iff_true]
    split
    · rfl
    · split <;> rfl

theorem getJson_isSome_iff (env : TeoDbEnv) (data : List UInt8) :
    (getJson env data).isSome ↔ ¬LastIsName env.toDbJsonEnv (dataToJsonStr data) ∧
      IsNamed env.toDbJsonEnv (dataToJsonStr data) .key := by
  rw [← dbJsonParse_isSome_iff, getJson]
  cases hjp : dbJsonParse env.toDbJsonEnv (dataToJsonStr data) with
  | none => simp
  | some jp =>
    rw [← isSome_key_iff hjp]
    cases hk : jp .key <;> simp [hk]

theorem listJson_isSome_iff (env : TeoDbEnv) (cmd : ListCmd) (data : List UInt8) :
    (listJson env cmd data).isSome ↔ ¬LastIsName env.toDbJsonEnv (dataToJsonStr data) := by
  rw [← dbJsonParse_isSome_iff, listJson]
  cases dbJsonParse env.toDbJsonEnv (dataToJsonStr data) with
  | none => simp
  | some jp =>
    have hlen := env.keyList_lt (jp .key)
    have hlimit : ∀ s : Option CString, ∃ n : ℤ, (s.map atoi).getD 0 = toInt n := by
      intro s
      cases s with
      | none => exact ⟨0, rfl⟩
      | some s => exact ⟨_, rfl⟩
    obtain ⟨m, hm⟩ := hlimit (jp .fromIdx)
    obtain ⟨n, hn⟩ := hlimit (jp .toIdx)
    cases cmd with
    | list => simp [keyRange_all]
    | range => simp [hm, hn, keyRange_clip _ hlen]
    | length => simp

/-- The requests that the handler survives. -/
def RequestSafe (env : TeoDbEnv) (cmd : DbCmd) (data : List UInt8) : Prop :=
  if isJson data then
    ¬LastIsName env.toDbJsonEnv (dataToJsonStr data) ∧
      (cmd = .get → IsNamed env.toDbJsonEnv (dataToJsonStr data) .key)
  else
    match cmd with
    | .set => SetSafe env data
    | .get => GetSafe env data
    | .list cmd => ListSafe cmd data

/-- **Requests are read inside their bounds**, with a key for the store and with indices into the
list of keys, exactly when they are of this kind. -/
theorem dbRequest_isSome_iff (env : TeoDbEnv) (cmd : DbCmd) (data : List UInt8) :
    (dbRequest env cmd data).isSome ↔ RequestSafe env cmd data := by
  unfold dbRequest RequestSafe
  cases cmd with
  | set =>
    dsimp only
    split_ifs
    · simp [setJson_isSome_iff]
    · exact setBinary_isSome_iff env data
  | get =>
    dsimp only
    split_ifs
    · simp [getJson_isSome_iff]
    · exact getBinary_isSome_iff env data
  | list cmd =>
    dsimp only
    split_ifs
    · simp [listJson_isSome_iff]
    · exact listBinary_isSome_iff env cmd data

/-- A store that takes everything and holds nothing, and a tokenizer that is given no object. -/
def emptyStore : TeoDbEnv where
  jsmn := { jsmnParse := fun _ _ => none, staleTok := ⟨.object, 0, 0⟩ }
  inText _ _ _ h := by cases h
  debug := false
  ksnTDBset _ _ := 0
  ksnTDBdelete _ := -1
  ksnTDBget _ := none
  ksnTDBkeyList _ := []
  keyList_lt _ := by decide

/-- The lengths 2 and 2^32 - 1 in a block with one byte behind its head. -/
def wrappedLengths : List UInt8 := [2, 255, 255, 255, 255, 0, 0, 0, 0, 107]

/-- A key of three bytes with a zero byte at its second place. -/
def shortKey : List UInt8 := [3, 0, 0, 0, 0, 0, 0, 0, 0, 107, 0, 107]

/-- A block whose lengths add up to its size as 32-bit numbers only, a text without a key, a request
for the number of keys with a zero byte in its key, and a request without a single byte. -/
theorem not_requestsInBounds :
    dbRequest emptyStore .get wrappedLengths = none ∧
      dbRequest emptyStore .get (ascii "JSON:\x7b") = none ∧
      dbRequest emptyStore (.list .length) shortKey = none ∧
      dbRequest emptyStore .set [] = none := by
  refine ⟨?_, rfl, ?_, rfl⟩
  · decide
  · decide

end Teonet
