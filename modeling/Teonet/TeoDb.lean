import Teonet.Lib.Block
import Teonet.Lib.FinMap
import Teonet.Lib.Lines
import Teonet.Lib.Multimap

/-! # The key-value store (`teodb.c`)

A namespace of the store is a PBL key file.  An open key file is a multimap with a current record:
`pblKfFind` goes to the last record of a key, `pblKfUpdate`, `pblKfDelete` and `pblKfRead` work on
the current record, `pblKfInsert` adds one, and closing the file writes it back.  `getFilePath` makes
the path of a namespace from its name, and where a path leads is a parameter (`TdbEnv`).

`OpSpec` says of a function of the store what it makes of the records of the open file and what it
returns; `OpSpec.withNamespace` is the rule for the namespace variants.  `ksnTDB_refines` connects
all sequences of calls to a store that keeps one value for each file and key. -/

namespace Teonet

open Multimap

/-! ### Key files -/

/-- A key that PBL accepts. -/
structure PblKey where
  bytes : List UInt8
  pos : 0 < bytes.length
  le : bytes.length ≤ 255
deriving DecidableEq

/-- `pblParamsCheck` for a key, which may be a null pointer. -/
def pblParamsCheck : Option (List UInt8) → Option PblKey
  | none => none
  | some bytes =>
    if h : 0 < bytes.length ∧ bytes.length ≤ 255 then some ⟨bytes, h.1, h.2⟩ else none

/-- The records of a key file, those of one key in the order in which they were inserted. -/
abbrev PblRecords := List (PblKey × List UInt8)

/-- An open key file with the place of its current record. -/
structure PblKeyFile (φ : Type) where
  file : φ
  records : PblRecords
  current : Option ℕ := none

variable {φ : Type}

/-- The current record. -/
def PblKeyFile.record (k : PblKeyFile φ) : Option (ℕ × PblKey × List UInt8) :=
  k.current.bind fun i => k.records[i]?.map fun r => (i, r)

/-- `pblKfFind` with `PBLLA`: the length of the data. -/
def pblKfFind (k : PblKeyFile φ) (key : Option (List UInt8)) : PblKeyFile φ × ℤ :=
  match pblParamsCheck key with
  | none => (k, -1)
  | some key =>
    match lastIdx key k.records with
    | none => (k, -1)
    | some i =>
      let k := { k with current := some i }
      match k.record with
      | none => (k, -1)
      | some r => (k, r.2.2.length)

/-- `pblKfRead` into the buffer `data`. -/
def pblKfRead (k : PblKeyFile φ) (data : List UInt8) : List UInt8 :=
  match k.record with
  | none => data
  | some r => r.2.2.take data.length ++ data.drop r.2.2.length

/-- `pblKfUpdate`. -/
def pblKfUpdate (k : PblKeyFile φ) (data : List UInt8) : PblKeyFile φ × ℤ :=
  match k.record with
  | none => (k, -1)
  | some r => ({ k with records := k.records.set r.1 (r.2.1, data) }, 0)

/-- `pblKfInsert`: the record goes behind all with the same key. -/
def pblKfInsert (k : PblKeyFile φ) (key : Option (List UInt8)) (data : List UInt8) :
    PblKeyFile φ × ℤ :=
  match pblParamsCheck key with
  | none => (k, -1)
  | some key =>
    ({ k with records := k.records ++ [(key, data)], current := some k.records.length }, 0)

/-- `pblKfDelete`: the current record is then the next one, or the last one. -/
def pblKfDelete (k : PblKeyFile φ) : PblKeyFile φ × ℤ :=
  match k.record with
  | none => (k, -1)
  | some r =>
    let records := k.records.eraseIdx r.1
    let current :=
      if r.1 < records.length then some r.1
      else if records.length = 0 then none else some (records.length - 1)
    ({ k with records := records, current := current }, 0)

/-! ### The store -/

/-- `PATH_MAX`. -/
def pathMax : ℕ := 4096

/-- The world of the store: `resolve` is the key file that a path leads to, if there is one or one
can be created, and `malloc` the allocator. -/
structure TdbEnv (φ : Type) where
  dataPath : CString
  fits : dataPath.length < pathMax
  resolve : List UInt8 → Option φ
  malloc : Malloc

/-- `ksnTDBClass`. -/
structure KsnTDBClass (φ : Type) where
  defNameSpace : Option CString := none
  k : Option (PblKeyFile φ) := none

/-- The class with the key files on the disk. -/
structure Tdb (φ : Type) where
  kf : KsnTDBClass φ := {}
  files : FinMap φ PblRecords

/-- `strncat`. -/
def strncat (path s : List UInt8) (n : ℕ) : List UInt8 := path ++ s.take n

/-- `get_file_path`. -/
def getFilePath (env : TdbEnv φ) (ns : CString) : List UInt8 :=
  let path := env.dataPath.bytes.take pathMax
  let path := strncat path [47] (pathMax - path.length - 1)
  strncat path ns.bytes (pathMax - path.length - 1)

/-- `ksnTDBget`: the data, or nothing. -/
def ksnTDBget (env : TdbEnv φ) (kf : KsnTDBClass φ) (key : Option (List UInt8)) :
    KsnTDBClass φ × Option (List UInt8) :=
  match kf.k with
  | none => (kf, none)
  | some k =>
    let (k, rc) := pblKfFind k key
    let kf := { kf with k := some k }
    if rc = 0 then (kf, some [])
    else if rc > 0 then (kf, some (pblKfRead k (env.malloc.block rc.toNat)))
    else (kf, none)

/-- `ksnTDBset`; the key and the data may be null pointers. -/
def ksnTDBset (kf : KsnTDBClass φ) (key data : Option (List UInt8)) : KsnTDBClass φ × ℤ :=
  match kf.k with
  | none => (kf, -1)
  | some k =>
    match key, data with
    | some key, some data =>
      -- check if the record exists
      let (k, rc) := pblKfFind k key
      let (k, retval) := if rc ≥ 0 then pblKfUpdate k data else pblKfInsert k key data
      ({ kf with k := some k }, retval)
    | _, _ => (kf, -1)

/-- The loop of `ksnTDBdelete`, for at most `fuel` rounds. -/
def deleteLoop (env : TdbEnv φ) (key : Option (List UInt8)) :
    ℕ → KsnTDBClass φ → ℤ → Option (KsnTDBClass φ × ℤ)
  | 0, _, _ => none
  | fuel + 1, kf, retval =>
    match ksnTDBget env kf key with
    | (kf, none) => some (kf, retval)
    | (kf, some _) => deleteLoop env key fuel { kf with k := kf.k.map fun k => (pblKfDelete k).1 } 0

/-- `ksnTDBdelete`, with a round for each record and one more. -/
def ksnTDBdelete (env : TdbEnv φ) (kf : KsnTDBClass φ) (key : Option (List UInt8)) :
    Option (KsnTDBClass φ × ℤ) :=
  match kf.k with
  | none => some (kf, -1)
  | some k => deleteLoop env key (k.records.length + 1) kf (-1)

/-- The key file that the name of a namespace leads to. -/
def place (env : TdbEnv φ) (name : CString) : Option φ := env.resolve (getFilePath env name)

variable [DecidableEq φ]

/-- `pblKfClose` writes the file to the disk. -/
def pblKfClose (files : FinMap φ PblRecords) (k : PblKeyFile φ) : FinMap φ PblRecords :=
  files.add k.file k.records

/-- The files on the disk when no file is open. -/
def closedFiles (s : Tdb φ) : FinMap φ PblRecords :=
  match s.kf.k with
  | some k => pblKfClose s.files k
  | none => s.files

/-- `ksnTDBnamespaceSet`. -/
def ksnTDBnamespaceSet (env : TdbEnv φ) (s : Tdb φ) (ns : Option CString) : Tdb φ :=
  let files := closedFiles s
  match ns with
  | none => { files := files }
  | some name =>
    match place env name with
    | none => { kf := { defNameSpace := some name }, files := files }
    | some f =>
      match files.get f with
      | some records =>
        -- `pblKfOpen`
        { kf := { defNameSpace := some name, k := some { file := f, records := records } }
          files := files }
      | none =>
        -- `pblKfCreate`
        { kf := { defNameSpace := some name, k := some { file := f, records := [] } }
          files := files.add f [] }

/-- `ksnTDBnamespaceRemove`. -/
def ksnTDBnamespaceRemove (env : TdbEnv φ) (s : Tdb φ) (ns : CString) : Tdb φ :=
  let s := ksnTDBnamespaceSet env s none
  match place env ns with
  | none => s
  | some f => { s with files := s.files.remove f }

/-- The namespace variants: `op` with `ns` as the default namespace, which is set back after it. -/
def withNamespace {α : Type} (env : TdbEnv φ) (s : Tdb φ) (ns : Option CString)
    (op : KsnTDBClass φ → Option (KsnTDBClass φ × α)) : Option (Tdb φ × α) :=
  let saveNamespace := s.kf.defNameSpace
  let s := ksnTDBnamespaceSet env s ns
  (op s.kf).map fun r => (ksnTDBnamespaceSet env { s with kf := r.1 } saveNamespace, r.2)

/-- `ksnTDBgetNs`. -/
def ksnTDBgetNs (env : TdbEnv φ) (s : Tdb φ) (ns : Option CString) (key : Option (List UInt8)) :
    Option (Tdb φ × Option (List UInt8)) :=
  withNamespace env s ns fun kf => some (ksnTDBget env kf key)

/-- `ksnTDBsetNs`. -/
def ksnTDBsetNs (env : TdbEnv φ) (s : Tdb φ) (ns : Option CString)
    (key data : Option (List UInt8)) : Option (Tdb φ × ℤ) :=
  withNamespace env s ns fun kf => some (ksnTDBset kf key data)

/-- `ksnTDBdeleteNs`. -/
def ksnTDBdeleteNs (env : TdbEnv φ) (s : Tdb φ) (ns : Option CString)
    (key : Option (List UInt8)) : Option (Tdb φ × ℤ) :=
  withNamespace env s ns fun kf => ksnTDBdelete env kf key

/-! ### What a function does to the open file -/

/-- `op` makes `change` of the records of the open file, and returns `result` of them; it neither
closes the file nor opens another. -/
def OpSpec {α : Type} (op : KsnTDBClass φ → Option (KsnTDBClass φ × α))
    (change : PblRecords → PblRecords) (result : Option PblRecords → α) : Prop :=
  ∀ kf, ∃ kf' : KsnTDBClass φ, op kf = some (kf', result (kf.k.map PblKeyFile.records)) ∧
    kf'.defNameSpace = kf.defNameSpace ∧ kf'.k.map PblKeyFile.file = kf.k.map PblKeyFile.file ∧
    kf'.k.map PblKeyFile.records = (kf.k.map PblKeyFile.records).map change

/-- The value at a key, which may be no key. -/
def valueAt (key : Option (List UInt8)) (records : Option PblRecords) : Option (List UInt8) :=
  records.bind fun records => (pblParamsCheck key).bind fun key => lastValue key records

/-- What `ksnTDBset` makes of the records. -/
def setRecord (key data : Option (List UInt8)) (records : PblRecords) : PblRecords :=
  match pblParamsCheck key, data with
  | some key, some data =>
    match lastIdx key records with
    | some i => records.set i (key, data)
    | none => records ++ [(key, data)]
  | _, _ => records

/-- What `ksnTDBdelete` makes of the records. -/
def deleteRecords (key : Option (List UInt8)) (records : PblRecords) : PblRecords :=
  match pblParamsCheck key with
  | some key => records.filter (·.1 ≠ key)
  | none => records

section Ops

omit [DecidableEq φ]

/-- A key that is not there. -/
def Absent (key : Option (List UInt8)) (records : PblRecords) : Prop :=
  ∀ pk, pblParamsCheck key = some pk → lastIdx pk records = none

theorem absent_or (key : Option (List UInt8)) (records : PblRecords) :
    Absent key records ∨
      ∃ pk i, pblParamsCheck key = some pk ∧ lastIdx pk records = some i := by
  cases hkey : pblParamsCheck key with
  | none => exact .inl fun pk h => absurd (hkey.symm.trans h) (by simp)
  | some pk =>
    cases hi : lastIdx pk records with
    | none => exact .inl fun pk' h => Option.some.inj (hkey.symm.trans h) ▸ hi
    | some i => exact .inr ⟨pk, i, rfl, hi⟩

theorem Absent.valueAt_eq {key : Option (List UInt8)} {records : PblRecords}
    (h : Absent key records) : valueAt key (some records) = none := by
  unfold valueAt
  cases hkey : pblParamsCheck key with
  | none => rfl
  | some pk => exact lastValue_eq_none_iff.mpr (lastIdx_eq_none_iff.mp (h pk hkey))

theorem pblKfFind_of_absent {k : PblKeyFile φ} {key : Option (List UInt8)}
    (h : Absent key k.records) : pblKfFind k key = (k, -1) := by
  unfold pblKfFind
  cases hkey : pblParamsCheck key with
  | none => rfl
  | some pk =>
    dsimp only
    rw [h pk hkey]

/-- `pblKfFind` goes to the last record of a key. -/
theorem pblKfFind_of_lastIdx {k : PblKeyFile φ} {key : Option (List UInt8)} {pk : PblKey} {i : ℕ}
    (hkey : pblParamsCheck key = some pk) (hi : lastIdx pk k.records = some i) :
    ∃ d, lastValue pk k.records = some d ∧
      PblKeyFile.record { k with current := some i } = some (i, pk, d) ∧
      pblKfFind k key = ({ k with current := some i }, (d.length : ℤ)) := by
  obtain ⟨d, hd, hvalue⟩ := getElem?_lastIdx hi
  have hrecord : PblKeyFile.record { k with current := some i } = some (i, pk, d) := by
    simp [PblKeyFile.record, hd]
  refine ⟨d, hvalue, hrecord, ?_⟩
  unfold pblKfFind
  rw [hkey]
  dsimp only
  rw [hi]
  dsimp only
  rw [hrecord]

theorem ksnTDBget_of_absent (env : TdbEnv φ) {kf : KsnTDBClass φ} {k : PblKeyFile φ}
    {key : Option (List UInt8)} (hk : kf.k = some k) (h : Absent key k.records) :
    ksnTDBget env kf key = (kf, none) := by
  unfold ksnTDBget
  rw [hk]
  dsimp only
  rw [pblKfFind_of_absent h]
  dsimp only
  rw [if_neg (by decide), if_neg (by decide), ← hk]

theorem ksnTDBget_of_lastIdx (env : TdbEnv φ) {kf : KsnTDBClass φ} {k : PblKeyFile φ}
    {key : Option (List UInt8)} {pk : PblKey} {i : ℕ} (hk : kf.k = some k)
    (hkey : pblParamsCheck key = some pk) (hi : lastIdx pk k.records = some i) :
    ksnTDBget env kf key =
      ({ kf with k := some { k with current := some i } }, lastValue pk k.records) := by
  obtain ⟨d, hvalue, hrecord, hfind⟩ := pblKfFind_of_lastIdx hkey hi
  unfold ksnTDBget
  rw [hk, hvalue]
  dsimp only
  rw [hfind]
  dsimp only
  by_cases hd : d = []
  · subst hd
    rfl
  · have hpos : 0 < d.length := List.length_pos_iff.mpr hd
    rw [if_neg (by omega), if_pos (by omega), pblKfRead, hrecord, Int.toNat_natCast]
    dsimp only
    rw [env.malloc.length_block, List.take_length, List.drop_eq_nil_of_le
      (Nat.le_of_eq (env.malloc.length_block _)), List.append_nil]

theorem opSpec_get (env : TdbEnv φ) (key : Option (List UInt8)) :
    OpSpec (fun kf => some (ksnTDBget env kf key)) id (valueAt key) := by
  intro kf
  cases hk : kf.k with
  | none =>
    refine ⟨kf, ?_, rfl, by rw [hk], by rw [hk]; rfl⟩
    simp [ksnTDBget, hk, valueAt]
  | some k =>
    rcases absent_or key k.records with habs | ⟨pk, i, hkey, hi⟩
    · refine ⟨kf, ?_, rfl, by rw [hk], by rw [hk]; rfl⟩
      show some (ksnTDBget env kf key) = _
      rw [ksnTDBget_of_absent env hk habs, Option.map_some, habs.valueAt_eq]
    · refine ⟨{ kf with k := some { k with current := some i } }, ?_, rfl, rfl, rfl⟩
      show some (ksnTDBget env kf key) = _
      rw [ksnTDBget_of_lastIdx env hk hkey hi, Option.map_some, valueAt, Option.bind_some, hkey]
      rfl

theorem ksnTDBset_of_absent {kf : KsnTDBClass φ} {k : PblKeyFile φ} {bytes : List UInt8}
    (hk : kf.k = some k) (h : Absent (some bytes) k.records) (data : List UInt8) :
    ksnTDBset kf (some bytes) (some data) =
      ({ kf with k := some (pblKfInsert k (some bytes) data).1 },
        (pblKfInsert k (some bytes) data).2) := by
  rw [ksnTDBset, hk]
  dsimp only
  rw [pblKfFind_of_absent h]
  rfl

theorem ksnTDBset_of_lastIdx {kf : KsnTDBClass φ} {k : PblKeyFile φ} {bytes : List UInt8}
    {pk : PblKey} {i : ℕ} (hk : kf.k = some k) (hkey : pblParamsCheck (some bytes) = some pk)
    (hi : lastIdx pk k.records = some i) (data : List UInt8) :
    ksnTDBset kf (some bytes) (some data) =
      ({ kf with k := some { k with
          records := k.records.set i (pk, data)
          current := some i } }, 0) := by
  obtain ⟨d, -, hrecord, hfind⟩ := pblKfFind_of_lastIdx hkey hi
  rw [ksnTDBset, hk]
  dsimp only
  rw [hfind]
  dsimp only
  rw [if_pos (Int.natCast_nonneg _), pblKfUpdate, hrecord]

/-- What `ksnTDBset` returns. -/
def setResult (key data : Option (List UInt8)) (records : Option PblRecords) : ℤ :=
  if records.isSome ∧ (pblParamsCheck key).isSome ∧ data.isSome then 0 else -1

theorem opSpec_set (key data : Option (List UInt8)) :
    OpSpec (fun kf : KsnTDBClass φ => some (ksnTDBset kf key data)) (setRecord key data)
      (setResult key data) := by
  intro kf
  cases hk : kf.k with
  | none =>
    refine ⟨kf, ?_, rfl, by rw [hk], by rw [hk]; rfl⟩
    simp [ksnTDBset, hk, setResult]
  | some k =>
    cases key with
    | none =>
      refine ⟨kf, ?_, rfl, by rw [hk], by rw [hk]; rfl⟩
      simp [ksnTDBset, hk, setResult, pblParamsCheck]
    | some bytes =>
      cases data with
      | none =>
        refine ⟨kf, by simp [ksnTDBset, hk, setResult], rfl, by rw [hk], ?_⟩
        rw [hk]
        unfold setRecord
        cases pblParamsCheck (some bytes) <;> rfl
      | some data =>
        dsimp only
        rcases absent_or (some bytes) k.records with habs | ⟨pk, i, hkey, hi⟩
        · rw [ksnTDBset_of_absent hk habs]
          unfold pblKfInsert setResult setRecord
          cases hkey : pblParamsCheck (some bytes) with
          | none => exact ⟨{ kf with k := some k }, by simp, rfl, rfl, rfl⟩
          | some pk =>
            refine ⟨{ kf with k := some { k with
              records := k.records ++ [(pk, data)]
              current := some k.records.length } }, by simp, rfl, rfl, ?_⟩
            simp [habs pk hkey]
        · rw [ksnTDBset_of_lastIdx hk hkey hi]
          unfold setResult setRecord
          rw [hkey]
          refine ⟨{ kf with k := some { k with
            records := k.records.set i (pk, data)
            current := some i } }, by simp, rfl, rfl, ?_⟩
          simp [hi]

/-- The current record is removed. -/
theorem pblKfDelete_of_record {k : PblKeyFile φ} {r : ℕ × PblKey × List UInt8}
    (h : k.record = some r) : ∃ current, (pblKfDelete k).1 =
      { k with records := k.records.eraseIdx r.1, current := current } := by
  unfold pblKfDelete
  rw [h]
  exact ⟨_, rfl⟩

/-- The loop ends when the records of the key are used up. -/
theorem deleteLoop_eq (env : TdbEnv φ) {key : Option (List UInt8)} {pk : PblKey}
    (hkey : pblParamsCheck key = some pk) (fuel : ℕ) {kf : KsnTDBClass φ} {k : PblKeyFile φ}
    (hk : kf.k = some k) (hfuel : count pk k.records < fuel) (retval : ℤ) :
    ∃ current, deleteLoop env key fuel kf retval =
      some ({ kf with k := some { k with
          records := k.records.filter (·.1 ≠ pk)
          current := current } },
        if lastIdx pk k.records = none then retval else 0) := by
  induction fuel generalizing kf k retval with
  | zero => exact absurd hfuel (Nat.not_lt_zero _)
  | succ fuel ih =>
    rw [deleteLoop]
    cases hi : lastIdx pk k.records with
    | none =>
      have habs : Absent key k.records := fun pk' h => Option.some.inj (hkey.symm.trans h) ▸ hi
      refine ⟨k.current, ?_⟩
      rw [ksnTDBget_of_absent env hk habs, filter_of_lastIdx_none hi, if_pos rfl, ← hk]
    | some i =>
      obtain ⟨d, hvalue, hrecord, -⟩ := pblKfFind_of_lastIdx hkey hi
      obtain ⟨hsame, hless⟩ := filter_eraseIdx hi
      obtain ⟨current, hdelete⟩ := pblKfDelete_of_record hrecord
      rw [ksnTDBget_of_lastIdx env hk hkey hi, hvalue]
      dsimp only
      rw [Option.map_some, hdelete]
      have hk' : ({ kf with k := some { k with
          records := k.records.eraseIdx i
          current := current } } : KsnTDBClass φ).k = _ := rfl
      obtain ⟨current', hloop⟩ := ih hk' (by dsimp only; omega) 0
      refine ⟨current', hloop.trans ?_⟩
      dsimp only
      rw [hsame, ite_self, if_neg (by simp)]

/-- What `ksnTDBdelete` returns. -/
def deleteResult (key : Option (List UInt8)) (records : Option PblRecords) : ℤ :=
  if (valueAt key records).isSome then 0 else -1

theorem opSpec_delete (env : TdbEnv φ) (key : Option (List UInt8)) :
    OpSpec (fun kf => ksnTDBdelete env kf key) (deleteRecords key) (deleteResult key) := by
  intro kf
  cases hk : kf.k with
  | none =>
    refine ⟨kf, ?_, rfl, by rw [hk], by rw [hk]; rfl⟩
    simp [ksnTDBdelete, hk, deleteResult, valueAt]
  | some k =>
    have hdelete : ksnTDBdelete env kf key =
        deleteLoop env key (k.records.length + 1) kf (-1) := by
      rw [ksnTDBdelete, hk]
    dsimp only
    rw [hdelete]
    cases hkey : pblParamsCheck key with
    | none =>
      have habs : Absent key k.records := fun pk h => absurd (hkey.symm.trans h) (by simp)
      refine ⟨kf, ?_, rfl, by rw [hk], ?_⟩
      · rw [deleteLoop, ksnTDBget_of_absent env hk habs, Option.map_some, deleteResult,
          habs.valueAt_eq]
        rfl
      · rw [hk]
        unfold deleteRecords
        rw [hkey]
        rfl
    | some pk =>
      have hfuel : count pk k.records < k.records.length + 1 :=
        Nat.lt_succ_of_le List.countP_le_length
      obtain ⟨current, hloop⟩ := deleteLoop_eq env hkey _ hk hfuel (-1)
      refine ⟨_, hloop.trans (congrArg (fun r => some (_, r)) ?_), rfl, rfl, ?_⟩
      · rw [Option.map_some, deleteResult, valueAt, Option.bind_some, hkey, Option.bind_some]
        cases hi : lastIdx pk k.records with
        | none => rw [lastValue_of_lastIdx_none hi]; rfl
        | some i =>
          obtain ⟨d, -, hvalue⟩ := getElem?_lastIdx hi
          rw [hvalue]
          rfl
      · unfold deleteRecords
        rw [hkey]
        rfl

end Ops

/-! ### Namespaces -/

/-- The records of a file, whether it is open or not. -/
def Tdb.contents (s : Tdb φ) (f : φ) : PblRecords := ((closedFiles s).get f).getD []

omit [DecidableEq φ] in
/-- The open file is that of the default namespace. -/
def Tdb.Linked (env : TdbEnv φ) (s : Tdb φ) : Prop :=
  s.kf.k.map PblKeyFile.file = s.kf.defNameSpace.bind (place env)

/-- **Setting a namespace** opens its file, and changes no contents. -/
theorem namespaceSet_spec (env : TdbEnv φ) (s : Tdb φ) (ns : Option CString) :
    (ksnTDBnamespaceSet env s ns).kf.defNameSpace = ns ∧
      (ksnTDBnamespaceSet env s ns).kf.k.map PblKeyFile.file = ns.bind (place env) ∧
      (ksnTDBnamespaceSet env s ns).contents = s.contents := by
  cases ns with
  | none => exact ⟨rfl, rfl, rfl⟩
  | some name =>
    unfold ksnTDBnamespaceSet
    dsimp only
    rw [Option.bind_some]
    cases place env name with
    | none => exact ⟨rfl, rfl, rfl⟩
    | some f =>
      dsimp only
      cases hget : (closedFiles s).get f with
      | none =>
        refine ⟨rfl, rfl, funext fun f' => ?_⟩
        change ((((closedFiles s).add f []).add f []).get f').getD [] = _
        rw [FinMap.get_add, FinMap.get_add, Tdb.contents]
        split_ifs with hf
        · rw [hf, hget]
          rfl
        · rfl
      | some records =>
        refine ⟨rfl, rfl, funext fun f' => ?_⟩
        change (((closedFiles s).add f records).get f').getD [] = _
        rw [FinMap.get_add, Tdb.contents]
        split_ifs with hf
        · rw [hf, hget]
        · rfl

theorem contents_namespaceSet (env : TdbEnv φ) (s : Tdb φ) (ns : Option CString) :
    (ksnTDBnamespaceSet env s ns).contents = s.contents := (namespaceSet_spec env s ns).2.2

theorem defNameSpace_namespaceSet (env : TdbEnv φ) (s : Tdb φ) (ns : Option CString) :
    (ksnTDBnamespaceSet env s ns).kf.defNameSpace = ns := (namespaceSet_spec env s ns).1

theorem linked_namespaceSet (env : TdbEnv φ) (s : Tdb φ) (ns : Option CString) :
    (ksnTDBnamespaceSet env s ns).Linked env := by
  rw [Tdb.Linked, defNameSpace_namespaceSet]
  exact (namespaceSet_spec env s ns).2.1

/-- What a call in the namespace `ns` makes of the store. -/
structure Effect (env : TdbEnv φ) (ns : Option CString) (change : PblRecords → PblRecords)
    (s t : Tdb φ) : Prop where
  linked : t.Linked env
  defNameSpace : t.kf.defNameSpace = s.kf.defNameSpace
  contents : ∀ f, t.contents f =
    if ns.bind (place env) = some f then change (s.contents f) else s.contents f

/-- **A call** works on the file of the default namespace. -/
theorem OpSpec.run {α : Type} {op : KsnTDBClass φ → Option (KsnTDBClass φ × α)}
    {change : PblRecords → PblRecords} {result : Option PblRecords → α}
    (h : OpSpec op change result) {env : TdbEnv φ} {s : Tdb φ} (hs : s.Linked env) :
    ∃ kf', op s.kf =
        some (kf', result ((s.kf.defNameSpace.bind (place env)).map s.contents)) ∧
      Effect env s.kf.defNameSpace change s { s with kf := kf' } := by
  obtain ⟨kf', hop, hns, hfile, hrecords⟩ := h s.kf
  unfold Tdb.Linked at hs
  have hcontents : s.kf.k.map PblKeyFile.records =
      (s.kf.defNameSpace.bind (place env)).map s.contents := by
    rw [← hs]
    unfold Tdb.contents closedFiles
    cases s.kf.k with
    | none => rfl
    | some k => simp [pblKfClose]
  refine ⟨kf', hop.trans (by rw [hcontents]), ⟨?_, hns, fun f => ?_⟩⟩
  · rw [Tdb.Linked, hfile, hns, hs]
  · rw [← hs]
    unfold Tdb.contents closedFiles
    dsimp only
    cases hk : s.kf.k with
    | none =>
      have hk' : kf'.k = none := by simpa [hk] using hfile
      rw [hk']
      rfl
    | some k =>
      rw [hk] at hfile hrecords
      obtain ⟨k', hk', hfile'⟩ := Option.map_eq_some_iff.mp hfile
      rw [hk', Option.map_some, Option.map_some, Option.map_some, Option.some_inj] at hrecords
      rw [hk']
      dsimp only [pblKfClose, Option.map_some]
      rw [FinMap.get_add, FinMap.get_add, hfile', hrecords]
      by_cases hf : f = k.file
      · subst hf
        simp
      · rw [if_neg hf, if_neg hf, if_neg fun h => hf (Option.some.inj h).symm]

/-- **A namespace variant** works on the file of its namespace. -/
theorem OpSpec.withNamespace {α : Type} {op : KsnTDBClass φ → Option (KsnTDBClass φ × α)}
    {change : PblRecords → PblRecords} {result : Option PblRecords → α}
    (h : OpSpec op change result) (env : TdbEnv φ) (s : Tdb φ) (ns : Option CString) :
    ∃ t, Teonet.withNamespace env s ns op =
        some (t, result ((ns.bind (place env)).map s.contents)) ∧
      Effect env ns change s t := by
  obtain ⟨kf', hop, heffect⟩ := h.run (linked_namespaceSet env s ns)
  rw [defNameSpace_namespaceSet] at hop heffect
  rw [contents_namespaceSet] at hop
  refine ⟨ksnTDBnamespaceSet env { ksnTDBnamespaceSet env s ns with kf := kf' } s.kf.defNameSpace,
    ?_, linked_namespaceSet env _ _, defNameSpace_namespaceSet env _ _, fun f => ?_⟩
  · unfold Teonet.withNamespace
    dsimp only
    rw [hop]
    rfl
  · rw [contents_namespaceSet, heffect.contents, contents_namespaceSet]

/-! ### Runs -/

/-- A call of `ksnTDBget`, `ksnTDBset` or `ksnTDBdelete`. -/
inductive TdbCall
  | get (key : Option (List UInt8))
  | set (key data : Option (List UInt8))
  | delete (key : Option (List UInt8))

/-- A call in the default namespace, its variant in the namespace `ns`, or another namespace. -/
inductive TdbEvent
  | call (c : TdbCall)
  | callNs (ns : Option CString) (c : TdbCall)
  | namespaceSet (ns : Option CString)
  | namespaceRemove (ns : CString)

/-- What an event returns. -/
inductive TdbResult
  | data (d : Option (List UInt8))
  | code (rc : ℤ)
  | nothing
deriving DecidableEq

/-- One event; there is no result if it does not end. -/
def tdbStep (env : TdbEnv φ) (s : Tdb φ) : TdbEvent → Option (Tdb φ × TdbResult)
  | .call (.get key) =>
    let r := ksnTDBget env s.kf key
    some ({ s with kf := r.1 }, .data r.2)
  | .call (.set key data) =>
    let r := ksnTDBset s.kf key data
    some ({ s with kf := r.1 }, .code r.2)
  | .call (.delete key) =>
    (ksnTDBdelete env s.kf key).map fun r => ({ s with kf := r.1 }, .code r.2)
  | .callNs ns (.get key) => (ksnTDBgetNs env s ns key).map fun r => (r.1, .data r.2)
  | .callNs ns (.set key data) => (ksnTDBsetNs env s ns key data).map fun r => (r.1, .code r.2)
  | .callNs ns (.delete key) => (ksnTDBdeleteNs env s ns key).map fun r => (r.1, .code r.2)
  | .namespaceSet ns => some (ksnTDBnamespaceSet env s ns, .nothing)
  | .namespaceRemove ns => some (ksnTDBnamespaceRemove env s ns, .nothing)

/-- The results of a sequence of events. -/
def tdbRun (env : TdbEnv φ) : Tdb φ → List TdbEvent → Option (Tdb φ × List TdbResult)
  | s, [] => some (s, [])
  | s, e :: es =>
    (tdbStep env s e).bind fun r => (tdbRun env r.1 es).map fun q => (q.1, r.2 :: q.2)

/-! ### The store that is meant -/

/-- A default namespace, and one value for each place and key. -/
structure TdbSpec (ψ : Type) where
  default : Option CString
  data : ψ → PblKey → Option (List UInt8)

variable {ψ : Type} [DecidableEq ψ]

omit [DecidableEq φ] [DecidableEq ψ] in
/-- What a call makes of the values of its namespace, and what it returns. -/
def TdbCall.spec (c : TdbCall) (values : PblKey → Option (List UInt8)) :
    (PblKey → Option (List UInt8)) × TdbResult :=
  match c with
  | .get key => (values, .data ((pblParamsCheck key).bind values))
  | .set key data =>
    match pblParamsCheck key, data with
    | some key, some data => (Function.update values key (some data), .code 0)
    | _, _ => (values, .code (-1))
  | .delete key =>
    match pblParamsCheck key with
    | some key =>
      (Function.update values key none, .code (if (values key).isSome then 0 else -1))
    | none => (values, .code (-1))

omit [DecidableEq φ] [DecidableEq ψ] in
/-- What a call returns that has no file. -/
def TdbCall.refused : TdbCall → TdbResult
  | .get _ => .data none
  | .set _ _ => .code (-1)
  | .delete _ => .code (-1)

/-- A call in a namespace that leads to a place, or to none. -/
def TdbSpec.call (σ : TdbSpec ψ) (c : TdbCall) : Option ψ → TdbSpec ψ × TdbResult
  | some f =>
    ({ σ with data := Function.update σ.data f (c.spec (σ.data f)).1 }, (c.spec (σ.data f)).2)
  | none => (σ, c.refused)

/-- The removal of a namespace. -/
def TdbSpec.remove (σ : TdbSpec ψ) : Option ψ → TdbSpec ψ
  | some f => { default := none, data := Function.update σ.data f fun _ => none }
  | none => { σ with default := none }

/-- One event, where `place` is what a name leads to. -/
def specStep (place : CString → Option ψ) (σ : TdbSpec ψ) : TdbEvent → TdbSpec ψ × TdbResult
  | .call c => σ.call c (σ.default.bind place)
  | .callNs ns c => σ.call c (ns.bind place)
  | .namespaceSet ns => ({ σ with default := ns }, .nothing)
  | .namespaceRemove ns => (σ.remove (place ns), .nothing)

/-- The results of a sequence of events. -/
def specRun (place : CString → Option ψ) : TdbSpec ψ → List TdbEvent → TdbSpec ψ × List TdbResult
  | σ, [] => (σ, [])
  | σ, e :: es =>
    let r := specStep place σ e
    let q := specRun place r.1 es
    (q.1, r.2 :: q.2)

/-- What the store holds: the value of a key is that of its last record. -/
def Tdb.abs (s : Tdb φ) : TdbSpec φ where
  default := s.kf.defNameSpace
  data f key := lastValue key (s.contents f)

/-! ### The store does what is meant -/

/-- What a call makes of the records of its file. -/
def TdbCall.change : TdbCall → PblRecords → PblRecords
  | .get _ => id
  | .set key data => setRecord key data
  | .delete key => deleteRecords key

/-- What a call returns for the records of its file. -/
def TdbCall.result : TdbCall → Option PblRecords → TdbResult
  | .get key => fun records => .data (valueAt key records)
  | .set key data => fun records => .code (setResult key data records)
  | .delete key => fun records => .code (deleteResult key records)

theorem TdbCall.result_none (c : TdbCall) : c.result none = c.refused := by
  cases c <;> rfl

/-- The change of the records is the change of the values. -/
theorem TdbCall.spec_eq (c : TdbCall) (records : PblRecords) :
    c.spec (fun key => lastValue key records) =
      (fun key => lastValue key (c.change records), c.result (some records)) := by
  cases c with
  | get key => rfl
  | set key data =>
    unfold TdbCall.spec TdbCall.change TdbCall.result setRecord setResult
    dsimp only
    cases hkey : pblParamsCheck key with
    | none => simp
    | some pk =>
      cases data with
      | none => simp
      | some data =>
        dsimp only
        refine Prod.ext (funext fun key' => ?_) (by simp)
        cases hi : lastIdx pk records with
        | none =>
          dsimp only
          rw [Function.update_apply, lastValue_concat]
        | some i =>
          dsimp only
          rw [Function.update_apply, lastValue_set hi]
  | delete key =>
    unfold TdbCall.spec TdbCall.change TdbCall.result deleteRecords deleteResult valueAt
    dsimp only
    cases hkey : pblParamsCheck key with
    | none => simp
    | some pk =>
      refine Prod.ext (funext fun key' => ?_) (by simp)
      dsimp only
      rw [Function.update_apply, lastValue_filter]

/-- **A call**, in the default namespace or in another, works on the file that the name of the
namespace leads to. -/
theorem tdbStep_call (env : TdbEnv φ) {s : Tdb φ} (hs : s.Linked env) (c : TdbCall) :
    ∃ t, tdbStep env s (.call c) =
        some (t, c.result ((s.kf.defNameSpace.bind (place env)).map s.contents)) ∧
      Effect env s.kf.defNameSpace c.change s t := by
  cases c with
  | get key =>
    obtain ⟨kf', hop, heffect⟩ := (opSpec_get env key).run hs
    rw [Option.some_inj] at hop
    exact ⟨_, by rw [tdbStep, hop]; rfl, heffect⟩
  | set key data =>
    obtain ⟨kf', hop, heffect⟩ := (opSpec_set key data).run hs
    rw [Option.some_inj] at hop
    exact ⟨_, by rw [tdbStep, hop]; rfl, heffect⟩
  | delete key =>
    obtain ⟨kf', hop, heffect⟩ := (opSpec_delete env key).run hs
    exact ⟨_, by rw [tdbStep, hop]; rfl, heffect⟩

theorem tdbStep_callNs (env : TdbEnv φ) (s : Tdb φ) (ns : Option CString) (c : TdbCall) :
    ∃ t, tdbStep env s (.callNs ns c) =
        some (t, c.result ((ns.bind (place env)).map s.contents)) ∧
      Effect env ns c.change s t := by
  cases c with
  | get key =>
    obtain ⟨t, hop, heffect⟩ := (opSpec_get env key).withNamespace env s ns
    exact ⟨t, by rw [tdbStep, ksnTDBgetNs, hop]; rfl, heffect⟩
  | set key data =>
    obtain ⟨t, hop, heffect⟩ := (opSpec_set key data).withNamespace env s ns
    exact ⟨t, by rw [tdbStep, ksnTDBsetNs, hop]; rfl, heffect⟩
  | delete key =>
    obtain ⟨t, hop, heffect⟩ := (opSpec_delete env key).withNamespace env s ns
    exact ⟨t, by rw [tdbStep, ksnTDBdeleteNs, hop]; rfl, heffect⟩

/-- What a call does to the values. -/
theorem Effect.abs_eq {env : TdbEnv φ} {ns : Option CString} {c : TdbCall} {s t : Tdb φ}
    (h : Effect env ns c.change s t) :
    s.abs.call c (ns.bind (place env)) =
      (t.abs, c.result ((ns.bind (place env)).map s.contents)) := by
  cases hplace : ns.bind (place env) with
  | none =>
    have hsame : t.contents = s.contents := by
      funext f
      rw [h.contents, if_neg (by simp [hplace])]
    rw [TdbSpec.call, Option.map_none, c.result_none, Tdb.abs, Tdb.abs, h.defNameSpace, hsame]
  | some f =>
    rw [TdbSpec.call, Option.map_some]
    have hspec := c.spec_eq (s.contents f)
    have hdata : Function.update s.abs.data f (c.spec (s.abs.data f)).1 = t.abs.data := by
      funext f'
      rw [Function.update_apply]
      unfold Tdb.abs
      dsimp only
      rw [h.contents, hplace]
      by_cases hf : f' = f
      · subst hf
        rw [if_pos rfl, if_pos rfl, hspec]
      · rw [if_neg hf, if_neg fun h => hf (Option.some.inj h).symm]
    have hresult : (c.spec (s.abs.data f)).2 = c.result (some (s.contents f)) :=
      congrArg Prod.snd hspec
    rw [hdata, hresult, Tdb.abs, Tdb.abs, h.defNameSpace]

theorem namespaceRemove_spec (env : TdbEnv φ) (s : Tdb φ) (ns : CString) :
    (ksnTDBnamespaceRemove env s ns).Linked env ∧
      (ksnTDBnamespaceRemove env s ns).abs = s.abs.remove (place env ns) := by
  unfold ksnTDBnamespaceRemove
  cases place env ns with
  | none => exact ⟨rfl, rfl⟩
  | some f =>
    refine ⟨rfl, ?_⟩
    change TdbSpec.mk none (fun f' key => lastValue key
        ((((closedFiles s).remove f).get f').getD [])) =
      TdbSpec.mk none (Function.update s.abs.data f fun _ => none)
    congr 1
    funext f'
    rw [Function.update_apply, FinMap.get_remove]
    split_ifs <;> rfl

/-- One event does what is meant. -/
theorem tdbStep_spec (env : TdbEnv φ) {s : Tdb φ} (hs : s.Linked env) (e : TdbEvent) :
    ∃ t r, tdbStep env s e = some (t, r) ∧ t.Linked env ∧
      specStep (place env) s.abs e = (t.abs, r) := by
  cases e with
  | call c =>
    obtain ⟨t, hstep, heffect⟩ := tdbStep_call env hs c
    exact ⟨t, _, hstep, heffect.linked, heffect.abs_eq⟩
  | callNs ns c =>
    obtain ⟨t, hstep, heffect⟩ := tdbStep_callNs env s ns c
    exact ⟨t, _, hstep, heffect.linked, heffect.abs_eq⟩
  | namespaceSet ns =>
    refine ⟨_, _, rfl, linked_namespaceSet env s ns, ?_⟩
    rw [specStep, Tdb.abs, Tdb.abs, contents_namespaceSet, defNameSpace_namespaceSet]
  | namespaceRemove ns =>
    obtain ⟨hlinked, habs⟩ := namespaceRemove_spec env s ns
    exact ⟨_, _, rfl, hlinked, by rw [habs]; rfl⟩

/-- Every sequence of events ends and does what is meant. -/
theorem tdbRun_spec (env : TdbEnv φ) {s : Tdb φ} (hs : s.Linked env) (events : List TdbEvent) :
    ∃ t results, tdbRun env s events = some (t, results) ∧ t.Linked env ∧
      specRun (place env) s.abs events = (t.abs, results) := by
  induction events generalizing s with
  | nil => exact ⟨s, [], rfl, hs, rfl⟩
  | cons e es ih =>
    obtain ⟨u, r, hstep, hu, hspec⟩ := tdbStep_spec env hs e
    obtain ⟨t, results, hrun, ht, hrest⟩ := ih hu
    refine ⟨t, r :: results, ?_, ht, ?_⟩
    · rw [tdbRun, hstep, Option.bind_some, hrun]
      rfl
    · rw [specRun, hspec]
      dsimp only
      rw [hrest]

/-- An event that deletes a key in a namespace. -/
def Deletes (s : Tdb φ) (e : TdbEvent) (ns : Option CString) (key : Option (List UInt8)) : Prop :=
  (e = .call (.delete key) ∧ ns = s.kf.defNameSpace) ∨ e = .callNs ns (.delete key)

/-- **The key-value store**: every sequence of calls, from any key files, ends and returns what a
store returns that keeps one value for each key of a key file.  In every state that is reached, a
namespace variant leaves the default namespace and the records of all other key files as they were,
and a delete leaves no record of its key and returns `0` exactly if there was one. -/
theorem ksnTDB_refines (env : TdbEnv φ) (files : FinMap φ PblRecords) (events : List TdbEvent) :
    ∃ s results, tdbRun env { files := files } events = some (s, results) ∧
      specRun (place env) (Tdb.abs { files := files }) events = (s.abs, results) ∧
      (∀ ns c, ∃ t r, tdbStep env s (.callNs ns c) = some (t, r) ∧
        t.kf.defNameSpace = s.kf.defNameSpace ∧
        ∀ f, ns.bind (place env) ≠ some f → t.contents f = s.contents f) ∧
      ∀ e ns key pk f, Deletes s e ns key → pblParamsCheck key = some pk →
        ns.bind (place env) = some f →
        ∃ t rc, tdbStep env s e = some (t, .code rc) ∧ (∀ r ∈ t.contents f, r.1 ≠ pk) ∧
          (rc = 0 ↔ ∃ r ∈ s.contents f, r.1 = pk) := by
  have hinit : ({ files := files } : Tdb φ).Linked env := rfl
  obtain ⟨s, results, hrun, hs, hspec⟩ := tdbRun_spec env hinit events
  refine ⟨s, results, hrun, hspec, fun ns c => ?_, fun e ns key pk f he hkey hplace => ?_⟩
  · obtain ⟨t, hstep, heffect⟩ := tdbStep_callNs env s ns c
    refine ⟨t, _, hstep, heffect.defNameSpace, fun f hf => ?_⟩
    rw [heffect.contents, if_neg hf]
  · obtain ⟨t, hstep, heffect⟩ : ∃ t, tdbStep env s e =
        some (t, TdbCall.result (.delete key) ((ns.bind (place env)).map s.contents)) ∧
        Effect env ns (TdbCall.change (.delete key)) s t := by
      rcases he with ⟨rfl, rfl⟩ | rfl
      · exact tdbStep_call env hs (.delete key)
      · exact tdbStep_callNs env s ns (.delete key)
    refine ⟨t, _, hstep, fun r hr => ?_, ?_⟩
    · rw [heffect.contents, if_pos hplace] at hr
      unfold TdbCall.change deleteRecords at hr
      dsimp only at hr
      rw [hkey] at hr
      simpa using (List.mem_filter.mp hr).2
    · rw [hplace, Option.map_some, deleteResult, valueAt, Option.bind_some, hkey, Option.bind_some]
      by_cases hthere : ∃ r ∈ s.contents f, r.1 = pk
      · refine iff_of_true (if_pos ?_) hthere
        rw [Option.isSome_iff_ne_none]
        intro hnone
        obtain ⟨r, hr, hrkey⟩ := hthere
        exact lastValue_eq_none_iff.mp hnone r hr hrkey
      · have hnone : lastValue pk (s.contents f) = none :=
          lastValue_eq_none_iff.mpr fun r hr hrkey => hthere ⟨r, hr, hrkey⟩
        rw [hnone]
        exact iff_of_false (by decide) hthere

/-- A world in which `.` is a name of the directory itself. -/
def dotEnv : TdbEnv (List (List UInt8)) where
  dataPath := CString.ofBuf [100]
  fits := by decide
  resolve path := some ((Lines.lines 47 path).filter fun name => name ≠ [] ∧ name ≠ [46])
  malloc := .clear

/-- Data is set in the namespaces `a` and `./a`, and read from `a`. -/
def dotEvents : List TdbEvent :=
  [.callNs (some (CString.ofBuf [97])) (.set (some [107]) (some [1])),
    .callNs (some (CString.ofBuf [46, 47, 97])) (.set (some [107]) (some [2])),
    .callNs (some (CString.ofBuf [97])) (.get (some [107]))]

/-- The names `a` and `./a` lead to one key file, so what is set in one namespace is read from the
other: a store with one value for each name returns something else. -/
theorem not_onePlacePerName :
    ∃ s results, tdbRun dotEnv { files := .empty } dotEvents = some (s, results) ∧
      results = [.code 0, .code 0, .data (some [2])] ∧
      (specRun some { default := none, data := fun _ _ => none } dotEvents).2 =
        [.code 0, .code 0, .data (some [1])] :=
  ⟨_, _, rfl, by decide, by decide⟩

end Teonet
