import Teonet.Lib.Heap
import Teonet.Split

/-! # Combined packets that are sub-packets

`cmd_split_cb` of `net_com.c` has a packet combined, gives it to `ksnCommandCheck` and frees it.  A
combined packet may itself be a `CMD_SPLIT` packet, so the callback may run inside itself, to any
depth.  The buffer of a combined packet is remembered in one field of the class, `data_save`, and
freed from there.

`SplitCompletes` says when a packet completes another one, and `ksnSplitCombine_eq_some_iff` that
`ksnSplitCombine` returns a packet exactly then.  `cmdSplitCb_paired_iff` is the result: each free
finds the buffer that belongs to its packet, and finds it live, exactly when no combined packet of
command `CMD_SPLIT` completes a packet. -/

namespace Teonet

open Bytes

/-! ### When a packet completes another one -/

/-- The packet number, the sub-packet number and the flag of a payload. -/
def splitNumber (rd : KsnCorePacketData) : ℕ := getLe16 rd.data
def splitIndex (rd : KsnCorePacketData) : ℕ := getLe16 (rd.data.drop 2) &&& (lastPacketFlag - 1)
def splitFlag (rd : KsnCorePacketData) : ℕ := getLe16 (rd.data.drop 2) &&& lastPacketFlag

/-- The class with the payload in its map. -/
def splitAdded (now : ℚ) (ks : KsnSplitClass) (rd : KsnCorePacketData) : KsnSplitClass :=
  addSubpacket now ks (splitKey rd (splitNumber rd) (splitIndex rd)) (rd.data.drop (2 * 2))

/-- The `i`-th sub-packet of the packet that `rd` belongs to. -/
def splitHeld (now : ℚ) (ks : KsnSplitClass) (rd : KsnCorePacketData) (i : ℕ) :
    Option (List UInt8) :=
  (splitAdded now ks rd).map.get (splitKey rd (splitNumber rd) i)

/-- `rd` is the last sub-packet of a packet whose others are in the map. -/
structure SplitCompletes (now : ℚ) (ks : KsnSplitClass) (rd : KsnCorePacketData) : Prop where
  size : 2 * 2 ≤ rd.data.length
  flag : splitFlag rd ≠ 0
  held : ∀ i < splitIndex rd + 1, splitHeld now ks rd i ≠ none
  first : splitHeld now ks rd 0 ≠ some []

instance (now : ℚ) (ks : KsnSplitClass) (rd : KsnCorePacketData) :
    Decidable (SplitCompletes now ks rd) :=
  decidable_of_iff (2 * 2 ≤ rd.data.length ∧ splitFlag rd ≠ 0 ∧
      (∀ i < splitIndex rd + 1, splitHeld now ks rd i ≠ none) ∧ splitHeld now ks rd 0 ≠ some [])
    ⟨fun h => ⟨h.1, h.2.1, h.2.2.1, h.2.2.2⟩, fun h => ⟨h.size, h.flag, h.held, h.first⟩⟩

/-- The packet that it completes: the command is the last byte of the first sub-packet. -/
def splitJoined (now : ℚ) (ks : KsnSplitClass) (rd : KsnCorePacketData) : KsnCorePacketData :=
  let piece := fun i => (splitHeld now ks rd i).getD []
  { addr := rd.addr
    port := rd.port
    fromName := rd.fromName
    fromLen := rd.fromLen
    cmd := (piece 0).getLastD 0
    data := (piece 0).dropLast ++
      (((List.range (splitIndex rd)).map Nat.succ).map piece).flatten }

/-- What is left of the class then. -/
def splitRest (now : ℚ) (ks : KsnSplitClass) (rd : KsnCorePacketData) : KsnSplitClass :=
  { splitAdded now ks rd with
    map := removeKeys (splitKey rd (splitNumber rd)) (List.range (splitIndex rd + 1))
      (splitAdded now ks rd).map
    dataSave := (splitJoined now ks rd).data }

theorem splitIndex_lt (rd : KsnCorePacketData) : splitIndex rd < lastPacketFlag := by
  rw [splitIndex, show lastPacketFlag - 1 = 2 ^ 15 - 1 from rfl, Nat.and_two_pow_sub_one_eq_mod]
  exact Nat.mod_lt _ (by decide)

/-- The keys of one packet are different. -/
theorem splitKey_splitIndex_inj (rd : KsnCorePacketData) :
    ∀ i < splitIndex rd + 1, ∀ j < splitIndex rd + 1,
      splitKey rd (splitNumber rd) i = splitKey rd (splitNumber rd) j → i = j := by
  intro i hi j hj h
  have hlt : splitIndex rd < 32768 := splitIndex_lt rd
  exact splitKey_inj rd _ (by omega) (by omega) h

theorem ksnSplitCombine_eq (now : ℚ) (ks : KsnSplitClass) (rd : KsnCorePacketData) :
    ksnSplitCombine now ks rd =
      if rd.data.length < 2 * 2 then .error .shortPayload
      else if splitFlag rd ≠ 0 then
        match combineLoop (splitKey rd (splitNumber rd)) (List.range (splitIndex rd + 1))
            (splitAdded now ks rd).map 0 [] with
        | .error e => .error e
        | .ok (map, none) => .ok ({ splitAdded now ks rd with map := map }, none)
        | .ok (map, some (cmd, data)) =>
          .ok ({ splitAdded now ks rd with map := map, dataSave := data }, some {
            addr := rd.addr
            port := rd.port
            fromName := rd.fromName
            fromLen := rd.fromLen
            cmd := cmd
            data := data })
      else .ok (splitAdded now ks rd, none) := rfl

theorem ksnSplitCombine_of_completes {now : ℚ} {ks : KsnSplitClass} {rd : KsnCorePacketData}
    (h : SplitCompletes now ks rd) :
    ksnSplitCombine now ks rd = .ok (splitRest now ks rd, some (splitJoined now ks rd)) := by
  obtain ⟨hsize, hflag, hheld, hfirst⟩ := h
  obtain ⟨first, hget⟩ := Option.ne_none_iff_exists'.mp (hheld 0 (Nat.succ_pos _))
  have hne : first ≠ [] := by
    rintro rfl
    exact hfirst hget
  have hsplit : first = first.dropLast ++ [first.getLastD 0] := by
    rw [List.getLastD_eq_getLast?, List.getLast?_eq_some_getLast hne, Option.getD_some,
      List.dropLast_append_getLast]
  have hpiece : ∀ i, 0 < i → i < splitIndex rd + 1 →
      (splitAdded now ks rd).map.get (splitKey rd (splitNumber rd) i) =
        some ((splitHeld now ks rd i).getD []) := by
    intro i _ hi
    obtain ⟨b, hb⟩ := Option.ne_none_iff_exists'.mp (hheld i hi)
    rw [hb]
    exact hb
  have hloop := combineLoop_first (splitKey_splitIndex_inj rd)
    (hget.trans (congrArg some hsplit)) hpiece
  rw [ksnSplitCombine_eq, if_neg (by omega), if_pos hflag, hloop]
  simp only [splitRest, splitJoined, hget, Option.getD_some]

/-- The loop behind a call with the last sub-packet of a message. -/
theorem exists_combineLoop {now : ℚ} {ks ks' : KsnSplitClass} {rd : KsnCorePacketData}
    {r : Option KsnCorePacketData} (hflag : splitFlag rd ≠ 0)
    (h : ksnSplitCombine now ks rd = .ok (ks', r)) :
    2 * 2 ≤ rd.data.length ∧
      combineLoop (splitKey rd (splitNumber rd)) (List.range (splitIndex rd + 1))
        (splitAdded now ks rd).map 0 [] = .ok (ks'.map, r.map fun rds => (rds.cmd, rds.data)) := by
  rw [ksnSplitCombine_eq, if_pos hflag] at h
  split_ifs at h with hsize
  refine ⟨by omega, ?_⟩
  cases hloop : combineLoop (splitKey rd (splitNumber rd)) (List.range (splitIndex rd + 1))
      (splitAdded now ks rd).map 0 [] with
  | error e => rw [hloop] at h; cases h
  | ok q =>
    rw [hloop] at h
    obtain ⟨map, _ | p⟩ := q
    · obtain ⟨rfl, rfl⟩ := Prod.mk.inj (Except.ok.inj h)
      rfl
    · obtain ⟨rfl, rfl⟩ := Prod.mk.inj (Except.ok.inj h)
      rfl

theorem splitFlag_ne_zero_of_combine {now : ℚ} {ks ks' : KsnSplitClass}
    {rd rds : KsnCorePacketData} (h : ksnSplitCombine now ks rd = .ok (ks', some rds)) :
    splitFlag rd ≠ 0 := by
  intro hflag
  rw [ksnSplitCombine_eq, if_neg (not_not.mpr hflag)] at h
  split_ifs at h
  cases h

theorem SplitCompletes.of_combine {now : ℚ} {ks ks' : KsnSplitClass} {rd rds : KsnCorePacketData}
    (h : ksnSplitCombine now ks rd = .ok (ks', some rds)) : SplitCompletes now ks rd := by
  have hflag := splitFlag_ne_zero_of_combine h
  obtain ⟨hsize, hloop⟩ := exists_combineLoop hflag h
  have hheld := combineLoop_held _ hloop
  refine ⟨hsize, hflag, fun i hi => (hheld i (List.mem_range.mpr hi)).1, ?_⟩
  exact (hheld 0 (List.mem_range.mpr (Nat.succ_pos _))).2 rfl

/-- **`ksnSplitCombine` returns a packet** exactly when `rd` completes it. -/
theorem ksnSplitCombine_eq_some_iff {now : ℚ} {ks ks' : KsnSplitClass}
    {rd rds : KsnCorePacketData} :
    ksnSplitCombine now ks rd = .ok (ks', some rds) ↔
      SplitCompletes now ks rd ∧ ks' = splitRest now ks rd ∧ rds = splitJoined now ks rd := by
  constructor
  · intro h
    have hcompletes := SplitCompletes.of_combine h
    rw [ksnSplitCombine_of_completes hcompletes] at h
    obtain ⟨hks, hrds⟩ := Prod.mk.inj (Except.ok.inj h)
    exact ⟨hcompletes, hks.symm, (Option.some.inj hrds).symm⟩
  · rintro ⟨hcompletes, rfl, rfl⟩
    exact ksnSplitCombine_of_completes hcompletes

/-! ### Combining shortens -/

/-- The bytes in the map and in the packet; each nested call has fewer of them. -/
def splitBytes (ks : KsnSplitClass) (rd : KsnCorePacketData) : ℕ :=
  ks.map.weight List.length + rd.data.length

theorem combineLoop_weight {key : ℕ → List UInt8} {map' : FinMap (List UInt8) (List UInt8)}
    {r : UInt8 × List UInt8} :
    ∀ (is : List ℕ) {map : FinMap (List UInt8) (List UInt8)} {cmd : UInt8} {data : List UInt8},
      combineLoop key is map cmd data = .ok (map', some r) →
      map'.weight List.length + r.2.length ≤ map.weight List.length + data.length
  | [], map, cmd, data, h => by
      cases h
      exact le_rfl
  | i :: is, map, cmd, data, h => by
      rw [combineLoop] at h
      cases hi : map.get (key i) with
      | none => rw [hi] at h; cases h
      | some dataS =>
        have hremove := FinMap.weight_remove List.length map hi
        simp only [hi] at h
        split_ifs at h
        · cases hc : dataS.getLast? with
          | none => rw [hc] at h; cases h
          | some c =>
            rw [hc] at h
            have hrest := combineLoop_weight is h
            simp only [List.length_append, List.length_dropLast] at hrest
            omega
        · have hrest := combineLoop_weight is h
          rw [List.length_append] at hrest
          omega

theorem addSubpacket_weight (now : ℚ) (ks : KsnSplitClass) (key data : List UInt8) :
    (addSubpacket now ks key data).map.weight List.length ≤
      ks.map.weight List.length + data.length := by
  unfold addSubpacket
  dsimp only
  split_ifs
  · have hadd := FinMap.weight_add_le List.length
      (FinMap.empty : FinMap (List UInt8) (List UInt8)) key data
    have hempty : (FinMap.empty : FinMap (List UInt8) (List UInt8)).weight List.length = 0 := rfl
    omega
  · exact FinMap.weight_add_le List.length ks.map key data

/-- **A combined packet and what is left of the map** are shorter than what there was. -/
theorem splitBytes_lt {now : ℚ} {ks ks' : KsnSplitClass} {rd rds : KsnCorePacketData}
    (h : ksnSplitCombine now ks rd = .ok (ks', some rds)) :
    splitBytes ks' rds < splitBytes ks rd := by
  obtain ⟨hsize, hloop⟩ := exists_combineLoop (splitFlag_ne_zero_of_combine h) h
  have hadd := addSubpacket_weight now ks (splitKey rd (splitNumber rd) (splitIndex rd))
    (rd.data.drop (2 * 2))
  have hweight := combineLoop_weight _ hloop
  rw [List.length_drop] at hadd
  unfold splitAdded at hweight
  unfold splitBytes
  simp only [List.length_nil] at hweight
  omega

/-! ### The callback -/

/-- The class, the buffers of combined packets, and `data_save`, which nothing sets before the first
packet is combined. -/
structure SplitMem where
  ks : KsnSplitClass := {}
  heap : Heap (List UInt8) := Heap.empty
  dataSave : Option ℕ := none

/-- `ksnSplitCombine` with its buffer: the packet and where its data lies.  The buffer of a packet
that is not complete is lost. -/
def ksnSplitCombineMem (now : ℚ) (mem : SplitMem) (rd : KsnCorePacketData) :
    Except SplitFault (SplitMem × Option (KsnCorePacketData × ℕ)) :=
  match ksnSplitCombine now mem.ks rd with
  | .error e => .error e
  | .ok (ks, none) =>
    .ok ({ mem with
      ks := ks
      heap := if splitFlag rd ≠ 0 then mem.heap.alloc [] else mem.heap }, none)
  | .ok (ks, some rds) =>
    .ok ({ ks := ks, heap := mem.heap.alloc rds.data, dataSave := some mem.heap.next },
      some (rds, mem.heap.next))

/-- `free(ks->data_save)`. -/
def ksnSplitFreeRds (mem : SplitMem) : SplitMem :=
  match mem.dataSave with
  | some a => { mem with heap := mem.heap.free a }
  | none => mem

/-- `data_save` points to a buffer that was not freed. -/
def SplitMem.live (mem : SplitMem) : Bool :=
  match mem.dataSave with
  | some a => (mem.heap.get a).isSome
  | none => false

/-- What the callback does. -/
inductive SplitCbEvent
  /-- the callback of another command -/
  | command (rds : KsnCorePacketData)
  /-- `EV_K_RECEIVED` -/
  | received (rds : KsnCorePacketData)
  /-- `ksnSplitFreeRds` of a packet with its data at `own`: where `data_save` points then, and
  whether a buffer is there -/
  | freeRds (own : ℕ) (dataSave : Option ℕ) (live : Bool)
deriving DecidableEq

/-- How the callback ends; after a fault it does not return. -/
structure SplitCbResult where
  mem : SplitMem
  events : List SplitCbEvent := []
  processed : ℤ := 0
  fault : Option SplitFault := none

theorem ksnSplitCombineMem_eq_some {now : ℚ} {mem mem' : SplitMem} {rd rds : KsnCorePacketData}
    {own : ℕ} (h : ksnSplitCombineMem now mem rd = .ok (mem', some (rds, own))) :
    ksnSplitCombine now mem.ks rd = .ok (mem'.ks, some rds) := by
  unfold ksnSplitCombineMem at h
  split at h
  · cases h
  · cases h
  · rename_i hcombine
    cases h
    exact hcombine

/-- `cmd_split_cb`; `command` is `ksnCommandCheck` for the other commands, none of which touches
`map` or `data_save`. -/
def cmdSplitCb (command : KsnCorePacketData → ℤ) (now : ℚ) (mem : SplitMem)
    (rd : KsnCorePacketData) : SplitCbResult :=
  match _h : ksnSplitCombineMem now mem rd with
  | .error e => { mem := mem, fault := some e }
  | .ok (mem, none) => { mem := mem, processed := 1 }
  | .ok (mem', some (rds, own)) =>
    let r : SplitCbResult :=
      if rds.cmd = cmdSplit then cmdSplitCb command now mem' rds
      else { mem := mem', events := [.command rds], processed := command rds }
    if r.fault ≠ none then r
    else
      { mem := ksnSplitFreeRds r.mem
        events := r.events ++ (if r.processed = 0 then [.received rds] else []) ++
          [.freeRds own r.mem.dataSave r.mem.live]
        processed := if r.processed = 0 then 2 else r.processed }
termination_by splitBytes mem.ks rd
decreasing_by exact splitBytes_lt (ksnSplitCombineMem_eq_some _h)

/-! ### Which buffer is freed -/

/-- Each free finds its own buffer, live. -/
def SplitCbResult.Paired (r : SplitCbResult) : Prop :=
  ∀ own dataSave live, .freeRds own dataSave live ∈ r.events → dataSave = some own ∧ live = true

/-- The packet that `rd` completes has the command `CMD_SPLIT` and completes a packet itself. -/
def CompletesNested (now : ℚ) (ks : KsnSplitClass) (rd : KsnCorePacketData) : Prop :=
  SplitCompletes now ks rd ∧ (splitJoined now ks rd).cmd = cmdSplit ∧
    SplitCompletes now (splitRest now ks rd) (splitJoined now ks rd)

variable (command : KsnCorePacketData → ℤ) {now : ℚ} {mem : SplitMem} {rd : KsnCorePacketData}

theorem SplitCbResult.paired_of_nil {r : SplitCbResult} (h : r.events = []) : r.Paired := by
  intro own dataSave live hmem
  rw [h] at hmem
  cases hmem

/-- After `ksnSplitFreeRds` nothing is where `data_save` points. -/
theorem live_ksnSplitFreeRds (mem : SplitMem) : (ksnSplitFreeRds mem).live = false := by
  unfold ksnSplitFreeRds
  cases h : mem.dataSave with
  | none => simp [SplitMem.live, h]
  | some a => simp [SplitMem.live, Heap.get_free]

/-- A packet that completes none leaves the remembered buffer alone. -/
theorem cmdSplitCb_of_not_completes (h : ¬SplitCompletes now mem.ks rd) :
    (cmdSplitCb command now mem rd).events = [] ∧
      (cmdSplitCb command now mem rd).mem.dataSave = mem.dataSave ∧
      (mem.live = true → (cmdSplitCb command now mem rd).mem.live = true) := by
  have hcombine : ∀ ks' rds, ksnSplitCombine now mem.ks rd ≠ .ok (ks', some rds) :=
    fun ks' rds hsome => h (ksnSplitCombine_eq_some_iff.mp hsome).1
  rw [cmdSplitCb]
  split
  · exact ⟨rfl, rfl, id⟩
  · rename_i mem' hmem
    unfold ksnSplitCombineMem at hmem
    split at hmem
    · cases hmem
    · cases hmem
      refine ⟨rfl, rfl, fun hlive => ?_⟩
      unfold SplitMem.live at hlive ⊢
      cases ha : mem.dataSave with
      | none => rw [ha] at hlive; cases hlive
      | some a =>
        rw [ha] at hlive
        obtain ⟨b, hb⟩ := Option.isSome_iff_exists.mp hlive
        dsimp only
        split_ifs
        · rw [Heap.get_alloc_of_get hb]
          rfl
        · exact hlive
    · cases hmem
  · rename_i hmem
    exact absurd (ksnSplitCombineMem_eq_some hmem) (hcombine _ _)

/-- The memory when a packet was combined. -/
def SplitMem.combined (mem : SplitMem) (now : ℚ) (rd : KsnCorePacketData) : SplitMem where
  ks := splitRest now mem.ks rd
  heap := mem.heap.alloc (splitJoined now mem.ks rd).data
  dataSave := some mem.heap.next

theorem live_combined : (mem.combined now rd).live = true := by
  simp [SplitMem.live, SplitMem.combined]

/-- `ksnCommandCheck` for the packet that `rd` completes. -/
def splitDispatch (now : ℚ) (mem : SplitMem)
    (rd : KsnCorePacketData) : SplitCbResult :=
  let rds := splitJoined now mem.ks rd
  if rds.cmd = cmdSplit then cmdSplitCb command now (mem.combined now rd) rds
  else { mem := mem.combined now rd, events := [.command rds], processed := command rds }

theorem splitDispatch_split (h : (splitJoined now mem.ks rd).cmd = cmdSplit) :
    splitDispatch command now mem rd =
      cmdSplitCb command now (mem.combined now rd) (splitJoined now mem.ks rd) :=
  if_pos h

theorem splitDispatch_command (h : (splitJoined now mem.ks rd).cmd ≠ cmdSplit) :
    splitDispatch command now mem rd =
      { mem := mem.combined now rd
        events := [.command (splitJoined now mem.ks rd)]
        processed := command (splitJoined now mem.ks rd) } :=
  if_neg h

theorem cmdSplitCb_of_completes (h : SplitCompletes now mem.ks rd) :
    cmdSplitCb command now mem rd =
      let r := splitDispatch command now mem rd
      if r.fault ≠ none then r
      else
        { mem := ksnSplitFreeRds r.mem
          events := r.events ++
            (if r.processed = 0 then [.received (splitJoined now mem.ks rd)] else []) ++
            [.freeRds mem.heap.next r.mem.dataSave r.mem.live]
          processed := if r.processed = 0 then 2 else r.processed } := by
  have hmem : ksnSplitCombineMem now mem rd =
      .ok (mem.combined now rd, some (splitJoined now mem.ks rd, mem.heap.next)) := by
    unfold ksnSplitCombineMem
    rw [ksnSplitCombine_of_completes h]
    rfl
  rw [cmdSplitCb]
  split
  · rename_i heq
    rw [hmem] at heq
    cases heq
  · rename_i heq
    rw [hmem] at heq
    cases heq
  · rename_i heq
    rw [hmem] at heq
    cases heq
    rfl

theorem cmdSplitCb_of_fault (h : SplitCompletes now mem.ks rd)
    (hfault : (splitDispatch command now mem rd).fault ≠ none) :
    cmdSplitCb command now mem rd = splitDispatch command now mem rd := by
  rw [cmdSplitCb_of_completes command h]
  exact if_pos hfault

theorem cmdSplitCb_of_return (h : SplitCompletes now mem.ks rd)
    (hfault : (splitDispatch command now mem rd).fault = none) :
    (cmdSplitCb command now mem rd).fault = none ∧
    (cmdSplitCb command now mem rd).mem = ksnSplitFreeRds (splitDispatch command now mem rd).mem ∧
    ∃ received, (∀ e ∈ received, e = .received (splitJoined now mem.ks rd)) ∧
      (cmdSplitCb command now mem rd).events =
        (splitDispatch command now mem rd).events ++ received ++ [.freeRds mem.heap.next
          (splitDispatch command now mem rd).mem.dataSave
          (splitDispatch command now mem rd).mem.live] := by
  rw [cmdSplitCb_of_completes command h]
  dsimp only
  rw [if_neg (not_not_intro hfault)]
  refine ⟨rfl, rfl, _, ?_, rfl⟩
  intro e he
  split_ifs at he
  · exact List.mem_singleton.mp he
  · cases he

/-- The callback returns when the command of the combined packet does. -/
theorem splitDispatch_fault (h : SplitCompletes now mem.ks rd)
    (hfault : (cmdSplitCb command now mem rd).fault = none) :
    (splitDispatch command now mem rd).fault = none := by
  by_contra hne
  rw [cmdSplitCb_of_fault command h hne] at hfault
  exact hne hfault

/-! ### When the callback does not return -/

/-- Only the first sub-packet can be read outside. -/
theorem combineLoop_ok {key : ℕ → List UInt8} (is : List ℕ) (hpos : ∀ i ∈ is, i ≠ 0)
    (map : FinMap (List UInt8) (List UInt8)) (cmd : UInt8) (data : List UInt8) :
    ∃ r, combineLoop key is map cmd data = .ok r := by
  induction is generalizing map cmd data with
  | nil => exact ⟨_, rfl⟩
  | cons i is ih =>
    rw [combineLoop]
    cases map.get (key i) with
    | none => exact ⟨_, rfl⟩
    | some dataS =>
      dsimp only
      rw [if_neg (hpos i List.mem_cons_self)]
      exact ih (fun j hj => hpos j (List.mem_cons_of_mem i hj)) _ _ _

theorem combineLoop_range_ok_iff {key : ℕ → List UInt8} (n : ℕ)
    (map : FinMap (List UInt8) (List UInt8)) (cmd : UInt8) (data : List UInt8) :
    (∃ r, combineLoop key (List.range (n + 1)) map cmd data = .ok r) ↔
      map.get (key 0) ≠ some [] := by
  rw [List.range_succ_eq_map, combineLoop]
  have hpos : ∀ i ∈ (List.range n).map Nat.succ, i ≠ 0 := by
    intro i hi
    obtain ⟨j, -, rfl⟩ := List.mem_map.mp hi
    exact Nat.succ_ne_zero j
  cases map.get (key 0) with
  | none => exact iff_of_true ⟨_, rfl⟩ (by simp)
  | some dataS =>
    dsimp only
    rw [if_pos rfl]
    rcases List.eq_nil_or_concat dataS with rfl | ⟨l, c, rfl⟩
    · simp
    · rw [List.concat_eq_append, List.getLast?_append_of_ne_nil _ (by simp)]
      exact iff_of_true (combineLoop_ok _ hpos _ _ _) (by simp)

/-- **`ksnSplitCombine` reads inside its data** unless a sub-packet is shorter than its numbers, or the
last one of a message whose first one is empty. -/
theorem ksnSplitCombine_ok_iff {ks : KsnSplitClass} :
    (∃ r, ksnSplitCombine now ks rd = .ok r) ↔
      2 * 2 ≤ rd.data.length ∧ ¬(splitFlag rd ≠ 0 ∧ splitHeld now ks rd 0 = some []) := by
  rw [ksnSplitCombine_eq]
  by_cases hsize : rd.data.length < 2 * 2
  · rw [if_pos hsize]
    exact iff_of_false (by simp) fun h => absurd hsize (by omega)
  rw [if_neg hsize, and_iff_right (Nat.not_lt.mp hsize)]
  by_cases hflag : splitFlag rd ≠ 0
  · have hloop : (∃ r, combineLoop (splitKey rd (splitNumber rd))
        (List.range (splitIndex rd + 1)) (splitAdded now ks rd).map 0 [] = .ok r) ↔
        splitHeld now ks rd 0 ≠ some [] := combineLoop_range_ok_iff _ _ _ _
    rw [if_pos hflag, and_iff_right hflag, ← ne_eq, ← hloop]
    cases combineLoop (splitKey rd (splitNumber rd)) (List.range (splitIndex rd + 1))
        (splitAdded now ks rd).map 0 [] with
    | error e => simp
    | ok r => obtain ⟨map, _ | p⟩ := r <;> simp
  · rw [if_neg hflag]
    exact iff_of_true ⟨_, rfl⟩ fun h => hflag h.1

/-- The sub-packet, or one inside the packet that it completes, is shorter than its numbers or belongs
to a message whose first sub-packet is empty. -/
inductive Broken (now : ℚ) : KsnSplitClass → KsnCorePacketData → Prop
  | short {ks rd} (h : rd.data.length < 2 * 2) : Broken now ks rd
  | emptyFirst {ks rd} (hflag : splitFlag rd ≠ 0) (h : splitHeld now ks rd 0 = some []) :
    Broken now ks rd
  | inside {ks rd} (hc : SplitCompletes now ks rd) (hcmd : (splitJoined now ks rd).cmd = cmdSplit)
    (h : Broken now (splitRest now ks rd) (splitJoined now ks rd)) : Broken now ks rd

theorem broken_iff_of_completes {ks : KsnSplitClass} (hc : SplitCompletes now ks rd) :
    Broken now ks rd ↔ (splitJoined now ks rd).cmd = cmdSplit ∧
      Broken now (splitRest now ks rd) (splitJoined now ks rd) := by
  constructor
  · intro h
    cases h with
    | short h => exact absurd hc.size (Nat.not_le.mpr h)
    | emptyFirst hflag h => exact absurd h hc.first
    | inside _ hcmd h => exact ⟨hcmd, h⟩
  · exact fun h => .inside hc h.1 h.2

theorem broken_iff_of_not_completes {ks : KsnSplitClass} (hc : ¬SplitCompletes now ks rd) :
    Broken now ks rd ↔ ¬ ∃ r, ksnSplitCombine now ks rd = .ok r := by
  rw [ksnSplitCombine_ok_iff, not_and_or, not_not, Nat.not_le]
  constructor
  · intro h
    cases h with
    | short h => exact .inl h
    | emptyFirst hflag h => exact .inr ⟨hflag, h⟩
    | inside hc' _ _ => exact absurd hc' hc
  · rintro (h | ⟨hflag, h⟩)
    · exact .short h
    · exact .emptyFirst hflag h

theorem cmdSplitCb_fault_of_not_completes (hc : ¬SplitCompletes now mem.ks rd) :
    (cmdSplitCb command now mem rd).fault ≠ none ↔
      ¬ ∃ r, ksnSplitCombine now mem.ks rd = .ok r := by
  rw [cmdSplitCb]
  cases hcombine : ksnSplitCombine now mem.ks rd with
  | error e =>
    have hmem : ksnSplitCombineMem now mem rd = .error e := by
      rw [ksnSplitCombineMem, hcombine]
    split
    · simp
    · rename_i heq
      rw [hmem] at heq
      cases heq
    · rename_i heq
      rw [hmem] at heq
      cases heq
  | ok q =>
    obtain ⟨ks', _ | rds⟩ := q
    · have hmem : ∃ mem', ksnSplitCombineMem now mem rd = .ok (mem', none) := by
        rw [ksnSplitCombineMem, hcombine]
        exact ⟨_, rfl⟩
      obtain ⟨mem', hmem⟩ := hmem
      split
      · rename_i heq
        rw [hmem] at heq
        cases heq
      · simp
      · rename_i heq
        rw [hmem] at heq
        cases heq
    · exact absurd (ksnSplitCombine_eq_some_iff.mp hcombine).1 hc

/-- **The callback does not return** exactly when a sub-packet is broken. -/
theorem cmdSplitCb_fault_iff (mem : SplitMem) (rd : KsnCorePacketData) :
    (cmdSplitCb command now mem rd).fault ≠ none ↔ Broken now mem.ks rd := by
  by_cases hc : SplitCompletes now mem.ks rd
  · rw [broken_iff_of_completes hc]
    have hdispatch : (cmdSplitCb command now mem rd).fault ≠ none ↔
        (splitDispatch command now mem rd).fault ≠ none := by
      by_cases hfault : (splitDispatch command now mem rd).fault = none
      · exact iff_of_false (not_not_intro (cmdSplitCb_of_return command hc hfault).1)
          (not_not_intro hfault)
      · rw [cmdSplitCb_of_fault command hc hfault]
    rw [hdispatch]
    by_cases hcmd : (splitJoined now mem.ks rd).cmd = cmdSplit
    · rw [splitDispatch_split command hcmd, and_iff_right hcmd]
      exact cmdSplitCb_fault_iff (mem.combined now rd) _
    · rw [splitDispatch_command command hcmd]
      exact iff_of_false (not_not_intro rfl) fun h => hcmd h.1
  · rw [broken_iff_of_not_completes hc]
    exact cmdSplitCb_fault_of_not_completes command hc
termination_by splitBytes mem.ks rd
decreasing_by exact splitBytes_lt (ksnSplitCombine_of_completes hc)

/-- A callback that does not return has freed nothing. -/
theorem cmdSplitCb_fault (mem : SplitMem) (rd : KsnCorePacketData)
    (h : (cmdSplitCb command now mem rd).fault ≠ none) :
    (cmdSplitCb command now mem rd).events = [] := by
  by_cases hc : SplitCompletes now mem.ks rd
  · by_cases hfault : (splitDispatch command now mem rd).fault = none
    · exact absurd (cmdSplitCb_of_return command hc hfault).1 h
    · rw [cmdSplitCb_of_fault command hc hfault]
      by_cases hcmd : (splitJoined now mem.ks rd).cmd = cmdSplit
      · rw [splitDispatch_split command hcmd] at hfault ⊢
        exact cmdSplitCb_fault (mem.combined now rd) _ hfault
      · rw [splitDispatch_command command hcmd] at hfault
        exact absurd rfl hfault
  · exact (cmdSplitCb_of_not_completes command hc).1
termination_by splitBytes mem.ks rd
decreasing_by exact splitBytes_lt (ksnSplitCombine_of_completes hc)

/-- A callback that combined a packet and returned has freed what `data_save` points to. -/
theorem cmdSplitCb_live (hc : SplitCompletes now mem.ks rd)
    (h : (cmdSplitCb command now mem rd).fault = none) :
    (cmdSplitCb command now mem rd).mem.live = false := by
  rw [(cmdSplitCb_of_return command hc (splitDispatch_fault command hc h)).2.1]
  exact live_ksnSplitFreeRds _

/-- A combined packet that completes no other one leaves its own buffer to be freed. -/
theorem splitDispatch_spec (hc : SplitCompletes now mem.ks rd)
    (hnot : ¬CompletesNested now mem.ks rd) :
    (∀ own dataSave live,
      SplitCbEvent.freeRds own dataSave live ∉ (splitDispatch command now mem rd).events) ∧
      (splitDispatch command now mem rd).mem.dataSave = some mem.heap.next ∧
      (splitDispatch command now mem rd).mem.live = true := by
  by_cases hcmd : (splitJoined now mem.ks rd).cmd = cmdSplit
  · rw [splitDispatch_split command hcmd]
    have hinner : ¬SplitCompletes now (mem.combined now rd).ks (splitJoined now mem.ks rd) :=
      fun h => hnot ⟨hc, hcmd, h⟩
    obtain ⟨hevents, hsave, hlive⟩ := cmdSplitCb_of_not_completes command hinner
    exact ⟨by simp [hevents], hsave, hlive live_combined⟩
  · rw [splitDispatch_command command hcmd]
    exact ⟨by simp, rfl, live_combined⟩

/-- A nested callback that returned has freed the buffer of the outer packet's free. -/
theorem not_paired_of_nested (hnested : CompletesNested now mem.ks rd)
    (hfault : (cmdSplitCb command now mem rd).fault = none) :
    ¬(cmdSplitCb command now mem rd).Paired := by
  obtain ⟨hc, hcmd, hinner⟩ := hnested
  have hreturn := splitDispatch_fault command hc hfault
  obtain ⟨-, -, received, -, hevents⟩ := cmdSplitCb_of_return command hc hreturn
  rw [splitDispatch_split command hcmd] at hreturn hevents
  have hlive := cmdSplitCb_live command hinner hreturn
  intro hpaired
  have hown := hpaired _ _ _ (hevents ▸ List.mem_append_right _ (List.mem_singleton.mpr rfl))
  rw [hlive] at hown
  cases hown.2

/-- Without a nested packet the one buffer is the right one. -/
theorem paired_of_not_nested (hnot : ¬CompletesNested now mem.ks rd) :
    (cmdSplitCb command now mem rd).Paired := by
  by_cases hc : SplitCompletes now mem.ks rd
  · by_cases hfault : (cmdSplitCb command now mem rd).fault = none
    · obtain ⟨hfree, hsave, hlive⟩ := splitDispatch_spec command hc hnot
      obtain ⟨-, -, received, hreceived, hevents⟩ :=
        cmdSplitCb_of_return command hc (splitDispatch_fault command hc hfault)
      intro own dataSave live hmem
      rw [hevents, hsave, hlive] at hmem
      rcases List.mem_append.mp hmem with hmem | hmem
      · rcases List.mem_append.mp hmem with hmem | hmem
        · exact absurd hmem (hfree _ _ _)
        · cases hreceived _ hmem
      · rw [List.mem_singleton] at hmem
        cases hmem
        exact ⟨rfl, rfl⟩
    · exact SplitCbResult.paired_of_nil (cmdSplitCb_fault command mem rd hfault)
  · exact SplitCbResult.paired_of_nil (cmdSplitCb_of_not_completes command hc).1

/-- **The right buffer is freed**, for any packet and any map: each `ksnSplitFreeRds` finds in
`data_save` the buffer of its own packet, not freed before, unless a combined `CMD_SPLIT` packet
completes a packet itself and nothing inside it is broken. -/
theorem cmdSplitCb_paired_iff (command : KsnCorePacketData → ℤ) (now : ℚ) (mem : SplitMem)
    (rd : KsnCorePacketData) :
    (cmdSplitCb command now mem rd).Paired ↔
      ¬(CompletesNested now mem.ks rd ∧ ¬Broken now mem.ks rd) := by
  rw [← cmdSplitCb_fault_iff command, not_not]
  constructor
  · rintro hpaired ⟨hnested, hfault⟩
    exact not_paired_of_nested command hnested hfault hpaired
  · intro hnot
    by_cases hfault : (cmdSplitCb command now mem rd).fault = none
    · exact paired_of_not_nested command fun h => hnot ⟨h, hfault⟩
    · exact SplitCbResult.paired_of_nil (cmdSplitCb_fault command mem rd hfault)

/-- A sub-packet that is a whole packet, with the command `CMD_SPLIT` and another such sub-packet as
its data. -/
def nestedPacket : KsnCorePacketData where
  addr := CString.empty
  port := 9000
  cmd := cmdSplit
  data := [1, 0, 0, 128, 2, 0, 0, 128, 7, cmdEcho, cmdSplit]

theorem nestedPacket_completes : CompletesNested 0 ({} : SplitMem).ks nestedPacket :=
  ⟨by decide +kernel, by decide +kernel, by decide +kernel⟩

theorem nestedPacket_command :
    (splitJoined 0 (({} : SplitMem).combined 0 nestedPacket).ks
      (splitJoined 0 ({} : SplitMem).ks nestedPacket)).cmd ≠ cmdSplit := by
  decide +kernel

/-- The callback returns from both. -/
theorem nestedPacket_returns (command : KsnCorePacketData → ℤ) :
    (cmdSplitCb command 0 {} nestedPacket).fault = none := by
  obtain ⟨hc, hcmd, hinner⟩ := nestedPacket_completes
  have hlast := splitDispatch_command command nestedPacket_command
  have hreturn : (splitDispatch command 0 (({} : SplitMem).combined 0 nestedPacket)
      (splitJoined 0 ({} : SplitMem).ks nestedPacket)).fault = none := by
    rw [hlast]
  refine (cmdSplitCb_of_return command hc ?_).1
  rw [splitDispatch_split command hcmd]
  exact (cmdSplitCb_of_return command hinner hreturn).1

/-- Freeing the outer packet frees the buffer of the inner one again. -/
theorem not_cmdSplitCb_paired :
    ¬ ∀ (command : KsnCorePacketData → ℤ) (now : ℚ) (mem : SplitMem) (rd : KsnCorePacketData),
      rd.cmd = cmdSplit → (cmdSplitCb command now mem rd).Paired := by
  intro h
  have hpaired := h (fun _ => 1) 0 {} nestedPacket rfl
  exact not_paired_of_nested _ nestedPacket_completes (nestedPacket_returns _) hpaired

end Teonet
