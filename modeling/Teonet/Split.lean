import Mathlib.Data.Nat.Bitwise
import Mathlib.Data.Rat.Defs
import Mathlib.Algebra.Order.Ring.Rat
import Teonet.Lib.Bytes
import Teonet.Lib.FinMap
import Teonet.Lib.Windows
import Teonet.Packet

/-! # Splitting large packets

`ksnSplitPacket` and `ksnSplitCombine` of `net_split.c`.  Data of more than `MAX_DATA_LEN` bytes
is sent in sub-packets `[length][packet number][sub-packet number][data]`, three 16-bit fields
in front; the last sub-packet has `LAST_PACKET_FLAG` in its number and the first one carries the
command behind its data.  The receiver keeps sub-packets in a map under the sender's name and the
two numbers and joins them when the flagged one arrives.

`splitPayload_subPacket` says what travels in a sub-packet, `ksnSplitCombine_payload` what the
receiver does with it, and `combineLoop_pieces` what the joining loop returns.  Together they
give the round trip of a large packet, for a receiver that already holds other sub-packets, as
long as no more than ten seconds pass between two of them. -/

namespace Teonet

open Bytes Windows

/-- `MAX_DATA_LEN`. -/
def maxDataLen : ℕ := 448

/-- `MAX_PACKET_LEN`. -/
def maxPacketLen : ℕ := 5 * 1024 * 1024

/-- `LAST_PACKET_FLAG`. -/
def lastPacketFlag : ℕ := 0x8000

/-- `ksnSplitClass`; times are in seconds. -/
structure KsnSplitClass where
  map : FinMap (List UInt8) (List UInt8) := FinMap.empty
  packetNumber : UInt16 := 0
  lastAdded : ℚ := 0
  dataSave : List UInt8 := []

/-- Where `ksnSplitCombine` leaves the payload it was given: a payload shorter than its two
numbers, and a first sub-packet without the byte that holds the command. -/
inductive SplitFault
  | shortPayload
  | emptyFirst
deriving DecidableEq, Repr

/-! ### Splitting -/

/-- One sub-packet of `ksnSplitPacket`; `num` is `*num_subpackets`. -/
def subPacket (cmd : UInt8) (packetNumber : UInt16) (packet : List UInt8) (num i : ℕ) :
    List UInt8 :=
  let isLast := i = num - 1
  let dataLen := (if isLast then packet.length - maxDataLen * i else maxDataLen) % 65536
  le16 (if i = 0 then dataLen + 1 else dataLen) ++ le16 packetNumber.toNat ++
    le16 (i % 65536 ||| if isLast then lastPacketFlag else 0) ++
    (packet.drop (maxDataLen * i)).take dataLen ++ if i = 0 then [cmd] else []

/-- `ksnSplitPacket`: no sub-packets for data that fits in one packet. -/
def ksnSplitPacket (ks : KsnSplitClass) (cmd : UInt8) (packet : List UInt8) :
    KsnSplitClass × List (List UInt8) :=
  if packet.length > maxDataLen then
    let num := packet.length / maxDataLen + if packet.length % maxDataLen ≠ 0 then 1 else 0
    ({ ks with packetNumber := ks.packetNumber + 1 },
      (List.range num).map (subPacket cmd ks.packetNumber packet num))
  else (ks, [])

/-- What `ksnCoreSendto` sends of a sub-packet: everything behind the length field, which counts
the data and not the two numbers. -/
def splitPayload (subpacket : List UInt8) : List UInt8 :=
  (subpacket.drop 2).take (getLe16 subpacket + 2 * 2)

/-! ### Combining -/

/-- The map key of a sub-packet (`create_key`). -/
def splitKey (rd : KsnCorePacketData) (packetNum subpacketNum : ℕ) : List UInt8 :=
  rd.fromLen :: (rd.fromName.toBuf.take rd.fromLen.toNat ++ le16 packetNum ++
    le16 subpacketNum)

/-- The loop that joins the sub-packets `is` and takes them out of the map.  It ends without a
packet at the first one that is missing. -/
def combineLoop (key : ℕ → List UInt8) : List ℕ → FinMap (List UInt8) (List UInt8) → UInt8 →
    List UInt8 → Except SplitFault
      (FinMap (List UInt8) (List UInt8) × Option (UInt8 × List UInt8))
  | [], map, cmd, data => .ok (map, some (cmd, data))
  | i :: is, map, cmd, data =>
    match map.get (key i) with
    | none => .ok (map, none)
    | some dataS =>
      if i = 0 then
        match dataS.getLast? with
        | none => .error .emptyFirst
        | some c => combineLoop key is (map.remove (key i)) c (data ++ dataS.dropLast)
      else combineLoop key is (map.remove (key i)) cmd (data ++ dataS)

/-- A sub-packet is put into the map.  Sub-packets that were never completed are dropped when
none came for ten seconds. -/
def addSubpacket (now : ℚ) (ks : KsnSplitClass) (key data : List UInt8) : KsnSplitClass :=
  let map := if now - ks.lastAdded > 10 ∧ ks.map.isEmpty = false then FinMap.empty else ks.map
  { ks with map := map.add key data, lastAdded := now }

/-- `ksnSplitCombine`: the combined packet, or `none` for `NULL`. -/
def ksnSplitCombine (now : ℚ) (ks : KsnSplitClass) (rd : KsnCorePacketData) :
    Except SplitFault (KsnSplitClass × Option KsnCorePacketData) :=
  if rd.data.length < 2 * 2 then .error .shortPayload else
  let packetNum := getLe16 rd.data
  let lastPacket := getLe16 (rd.data.drop 2) &&& lastPacketFlag
  let subpacketNum := getLe16 (rd.data.drop 2) &&& (lastPacketFlag - 1)
  let ks := addSubpacket now ks (splitKey rd packetNum subpacketNum) (rd.data.drop (2 * 2))
  if lastPacket ≠ 0 then
    match combineLoop (splitKey rd packetNum) (List.range (subpacketNum + 1)) ks.map 0 [] with
    | .error e => .error e
    | .ok (map, none) => .ok ({ ks with map := map }, none)
    | .ok (map, some (cmd, data)) =>
      .ok ({ ks with map := map, dataSave := data }, some {
        addr := rd.addr
        port := rd.port
        fromName := rd.fromName
        fromLen := rd.fromLen
        cmd := cmd
        data := data })
  else .ok (ks, none)

/-- The receiver is given packets at the times they arrive, one after the other. -/
def combineAll (ks : KsnSplitClass) : List (ℚ × KsnCorePacketData) →
    Except SplitFault (KsnSplitClass × List (Option KsnCorePacketData))
  | [] => .ok (ks, [])
  | (now, rd) :: rest =>
    match ksnSplitCombine now ks rd with
    | .error e => .error e
    | .ok (ks, r) =>
      match combineAll ks rest with
      | .error e => .error e
      | .ok (ks, rs) => .ok (ks, r :: rs)

theorem combineAll_append {ks ks' : KsnSplitClass} {l : List (ℚ × KsnCorePacketData)}
    {rs : List (Option KsnCorePacketData)} (h : combineAll ks l = .ok (ks', rs))
    {ks'' : KsnSplitClass} {l' : List (ℚ × KsnCorePacketData)}
    {rs' : List (Option KsnCorePacketData)} (h' : combineAll ks' l' = .ok (ks'', rs')) :
    combineAll ks (l ++ l') = .ok (ks'', rs ++ rs') := by
  induction l generalizing ks rs with
  | nil =>
    cases h
    exact h'
  | cons p l ih =>
    obtain ⟨now, rd⟩ := p
    rw [List.cons_append, combineAll]
    rw [combineAll] at h
    cases hc : ksnSplitCombine now ks rd with
    | error e => rw [hc] at h; cases h
    | ok r =>
      obtain ⟨ks₁, r⟩ := r
      rw [hc] at h
      cases ha : combineAll ks₁ l with
      | error e => simp only [ha] at h; cases h
      | ok q =>
        obtain ⟨ks₂, rs₂⟩ := q
        simp only [ha] at h
        cases h
        simp only [ih ha, List.cons_append]

/-! ### What travels in a sub-packet -/

/-- The data of a sub-packet, as the receiver keeps it. -/
def splitPiece (cmd : UInt8) (packet : List UInt8) (i : ℕ) : List UInt8 :=
  window maxDataLen packet i ++ if i = 0 then [cmd] else []

/-- The sub-packet number with its flag. -/
def subpacketField (num i : ℕ) : ℕ := i ||| if i = num - 1 then lastPacketFlag else 0

theorem splitPiece_length_lt (cmd : UInt8) (packet : List UInt8) (i : ℕ) :
    (splitPiece cmd packet i).length ≤ maxDataLen + 1 := by
  have hw := window_length maxDataLen packet i
  rw [splitPiece, List.length_append]
  by_cases h : i = 0
  · rw [if_pos h, List.length_singleton]
    omega
  · rw [if_neg h, List.length_nil]
    omega

/-- A sub-packet is its length and its payload, and the length field is exact. -/
theorem subPacket_eq (cmd : UInt8) (packetNumber : UInt16) (packet : List UInt8) {i : ℕ}
    (hi : i < windowCount maxDataLen packet.length)
    (hnum : windowCount maxDataLen packet.length ≤ lastPacketFlag) :
    subPacket cmd packetNumber packet (windowCount maxDataLen packet.length) i =
      le16 (splitPiece cmd packet i).length ++ (le16 packetNumber.toNat ++
        (le16 (subpacketField (windowCount maxDataLen packet.length) i) ++
          splitPiece cmd packet i)) := by
  have hcover := le_mul_windowCount (show 0 < maxDataLen by decide) packet.length
  have hlen : (window maxDataLen packet i).length =
      (if i = windowCount maxDataLen packet.length - 1 then packet.length - maxDataLen * i
        else maxDataLen) % 65536 := by
    by_cases hlast : i = windowCount maxDataLen packet.length - 1
    · have hnum' : windowCount maxDataLen packet.length = i + 1 := by omega
      rw [hnum', Nat.mul_add, Nat.mul_one] at hcover
      rw [if_pos hlast, window_length]
      simp only [maxDataLen] at *
      omega
    · rw [if_neg hlast, window_length_of_succ_lt (by omega)]
      rfl
  have hi' : i % 65536 = i := Nat.mod_eq_of_lt (by simp only [lastPacketFlag] at hnum; omega)
  have htake : (packet.drop (maxDataLen * i)).take (window maxDataLen packet i).length =
      window maxDataLen packet i := by
    rw [window_length, ← List.length_drop, window]
    exact (List.take_eq_take_min).symm
  simp only [subPacket, hi', ← hlen, htake, splitPiece, subpacketField, List.append_assoc]
  by_cases h0 : i = 0
  · simp only [if_pos h0, List.length_append, List.length_singleton]
  · simp only [if_neg h0, List.append_nil]

/-- The payload of a sub-packet is its two numbers and its data. -/
theorem splitPayload_subPacket (cmd : UInt8) (packetNumber : UInt16) (packet : List UInt8) {i : ℕ}
    (hi : i < windowCount maxDataLen packet.length)
    (hnum : windowCount maxDataLen packet.length ≤ lastPacketFlag) :
    splitPayload (subPacket cmd packetNumber packet (windowCount maxDataLen packet.length) i) =
      le16 packetNumber.toNat ++
        (le16 (subpacketField (windowCount maxDataLen packet.length) i) ++
          splitPiece cmd packet i) := by
  have hpiece := splitPiece_length_lt cmd packet i
  have hlt : (splitPiece cmd packet i).length < 65536 := by
    simp only [maxDataLen] at hpiece
    omega
  rw [subPacket_eq cmd packetNumber packet hi hnum, splitPayload,
    getLe16_le16_append_of_lt hlt, drop_le16_append, List.take_of_length_le]
  simp only [List.length_append, le_length]
  omega

/-! ### The sub-packet number -/

theorem subpacketField_eq {num i : ℕ} (hi : i < lastPacketFlag) :
    subpacketField num i = i + if i = num - 1 then lastPacketFlag else 0 := by
  by_cases h : i = num - 1
  · rw [subpacketField, if_pos h, Nat.or_comm, Nat.add_comm]
    exact (Nat.two_pow_add_eq_or_of_lt (i := 15) hi 1).symm
  · rw [subpacketField, if_neg h, Nat.or_zero, Nat.add_zero]

theorem subpacketField_lt {num i : ℕ} (hi : i < lastPacketFlag) :
    subpacketField num i < 65536 := by
  rw [subpacketField_eq hi]
  simp only [lastPacketFlag] at *
  split_ifs <;> omega

/-- The number is read back without its flag. -/
theorem subpacketField_num {num i : ℕ} (hi : i < lastPacketFlag) :
    subpacketField num i &&& (lastPacketFlag - 1) = i := by
  rw [show lastPacketFlag - 1 = 2 ^ 15 - 1 from rfl, Nat.and_two_pow_sub_one_eq_mod,
    subpacketField_eq hi]
  simp only [lastPacketFlag] at *
  split_ifs <;> omega

/-- The flag says whether the sub-packet is the last one. -/
theorem subpacketField_flag {num i : ℕ} (hi : i < lastPacketFlag) :
    subpacketField num i &&& lastPacketFlag ≠ 0 ↔ i = num - 1 := by
  have hflag : subpacketField num i &&& lastPacketFlag =
      (subpacketField num i / 32768 % 2) * 32768 := by
    rw [show lastPacketFlag = 2 ^ 15 from rfl, Nat.and_two_pow, Nat.testBit_eq_decide_div_mod_eq,
      show 2 ^ 15 = 32768 from rfl]
    rcases Nat.mod_two_eq_zero_or_one (subpacketField num i / 32768) with h | h <;> rw [h] <;> rfl
  rw [hflag, subpacketField_eq hi]
  simp only [lastPacketFlag] at *
  split_ifs with h
  · simp only [h, iff_true]
    omega
  · simp only [h, iff_false, not_not]
    omega

/-! ### The joining loop -/

/-- The map without some keys. -/
def removeKeys (key : ℕ → List UInt8) (is : List ℕ) (map : FinMap (List UInt8) (List UInt8)) :
    FinMap (List UInt8) (List UInt8) :=
  is.foldl (fun map i => map.remove (key i)) map

theorem removeKeys_get (key : ℕ → List UInt8) (is : List ℕ)
    (map : FinMap (List UInt8) (List UInt8)) (k : List UInt8) :
    (removeKeys key is map).get k = if k ∈ is.map key then none else map.get k := by
  induction is generalizing map with
  | nil => simp [removeKeys]
  | cons i is ih =>
    have hstep : removeKeys key (i :: is) map = removeKeys key is (map.remove (key i)) := rfl
    rw [hstep, ih, FinMap.get_remove, List.map_cons]
    by_cases hk : k = key i <;> simp [hk]

/-- **The loop joins what the map holds**, behind the first sub-packet, and takes it out. -/
theorem combineLoop_pieces {key : ℕ → List UInt8} {piece : ℕ → List UInt8} :
    ∀ (is : List ℕ) {map : FinMap (List UInt8) (List UInt8)} (cmd : UInt8) (data : List UInt8),
      is.Nodup → (∀ i ∈ is, i ≠ 0) → (∀ i ∈ is, ∀ j ∈ is, key i = key j → i = j) →
      (∀ i ∈ is, map.get (key i) = some (piece i)) →
      combineLoop key is map cmd data =
        .ok (removeKeys key is map, some (cmd, data ++ (is.map piece).flatten))
  | [], map, cmd, data, _, _, _, _ => by simp [combineLoop, removeKeys]
  | i :: is, map, cmd, data, hnodup, hne, hinj, hget => by
      obtain ⟨hmem, hnodup'⟩ := List.nodup_cons.mp hnodup
      have hrest : ∀ j ∈ is, (map.remove (key i)).get (key j) = some (piece j) := by
        intro j hj
        have hkey : key j ≠ key i := by
          intro h
          exact hmem (hinj j (List.mem_cons_of_mem _ hj) i List.mem_cons_self h ▸ hj)
        rw [FinMap.get_remove_of_ne _ hkey]
        exact hget j (List.mem_cons_of_mem _ hj)
      have hloop := combineLoop_pieces is cmd (data ++ piece i) hnodup'
        (fun j hj => hne j (List.mem_cons_of_mem _ hj))
        (fun j hj k hk => hinj j (List.mem_cons_of_mem _ hj) k (List.mem_cons_of_mem _ hk)) hrest
      rw [combineLoop, hget i List.mem_cons_self]
      simp only [if_neg (hne i List.mem_cons_self)]
      rw [hloop, List.map_cons, List.flatten_cons, List.append_assoc]
      rfl

/-- What the loop joins was in the map, the first sub-packet with a command. -/
theorem combineLoop_held {key : ℕ → List UInt8} {map' : FinMap (List UInt8) (List UInt8)}
    {r : UInt8 × List UInt8} :
    ∀ (is : List ℕ) {map : FinMap (List UInt8) (List UInt8)} {cmd : UInt8} {data : List UInt8},
      combineLoop key is map cmd data = .ok (map', some r) →
      ∀ i ∈ is, map.get (key i) ≠ none ∧ (i = 0 → map.get (key i) ≠ some [])
  | [], _, _, _, _, i, hi => by cases hi
  | j :: is, map, cmd, data, h, i, hi => by
      have hstep : (map.get (key j) ≠ none ∧ (j = 0 → map.get (key j) ≠ some [])) ∧
          ∃ cmd' data', combineLoop key is (map.remove (key j)) cmd' data' =
            .ok (map', some r) := by
        rw [combineLoop] at h
        cases hj : map.get (key j) with
        | none => rw [hj] at h; cases h
        | some dataS =>
          simp only [hj] at h
          split_ifs at h with hzero
          · cases hc : dataS.getLast? with
            | none => rw [hc] at h; cases h
            | some c =>
              rw [hc] at h
              refine ⟨⟨by simp, fun _ hnil => ?_⟩, _, _, h⟩
              rw [Option.some.inj hnil] at hc
              cases hc
          · exact ⟨⟨by simp, fun h0 => absurd h0 hzero⟩, _, _, h⟩
      obtain ⟨hhead, cmd', data', hrest⟩ := hstep
      rcases List.mem_cons.mp hi with rfl | hi
      · exact hhead
      · have hheld := combineLoop_held is hrest i hi
        rw [FinMap.get_remove] at hheld
        split_ifs at hheld
        · exact absurd rfl hheld.1
        · exact hheld

/-- The first sub-packet gives the command, the others follow. -/
theorem combineLoop_first {key : ℕ → List UInt8} {piece : ℕ → List UInt8} {n : ℕ} {cmd : UInt8}
    {data : List UInt8} {map : FinMap (List UInt8) (List UInt8)}
    (hinj : ∀ i < n + 1, ∀ j < n + 1, key i = key j → i = j)
    (hfirst : map.get (key 0) = some (data ++ [cmd]))
    (hget : ∀ i, 0 < i → i < n + 1 → map.get (key i) = some (piece i)) :
    combineLoop key (List.range (n + 1)) map 0 [] = .ok (removeKeys key (List.range (n + 1)) map,
      some (cmd, data ++ (((List.range n).map Nat.succ).map piece).flatten)) := by
  have hpos : ∀ i ∈ (List.range n).map Nat.succ, 0 < i ∧ i < n + 1 := by
    intro i hi
    obtain ⟨j, hj, rfl⟩ := List.mem_map.mp hi
    have hlt := List.mem_range.mp hj
    omega
  have hnodup : ((List.range n).map Nat.succ).Nodup :=
    List.Nodup.map Nat.succ_injective List.nodup_range
  have hrest : ∀ i ∈ (List.range n).map Nat.succ,
      (map.remove (key 0)).get (key i) = some (piece i) := by
    intro i hi
    obtain ⟨hi0, hilt⟩ := hpos i hi
    have hkey : key i ≠ key 0 := by
      intro heq
      have := hinj i hilt 0 (by omega) heq
      omega
    rw [FinMap.get_remove_of_ne _ hkey]
    exact hget i hi0 hilt
  have hloop := combineLoop_pieces ((List.range n).map Nat.succ) cmd ([] ++ data) hnodup
    (fun i hi => (hpos i hi).1.ne') (fun i hi j hj => hinj i (hpos i hi).2 j (hpos j hj).2) hrest
  rw [List.range_succ_eq_map, combineLoop, hfirst]
  simp only [if_pos, List.getLast?_concat, List.dropLast_concat]
  rw [hloop]
  rfl

/-- The sub-packets of a packet give its command and its data. -/
theorem combineLoop_range {key : ℕ → List UInt8} {cmd : UInt8} {packet : List UInt8} {num : ℕ}
    {map : FinMap (List UInt8) (List UInt8)} (hnum : 0 < num)
    (hinj : ∀ i < num, ∀ j < num, key i = key j → i = j)
    (hget : ∀ i < num, map.get (key i) = some (splitPiece cmd packet i)) :
    combineLoop key (List.range num) map 0 [] = .ok (removeKeys key (List.range num) map,
      some (cmd, packet.take (maxDataLen * num))) := by
  obtain ⟨n, rfl⟩ := Nat.exists_eq_succ_of_ne_zero hnum.ne'
  have hjoin : window maxDataLen packet 0 ++
      (((List.range n).map Nat.succ).map (splitPiece cmd packet)).flatten =
      packet.take (maxDataLen * (n + 1)) := by
    rw [← flatten_map_window, List.range_succ_eq_map, List.map_cons, List.flatten_cons]
    congr 2
    apply List.map_congr_left
    intro i hi
    obtain ⟨j, -, rfl⟩ := List.mem_map.mp hi
    rw [splitPiece, if_neg (Nat.succ_ne_zero j), List.append_nil]
  have hfirst := hget 0 hnum
  rw [splitPiece, if_pos rfl] at hfirst
  rw [← hjoin]
  exact combineLoop_first hinj hfirst fun i _ hi => hget i hi

theorem splitKey_inj (rd : KsnCorePacketData) (packetNum : ℕ) {i j : ℕ} (hi : i < 65536)
    (hj : j < 65536) (h : splitKey rd packetNum i = splitKey rd packetNum j) : i = j := by
  have hle : le16 i = le16 j := List.append_cancel_left (List.cons.inj h).2
  rw [le16_eq_le16_iff, Nat.mod_eq_of_lt hi, Nat.mod_eq_of_lt hj] at hle
  exact hle

/-! ### The round trip -/

/-- What `ksnSplitCombine` does with a payload made of two numbers and data. -/
theorem ksnSplitCombine_payload (now : ℚ) (ks : KsnSplitClass) {rd : KsnCorePacketData}
    {number field : ℕ} {piece : List UInt8} (hnumber : number < 65536) (hfield : field < 65536)
    (hdata : rd.data = le16 number ++ (le16 field ++ piece)) :
    ksnSplitCombine now ks rd =
      (let ks := addSubpacket now ks (splitKey rd number (field &&& (lastPacketFlag - 1))) piece
      if field &&& lastPacketFlag ≠ 0 then
        match combineLoop (splitKey rd number)
            (List.range ((field &&& (lastPacketFlag - 1)) + 1)) ks.map 0 [] with
        | .error e => .error e
        | .ok (map, none) => .ok ({ ks with map := map }, none)
        | .ok (map, some (cmd, data)) =>
          .ok ({ ks with map := map, dataSave := data }, some {
            addr := rd.addr
            port := rd.port
            fromName := rd.fromName
            fromLen := rd.fromLen
            cmd := cmd
            data := data })
      else .ok (ks, none)) := by
  have hlen : ¬ rd.data.length < 2 * 2 := by
    rw [hdata, List.length_append, List.length_append, le_length, le_length]
    omega
  have hnum : getLe16 rd.data = number := by
    rw [hdata, getLe16_le16_append_of_lt hnumber]
  have hfld : getLe16 (rd.data.drop 2) = field := by
    rw [hdata, drop_le16_append, getLe16_le16_append_of_lt hfield]
  have hpiece : rd.data.drop (2 * 2) = piece := by
    rw [hdata, show 2 * 2 = 2 + 2 from rfl, ← List.drop_drop, drop_le16_append,
      drop_le16_append]
  rw [ksnSplitCombine, if_neg hlen]
  simp only [hnum, hfld, hpiece]

theorem addSubpacket_get (now : ℚ) (ks : KsnSplitClass) (key data : List UInt8) :
    (addSubpacket now ks key data).map.get key = some data :=
  FinMap.get_add_self _ key data

/-- Within ten seconds nothing is dropped. -/
theorem addSubpacket_get_of_ne {now : ℚ} {ks : KsnSplitClass} (h : now - ks.lastAdded ≤ 10)
    {key key' : List UInt8} (hne : key' ≠ key) (data : List UInt8) :
    (addSubpacket now ks key data).map.get key' = ks.map.get key' := by
  have hfresh : ¬ (now - ks.lastAdded > 10 ∧ ks.map.isEmpty = false) :=
    fun hold => absurd hold.1 (not_lt.mpr h)
  simp only [addSubpacket]
  rw [if_neg hfresh, FinMap.get_add_of_ne _ hne]

/-- The receiver holds the first `k` sub-packets of a large packet, the last one since `t`. -/
structure Holds (ks : KsnSplitClass) (rd : KsnCorePacketData) (number : ℕ) (cmd : UInt8)
    (data : List UInt8) (k : ℕ) (t : ℚ) : Prop where
  lastAdded : 0 < k → ks.lastAdded = t
  piece : ∀ i < k, ks.map.get (splitKey rd number i) = some (splitPiece cmd data i)

/-- One more sub-packet is held. -/
theorem Holds.addSubpacket {ks : KsnSplitClass} {rd : KsnCorePacketData} {number : ℕ}
    {cmd : UInt8} {data : List UInt8} {k : ℕ} {t now : ℚ}
    (h : Holds ks rd number cmd data k t) (hgap : 0 < k → now - t ≤ 10) (hk : k < 65536) :
    Holds (addSubpacket now ks (splitKey rd number k) (splitPiece cmd data k)) rd number cmd data
      (k + 1) now where
  lastAdded _ := rfl
  piece i hi := by
    rcases Nat.lt_succ_iff_lt_or_eq.mp hi with hlt | rfl
    · have hpos : 0 < k := by omega
      have hne : splitKey rd number i ≠ splitKey rd number k := by
        intro hkey
        have := splitKey_inj rd number (by omega) hk hkey
        omega
      rw [addSubpacket_get_of_ne (by rw [h.lastAdded hpos]; exact hgap hpos) hne]
      exact h.piece i hlt
    · exact addSubpacket_get now ks _ _

/-- The packets a receiver gets when the sub-packets arrive one after the other at `times`. -/
def arrive (rd : KsnCorePacketData) (times : ℕ → ℚ) (packets : List (List UInt8)) :
    List (ℚ × KsnCorePacketData) :=
  packets.mapIdx fun i p => (times i, { rd with data := splitPayload p })

theorem arrive_ksnSplitPacket (sender : KsnSplitClass) (cmd : UInt8) {data : List UInt8}
    (hlo : maxDataLen < data.length)
    (hnum : windowCount maxDataLen data.length ≤ lastPacketFlag) (rd : KsnCorePacketData)
    (times : ℕ → ℚ) :
    arrive rd times (ksnSplitPacket sender cmd data).2 =
      (List.range (windowCount maxDataLen data.length)).map fun i => (times i, { rd with
        data := le16 sender.packetNumber.toNat ++
          (le16 (subpacketField (windowCount maxDataLen data.length) i) ++
            splitPiece cmd data i) }) := by
  have hpackets : (ksnSplitPacket sender cmd data).2 =
      (List.range (windowCount maxDataLen data.length)).map
        (subPacket cmd sender.packetNumber data (windowCount maxDataLen data.length)) := by
    rw [ksnSplitPacket, if_pos hlo]
    rfl
  rw [hpackets, arrive]
  apply List.ext_getElem
  · simp
  · intro i hi _
    have hi' : i < windowCount maxDataLen data.length := by simpa using hi
    simp [splitPayload_subPacket cmd sender.packetNumber data hi' hnum]

/-- The sub-packets before the last one are held and give nothing. -/
theorem combineAll_holds (receiver : KsnSplitClass) (rd : KsnCorePacketData) {number : ℕ}
    (hnumber : number < 65536) (cmd : UInt8) (data : List UInt8) {num : ℕ}
    (hnum : num ≤ lastPacketFlag) {times : ℕ → ℚ}
    (hgap : ∀ i, i + 1 < num → times (i + 1) - times i ≤ 10) :
    ∀ k, k < num → ∃ ks, combineAll receiver ((List.range k).map fun i => (times i, { rd with
        data := le16 number ++ (le16 (subpacketField num i) ++ splitPiece cmd data i) })) =
        .ok (ks, List.replicate k none) ∧ Holds ks rd number cmd data k (times (k - 1))
  | 0, _ => ⟨receiver, rfl, fun h => absurd h (Nat.lt_irrefl 0),
      fun i hi => absurd hi (Nat.not_lt_zero i)⟩
  | k + 1, hk => by
      obtain ⟨ks, hrun, hholds⟩ := combineAll_holds receiver rd hnumber cmd data hnum hgap k
        (by omega)
      have hk' : k < lastPacketFlag := by omega
      have hk16 : k < 65536 := lt_trans hk' (by decide)
      have hflag : ¬ subpacketField num k &&& lastPacketFlag ≠ 0 := by
        rw [subpacketField_flag hk']
        omega
      have hstep : 0 < k → times k - times (k - 1) ≤ 10 := by
        intro hpos
        have := hgap (k - 1) (by omega)
        rwa [Nat.sub_add_cancel hpos] at this
      refine ⟨addSubpacket (times k) ks (splitKey rd number k) (splitPiece cmd data k), ?_,
        hholds.addSubpacket hstep hk16⟩
      rw [List.range_succ, List.map_append, List.replicate_succ']
      refine combineAll_append hrun ?_
      simp only [List.map_cons, List.map_nil, combineAll]
      rw [ksnSplitCombine_payload (times k) ks hnumber (subpacketField_lt hk') rfl]
      simp only [if_neg hflag, subpacketField_num hk']
      rfl

/-- The last sub-packet gives the packet. -/
theorem ksnSplitCombine_last {ks : KsnSplitClass} {rd : KsnCorePacketData} {number : ℕ}
    (hnumber : number < 65536) {cmd : UInt8} {data : List UInt8} {k : ℕ} {t now : ℚ}
    (hk : k < lastPacketFlag) (hholds : Holds ks rd number cmd data k t)
    (hgap : 0 < k → now - t ≤ 10) (hcover : data.length ≤ maxDataLen * (k + 1)) :
    ∃ ks', ksnSplitCombine now ks { rd with
        data := le16 number ++ (le16 (subpacketField (k + 1) k) ++ splitPiece cmd data k) } =
      .ok (ks', some {
        addr := rd.addr
        port := rd.port
        fromName := rd.fromName
        fromLen := rd.fromLen
        cmd := cmd
        data := data }) := by
  have hk16 : k + 1 ≤ 65536 := le_trans (Nat.succ_le_of_lt hk) (by decide)
  have hflag : subpacketField (k + 1) k &&& lastPacketFlag ≠ 0 :=
    (subpacketField_flag hk).mpr rfl
  have hheld := hholds.addSubpacket hgap (by omega)
  have hloop := combineLoop_range (Nat.succ_pos k)
    (fun i hi j hj => splitKey_inj rd number (by omega) (by omega)) hheld.piece
  rw [List.take_of_length_le hcover] at hloop
  refine ⟨{ addSubpacket now ks (splitKey rd number k) (splitPiece cmd data k) with
    map := removeKeys (splitKey rd number) (List.range (k + 1))
      (addSubpacket now ks (splitKey rd number k) (splitPiece cmd data k)).map
    dataSave := data }, ?_⟩
  rw [ksnSplitCombine_payload now ks hnumber (subpacketField_lt hk) rfl]
  simp only [if_pos hflag, subpacketField_num hk]
  rw [show splitKey { rd with
      data := le16 number ++ (le16 (subpacketField (k + 1) k) ++ splitPiece cmd data k) } number =
    splitKey rd number from rfl, hloop]

/-- **Round trip of a large packet**: whatever else the receiver holds, the sub-packets give
nothing up to the last one, and the last one gives the command and the data, when they arrive in
order with at most ten seconds from one to the next.  No sub-packet number reaches the flag, and
every length field is exact. -/
theorem ksnSplitCombine_ksnSplitPacket (sender receiver : KsnSplitClass) (cmd : UInt8)
    (data : List UInt8) (hlo : maxDataLen < data.length)
    (hhi : data.length ≤ maxPacketLen - maxDataLen) (rd : KsnCorePacketData) (times : ℕ → ℚ)
    (hgap : ∀ i, i + 1 < (ksnSplitPacket sender cmd data).2.length →
      times (i + 1) - times i ≤ 10) :
    (∃ receiver', combineAll receiver (arrive rd times (ksnSplitPacket sender cmd data).2) =
      .ok (receiver', List.replicate ((ksnSplitPacket sender cmd data).2.length - 1) none ++
        [some {
          addr := rd.addr
          port := rd.port
          fromName := rd.fromName
          fromLen := rd.fromLen
          cmd := cmd
          data := data }])) ∧
    (ksnSplitPacket sender cmd data).2.length ≤ lastPacketFlag ∧
    ∀ p ∈ (ksnSplitPacket sender cmd data).2, p.length = 2 + (2 * 2 + getLe16 p) := by
  have hpackets : (ksnSplitPacket sender cmd data).2 =
      (List.range (windowCount maxDataLen data.length)).map
        (subPacket cmd sender.packetNumber data (windowCount maxDataLen data.length)) := by
    rw [ksnSplitPacket, if_pos hlo]
    rfl
  have hlength : (ksnSplitPacket sender cmd data).2.length =
      windowCount maxDataLen data.length := by
    rw [hpackets, List.length_map, List.length_range]
  rw [hlength] at hgap
  have hcover := le_mul_windowCount (show 0 < maxDataLen by decide) data.length
  have hnum : windowCount maxDataLen data.length ≤ lastPacketFlag := by
    apply windowCount_le
    simp only [maxDataLen, maxPacketLen, lastPacketFlag] at *
    omega
  have hpos : 0 < windowCount maxDataLen data.length := by
    rcases Nat.eq_zero_or_pos (windowCount maxDataLen data.length) with h | h
    · rw [h] at hcover
      omega
    · exact h
  refine ⟨?_, hlength ▸ hnum, ?_⟩
  · obtain ⟨k, hk⟩ := Nat.exists_eq_succ_of_ne_zero hpos.ne'
    have hnumber : sender.packetNumber.toNat < 65536 := sender.packetNumber.toNat_lt
    rw [arrive_ksnSplitPacket sender cmd hlo hnum, hlength]
    rw [hk] at hnum hgap hcover ⊢
    obtain ⟨ks, hrun, hholds⟩ :=
      combineAll_holds receiver rd hnumber cmd data hnum hgap k (Nat.lt_succ_self k)
    have hstep : 0 < k → times k - times (k - 1) ≤ 10 := by
      intro hpos
      have := hgap (k - 1) (by omega)
      rwa [Nat.sub_add_cancel hpos] at this
    obtain ⟨ks', hlast⟩ := ksnSplitCombine_last hnumber hnum hholds hstep hcover
    refine ⟨ks', ?_⟩
    rw [List.range_succ, List.map_append]
    refine combineAll_append hrun ?_
    simp only [List.map_cons, List.map_nil, combineAll]
    rw [hlast]
  · intro p hp
    rw [hpackets] at hp
    obtain ⟨i, hi, rfl⟩ := List.mem_map.mp hp
    have hpiece := splitPiece_length_lt cmd data i
    rw [subPacket_eq cmd _ data (List.mem_range.mp hi) hnum,
      getLe16_le16_append_of_lt (by simp only [maxDataLen] at hpiece; omega)]
    simp only [List.length_append, le_length]
    omega

/-- Two sub-packets at the same time. -/
theorem ksnSplitCombine_ksnSplitPacket_two :
    ∃ receiver', combineAll {} (arrive { addr := CString.empty, port := 9000 } (fun _ => 0)
        (ksnSplitPacket {} cmdEcho (List.replicate 449 7)).2) =
      .ok (receiver', [none, some {
        addr := CString.empty
        port := 9000
        cmd := cmdEcho
        data := List.replicate 449 7 }]) := by
  have htwo : (ksnSplitPacket {} cmdEcho (List.replicate 449 7)).2.length = 2 := by
    decide +kernel
  obtain ⟨h, -, -⟩ := ksnSplitCombine_ksnSplitPacket {} {} cmdEcho (List.replicate 449 7)
    (by rw [List.length_replicate]; decide) (by rw [List.length_replicate]; decide)
    { addr := CString.empty, port := 9000 } (fun _ => 0)
    (fun _ _ => by norm_num)
  rw [htwo] at h
  exact h

/-- Without a bound on the time between two sub-packets the packet can be lost: eleven seconds
after the first of two, the receiver has dropped it. -/
theorem not_ksnSplitCombine_any_time :
    ¬ ∀ (sender receiver : KsnSplitClass) (cmd : UInt8) (data : List UInt8),
      cmd ≠ cmdVpn → maxDataLen < data.length → data.length ≤ maxPacketLen - maxDataLen →
      ∀ (rd : KsnCorePacketData) (times : ℕ → ℚ),
      (∀ number i, receiver.map.get (splitKey rd number i) = none) →
      ∃ receiver', combineAll receiver (arrive rd times (ksnSplitPacket sender cmd data).2) =
        .ok (receiver', List.replicate ((ksnSplitPacket sender cmd data).2.length - 1) none ++
          [some {
            addr := rd.addr
            port := rd.port
            fromName := rd.fromName
            fromLen := rd.fromLen
            cmd := cmd
            data := data }]) := by
  intro h
  obtain ⟨receiver', hrun⟩ := h {} {} cmdEcho (List.replicate 449 7) (by decide)
    (by rw [List.length_replicate]; decide) (by rw [List.length_replicate]; decide)
    { addr := CString.empty, port := 9000 } (fun i => if i = 0 then 0 else 11)
    (fun _ _ => FinMap.get_empty _)
  have hlost : (combineAll {} (arrive { addr := CString.empty, port := 9000 }
      (fun i => if i = 0 then 0 else 11)
      (ksnSplitPacket {} cmdEcho (List.replicate 449 7)).2)).toOption.map Prod.snd =
      some [none, none] := by
    decide +kernel
  rw [hrun] at hlost
  have htwo : (ksnSplitPacket {} cmdEcho (List.replicate 449 7)).2.length = 2 := by
    decide +kernel
  rw [htwo] at hlost
  cases hlost

end Teonet
