import Teonet.Lib.Block
import Teonet.Lib.Runs
import Teonet.SplitNested

/-! # The reads and the buffers of `ksnSplitCombine`

`ksnSplitCombine` trusts the length of the payload it is given, and the lengths of the sub-packets in
its map.  Here it is translated once more, with every read checked against the block that is read,
with the stored length as the difference that it is, and with the buffers that the call leaves
allocated.  `ksnSplitCombineIn_eq` connects it to `ksnSplitCombine` of `Split.lean`.

`splitRun_inside_iff` says in which runs every read stays inside its block, and
`not_allOrNothing` what becomes of a message that is not complete. -/

namespace Teonet

open Block Bytes Runs

/-- The buffers that `ksnSplitCombine` allocates. -/
inductive SplitBuffer
  | key
  | data
  | rds
deriving DecidableEq

/-- The loop of `ksnSplitCombine`.  `live` are the buffers that are allocated; a build with `debug`
(`DEBUG_KSNET`) frees the key of a missing sub-packet. -/
def combineLoopIn (debug : Bool) (key : ℕ → List UInt8) : List ℕ →
    FinMap (List UInt8) (List UInt8) → List SplitBuffer → UInt8 → List UInt8 →
    Option (FinMap (List UInt8) (List UInt8) × List SplitBuffer × Option (UInt8 × List UInt8))
  | [], map, live, cmd, data => some (map, live, some (cmd, data))
  | i :: is, map, live, cmd, data =>
    let held := SplitBuffer.key :: live
    match map.get (key i) with
    | none => some (map, if debug then held.erase .key else held, none)
    | some dataS =>
      if i = 0 then
        -- the byte that ends at `data_s + data_s_len`
        (bytesBefore dataS dataS.length 1).bind fun c =>
          (bytesAt dataS 0 (dataS.length - 1)).bind fun piece =>
            combineLoopIn debug key is (map.remove (key i)) (held.erase .key) (c.getD 0 0)
              (data ++ piece)
      else
        (bytesAt dataS 0 dataS.length).bind fun piece =>
          combineLoopIn debug key is (map.remove (key i)) (held.erase .key) cmd (data ++ piece)

/-- `ksnSplitCombine` over the block `rd->data`: the class, the buffers that stay allocated and the
combined packet. -/
def ksnSplitCombineIn (debug : Bool) (now : ℚ) (ks : KsnSplitClass) (rd : KsnCorePacketData) :
    Option (KsnSplitClass × List SplitBuffer × Option KsnCorePacketData) := do
  let num ← bytesAt rd.data 0 2
  let field ← bytesAt rd.data 2 2
  let packetNum := getLe16 num
  let lastPacket := getLe16 field &&& lastPacketFlag
  let subpacketNum := getLe16 field &&& (lastPacketFlag - 1)
  let length : ℤ := rd.data.length - 2 * 2
  let stored ← if length < 0 then none else bytesAt rd.data (2 * 2) length.toNat
  let ks := addSubpacket now ks (splitKey rd packetNum subpacketNum) stored
  if lastPacket ≠ 0 then
    let (map, live, r) ← combineLoopIn debug (splitKey rd packetNum)
      (List.range (subpacketNum + 1)) ks.map [.rds, .data] 0 []
    match r with
    | none => some ({ ks with map := map }, live, none)
    | some (cmd, data) =>
      some ({ ks with map := map, dataSave := data }, live, some {
        addr := rd.addr
        port := rd.port
        fromName := rd.fromName
        fromLen := rd.fromLen
        cmd := cmd
        data := data })
  else some (ks, [], none)

/-! ### Connection to `ksnSplitCombine` -/

/-- What stays allocated when a sub-packet is missing. -/
def leftAllocated (debug : Bool) (live : List SplitBuffer) : List SplitBuffer :=
  if debug then live else .key :: live

theorem combineLoopIn_eq (debug : Bool) (key : ℕ → List UInt8) (is : List ℕ)
    (map : FinMap (List UInt8) (List UInt8)) (live : List SplitBuffer) (cmd : UInt8)
    (data : List UInt8) :
    combineLoopIn debug key is map live cmd data =
      match combineLoop key is map cmd data with
      | .error _ => none
      | .ok (map', none) => some (map', leftAllocated debug live, none)
      | .ok (map', some r) => some (map', live, some r) := by
  induction is generalizing map cmd data with
  | nil => rfl
  | cons i is ih =>
    rw [combineLoopIn, combineLoop]
    cases hget : map.get (key i) with
    | none => cases debug <;> simp [leftAllocated]
    | some dataS =>
      dsimp only
      by_cases hi : i = 0
      · rw [if_pos hi, if_pos hi]
        rcases List.eq_nil_or_concat dataS with rfl | ⟨l, c, rfl⟩
        · rfl
        · have hlast : bytesBefore (l ++ [c]) (l ++ [c]).length 1 = some [c] := by
            simp [bytesBefore, bytesAt]
          have hfront : bytesAt (l ++ [c]) 0 ((l ++ [c]).length - 1) = some l := by
            simp [bytesAt]
          rw [List.concat_eq_append, hlast, hfront]
          simp only [Option.bind_some, List.erase_cons_head, ih]
          simp
      · have hall : bytesAt dataS 0 dataS.length = some dataS := by
          simp [bytesAt]
        rw [if_neg hi, if_neg hi, hall]
        simp only [Option.bind_some, List.erase_cons_head, ih]

/-- What stays allocated after a call with this result. -/
def splitLive (debug : Bool) (rd : KsnCorePacketData) : Option KsnCorePacketData → List SplitBuffer
  | some _ => [.rds, .data]
  | none => if splitFlag rd ≠ 0 then leftAllocated debug [.rds, .data] else []

/-- **The checked version is `ksnSplitCombine`** where that has a result, and leaves a block where it
has none. -/
theorem ksnSplitCombineIn_eq (debug : Bool) (now : ℚ) (ks : KsnSplitClass)
    (rd : KsnCorePacketData) :
    ksnSplitCombineIn debug now ks rd =
      match ksnSplitCombine now ks rd with
      | .error _ => none
      | .ok (ks', r) => some (ks', splitLive debug rd r, r) := by
  rw [ksnSplitCombine_eq]
  unfold ksnSplitCombineIn
  by_cases hsize : rd.data.length < 2 * 2
  · rw [if_pos hsize]
    by_cases hnum : 2 ≤ rd.data.length
    · have hfield : bytesAt rd.data 2 2 = none := if_neg (by omega)
      rw [bytesAt_eq (by omega), hfield]
      rfl
    · have hnone : bytesAt rd.data 0 2 = none := if_neg (by omega)
      rw [hnone]
      rfl
  · have hnum : getLe16 ((rd.data.drop 0).take 2) = splitNumber rd := by
      exact getLe_take (by rw [List.drop_zero]; omega)
    have hfield : getLe16 ((rd.data.drop 2).take 2) = getLe16 (rd.data.drop 2) := by
      exact getLe_take (by rw [List.length_drop]; omega)
    have hlen : ¬ ((rd.data.length : ℤ) - 2 * 2 < 0) := by omega
    have hstored : bytesAt rd.data (2 * 2) ((rd.data.length : ℤ) - 2 * 2).toNat =
        some (rd.data.drop (2 * 2)) := by
      rw [bytesAt_eq (by omega), List.take_of_length_le (by simp; omega)]
    rw [if_neg hsize, bytesAt_eq (by omega), bytesAt_eq (by omega)]
    simp only [Option.bind_eq_bind, Option.bind_some, hnum, hfield, if_neg hlen, hstored]
    by_cases hflag : splitFlag rd ≠ 0
    · rw [if_pos hflag]
      refine (if_pos hflag).trans ?_
      change Option.bind (combineLoopIn debug (splitKey rd (splitNumber rd))
        (List.range (splitIndex rd + 1)) (splitAdded now ks rd).map [.rds, .data] 0 []) _ = _
      rw [combineLoopIn_eq]
      cases combineLoop (splitKey rd (splitNumber rd)) (List.range (splitIndex rd + 1))
          (splitAdded now ks rd).map 0 [] with
      | error e => rfl
      | ok r =>
        obtain ⟨map, _ | p⟩ := r
        · simp only [splitLive, if_pos hflag]
          rfl
        · rfl
    · rw [if_neg hflag]
      refine (if_neg hflag).trans ?_
      simp only [splitLive, if_neg hflag]
      rfl

/-! ### Reads outside -/

/-- The first sub-packet of the message is empty, and the payload is the last sub-packet. -/
def EmptyFirst (now : ℚ) (ks : KsnSplitClass) (rd : KsnCorePacketData) : Prop :=
  splitFlag rd ≠ 0 ∧
    if splitIndex rd = 0 then rd.data.length = 2 * 2
    else ¬ now - ks.lastAdded > 10 ∧ ks.map.get (splitKey rd (splitNumber rd) 0) = some []

/-- The condition on a payload: it has its two numbers, and the first sub-packet its command. -/
def SplitInside (ks : KsnSplitClass) (p : ℚ × KsnCorePacketData) : Prop :=
  2 * 2 ≤ p.2.data.length ∧ ¬ EmptyFirst p.1 ks p.2

theorem splitHeld_eq (now : ℚ) (ks : KsnSplitClass) (rd : KsnCorePacketData) (i : ℕ) :
    splitHeld now ks rd i =
      if splitKey rd (splitNumber rd) i = splitKey rd (splitNumber rd) (splitIndex rd) then
        some (rd.data.drop (2 * 2))
      else if now - ks.lastAdded > 10 then none
      else ks.map.get (splitKey rd (splitNumber rd) i) := by
  unfold splitHeld splitAdded addSubpacket
  dsimp only
  rw [FinMap.get_add]
  split_ifs with hkey hclear hlate hlate
  · rfl
  · exact FinMap.get_empty _
  · exact absurd hclear.1 hlate
  · -- nothing is in an empty map
    have hempty : ks.map.isEmpty = true := by
      by_contra hne
      exact hclear ⟨hlate, by simpa using hne⟩
    have hentries : ks.map.entries = [] := List.isEmpty_iff.mp hempty
    rw [FinMap.get, AList.lookup, hentries]
    rfl
  · rfl

theorem splitHeld_zero_iff {now : ℚ} {ks : KsnSplitClass} {rd : KsnCorePacketData}
    (hsize : 2 * 2 ≤ rd.data.length) :
    splitHeld now ks rd 0 = some [] ↔
      if splitIndex rd = 0 then rd.data.length = 2 * 2
      else ¬ now - ks.lastAdded > 10 ∧ ks.map.get (splitKey rd (splitNumber rd) 0) = some [] := by
  rw [splitHeld_eq]
  by_cases hidx : splitIndex rd = 0
  · rw [if_pos (by rw [hidx]), if_pos hidx, Option.some_inj, List.drop_eq_nil_iff]
    omega
  · have hkey : splitKey rd (splitNumber rd) 0 ≠ splitKey rd (splitNumber rd) (splitIndex rd) := by
      intro h
      exact hidx (splitKey_splitIndex_inj rd 0 (by omega) _ (by omega) h).symm
    rw [if_neg hkey, if_neg hidx]
    by_cases hlate : now - ks.lastAdded > 10
    · rw [if_pos hlate]
      exact iff_of_false (by simp) fun h => h.1 hlate
    · rw [if_neg hlate]
      exact (and_iff_right hlate).symm

/-- **One call**: every read stays inside its block exactly on the condition. -/
theorem ksnSplitCombineIn_isSome_iff (debug : Bool) (now : ℚ) (ks : KsnSplitClass)
    (rd : KsnCorePacketData) :
    (∃ r, ksnSplitCombineIn debug now ks rd = some r) ↔ SplitInside ks (now, rd) := by
  have hsome : (∃ r, ksnSplitCombineIn debug now ks rd = some r) ↔
      ∃ r, ksnSplitCombine now ks rd = .ok r := by
    rw [ksnSplitCombineIn_eq]
    cases ksnSplitCombine now ks rd with
    | error e => simp
    | ok r => simp
  unfold SplitInside EmptyFirst
  dsimp only
  rw [hsome, ksnSplitCombine_ok_iff]
  by_cases hsize : 2 * 2 ≤ rd.data.length
  · rw [splitHeld_zero_iff hsize]
  · exact iff_of_false (fun h => hsize h.1) fun h => hsize h.1

/-- The payload `p.2` arrives at the time `p.1`; an error is a read outside a block. -/
def splitArriveIn (debug : Bool) (ks : KsnSplitClass) (p : ℚ × KsnCorePacketData) :
    Except Unit KsnSplitClass :=
  match ksnSplitCombineIn debug p.1 ks p.2 with
  | none => .error ()
  | some r => .ok r.1

theorem splitArriveIn_ok_iff (debug : Bool) (ks : KsnSplitClass) (p : ℚ × KsnCorePacketData) :
    (∃ ks', splitArriveIn debug ks p = .ok ks') ↔ SplitInside ks p := by
  rw [← Prod.mk.eta (p := p), ← ksnSplitCombineIn_isSome_iff debug]
  unfold splitArriveIn
  dsimp only
  cases ksnSplitCombineIn debug p.1 ks p.2 with
  | none => simp
  | some r => simp

/-- **The reads of `ksnSplitCombine`**: in a run, every read stays inside the payload or the
sub-packet that is read, and no stored length is negative, exactly when every payload meets the
condition in the state it finds. -/
theorem splitRun_inside_iff (debug : Bool) (ks : KsnSplitClass)
    (arrivals : List (ℚ × KsnCorePacketData)) :
    (∃ ks', arrivals.foldlM (splitArriveIn debug) ks = .ok ks') ↔
      Meets SplitInside (splitArriveIn debug) ks arrivals := by
  apply foldlM_ok_iff_meets (fun _ _ => True)
  · intro ks p es _
    exact splitArriveIn_ok_iff debug ks p
  · intros
    trivial
  · trivial

/-- A packet with this payload. -/
def splitRd (data : List UInt8) : KsnCorePacketData :=
  { addr := .empty, port := 9000, cmd := cmdSplit, data := data }

/-- A payload without bytes, and a first sub-packet without its command that is also the last one,
are read outside. -/
theorem not_splitRun_inside :
    (¬ ∃ ks', [(0, splitRd [])].foldlM (splitArriveIn false) {} = .ok ks') ∧
      ¬ ∃ ks', [(0, splitRd [1, 0, 0, 128])].foldlM (splitArriveIn false) {} = .ok ks' := by
  refine ⟨?_, ?_⟩
  · rintro ⟨ks', h⟩
    obtain ⟨ks, hks, -⟩ := bind_eq_ok h
    exact absurd ((splitArriveIn_ok_iff _ _ _).mp ⟨ks, hks⟩).1 (by decide)
  · rintro ⟨ks', h⟩
    obtain ⟨ks, hks, -⟩ := bind_eq_ok h
    exact ((splitArriveIn_ok_iff _ _ _).mp ⟨ks, hks⟩).2 ⟨by decide, rfl⟩

/-! ### A message that is not complete -/

/-- `rd` is the last sub-packet of a message of which an earlier one is missing. -/
def SplitMissing (now : ℚ) (ks : KsnSplitClass) (rd : KsnCorePacketData) : Prop :=
  splitFlag rd ≠ 0 ∧ ∃ i < splitIndex rd, splitHeld now ks rd i = none

/-- The call returns `NULL`, leaves the sub-packets of the message in the map and nothing
allocated. -/
def AllOrNothing (debug : Bool) (now : ℚ) (ks : KsnSplitClass) (rd : KsnCorePacketData) : Prop :=
  ∃ ks', ksnSplitCombineIn debug now ks rd = some (ks', [], none) ∧
    ∀ i ≤ splitIndex rd, ks'.map.get (splitKey rd (splitNumber rd) i) = splitHeld now ks rd i

/-- The loop has removed the sub-packets in front of the first missing one. -/
theorem combineLoop_missing {key : ℕ → List UInt8} {is : List ℕ}
    {map map' : FinMap (List UInt8) (List UInt8)} {cmd : UInt8} {data : List UInt8}
    (hkeys : (is.map key).Nodup) (h : combineLoop key is map cmd data = .ok (map', none)) :
    map' = removeKeys key (is.takeWhile fun i => (map.get (key i)).isSome) map := by
  induction is generalizing map cmd data with
  | nil => cases h
  | cons i is ih =>
    rw [List.map_cons, List.nodup_cons] at hkeys
    rw [combineLoop] at h
    cases hget : map.get (key i) with
    | none =>
      rw [hget] at h
      cases h
      rw [List.takeWhile_cons_of_neg (by simp [hget])]
      rfl
    | some dataS =>
      have hsame : ∀ j ∈ is, (map.remove (key i)).get (key j) = map.get (key j) := by
        intro j hj
        apply FinMap.get_remove_of_ne
        intro hkey
        exact hkeys.1 (hkey ▸ List.mem_map_of_mem hj)
      have htake : (is.takeWhile fun j => ((map.remove (key i)).get (key j)).isSome) =
          is.takeWhile fun j => (map.get (key j)).isSome := by
        clear ih h hkeys
        induction is with
        | nil => rfl
        | cons j is ih =>
          rw [List.takeWhile_cons, List.takeWhile_cons, hsame j List.mem_cons_self,
            ih fun k hk => hsame k (List.mem_cons_of_mem j hk)]
      have hrest : ∀ cmd' data', combineLoop key is (map.remove (key i)) cmd' data' =
          .ok (map', none) →
          map' = removeKeys key ((i :: is).takeWhile fun j => (map.get (key j)).isSome) map := by
        intro cmd' data' hloop
        rw [ih hkeys.2 hloop, htake, List.takeWhile_cons_of_pos (by simp [hget])]
        rfl
      rw [hget] at h
      dsimp only at h
      split_ifs at h with hi
      · cases hc : dataS.getLast? with
        | none => rw [hc] at h; cases h
        | some c =>
          rw [hc] at h
          exact hrest _ _ h
      · exact hrest _ _ h

theorem mem_takeWhile_range {p : ℕ → Bool} {n i : ℕ} :
    i ∈ (List.range n).takeWhile p ↔ i < n ∧ ∀ j ≤ i, p j := by
  induction n with
  | zero => simp
  | succ n ih =>
    rw [List.range_succ, List.takeWhile_append]
    have hall : ((List.range n).takeWhile p).length = (List.range n).length ↔ ∀ j < n, p j := by
      constructor
      · intro h j hj
        have hself := (List.takeWhile_prefix p (l := List.range n)).eq_of_length h
        exact List.takeWhile_eq_self_iff.mp hself j (List.mem_range.mpr hj)
      · intro h
        rw [List.takeWhile_eq_self_iff.mpr fun j hj => h j (List.mem_range.mp hj)]
    split_ifs with h
    · have hp := hall.mp h
      rw [List.mem_append, List.mem_range]
      by_cases hn : p n
      · rw [List.takeWhile_cons_of_pos hn, List.takeWhile_nil, List.mem_singleton]
        constructor
        · intro hi
          refine ⟨by omega, fun j hj => ?_⟩
          rcases Nat.lt_or_eq_of_le (show j ≤ n by omega) with hlt | rfl
          · exact hp j hlt
          · exact hn
        · rintro ⟨hi, -⟩
          omega
      · rw [List.takeWhile_cons_of_neg hn]
        constructor
        · rintro (hi | hi)
          · exact ⟨by omega, fun j hj => hp j (by omega)⟩
          · cases hi
        · rintro ⟨hi, hpi⟩
          rcases Nat.lt_or_eq_of_le (show i ≤ n by omega) with hlt | rfl
          · exact .inl hlt
          · exact absurd (hpi i le_rfl) hn
    · rw [ih]
      constructor
      · rintro ⟨hi, hpi⟩
        exact ⟨by omega, hpi⟩
      · rintro ⟨hi, hpi⟩
        refine ⟨?_, hpi⟩
        by_contra hge
        exact h (hall.mpr fun j hj => hpi j (by omega))

theorem splitKeys_nodup (rd : KsnCorePacketData) :
    ((List.range (splitIndex rd + 1)).map (splitKey rd (splitNumber rd))).Nodup := by
  refine List.Nodup.map_on ?_ List.nodup_range
  intro j hj k hk hkey
  exact splitKey_splitIndex_inj rd j (List.mem_range.mp hj) k (List.mem_range.mp hk) hkey

/-- The keys that are removed are those in front of the first sub-packet that is missing. -/
theorem mem_removedKeys_iff {now : ℚ} {ks : KsnSplitClass} {rd : KsnCorePacketData} {i : ℕ}
    (hi : i ≤ splitIndex rd) :
    splitKey rd (splitNumber rd) i ∈
        ((List.range (splitIndex rd + 1)).takeWhile
          fun j => (splitHeld now ks rd j).isSome).map (splitKey rd (splitNumber rd)) ↔
      ∀ j ≤ i, splitHeld now ks rd j ≠ none := by
  have hin : i ∈ (List.range (splitIndex rd + 1)).takeWhile
      (fun j => (splitHeld now ks rd j).isSome) ↔ ∀ j ≤ i, splitHeld now ks rd j ≠ none := by
    rw [mem_takeWhile_range, and_iff_right (by omega)]
    simp only [Option.isSome_iff_ne_none]
  rw [← hin]
  constructor
  · intro hmem
    obtain ⟨j, hj, hkey⟩ := List.mem_map.mp hmem
    have hjlt := (mem_takeWhile_range.mp hj).1
    rwa [← splitKey_splitIndex_inj rd j hjlt i (by omega) hkey]
  · exact List.mem_map_of_mem

/-- What the call leaves of a message of which a sub-packet is missing. -/
theorem ksnSplitCombine_missing {now : ℚ} {ks ks' : KsnSplitClass}
    {rd : KsnCorePacketData} {r : Option KsnCorePacketData} (hmissing : SplitMissing now ks rd)
    (h : ksnSplitCombine now ks rd = .ok (ks', r)) :
    r = none ∧ ∀ i ≤ splitIndex rd, ks'.map.get (splitKey rd (splitNumber rd) i) =
      if ∀ j ≤ i, splitHeld now ks rd j ≠ none then none else splitHeld now ks rd i := by
  obtain ⟨hflag, i₀, hi₀, hnone⟩ := hmissing
  have hr : r = none := by
    cases r with
    | none => rfl
    | some rds => exact absurd hnone ((ksnSplitCombine_eq_some_iff.mp h).1.held i₀ (by omega))
  subst hr
  refine ⟨rfl, fun i hi => ?_⟩
  obtain ⟨-, hloop⟩ := exists_combineLoop hflag h
  rw [combineLoop_missing (splitKeys_nodup rd) hloop, removeKeys_get]
  exact if_congr (mem_removedKeys_iff hi) rfl rfl

/-- **A message that is not complete**: the call never leaves all of it and nothing allocated.  Where
it returns, it returns `NULL`, the sub-packets in front of the first missing one are gone, so all is
left only if the first sub-packet is missing, and `data` and `rds` stay allocated. -/
theorem not_allOrNothing (debug : Bool) (now : ℚ) (ks : KsnSplitClass) (rd : KsnCorePacketData)
    (h : SplitMissing now ks rd) :
    ¬ AllOrNothing debug now ks rd ∧
      ∀ ks' live r, ksnSplitCombineIn debug now ks rd = some (ks', live, r) →
        r = none ∧ .data ∈ live ∧ .rds ∈ live ∧
        (∀ i ≤ splitIndex rd, ks'.map.get (splitKey rd (splitNumber rd) i) =
          if ∀ j ≤ i, splitHeld now ks rd j ≠ none then none else splitHeld now ks rd i) ∧
        ((∀ i ≤ splitIndex rd, ks'.map.get (splitKey rd (splitNumber rd) i) =
          splitHeld now ks rd i) ↔ splitHeld now ks rd 0 = none) := by
  have hcall : ∀ ks' live r, ksnSplitCombineIn debug now ks rd = some (ks', live, r) →
      ksnSplitCombine now ks rd = .ok (ks', r) ∧ live = splitLive debug rd r := by
    intro ks' live r hsome
    rw [ksnSplitCombineIn_eq] at hsome
    cases hcombine : ksnSplitCombine now ks rd with
    | error e => rw [hcombine] at hsome; cases hsome
    | ok p =>
      rw [hcombine] at hsome
      obtain ⟨rfl, hrest⟩ := Prod.mk.inj (Option.some.inj hsome)
      obtain ⟨rfl, rfl⟩ := Prod.mk.inj hrest
      exact ⟨rfl, rfl⟩
  have hlive : .data ∈ splitLive debug rd none ∧ .rds ∈ splitLive debug rd none := by
    unfold splitLive leftAllocated
    rw [if_pos h.1]
    cases debug <;> decide
  refine ⟨?_, fun ks' live r hsome => ?_⟩
  · rintro ⟨ks', hsome, -⟩
    obtain ⟨-, hnil⟩ := hcall ks' [] none hsome
    rw [← hnil] at hlive
    cases hlive.1
  · obtain ⟨hcombine, rfl⟩ := hcall ks' live r hsome
    obtain ⟨rfl, hmap⟩ := ksnSplitCombine_missing h hcombine
    refine ⟨rfl, hlive.1, hlive.2, hmap, ?_⟩
    constructor
    · intro hall
      have hzero := hall 0 (Nat.zero_le _)
      rw [hmap 0 (Nat.zero_le _)] at hzero
      split_ifs at hzero with hheld
      · exact hzero.symm
      · by_contra hne
        apply hheld
        intro j hj
        rwa [Nat.le_zero.mp hj]
    · intro hzero i hi
      rw [hmap i hi, if_neg fun hheld => hheld 0 (Nat.zero_le _) hzero]

/-- The first sub-packet of a message of three, and the last one. -/
def firstOfThree : KsnCorePacketData := splitRd [1, 0, 0, 0, 65, 68]
def lastOfThree : KsnCorePacketData := splitRd [1, 0, 2, 128, 66]

theorem not_allOrNothing_three :
    ¬ AllOrNothing false 0 (splitAdded 0 {} firstOfThree) lastOfThree ∧
      ∀ ks' live r,
        ksnSplitCombineIn false 0 (splitAdded 0 {} firstOfThree) lastOfThree = some (ks', live, r) →
        r = none ∧ .data ∈ live ∧ .rds ∈ live ∧
        (∀ i ≤ splitIndex lastOfThree,
          ks'.map.get (splitKey lastOfThree (splitNumber lastOfThree) i) =
            if ∀ j ≤ i, splitHeld 0 (splitAdded 0 {} firstOfThree) lastOfThree j ≠ none then none
            else splitHeld 0 (splitAdded 0 {} firstOfThree) lastOfThree i) ∧
        ((∀ i ≤ splitIndex lastOfThree,
          ks'.map.get (splitKey lastOfThree (splitNumber lastOfThree) i) =
            splitHeld 0 (splitAdded 0 {} firstOfThree) lastOfThree i) ↔
          splitHeld 0 (splitAdded 0 {} firstOfThree) lastOfThree 0 = none) := by
  apply not_allOrNothing
  exact ⟨by decide, 1, by decide, by decide +kernel⟩

/-- Of a message of three without its second sub-packet the first one is lost, and three buffers stay
allocated. -/
theorem missing_is_lost :
    ¬ ∀ (debug : Bool) (now : ℚ) (ks : KsnSplitClass) (rd : KsnCorePacketData),
      SplitMissing now ks rd → AllOrNothing debug now ks rd := by
  intro h
  obtain ⟨ks', hcall, -⟩ := h false 0 (splitAdded 0 {} firstOfThree) lastOfThree
    ⟨by decide, 1, by decide, by decide +kernel⟩
  have hlive : (ksnSplitCombineIn false 0 (splitAdded 0 {} firstOfThree) lastOfThree).map
      (fun r => r.2.1) = some [.key, .rds, .data] := by
    decide +kernel
  rw [hcall] at hlive
  cases hlive

end Teonet
