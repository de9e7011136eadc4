import Teonet.Split

/-! # Sub-packets of many senders

`ksnSplitCombine` keeps the sub-packets of all senders in one map, under keys of different lengths.
Here it is fed with any interleaving of any number of senders.  Each sender's sub-packets arrive in
order, but a sender may begin a new message at any time, under any packet number: a counter that
starts again at `0`, or wraps, is a special case.  What an interrupted message left in the map stays
there.

`combineAll_interleaved` is the result: each message whose sub-packets all arrive is returned by its
last one, alone and unmixed, and then none of its keys is left.  The invariant `Held` says that the
map holds the sub-packets of the message each sender is in; `senderKey_inj` keeps senders apart. -/

namespace Teonet

open Bytes Windows

/-! ### Senders and messages -/

/-- A message that `ksnSplitPacket` splits under a packet number; its sub-packet numbers stay below
`LAST_PACKET_FLAG`. -/
structure Message where
  number : UInt16
  cmd : UInt8
  data : List UInt8
  long : maxDataLen < data.length
  fits : windowCount maxDataLen data.length ≤ lastPacketFlag
deriving DecidableEq

/-- The number of its sub-packets. -/
def Message.num (m : Message) : ℕ := windowCount maxDataLen m.data.length

/-- Its `i`-th sub-packet. -/
def Message.subPacket (m : Message) (i : ℕ) : List UInt8 :=
  Teonet.subPacket m.cmd m.number m.data m.num i

/-- A sub-packet that arrives. -/
structure Arrival where
  now : ℚ
  addr : CString
  port : ℕ
  name : CString
  message : Message
  index : ℕ
  name_le : name.length ≤ 254
  index_lt : index < message.num

namespace Arrival

/-- The packet that carries it. -/
def rd (a : Arrival) : KsnCorePacketData where
  addr := a.addr
  port := a.port
  fromName := a.name
  fromLen := nameLen a.name
  cmd := cmdSplit
  data := splitPayload (a.message.subPacket a.index)

/-- The sub-packet completes its message. -/
def IsLast (a : Arrival) : Prop := a.index + 1 = a.message.num

instance (a : Arrival) : Decidable a.IsLast := inferInstanceAs (Decidable (_ = _))

/-- What it gives: the message, when it completes it. -/
def answer (a : Arrival) : Option KsnCorePacketData :=
  if a.IsLast then some {
    addr := a.addr
    port := a.port
    fromName := a.name
    fromLen := nameLen a.name
    cmd := a.message.cmd
    data := a.message.data }
  else none

end Arrival

/-- What each sender is in the middle of: a message, and how many of its sub-packets arrived. -/
abbrev Sending : Type := CString → Option (Message × ℕ)

/-- After a sub-packet the sender is further in its message, or through with it. -/
def Sending.arrive (sending : Sending) (a : Arrival) : Sending :=
  Function.update sending a.name
    (if a.IsLast then none else some (a.message, a.index + 1))

/-- The sub-packets of each sender are in order: one continues the sender's message, or is the first
of another one.  There are at most ten seconds from one to the next. -/
def Interleaved : Sending → Option ℚ → List Arrival → Prop
  | _, _, [] => True
  | sending, last, a :: as =>
    (a.index = 0 ∨ sending a.name = some (a.message, a.index)) ∧
      (∀ t ∈ last, a.now - t ≤ 10) ∧ Interleaved (sending.arrive a) (some a.now) as

instance Interleaved.decidable :
    ∀ (sending : Sending) (last : Option ℚ) (as : List Arrival),
      Decidable (Interleaved sending last as)
  | _, _, [] => .isTrue trivial
  | sending, last, a :: as =>
    have := Interleaved.decidable (sending.arrive a) (some a.now) as
    inferInstanceAs (Decidable ((a.index = 0 ∨ sending a.name = some (a.message, a.index)) ∧
      (∀ t ∈ last, a.now - t ≤ 10) ∧ Interleaved (sending.arrive a) (some a.now) as))

/-! ### Keys -/

/-- The key of a sub-packet of a sender with a name that fits. -/
def senderKey (name : CString) (number i : ℕ) : List UInt8 :=
  nameLen name :: (name.toBuf ++ (le16 number ++ le16 i))

theorem splitKey_rd (a : Arrival) (number i : ℕ) :
    splitKey a.rd number i = senderKey a.name number i := by
  have hlen : (nameLen a.name).toNat = a.name.length + 1 := nameLen_toNat a.name_le
  have htake : a.name.toBuf.take (a.name.length + 1) = a.name.toBuf :=
    List.take_of_length_le a.name.toBuf_length.le
  simp [splitKey, senderKey, Arrival.rd, hlen, htake]

/-- **Keys are different** for different senders, packet numbers or sub-packets, although names have
different lengths: the first byte of a key is the length of the name. -/
theorem senderKey_inj {name name' : CString} {number number' i i' : ℕ}
    (hname : name.length ≤ 254) (hname' : name'.length ≤ 254) (hi : i < 65536) (hi' : i' < 65536)
    (h : senderKey name number i = senderKey name' number' i') : name = name' ∧ i = i' := by
  obtain ⟨hhead, htail⟩ := List.cons.inj h
  have hlen : name.length = name'.length := by
    have hnat := congrArg UInt8.toNat hhead
    rw [nameLen_toNat hname, nameLen_toNat hname'] at hnat
    omega
  have hbuf : name.toBuf.length = name'.toBuf.length := by
    rw [CString.toBuf_length, CString.toBuf_length, hlen]
  obtain ⟨hnames, hrest⟩ := List.append_inj htail hbuf
  refine ⟨CString.ext (List.append_cancel_right hnames), ?_⟩
  have hle : le16 i = le16 i' :=
    (List.append_inj hrest (by rw [le_length, le_length])).2
  rw [le16_eq_le16_iff, Nat.mod_eq_of_lt hi, Nat.mod_eq_of_lt hi'] at hle
  exact hle

/-! ### The invariant -/

/-- The map holds what arrived of the message that each sender is in, since `last`. -/
structure Held (ks : KsnSplitClass) (sending : Sending) (last : Option ℚ) : Prop where
  name_le : ∀ {name p}, sending name = some p → name.length ≤ 254
  last : ∀ {name p}, sending name = some p → last = some ks.lastAdded
  bound : ∀ {name m k}, sending name = some (m, k) → k < m.num
  piece : ∀ {name m k}, sending name = some (m, k) → ∀ i < k,
    ks.map.get (senderKey name m.number.toNat i) = some (splitPiece m.cmd m.data i)

theorem held_start (ks : KsnSplitClass) : Held ks (fun _ => none) none where
  name_le h := nomatch h
  last h := nomatch h
  bound h := nomatch h
  piece h := nomatch h

variable {ks : KsnSplitClass} {sending : Sending} {last : Option ℚ} {a : Arrival}

/-- The map with the sub-packet in it. -/
def Arrival.added (a : Arrival) (ks : KsnSplitClass) : KsnSplitClass :=
  addSubpacket a.now ks (senderKey a.name a.message.number.toNat a.index)
    (splitPiece a.message.cmd a.message.data a.index)

theorem Message.lt_of_lt_num {m : Message} {i : ℕ} (h : i < m.num) : i < 65536 :=
  lt_of_lt_of_le h (le_trans m.fits (by decide))

/-- A sub-packet of another key stays. -/
theorem Held.added_get (h : Held ks sending last) (hgap : ∀ t ∈ last, a.now - t ≤ 10)
    {name : CString} {m : Message} {k i : ℕ} (hs : sending name = some (m, k)) (hi : i < k)
    (hne : name ≠ a.name ∨ i ≠ a.index) :
    (a.added ks).map.get (senderKey name m.number.toNat i) = some (splitPiece m.cmd m.data i) := by
  have hnow : a.now - ks.lastAdded ≤ 10 := hgap ks.lastAdded (h.last hs)
  have hi' : i < 65536 := m.lt_of_lt_num (lt_trans hi (h.bound hs))
  have ha : a.index < 65536 := a.message.lt_of_lt_num a.index_lt
  have hkey : senderKey name m.number.toNat i ≠
      senderKey a.name a.message.number.toNat a.index := by
    intro heq
    obtain ⟨hname, hindex⟩ := senderKey_inj (h.name_le hs) a.name_le hi' ha heq
    exact hne.elim (absurd hname) (absurd hindex)
  rw [Arrival.added, addSubpacket_get_of_ne hnow hkey]
  exact h.piece hs i hi

/-- The sender's message is held up to the sub-packet that arrived. -/
theorem Held.added_own (h : Held ks sending last)
    (horder : a.index = 0 ∨ sending a.name = some (a.message, a.index))
    (hgap : ∀ t ∈ last, a.now - t ≤ 10) : ∀ i < a.index + 1,
    (a.added ks).map.get (senderKey a.name a.message.number.toNat i) =
      some (splitPiece a.message.cmd a.message.data i) := by
  intro i hi
  rcases Nat.lt_succ_iff_lt_or_eq.mp hi with hlt | rfl
  · have hs : sending a.name = some (a.message, a.index) := by
      refine horder.resolve_left ?_
      omega
    exact h.added_get hgap hs hlt (.inr (by omega))
  · exact addSubpacket_get a.now ks _ _

theorem arrive_self : sending.arrive a a.name =
    if a.IsLast then none else some (a.message, a.index + 1) := by
  rw [Sending.arrive, Function.update_self]

theorem arrive_of_ne {name : CString} (h : name ≠ a.name) :
    sending.arrive a name = sending name := by
  rw [Sending.arrive, Function.update_of_ne h]

/-- A map that still has what was held after the sub-packet was added, except for the keys of a
message that is complete, keeps the invariant. -/
theorem Held.arrive {ks' : KsnSplitClass} (h : Held ks sending last)
    (horder : a.index = 0 ∨ sending a.name = some (a.message, a.index))
    (hgap : ∀ t ∈ last, a.now - t ≤ 10) (hlast : ks'.lastAdded = a.now)
    (hget : ∀ {name m k i}, sending.arrive a name = some (m, k) → i < k →
      ks'.map.get (senderKey name m.number.toNat i) =
        (a.added ks).map.get (senderKey name m.number.toNat i)) :
    Held ks' (sending.arrive a) (some a.now) := by
  have hself : ∀ {m k}, sending.arrive a a.name = some (m, k) →
      ¬a.IsLast ∧ a.message = m ∧ a.index + 1 = k := by
    intro m k hs
    rw [arrive_self] at hs
    split_ifs at hs with hl
    obtain ⟨rfl, rfl⟩ := Prod.mk.inj (Option.some.inj hs)
    exact ⟨hl, rfl, rfl⟩
  constructor
  · intro name p hs
    by_cases hname : name = a.name
    · exact hname ▸ a.name_le
    · rw [arrive_of_ne hname] at hs
      exact h.name_le hs
  · intro name p _
    rw [hlast]
  · intro name m k hs
    by_cases hname : name = a.name
    · subst hname
      obtain ⟨hl, rfl, rfl⟩ := hself hs
      have hlt := a.index_lt
      unfold Arrival.IsLast at hl
      omega
    · rw [arrive_of_ne hname] at hs
      exact h.bound hs
  · intro name m k hs i hi
    rw [hget hs hi]
    by_cases hname : name = a.name
    · subst hname
      obtain ⟨-, rfl, rfl⟩ := hself hs
      exact h.added_own horder hgap i hi
    · rw [arrive_of_ne hname] at hs
      exact h.added_get hgap hs hi (.inl hname)

/-! ### One sub-packet -/

/-- What `ksnSplitCombine` does with a sub-packet of a sender. -/
theorem ksnSplitCombine_rd (a : Arrival) (ks : KsnSplitClass) :
    ksnSplitCombine a.now ks a.rd =
      if a.IsLast then
        match combineLoop (senderKey a.name a.message.number.toNat) (List.range a.message.num)
            (a.added ks).map 0 [] with
        | .error e => .error e
        | .ok (map, none) => .ok ({ a.added ks with map := map }, none)
        | .ok (map, some (cmd, data)) =>
          .ok ({ a.added ks with map := map, dataSave := data }, some {
            addr := a.addr
            port := a.port
            fromName := a.name
            fromLen := nameLen a.name
            cmd := cmd
            data := data })
      else .ok (a.added ks, none) := by
  have hfits : a.message.num ≤ lastPacketFlag := a.message.fits
  have hlt := a.index_lt
  have hindex : a.index < lastPacketFlag := lt_of_lt_of_le hlt hfits
  have hdata : a.rd.data = le16 a.message.number.toNat ++
      (le16 (subpacketField a.message.num a.index) ++
        splitPiece a.message.cmd a.message.data a.index) :=
    splitPayload_subPacket a.message.cmd a.message.number a.message.data hlt hfits
  have hkeys : splitKey a.rd a.message.number.toNat =
      senderKey a.name a.message.number.toNat := funext fun i => splitKey_rd a _ i
  rw [ksnSplitCombine_payload a.now ks a.message.number.toNat_lt (subpacketField_lt hindex) hdata,
    subpacketField_num hindex, hkeys]
  by_cases hl : a.IsLast
  · have hnum : a.index + 1 = a.message.num := hl
    have hflag : subpacketField a.message.num a.index &&& lastPacketFlag ≠ 0 :=
      (subpacketField_flag hindex).mpr (by omega)
    simp only [if_pos hflag, if_pos hl, hnum]
    rfl
  · have hflag : ¬ subpacketField a.message.num a.index &&& lastPacketFlag ≠ 0 := by
      unfold Arrival.IsLast at hl
      rw [subpacketField_flag hindex]
      omega
    simp only [if_neg hflag, if_neg hl]
    rfl

/-- **One sub-packet** of an interleaving gives its message when it completes it and nothing
otherwise, and the map then has no key of that message. -/
theorem ksnSplitCombine_arrival (h : Held ks sending last)
    (horder : a.index = 0 ∨ sending a.name = some (a.message, a.index))
    (hgap : ∀ t ∈ last, a.now - t ≤ 10) :
    ∃ ks', ksnSplitCombine a.now ks a.rd = .ok (ks', a.answer) ∧
      Held ks' (sending.arrive a) (some a.now) ∧
      (a.IsLast → ∀ i < a.message.num,
        ks'.map.get (senderKey a.name a.message.number.toNat i) = none) := by
  rw [ksnSplitCombine_rd, Arrival.answer]
  by_cases hl : a.IsLast
  · have hnum : a.index + 1 = a.message.num := hl
    have hown := h.added_own horder hgap
    rw [hnum] at hown
    have hloop := combineLoop_range (Nat.zero_lt_of_lt a.index_lt)
      (fun i hi j hj heq => (senderKey_inj a.name_le a.name_le (a.message.lt_of_lt_num hi)
        (a.message.lt_of_lt_num hj) heq).2) hown
    have hcover : a.message.data.length ≤ maxDataLen * a.message.num :=
      le_mul_windowCount (by decide) _
    rw [List.take_of_length_le hcover] at hloop
    rw [if_pos hl, if_pos hl, hloop]
    refine ⟨_, rfl, h.arrive horder hgap rfl ?_, fun _ i hi => ?_⟩
    · intro name m k i hs hi
      have hname : name ≠ a.name := by
        rintro rfl
        rw [arrive_self, if_pos hl] at hs
        cases hs
      rw [arrive_of_ne hname] at hs
      dsimp only
      rw [removeKeys_get, if_neg]
      intro hmem
      obtain ⟨j, hj, heq⟩ := List.mem_map.mp hmem
      exact hname (senderKey_inj a.name_le (h.name_le hs)
        (a.message.lt_of_lt_num (List.mem_range.mp hj))
        (m.lt_of_lt_num (lt_trans hi (h.bound hs))) heq).1.symm
    · dsimp only
      rw [removeKeys_get, if_pos (List.mem_map.mpr ⟨i, List.mem_range.mpr hi, rfl⟩)]
  · rw [if_neg hl, if_neg hl]
    exact ⟨_, rfl, h.arrive horder hgap rfl (fun _ _ => rfl), fun hlast => absurd hlast hl⟩

/-! ### Runs -/

/-- The call of `ksnSplitCombine` and its time. -/
def Arrival.call (a : Arrival) : ℚ × KsnCorePacketData := (a.now, a.rd)

theorem combineAll_arrivals {arrivals : List Arrival} (h : Held ks sending last)
    (hruns : Interleaved sending last arrivals) :
    (∃ ks', combineAll ks (arrivals.map Arrival.call) =
      .ok (ks', arrivals.map Arrival.answer)) ∧
    ∀ past a future, arrivals = past ++ a :: future → a.IsLast →
      ∃ ks', combineAll ks ((past ++ [a]).map Arrival.call) =
          .ok (ks', (past ++ [a]).map Arrival.answer) ∧
        ∀ i < a.message.num,
          ks'.map.get (senderKey a.name a.message.number.toNat i) = none := by
  induction arrivals generalizing ks sending last with
  | nil =>
    refine ⟨⟨ks, rfl⟩, fun past a future heq => ?_⟩
    simp at heq
  | cons b bs ih =>
    obtain ⟨horder, hgap, hrest⟩ := hruns
    obtain ⟨ks₁, hstep, hheld, hnone⟩ := ksnSplitCombine_arrival h horder hgap
    obtain ⟨⟨ks', hrun⟩, hlast⟩ := ih hheld hrest
    have hcall : combineAll ks [b.call] = .ok (ks₁, [b.answer]) := by
      simp only [combineAll, Arrival.call, hstep]
    refine ⟨⟨ks', combineAll_append hcall hrun⟩, fun past a future heq hl => ?_⟩
    cases past with
    | nil =>
      obtain ⟨rfl, -⟩ := List.cons.inj heq
      exact ⟨ks₁, hcall, hnone hl⟩
    | cons c past =>
      obtain ⟨rfl, hbs⟩ := List.cons.inj heq
      obtain ⟨ks₂, hpast, hkeys⟩ := hlast past a future hbs hl
      exact ⟨ks₂, combineAll_append hcall hpast, hkeys⟩

/-- **Any interleaving of senders**: each call returns the message that its sub-packet completes,
from the sender of that sub-packet, and the others return nothing; when a message is returned the
map has none of its keys. -/
theorem combineAll_interleaved (ks : KsnSplitClass) (arrivals : List Arrival)
    (h : Interleaved (fun _ => none) none arrivals) :
    (∃ ks', combineAll ks (arrivals.map Arrival.call) =
      .ok (ks', arrivals.map Arrival.answer)) ∧
    ∀ past a future, arrivals = past ++ a :: future → a.IsLast →
      ∃ ks', combineAll ks ((past ++ [a]).map Arrival.call) =
          .ok (ks', (past ++ [a]).map Arrival.answer) ∧
        ∀ i < a.message.num, ks'.map.get (splitKey a.rd a.message.number.toNat i) = none := by
  obtain ⟨hrun, hlast⟩ := combineAll_arrivals (held_start ks) h
  refine ⟨hrun, fun past a future heq hl => ?_⟩
  obtain ⟨ks', hpast, hkeys⟩ := hlast past a future heq hl
  exact ⟨ks', hpast, fun i hi => by rw [splitKey_rd]; exact hkeys i hi⟩

/-- A message of two sub-packets. -/
def sampleMessage (number : UInt16) (b : UInt8) : Message where
  number := number
  cmd := cmdEcho
  data := List.replicate 449 b
  long := by rw [List.length_replicate]; decide
  fits := by rw [List.length_replicate]; decide

/-- A sub-packet of it, from the sender `c`. -/
def sampleArrival (c : UInt8) (number : UInt16) (b : UInt8) (index : Fin 2) : Arrival where
  now := 0
  addr := CString.empty
  port := 9000
  name := CString.ofBuf [c]
  message := sampleMessage number b
  index := index
  name_le := le_trans (List.takeWhile_sublist _).length_le (show 1 ≤ 254 by decide)
  index_lt := by
    have hnum : (sampleMessage number b).num = 2 := by
      rw [Message.num, sampleMessage, List.length_replicate]
      rfl
    rw [hnum]
    exact index.isLt

/-- Two senders under the same packet number; the first one is interrupted and starts again. -/
def restartArrivals : List Arrival :=
  [sampleArrival 97 0 1 0, sampleArrival 98 0 2 0, sampleArrival 97 0 3 0, sampleArrival 98 0 2 1,
    sampleArrival 97 0 3 1]

theorem restartArrivals_interleaved : Interleaved (fun _ => none) none restartArrivals := by
  decide +kernel

/-- What these sub-packets give: the message of the second sender, and the second message of the
first one. -/
def restartAnswers : List (Option KsnCorePacketData) :=
  [none, none, none,
    some {
      addr := CString.empty
      port := 9000
      fromName := CString.ofBuf [98]
      fromLen := 2
      cmd := cmdEcho
      data := List.replicate 449 2 },
    some {
      addr := CString.empty
      port := 9000
      fromName := CString.ofBuf [97]
      fromLen := 2
      cmd := cmdEcho
      data := List.replicate 449 3 }]

theorem restartArrivals_answer : restartArrivals.map Arrival.answer = restartAnswers := by
  decide +kernel

theorem combineAll_interleaved_restart :
    ∃ ks', combineAll {} (restartArrivals.map Arrival.call) = .ok (ks', restartAnswers) := by
  rw [← restartArrivals_answer]
  exact (combineAll_interleaved {} restartArrivals restartArrivals_interleaved).1

end Teonet
