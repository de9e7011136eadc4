import Teonet.Lib.Framing
import Teonet.Lib.Runs
import Teonet.TcpProxy
import Mathlib.Data.List.GetD

/-! # The TCP proxy's stream

A TCP proxy connection is a stream of packages that arrives in reads, and
`ksnTCPProxyPackageProcess` cuts it into packages again.  This file runs that function with its
accesses checked: the `memcpy` has to stay in the buffer and a checksum has to stay in what was
received.  `tcppFormat` says what the stream means; `packageProcessChecked_spec` says that one call
does what the format says, as long as the read fits behind what the buffer carries, with `Carries`
as the invariant.  `SentPackage.isFrame` is the other end: a package that was made is a frame of
the format. -/

namespace Teonet

open Bytes Framing

/-! ### The function with its accesses checked -/

/-- What the receiver may do wrong. -/
inductive PackageFault
  /-- the `memcpy` writes past the buffer -/
  | copy
  /-- a checksum is taken over bytes that were not received -/
  | checksum
  /-- the given rounds do not suffice -/
  | rounds
deriving DecidableEq, Repr

section Checked

variable (getByteChecksum : List UInt8 → UInt8)

/-- `get_byte_checksum(buffer + 1, n)`. -/
def checkedChecksum (packet : KsnTCPProxyPacketData) (n : ℕ) : Except PackageFault UInt8 :=
  if 1 + n ≤ packet.ptr then .ok (getByteChecksum (slice packet.buffer 1 n)) else .error .checksum

/-- The `memcpy` of stage `WAIT_FOR_END`. -/
def packageCopy (packet : KsnTCPProxyPacketData) (data : List UInt8) :
    Except PackageFault KsnTCPProxyPacketData :=
  if data = [] then .ok packet
  else if packet.ptr + data.length > ksnBufferDbSize then .error .copy
  else .ok { packet with
    buffer := packet.buffer.take packet.ptr ++ data ++ packet.buffer.drop (packet.ptr + data.length)
    ptr := packet.ptr + data.length }

/-- Stage `PROCESS_PACKET`. -/
def processPacketChecked (packet : KsnTCPProxyPacketData) :
    Except PackageFault (KsnTCPProxyPacketData × ℤ) := do
  let length := packageLength packet.buffer
  let checksum ← checkedChecksum getByteChecksum packet (length - 1)
  .ok ({ packet with
      length := length
      stage := .waitForStart
      ptr := if packet.ptr > length then packet.ptr else 0 },
    if hdrChecksum packet.buffer = checksum then (length : ℤ) else -3)

/-- Stage `WAIT_FOR_END`. -/
def waitForEndChecked (packet : KsnTCPProxyPacketData) (data : List UInt8) :
    Except PackageFault (KsnTCPProxyPacketData × ℤ) := do
  let packet ← packageCopy packet data
  if packet.ptr ≥ tcpProxyHeaderSize then
    let packetChecksum ← checkedChecksum getByteChecksum packet (tcpProxyHeaderSize - 2)
    if ¬ (hdrAddrLength packet.buffer ≠ 0 ∧ hdrPort packet.buffer ≠ 0 ∧
        hdrPacketChecksum packet.buffer = packetChecksum) then
      .ok ({ packet with stage := .waitForStart, ptr := 0 }, -2)
    else if packet.ptr ≥ packageLength packet.buffer then
      processPacketChecked getByteChecksum { packet with stage := .processPacket }
    else .ok (packet, 0)
  else .ok (packet, 0)

/-- The package that was received last is moved out of the buffer. -/
def packageMove (packet : KsnTCPProxyPacketData) : KsnTCPProxyPacketData :=
  let rest := packet.ptr - packet.length
  let packet := if packet.ptr ≠ 0 then { packet with
      buffer := slice packet.buffer packet.length rest ++ packet.buffer.drop rest
      ptr := rest }
    else packet
  { packet with length := 0, stage := .waitForEnd }

/-- `ksnTCPProxyPackageProcess` with its accesses checked. -/
def packageProcessChecked (packet : KsnTCPProxyPacketData) (data : List UInt8) :
    Except PackageFault (KsnTCPProxyPacketData × ℤ) :=
  match packet.stage with
  | .waitForStart => waitForEndChecked getByteChecksum (packageMove packet) data
  | .waitForEnd => waitForEndChecked getByteChecksum packet data
  | .processPacket => processPacketChecked getByteChecksum packet

/-! ### It computes the same -/

theorem checkedChecksum_eq_ok {packet : KsnTCPProxyPacketData} {n : ℕ} {c : UInt8}
    (h : checkedChecksum getByteChecksum packet n = .ok c) :
    c = getByteChecksum (slice packet.buffer 1 n) := by
  unfold checkedChecksum at h
  split at h
  · exact (Except.ok.inj h).symm
  · cases h

theorem processPacketChecked_eq_ok {packet : KsnTCPProxyPacketData}
    {r : KsnTCPProxyPacketData × ℤ} (h : processPacketChecked getByteChecksum packet = .ok r) :
    packageProcessPacket getByteChecksum packet = r := by
  obtain ⟨c, hc, hr⟩ := Runs.bind_eq_ok h
  obtain rfl := checkedChecksum_eq_ok getByteChecksum hc
  exact Except.ok.inj hr

theorem waitForEndChecked_eq_ok {packet : KsnTCPProxyPacketData} {data : List UInt8}
    {r : KsnTCPProxyPacketData × ℤ} (h : waitForEndChecked getByteChecksum packet data = .ok r) :
    packageWaitForEnd getByteChecksum packet data = r := by
  obtain ⟨p, hp, hr⟩ := Runs.bind_eq_ok h
  have hcopy : p = { packet with
      buffer := packet.buffer.take packet.ptr ++ data ++
        packet.buffer.drop (packet.ptr + data.length)
      ptr := packet.ptr + data.length } := by
    unfold packageCopy at hp
    split_ifs at hp with hnil hlen
    · subst hnil
      rw [← Except.ok.inj hp]
      simp
    · exact (Except.ok.inj hp).symm
  subst hcopy
  unfold packageWaitForEnd
  dsimp only at hr ⊢
  split at hr
  · rename_i hsize
    obtain ⟨c, hc, hr⟩ := Runs.bind_eq_ok hr
    obtain rfl := checkedChecksum_eq_ok getByteChecksum hc
    rw [if_pos hsize]
    split at hr
    · rename_i hbad
      rw [if_pos hbad]
      exact Except.ok.inj hr
    · rename_i hgood
      rw [if_neg hgood]
      split at hr
      · rename_i hwhole
        rw [if_pos hwhole]
        exact processPacketChecked_eq_ok getByteChecksum hr
      · rename_i hpart
        rw [if_neg hpart]
        exact Except.ok.inj hr
  · rename_i hsize
    rw [if_neg hsize]
    exact Except.ok.inj hr

/-- **Where no access is out of bounds**, the checked function is the function. -/
theorem packageProcessChecked_eq_ok {packet : KsnTCPProxyPacketData} {data : List UInt8}
    {r : KsnTCPProxyPacketData × ℤ}
    (h : packageProcessChecked getByteChecksum packet data = .ok r) :
    ksnTCPProxyPackageProcess getByteChecksum packet data = r := by
  unfold packageProcessChecked at h
  unfold ksnTCPProxyPackageProcess
  cases hs : packet.stage with
  | waitForStart =>
    rw [hs] at h
    exact waitForEndChecked_eq_ok getByteChecksum h
  | waitForEnd =>
    rw [hs] at h
    exact waitForEndChecked_eq_ok getByteChecksum h
  | processPacket =>
    rw [hs] at h
    exact processPacketChecked_eq_ok getByteChecksum h

/-! ### The header is read from its own bytes -/

section Header

variable {w : List UInt8} (x : List UInt8)

theorem slice_append {i n : ℕ} (h : i + n ≤ w.length) : slice (w ++ x) i n = slice w i n := by
  unfold slice
  rw [List.drop_append_of_le_length (by omega),
    List.take_append_of_le_length (by rw [List.length_drop]; omega)]

theorem hdrChecksum_append (h : 8 ≤ w.length) : hdrChecksum (w ++ x) = hdrChecksum w :=
  List.getD_append _ _ _ _ (by omega)

theorem hdrAddrLength_append (h : 8 ≤ w.length) : hdrAddrLength (w ++ x) = hdrAddrLength w := by
  unfold hdrAddrLength
  rw [List.getD_append _ _ _ _ (by omega)]

theorem hdrPacketChecksum_append (h : 8 ≤ w.length) :
    hdrPacketChecksum (w ++ x) = hdrPacketChecksum w :=
  List.getD_append _ _ _ _ (by omega)

theorem getLe16_drop_append {i : ℕ} (h : i + 2 ≤ w.length) :
    getLe16 ((w ++ x).drop i) = getLe16 (w.drop i) := by
  rw [List.drop_append_of_le_length (by omega)]
  exact getLe_append 2 _ _ (by rw [List.length_drop]; omega)

theorem hdrPort_append (h : 8 ≤ w.length) : hdrPort (w ++ x) = hdrPort w :=
  getLe16_drop_append x (by omega)

theorem packageLength_append (h : 8 ≤ w.length) : packageLength (w ++ x) = packageLength w := by
  unfold packageLength hdrPacketLength
  rw [getLe16_drop_append x (by omega), hdrAddrLength_append x h]

theorem le_packageLength (b : List UInt8) : tcpProxyHeaderSize ≤ packageLength b := by
  unfold packageLength
  omega

end Header

/-! ### What the stream means -/

/-- The header in front passes the checks of stage `WAIT_FOR_END`. -/
def HeaderOk (w : List UInt8) : Prop :=
  hdrAddrLength w ≠ 0 ∧ hdrPort w ≠ 0 ∧
    hdrPacketChecksum w = getByteChecksum (slice w 1 (tcpProxyHeaderSize - 2))

instance (w : List UInt8) : Decidable (HeaderOk getByteChecksum w) :=
  inferInstanceAs (Decidable (_ ∧ _ ∧ _))

/-- What stands in front of the received bytes. -/
def tcppFront (w : List UInt8) : Front :=
  if w.length < tcpProxyHeaderSize then .part
  else if ¬HeaderOk getByteChecksum w then .reject
  else if w.length < packageLength w then .part
  else if hdrChecksum w = getByteChecksum (slice w 1 (packageLength w - 1)) then
    .frame (packageLength w)
  else .broken (packageLength w)

theorem tcppFront_frame {w : List UInt8} {n : ℕ} (h : tcppFront getByteChecksum w = .frame n) :
    n = packageLength w ∧ packageLength w ≤ w.length := by
  unfold tcppFront at h
  split_ifs at h with hsize hok hpart hsum
  obtain rfl := Front.frame.inj h
  exact ⟨rfl, by omega⟩

/-- The format of a TCP proxy connection. -/
def tcppFormat : Format UInt8 where
  front := tcppFront getByteChecksum
  front_nil := rfl
  frame_pos h := by
    have hn := (tcppFront_frame getByteChecksum h).1
    have hle := le_packageLength
    unfold tcpProxyHeaderSize at hle
    exact hn ▸ Nat.lt_of_lt_of_le (by omega) (hle _)
  frame_le h := by
    obtain ⟨rfl, hle⟩ := tcppFront_frame getByteChecksum h
    exact hle

/-- What `ksnTCPProxyPackageProcess` returns for it. -/
def frontRv : Front → ℤ
  | .part => 0
  | .reject => -2
  | .broken _ => -3
  | .frame n => n

/-- What stays in the buffer. -/
def frontRest (w : List UInt8) : Front → List UInt8
  | .part => w
  | .reject => []
  | .broken n => w.drop n
  | .frame n => w.drop n

end Checked

/-! ### What the buffer carries -/

/-- The received bytes that are not yet part of a package: behind the last package, or in front of
the buffer. -/
inductive Carries (packet : KsnTCPProxyPacketData) : List UInt8 → Prop
  | empty : packet.stage = .waitForStart → packet.ptr = 0 → Carries packet []
  | behind {f u x : List UInt8} : packet.stage = .waitForStart → u ≠ [] →
      f.length = packet.length → packet.ptr = packet.length + u.length →
      packet.buffer = f ++ (u ++ x) → Carries packet u
  | front {u x : List UInt8} : packet.stage = .waitForEnd → packet.ptr = u.length →
      packet.buffer = u ++ x → Carries packet u

/-- The buffer, when a package was taken, with the package's bytes in front. -/
def Shows (packet : KsnTCPProxyPacketData) (b : List UInt8) : Prop :=
  packet.ptr ≤ ksnBufferDbSize ∧ ∃ y, packet.buffer = b ++ y

theorem Carries.length_le {packet : KsnTCPProxyPacketData} {u : List UInt8}
    (h : Carries packet u) : u.length ≤ packet.ptr := by
  cases h with
  | empty _ hptr => exact Nat.zero_le _
  | behind _ _ _ hptr => omega
  | front _ hptr => omega

theorem Carries.ptr_eq_zero {packet : KsnTCPProxyPacketData} (h : Carries packet []) :
    packet.ptr = 0 := by
  cases h with
  | empty _ hptr => exact hptr
  | behind _ hne => exact absurd rfl hne
  | front _ hptr => exact hptr

/-! ### One call -/

section Process

variable (getByteChecksum : List UInt8 → UInt8)

/-- A call that found `w` in the buffer did what the format says. -/
structure PackageProcessed (w : List UInt8) (r : KsnTCPProxyPacketData × ℤ) : Prop where
  rv : r.2 = frontRv (tcppFront getByteChecksum w)
  carries : Carries r.1 (frontRest w (tcppFront getByteChecksum w))
  fits : r.1.ptr ≤ ksnBufferDbSize
  frame : ∀ n, tcppFront getByteChecksum w = .frame n →
    (∃ y, r.1.buffer = w.take n ++ y) ∧ (r.1.ptr = 0 ↔ w.drop n = [])

variable {packet : KsnTCPProxyPacketData} {u w x data : List UInt8}

theorem PackageProcessed.of_part (hfront : tcppFront getByteChecksum w = .part)
    (h : Carries packet w) (hfit : packet.ptr ≤ ksnBufferDbSize) :
    PackageProcessed getByteChecksum w (packet, 0) where
  rv := by
    rw [hfront]
    rfl
  carries := by
    rw [hfront]
    exact h
  fits := hfit
  frame n hn := by
    rw [hfront] at hn
    cases hn

theorem packageCopy_eq (hptr : packet.ptr = u.length) (hbuf : packet.buffer = u ++ x)
    (hfit : u.length + data.length ≤ ksnBufferDbSize) :
    ∃ y, packageCopy packet data =
      .ok { packet with buffer := u ++ data ++ y, ptr := (u ++ data).length } := by
  unfold packageCopy
  split_ifs with hnil hlen
  · subst hnil
    refine ⟨x, ?_⟩
    rw [List.append_nil, ← hbuf, ← hptr]
  · omega
  · refine ⟨packet.buffer.drop (packet.ptr + data.length), ?_⟩
    rw [List.length_append, ← hptr]
    congr
    rw [hbuf, hptr, List.take_left]

/-- What is left behind a package of `n` bytes. -/
theorem carries_drop (hstage : packet.stage = .waitForStart) {n : ℕ} (hn : n ≤ w.length)
    (hlen : packet.length = n) (hptr : packet.ptr = if w.length > n then w.length else 0)
    (hbuf : packet.buffer = w ++ x) : Carries packet (w.drop n) := by
  rcases Nat.lt_or_ge n w.length with hlt | hge
  · rw [if_pos hlt] at hptr
    refine .behind (f := w.take n) (x := x) hstage ?_ ?_ ?_ ?_
    · rw [ne_eq, List.drop_eq_nil_iff]
      omega
    · rw [List.length_take, hlen]
      omega
    · rw [List.length_drop, hlen]
      omega
    · rw [← List.append_assoc, List.take_append_drop, hbuf]
  · rw [List.drop_of_length_le hge]
    rw [if_neg (by omega)] at hptr
    exact .empty hstage hptr

/-- Stage `PROCESS_PACKET`, once the package is complete. -/
theorem processPacketChecked_spec (hptr : packet.ptr = w.length) (hbuf : packet.buffer = w ++ x)
    (hfit : w.length ≤ ksnBufferDbSize) (hsize : 8 ≤ w.length) (hok : HeaderOk getByteChecksum w)
    (hlen : packageLength w ≤ w.length) :
    ∃ r, processPacketChecked getByteChecksum packet = .ok r ∧
      PackageProcessed getByteChecksum w r := by
  have hle : 8 ≤ packageLength w := le_packageLength w
  have hslice : slice packet.buffer 1 (packageLength w - 1) = slice w 1 (packageLength w - 1) := by
    rw [hbuf]
    exact slice_append x (by omega)
  have hpl : packageLength packet.buffer = packageLength w := by
    rw [hbuf, packageLength_append x hsize]
  have hsum : hdrChecksum packet.buffer = hdrChecksum w := by
    rw [hbuf, hdrChecksum_append x hsize]
  have hcheck : checkedChecksum getByteChecksum packet (packageLength w - 1) =
      .ok (getByteChecksum (slice w 1 (packageLength w - 1))) := by
    unfold checkedChecksum
    rw [if_pos (by omega), hslice]
  refine ⟨({ packet with
      length := packageLength w
      stage := .waitForStart
      ptr := if packet.ptr > packageLength w then packet.ptr else 0 },
    if hdrChecksum packet.buffer = getByteChecksum (slice w 1 (packageLength w - 1)) then
      (packageLength w : ℤ) else -3), ?_, ?_⟩
  · unfold processPacketChecked
    simp only [hpl, hcheck]
    rfl
  have hcarries : Carries { packet with
      length := packageLength w
      stage := .waitForStart
      ptr := if packet.ptr > packageLength w then packet.ptr else 0 } (w.drop (packageLength w)) :=
    carries_drop rfl hlen rfl (by rw [hptr]) hbuf
  have hfront : tcppFront getByteChecksum w =
      if hdrChecksum w = getByteChecksum (slice w 1 (packageLength w - 1)) then
        .frame (packageLength w)
      else .broken (packageLength w) := by
    unfold tcppFront tcpProxyHeaderSize
    rw [if_neg (by omega), if_neg (not_not_intro hok), if_neg (by omega)]
  have hrest : frontRest w (tcppFront getByteChecksum w) = w.drop (packageLength w) := by
    rw [hfront]
    split_ifs <;> rfl
  have hptr' : (if packet.ptr > packageLength w then packet.ptr else 0) ≤ ksnBufferDbSize := by
    split_ifs <;> omega
  refine ⟨?_, ?_, hptr', ?_⟩
  · rw [hfront]
    dsimp only
    rw [hsum]
    split_ifs <;> rfl
  · rw [hrest]
    exact hcarries
  · intro n hn
    obtain ⟨rfl, -⟩ := tcppFront_frame getByteChecksum hn
    refine ⟨⟨w.drop (packageLength w) ++ x, ?_⟩, ?_⟩
    · rw [← List.append_assoc, List.take_append_drop]
      exact hbuf
    · rw [List.drop_eq_nil_iff]
      dsimp only
      split_ifs <;> omega

/-- Stage `WAIT_FOR_END`, when the read fits behind the bytes in front of the buffer. -/
theorem waitForEndChecked_spec (hstage : packet.stage = .waitForEnd)
    (hptr : packet.ptr = u.length) (hbuf : packet.buffer = u ++ x)
    (hfit : u.length + data.length ≤ ksnBufferDbSize) :
    ∃ r, waitForEndChecked getByteChecksum packet data = .ok r ∧
      PackageProcessed getByteChecksum (u ++ data) r := by
  obtain ⟨y, hcopy⟩ := packageCopy_eq hptr hbuf hfit
  have hfit' : (u ++ data).length ≤ ksnBufferDbSize := by
    rw [List.length_append]
    omega
  generalize u ++ data = w at hcopy hfit' ⊢
  have hcarries : Carries { packet with buffer := w ++ y, ptr := w.length } w :=
    .front hstage rfl rfl
  unfold waitForEndChecked
  rw [hcopy]
  change ∃ r, (if w.length ≥ tcpProxyHeaderSize then _ else _) = _ ∧ _
  by_cases hsize : w.length ≥ tcpProxyHeaderSize
  · rw [if_pos hsize]
    have h8 : 8 ≤ w.length := hsize
    have hcheck : checkedChecksum getByteChecksum { packet with buffer := w ++ y, ptr := w.length }
        (tcpProxyHeaderSize - 2) =
        .ok (getByteChecksum (slice w 1 (tcpProxyHeaderSize - 2))) := by
      unfold checkedChecksum tcpProxyHeaderSize
      rw [if_pos (by dsimp only; omega), slice_append y (by omega)]
    rw [hcheck]
    change ∃ r, (if ¬(hdrAddrLength (w ++ y) ≠ 0 ∧ hdrPort (w ++ y) ≠ 0 ∧
      hdrPacketChecksum (w ++ y) = _) then _ else _) = _ ∧ _
    rw [hdrAddrLength_append y h8, hdrPort_append y h8, hdrPacketChecksum_append y h8]
    change ∃ r, (if ¬HeaderOk getByteChecksum w then _ else
      if w.length ≥ packageLength (w ++ y) then _ else _) = _ ∧ _
    rw [packageLength_append y h8]
    by_cases hok : HeaderOk getByteChecksum w
    · rw [if_neg (not_not_intro hok)]
      split_ifs with hlen
      · exact processPacketChecked_spec getByteChecksum rfl rfl hfit' h8 hok hlen
      · have hfront : tcppFront getByteChecksum w = .part := by
          unfold tcppFront
          rw [if_neg (by omega), if_neg (not_not_intro hok), if_pos (by omega)]
        exact ⟨_, rfl, .of_part getByteChecksum hfront hcarries hfit'⟩
    · rw [if_pos hok]
      have hfront : tcppFront getByteChecksum w = .reject := by
        unfold tcppFront
        rw [if_neg (by omega), if_pos hok]
      refine ⟨_, rfl, ?_, ?_, Nat.zero_le _, fun n hn => by rw [hfront] at hn; cases hn⟩
      · rw [hfront]
        rfl
      · rw [hfront]
        exact .empty rfl rfl
  · rw [if_neg hsize]
    have hfront : tcppFront getByteChecksum w = .part := by
      unfold tcppFront
      rw [if_pos (by omega)]
    exact ⟨_, rfl, .of_part getByteChecksum hfront hcarries hfit'⟩

/-- The move leaves in front of the buffer what was behind the package. -/
theorem packageMove_spec (hstart : packet.stage = .waitForStart) (h : Carries packet u) :
    (packageMove packet).stage = .waitForEnd ∧ (packageMove packet).ptr = u.length ∧
      ∃ x, (packageMove packet).buffer = u ++ x := by
  cases h with
  | empty _ hptr =>
    have hmove : packageMove packet = { packet with length := 0, stage := .waitForEnd } := by
      simp only [packageMove, hptr, ne_eq, not_true_eq_false, if_false]
    rw [hmove]
    exact ⟨rfl, hptr, packet.buffer, rfl⟩
  | @behind f _ x _ hu hlen hptr hbuf =>
    have hne : packet.ptr ≠ 0 := by
      have hpos := List.length_pos_iff.mpr hu
      omega
    have hrest : packet.ptr - packet.length = u.length := by omega
    have hslice : slice packet.buffer packet.length u.length = u := by
      rw [hbuf, ← hlen, slice, List.drop_left, List.take_left]
    have hmove : packageMove packet = {
        buffer := u ++ packet.buffer.drop u.length
        length := 0
        ptr := u.length
        stage := .waitForEnd } := by
      simp only [packageMove, if_pos hne, hrest, hslice]
    rw [hmove]
    exact ⟨rfl, rfl, _, rfl⟩
  | front hend =>
    rw [hstart] at hend
    cases hend

/-- **One call** does what the format says, when the read fits behind what the buffer carries. -/
theorem packageProcessChecked_spec (h : Carries packet u)
    (hfit : u.length + data.length ≤ ksnBufferDbSize) :
    ∃ r, packageProcessChecked getByteChecksum packet data = .ok r ∧
      PackageProcessed getByteChecksum (u ++ data) r := by
  unfold packageProcessChecked
  cases hs : packet.stage with
  | waitForStart =>
    obtain ⟨hstage, hptr, x, hbuf⟩ := packageMove_spec hs h
    exact waitForEndChecked_spec getByteChecksum hstage hptr hbuf hfit
  | waitForEnd =>
    cases h with
    | empty hstart => rw [hs] at hstart; cases hstart
    | behind hstart => rw [hs] at hstart; cases hstart
    | front hstage hptr hbuf => exact waitForEndChecked_spec getByteChecksum hstage hptr hbuf hfit
  | processPacket =>
    cases h with
    | empty hstart => rw [hs] at hstart; cases hstart
    | behind hstart => rw [hs] at hstart; cases hstart
    | front hend => rw [hs] at hend; cases hend

/-- A read that does not fit is written past the buffer. -/
theorem packageProcessChecked_copy (h : Carries packet u) (hne : data ≠ [])
    (hover : ksnBufferDbSize < u.length + data.length) :
    packageProcessChecked getByteChecksum packet data = .error .copy := by
  have hend : ∀ {p : KsnTCPProxyPacketData}, p.ptr = u.length →
      waitForEndChecked getByteChecksum p data = .error .copy := by
    intro p hptr
    have hcopy : packageCopy p data = .error .copy := by
      unfold packageCopy
      rw [if_neg hne, if_pos (by omega)]
    unfold waitForEndChecked
    rw [hcopy]
    rfl
  unfold packageProcessChecked
  cases hs : packet.stage with
  | waitForStart => exact hend (packageMove_spec hs h).2.1
  | waitForEnd =>
    cases h with
    | empty hstart => rw [hs] at hstart; cases hstart
    | behind hstart => rw [hs] at hstart; cases hstart
    | front _ hptr => exact hend hptr
  | processPacket =>
    cases h with
    | empty hstart => rw [hs] at hstart; cases hstart
    | behind hstart => rw [hs] at hstart; cases hstart
    | front hstage => rw [hs] at hstage; cases hstage

end Process

/-! ### Packages -/

/-- A package as it was made: port, address and data within the bounds of their fields. -/
structure SentPackage (getByteChecksum : List UInt8 → UInt8) where
  addr : CString
  port : ℕ
  cmd : ℕ
  data : List UInt8
  bufferLength : ℕ
  bytes : List UInt8
  addr_lt : addr.length < 255
  port_pos : 0 < port
  port_lt : port < 65536
  data_lt : data.length < 65536
  created : ksnTCPProxyPackageCreate getByteChecksum bufferLength addr port cmd data = .ok bytes

/-- What the read callback reads from the buffer: command, address, port and data. -/
def tcppReceived (packet : KsnTCPProxyPacketData) : ℕ × CString × ℕ × List UInt8 :=
  (hdrCommand packet.buffer, packageAddr packet.buffer, hdrPort packet.buffer,
    packageData packet.buffer)

namespace SentPackage

variable {getByteChecksum : List UInt8 → UInt8} (p : SentPackage getByteChecksum)

/-- The header without its two checksums. -/
def fields : List UInt8 :=
  UInt8.ofNat (tcpProxyVersion + 16 * (p.cmd % 16)) ::
    (le16 p.port ++ (le16 p.data.length ++ [UInt8.ofNat (p.addr.length + 1)]))

/-- The package without the first byte. -/
def body : List UInt8 :=
  p.fields ++ getByteChecksum p.fields :: (p.addr.toBuf ++ p.data)

theorem addrLength_toNat : (UInt8.ofNat (p.addr.length + 1)).toNat = p.addr.length + 1 := by
  have hlt := p.addr_lt
  rw [toNat_ofNat]
  omega

theorem bytes_eq : p.bytes = getByteChecksum p.body :: p.body := by
  have hcreated := p.created
  have htake : p.addr.toBuf.take (p.addr.length + 1) = p.addr.toBuf :=
    List.take_of_length_le p.addr.toBuf_length.le
  simp only [ksnTCPProxyPackageCreate, addrLength_toNat, htake] at hcreated
  split_ifs at hcreated
  exact (Except.ok.inj hcreated).symm

/-- The package and what follows it, field by field. -/
theorem bytes_append (x : List UInt8) : p.bytes ++ x = getByteChecksum p.body ::
    UInt8.ofNat (tcpProxyVersion + 16 * (p.cmd % 16)) :: (le16 p.port ++ (le16 p.data.length ++
      (UInt8.ofNat (p.addr.length + 1) :: getByteChecksum p.fields ::
        (p.addr.toBuf ++ (p.data ++ x))))) := by
  rw [bytes_eq]
  simp [body, fields]

theorem length_bytes : p.bytes.length = 8 + p.data.length + (p.addr.length + 1) := by
  rw [bytes_eq]
  simp [body, fields]
  omega

variable (x : List UInt8)

theorem hdrChecksum_eq : hdrChecksum (p.bytes ++ x) = getByteChecksum p.body := by
  rw [bytes_append]
  rfl

theorem hdrCommand_eq : hdrCommand (p.bytes ++ x) = p.cmd % 16 := by
  rw [bytes_append]
  change (UInt8.ofNat (tcpProxyVersion + 16 * (p.cmd % 16))).toNat / 16 = p.cmd % 16
  rw [toNat_ofNat]
  unfold tcpProxyVersion
  omega

theorem hdrPort_eq : hdrPort (p.bytes ++ x) = p.port := by
  rw [bytes_append]
  exact getLe16_le16_append_of_lt p.port_lt _

theorem hdrPacketLength_eq : hdrPacketLength (p.bytes ++ x) = p.data.length := by
  rw [bytes_append]
  exact getLe16_le16_append_of_lt p.data_lt _

theorem hdrAddrLength_eq : hdrAddrLength (p.bytes ++ x) = p.addr.length + 1 := by
  rw [bytes_append]
  exact p.addrLength_toNat

theorem packageLength_eq : packageLength (p.bytes ++ x) = p.bytes.length := by
  unfold packageLength
  rw [hdrPacketLength_eq, hdrAddrLength_eq, length_bytes]
  rfl

theorem headerOk : HeaderOk getByteChecksum (p.bytes ++ x) := by
  have hport := p.port_pos
  refine ⟨?_, ?_, ?_⟩
  · rw [hdrAddrLength_eq]
    omega
  · rw [hdrPort_eq]
    omega
  · rw [bytes_append]
    rfl

theorem slice_body : slice (p.bytes ++ x) 1 (p.bytes.length - 1) = p.body := by
  rw [bytes_eq, List.length_cons, Nat.add_sub_cancel]
  exact List.take_left

theorem packageAddr_eq : packageAddr (p.bytes ++ x) = p.addr := by
  rw [bytes_append]
  exact CString.ofBuf_toBuf_append _ _

theorem packageData_eq : packageData (p.bytes ++ x) = p.data := by
  unfold packageData
  rw [hdrAddrLength_eq, hdrPacketLength_eq, bytes_append, slice, ← List.drop_drop]
  change ((p.addr.toBuf ++ (p.data ++ x)).drop (p.addr.length + 1)).take p.data.length = p.data
  rw [List.drop_left' p.addr.toBuf_length, List.take_left]

/-- **A package is a frame** of the format. -/
theorem isFrame : (tcppFormat getByteChecksum).IsFrame p.bytes where
  whole x := by
    have hlen := p.length_bytes
    change tcppFront getByteChecksum (p.bytes ++ x) = _
    unfold tcppFront tcpProxyHeaderSize
    rw [packageLength_eq, slice_body, hdrChecksum_eq, List.length_append, if_neg (by omega),
      if_neg (not_not_intro (p.headerOk x)), if_neg (by omega), if_pos rfl]
  part w hw hlt := by
    obtain ⟨x, hx⟩ := hw
    change tcppFront getByteChecksum w = _
    unfold tcppFront tcpProxyHeaderSize
    by_cases hsize : w.length < 8
    · rw [if_pos hsize]
    · have hwhole := p.headerOk []
      have hlen := p.packageLength_eq []
      rw [List.append_nil, ← hx] at hwhole hlen
      rw [packageLength_append x (by omega), hx] at hlen
      have hok : HeaderOk getByteChecksum w := by
        unfold HeaderOk tcpProxyHeaderSize at hwhole ⊢
        rwa [hdrAddrLength_append x (by omega), hdrPort_append x (by omega),
          hdrPacketChecksum_append x (by omega), slice_append x (by omega)] at hwhole
      rw [if_neg hsize, if_neg (not_not_intro hok), if_pos (by omega)]

/-- What the callback reads when a package is in front of the buffer. -/
theorem tcppReceived_eq {packet : KsnTCPProxyPacketData} (h : Shows packet p.bytes) :
    tcppReceived packet = (p.cmd % 16, p.addr, p.port, p.data) := by
  obtain ⟨-, y, hbuf⟩ := h
  unfold tcppReceived
  rw [hbuf, hdrCommand_eq, packageAddr_eq, hdrPort_eq, packageData_eq]

end SentPackage

end Teonet
