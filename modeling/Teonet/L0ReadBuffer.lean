import Teonet.Crypt
import Teonet.L0Read
import Teonet.Lib.Block
import Teonet.Lib.Framing

/-! # The read buffer of a TCP client

`cmd_l0_read_cb` over the memory that it works in: the block `read_buffer` of `read_buffer_size`
bytes with `read_buffer_ptr` bytes in use.  The callback grows the block, copies what it has read
behind the bytes in use, goes over the packets in the block, in whose place their decryption
leaves other bytes, and moves the rest to the front.  It looks at the lengths in a header before
it knows that the header has been read, so it looks at bytes that are left over from earlier
packets and at bytes behind the block.

`cmdL0ReadCbIn_spec` says that none of this matters: no copy leaves the block, and the callback
does what `cmdL0ReadCb` does with the bytes in use.  `l0Reads_packets` draws the consequence for
a connection: however the stream is divided into reads, the packets are those that the lengths in
the headers cut from it. -/

namespace Teonet

open Block Framing

variable {Ctx : Type}

/-! ### The callback -/

/-- The difference of two `size_t`. -/
def sizeSub (a b : ℕ) : ℕ := (a + sizeMod - b) % sizeMod

/-- `read_buffer`, a block of `read_buffer_size` bytes, and `read_buffer_ptr`. -/
structure ReadBuffer where
  block : List UInt8 := []
  ptr : ℕ := 0

/-- Where the callback cannot go on. -/
inductive ReadFault
  /-- a copy leaves the block -/
  | outside
  /-- a packet has caused a disconnect -/
  | disconnected
  /-- the loop has not ended -/
  | rounds
deriving DecidableEq

/-- `teoLNullPacketDecrypt` as it works on a packet in a buffer: what it leaves in the packet's
place, also where it fails.  It does not change the length of the packet. -/
structure DecryptsInPlace (cli : TeoCli Ctx) where
  leaves : Option Ctx → List UInt8 → List UInt8
  leaves_of_decrypt : ∀ ctx p plain, cli.packetDecrypt ctx p = some plain → leaves ctx p = plain
  length_leaves : ∀ ctx p, (leaves ctx p).length = p.length

/-- One read: when it is done, the bytes, what a `realloc` adds to the block, and the bytes in
memory behind the block. -/
structure L0ReadCall where
  now : ℚ
  subscribed : Bool
  bytes : List UInt8
  malloc : Malloc
  behind : List UInt8

/-- The block grows by `KSN_BUFFER_DB_SIZE` when the read bytes do not fit. -/
def growBuffer (m : Malloc) (b : ReadBuffer) (received : ℕ) : ReadBuffer :=
  if received > sizeSub b.block.length b.ptr then
    { b with block := b.block ++ m.block 2048 }
  else b

/-- A copy, which has to stay inside of its block. -/
def copied {α : Type} : Option α → Except ReadFault α
  | some a => .ok a
  | none => .error .outside

theorem ok_bind {α β : Type} (a : α) (f : α → Except ReadFault β) : (Except.ok a >>= f) = f a := rfl

theorem copied_bind {α β : Type} (a : α) (f : α → Except ReadFault β) :
    (copied (some a) >>= f) = f a := rfl

/-- The loop over the packets in the block, from the one at `ptr`.  The lengths in its header are
read first. -/
def cmdL0ReadLoopIn (env : L0Env Ctx) (crypt : DecryptsInPlace env.cli) (c : L0ReadCall) (fd : ℤ) :
    ℕ → KsnLNullClass Ctx → ReadBuffer → ℕ →
      Except ReadFault (KsnLNullClass Ctx × ReadBuffer × ℕ × List ReadTrace)
  | 0, _, _, _ => .error .rounds
  | fuel + 1, kl, b, ptr =>
    match kl.map.get fd with
    | none => .error .disconnected
    | some kld =>
      let packet := b.block.drop ptr ++ c.behind
      let len := env.cli.packetLength packet
      if len ≤ sizeSub b.ptr ptr then do
        let frame ← copied (bytesAt b.block ptr len)
        let rest ← copied (bytesAt b.block ptr (sizeSub b.ptr ptr))
        let done := tcpProcessPacket env c.now c.subscribed kl fd kld rest
        if done.2.2 then .error .disconnected
        else
          let left := if env.cli.checksumsMatch packet then crypt.leaves kld.serverCrypt frame
            else frame
          let block ← copied (store b.block ptr left)
          let (kl, b, ptr, trace) ← cmdL0ReadLoopIn env crypt c fd fuel done.1
            { b with block := block } (ptr + len)
          .ok (kl, b, ptr, .access :: .packet frame :: done.2.1.map .call ++ trace)
      else .ok (kl, b, ptr, [.access])

/-- The end of the callback: the bytes behind `ptr` are moved to the front. -/
def keepRest (kl : KsnLNullClass Ctx) (fd : ℤ) (b : ReadBuffer) (ptr : ℕ) :
    Except ReadFault (KsnLNullClass Ctx × ReadBuffer) :=
  if sizeSub b.ptr ptr > 0 then do
    let rest ← copied (bytesAt b.block ptr (sizeSub b.ptr ptr))
    let block ← copied (store b.block 0 rest)
    .ok (kl.update fd fun d => { d with readBuffer := rest },
      { block := block, ptr := sizeSub b.ptr ptr })
  else .ok (kl.update fd fun d => { d with readBuffer := [] }, { b with ptr := 0 })

/-- `cmd_l0_read_cb` after a read of some bytes. -/
def cmdL0ReadCbIn (env : L0Env Ctx) (crypt : DecryptsInPlace env.cli) (fd : ℤ)
    (s : KsnLNullClass Ctx × ReadBuffer) (c : L0ReadCall) :
    Except ReadFault ((KsnLNullClass Ctx × ReadBuffer) × List ReadTrace) :=
  let (kl, b) := s
  match kl.map.get fd with
  | none => .ok ((kl, b), [])
  | some _ => do
    let b := growBuffer c.malloc b c.bytes.length
    let block ← copied (store b.block b.ptr c.bytes)
    let b := { block := block, ptr := b.ptr + c.bytes.length }
    let (kl, b, ptr, trace) ← cmdL0ReadLoopIn env crypt c fd (b.ptr + 1)
      (storeRead c.now kl fd c.bytes) b 0
    let s ← keepRest kl fd b ptr
    .ok (s, .access :: trace)

/-- The reads of a connection. -/
def l0Reads (env : L0Env Ctx) (crypt : DecryptsInPlace env.cli) (fd : ℤ) :
    KsnLNullClass Ctx × ReadBuffer → List L0ReadCall →
      Except ReadFault ((KsnLNullClass Ctx × ReadBuffer) × List ReadTrace)
  | s, [] => .ok (s, [])
  | s, c :: cs => do
    let (s, trace) ← cmdL0ReadCbIn env crypt fd s c
    let (s, traces) ← l0Reads env crypt fd s cs
    .ok (s, trace ++ traces)

/-! ### Packets of a stream -/

/-- What stands in front of a stream: a packet, once all of it is there. -/
def l0Front (cli : TeoCli Ctx) (w : List UInt8) : Front :=
  if cli.packetLength w ≤ w.length then .frame (cli.packetLength w) else .part

theorem l0Front_frame_iff {cli : TeoCli Ctx} {w : List UInt8} {n : ℕ} :
    l0Front cli w = .frame n ↔ cli.packetLength w = n ∧ n ≤ w.length := by
  unfold l0Front
  split_ifs with h
  · rw [Front.frame.injEq]
    exact ⟨fun hn => ⟨hn, hn ▸ h⟩, fun hn => hn.1⟩
  · refine iff_of_false (by simp) ?_
    rintro ⟨rfl, hle⟩
    exact h hle

/-- The stream of a TCP client, cut by the lengths in the headers. -/
def l0Format (cli : TeoCli Ctx) : Format UInt8 where
  front := l0Front cli
  front_nil := by
    have hsize := cli.l0HeaderSize_le_packetLength []
    unfold l0HeaderSize at hsize
    rw [l0Front, if_neg (by rw [List.length_nil]; omega)]
  frame_pos h := by
    obtain ⟨rfl, -⟩ := l0Front_frame_iff.mp h
    have hsize := cli.l0HeaderSize_le_packetLength
    unfold l0HeaderSize at hsize
    exact lt_of_lt_of_le (by decide) (hsize _)
  frame_le h := (l0Front_frame_iff.mp h).2

variable {cli : TeoCli Ctx}

/-- **What is behind the bytes in use does not matter**, for the test of the loop. -/
theorem packetLength_append_le_iff (w x : List UInt8) :
    cli.packetLength (w ++ x) ≤ w.length ↔ cli.packetLength w ≤ w.length := by
  by_cases h : l0HeaderSize ≤ w.length
  · rw [cli.packetLength_append h]
  · have hw := cli.l0HeaderSize_le_packetLength w
    have hwx := cli.l0HeaderSize_le_packetLength (w ++ x)
    exact iff_of_false (by omega) (by omega)

theorem packetLength_append_of_le {w : List UInt8} (h : cli.packetLength w ≤ w.length)
    (x : List UInt8) : cli.packetLength (w ++ x) = cli.packetLength w :=
  cli.packetLength_append (le_trans (cli.l0HeaderSize_le_packetLength w) h) x

theorem l0Format_stable {w : List UInt8} {n : ℕ} (x : List UInt8)
    (h : (l0Format cli).front w = .frame n) : (l0Format cli).front (w ++ x) = .frame n := by
  obtain ⟨rfl, hle⟩ := l0Front_frame_iff.mp h
  refine l0Front_frame_iff.mpr ⟨packetLength_append_of_le hle x, ?_⟩
  rw [List.length_append]
  omega

theorem l0Format_parse_failed (w : List UInt8) : ((l0Format cli).parse w).failed = false := by
  have hfront : ∀ w, (l0Format cli).front w ≠ .reject ∧ ∀ n, (l0Format cli).front w ≠ .broken n := by
    intro w
    show l0Front cli w ≠ .reject ∧ ∀ n, l0Front cli w ≠ .broken n
    unfold l0Front
    split_ifs <;> simp
  fun_induction (l0Format cli).parse w with
  | case1 w h => rfl
  | case2 w h => exact absurd h (hfront w).1
  | case3 w n h => exact absurd h ((hfront w).2 n)
  | case4 w n h _ ih => exact ih

/-- What is kept of a stream is shorter than the largest packet. -/
def maxL0Packet : ℕ := 8 + 255 + 65535

theorem packetLength_le (cli : TeoCli Ctx) (w : List UInt8) : cli.packetLength w ≤ maxL0Packet := by
  have hname := (cli.packetHeader w).peerNameLength.toNat_lt
  have hdata := (cli.packetHeader w).dataLength.toNat_lt
  unfold TeoCli.packetLength l0HeaderSize maxL0Packet
  omega

theorem l0Format_rest_length_lt (cli : TeoCli Ctx) (w : List UInt8) :
    ((l0Format cli).parse w).rest.length < maxL0Packet := by
  have hpart : l0Front cli ((l0Format cli).parse w).rest = .part :=
    Format.front_rest (l0Format_parse_failed w)
  unfold l0Front at hpart
  split_ifs at hpart with h
  have hle := packetLength_le cli ((l0Format cli).parse w).rest
  omega

theorem parse_of_packet {w : List UInt8} (h : cli.packetLength w ≤ w.length) :
    (l0Format cli).parse w =
      { (l0Format cli).parse (w.drop (cli.packetLength w)) with
        frames := w.take (cli.packetLength w) ::
          ((l0Format cli).parse (w.drop (cli.packetLength w))).frames } :=
  Format.parse_frame (l0Front_frame_iff.mpr ⟨rfl, h⟩)

theorem parse_of_part {w : List UInt8} (h : ¬ cli.packetLength w ≤ w.length) :
    (l0Format cli).parse w = { rest := w } :=
  Format.parse_part (if_neg h)

/-! ### The loop -/

/-- The packets that were processed. -/
def packetsOf (trace : List ReadTrace) : List (List UInt8) :=
  trace.filterMap fun
    | .packet bytes => some bytes
    | _ => none

theorem packetsOf_append (t t' : List ReadTrace) :
    packetsOf (t ++ t') = packetsOf t ++ packetsOf t' := List.filterMap_append

theorem packetsOf_calls (es : List L0Effect) : packetsOf (es.map .call) = [] := by
  refine List.filterMap_eq_nil_iff.mpr fun t ht => ?_
  obtain ⟨e, -, rfl⟩ := List.mem_map.mp ht
  rfl

theorem packetsOf_packet (bytes : List UInt8) (es : List L0Effect) :
    packetsOf (.access :: .packet bytes :: es.map .call) = [bytes] := by
  have h := packetsOf_append [.access, .packet bytes] (es.map .call)
  rw [packetsOf_calls] at h
  exact h

theorem sizeSub_add {a b : ℕ} (h : a + b < sizeMod) : sizeSub (a + b) a = b := by
  unfold sizeSub
  rw [show a + b + sizeMod - a = b + sizeMod by omega, Nat.add_mod_right, Nat.mod_eq_of_lt (by omega)]

/-- The loop goes on behind a packet. -/
theorem cmdL0ReadLoop_goesOn (env : L0Env Ctx) (now : ℚ) (subscribed : Bool) {fd : ℤ}
    {kl : KsnLNullClass Ctx} {kld : KsnLNullData Ctx} (hget : kl.map.get fd = some kld)
    {rest : List UInt8} (hlen : env.cli.packetLength rest ≤ rest.length)
    (hstays : (tcpProcessPacket env now subscribed kl fd kld rest).2.2 = false) :
    cmdL0ReadLoop env now subscribed fd kl rest =
      ((cmdL0ReadLoop env now subscribed fd
          (tcpProcessPacket env now subscribed kl fd kld rest).1
          (rest.drop (env.cli.packetLength rest))).1,
        (.access :: .packet (rest.take (env.cli.packetLength rest)) ::
          (tcpProcessPacket env now subscribed kl fd kld rest).2.1.map .call) ++
        (cmdL0ReadLoop env now subscribed fd
          (tcpProcessPacket env now subscribed kl fd kld rest).1
          (rest.drop (env.cli.packetLength rest))).2) := by
  conv_lhs => unfold cmdL0ReadLoop
  rw [hget]
  dsimp only
  rw [if_pos hlen, if_neg (by rw [hstays]; decide)]

/-- The loop ends before a part of a packet. -/
theorem cmdL0ReadLoop_ends (env : L0Env Ctx) (now : ℚ) (subscribed : Bool) {fd : ℤ}
    {kl : KsnLNullClass Ctx} {kld : KsnLNullData Ctx} (hget : kl.map.get fd = some kld)
    {rest : List UInt8} (hlen : ¬ env.cli.packetLength rest ≤ rest.length) :
    cmdL0ReadLoop env now subscribed fd kl rest =
      (kl.update fd fun d => { d with readBuffer := rest }, [.access]) := by
  unfold cmdL0ReadLoop
  rw [hget]
  exact if_neg hlen

variable {env : L0Env Ctx} {crypt : DecryptsInPlace env.cli} {c : L0ReadCall} {fd : ℤ}

/-- What the loop leaves when no packet causes a disconnect: from the bytes `rem` in use behind
`ptr` it has taken the packets, as `cmdL0ReadLoop` does, and the rest lies behind the new `ptr`. -/
def LoopDone (env : L0Env Ctx) (c : L0ReadCall) (fd : ℤ) (kl : KsnLNullClass Ctx)
    (inUse : ℕ) (rem stale : List UInt8)
    (r : KsnLNullClass Ctx × ReadBuffer × ℕ × List ReadTrace) : Prop :=
  let p := (l0Format env.cli).parse rem
  ∃ pre, r.2.1 = ⟨pre ++ (p.rest ++ stale), inUse⟩ ∧ r.2.2.1 = pre.length ∧
    pre.length + p.rest.length = inUse ∧ (∃ kld, r.1.map.get fd = some kld) ∧
    cmdL0ReadLoop env c.now c.subscribed fd kl rem =
      (r.1.update fd fun d => { d with readBuffer := p.rest }, r.2.2.2) ∧
    packetsOf r.2.2.2 = p.frames

/-- One round of the loop: whatever is left in the packet's place, it is as long as the packet. -/
theorem cmdL0ReadLoopIn_packet {kl : KsnLNullClass Ctx} {kld : KsnLNullData Ctx}
    (hget : kl.map.get fd = some kld) {pre rem stale : List UInt8}
    (hsize : pre.length + rem.length < sizeMod) (hlen : env.cli.packetLength rem ≤ rem.length)
    (fuel : ℕ) :
    ∃ left, left.length = env.cli.packetLength rem ∧
      cmdL0ReadLoopIn env crypt c fd (fuel + 1) kl
          ⟨pre ++ (rem ++ stale), pre.length + rem.length⟩ pre.length =
        if (tcpProcessPacket env c.now c.subscribed kl fd kld rem).2.2 then .error .disconnected
        else (do
          let (kl', b, ptr, trace) ← cmdL0ReadLoopIn env crypt c fd fuel
            (tcpProcessPacket env c.now c.subscribed kl fd kld rem).1
            ⟨pre ++ left ++ (rem.drop (env.cli.packetLength rem) ++ stale),
              pre.length + rem.length⟩ (pre.length + env.cli.packetLength rem)
          .ok (kl', b, ptr, .access :: .packet (rem.take (env.cli.packetLength rem)) ::
            (tcpProcessPacket env c.now c.subscribed kl fd kld rem).2.1.map .call ++ trace)) := by
  have hmem : (pre ++ (rem ++ stale)).drop pre.length ++ c.behind =
      rem ++ (stale ++ c.behind) := by
    rw [List.drop_left, List.append_assoc]
  have hframe : bytesAt (pre ++ (rem ++ stale)) pre.length (env.cli.packetLength rem) =
      some (rem.take (env.cli.packetLength rem)) := by
    rw [bytesAt_eq (by simp only [List.length_append]; omega), List.drop_left,
      List.take_append_of_le_length hlen]
  have hrest : bytesAt (pre ++ (rem ++ stale)) pre.length rem.length = some rem := by
    rw [bytesAt_eq (by simp only [List.length_append]; omega), List.drop_left, List.take_left]
  -- what the processing leaves in the packet's place
  obtain ⟨left, hleft⟩ : ∃ left, left =
      (if env.cli.checksumsMatch (rem ++ (stale ++ c.behind)) then
        crypt.leaves kld.serverCrypt (rem.take (env.cli.packetLength rem))
      else rem.take (env.cli.packetLength rem)) := ⟨_, rfl⟩
  have hleftLength : left.length = env.cli.packetLength rem := by
    have htake : (rem.take (env.cli.packetLength rem)).length = env.cli.packetLength rem := by
      rw [List.length_take, Nat.min_eq_left hlen]
    rw [hleft]
    split_ifs
    · rw [crypt.length_leaves, htake]
    · exact htake
  have hstore : store (pre ++ (rem ++ stale)) pre.length left =
      some (pre ++ left ++ (rem.drop (env.cli.packetLength rem) ++ stale)) := by
    rw [store_append rfl (by rw [List.length_append]; omega), hleftLength,
      List.drop_append_of_le_length hlen, List.append_assoc]
  refine ⟨left, hleftLength, ?_⟩
  conv_lhs => unfold cmdL0ReadLoopIn
  rw [hget]
  dsimp only
  rw [sizeSub_add hsize, hmem, if_pos ((packetLength_append_le_iff _ _).mpr hlen),
    packetLength_append_of_le hlen, hframe, hrest, copied_bind, copied_bind, ← hleft, hstore,
    copied_bind]

/-- **The loop**: whatever was left behind the bytes in use, and whatever the decryption leaves in
the packets' places. -/
theorem cmdL0ReadLoopIn_spec (fuel : ℕ) {kl : KsnLNullClass Ctx} {pre rem stale : List UInt8}
    (hsize : pre.length + rem.length + stale.length < sizeMod) (hfuel : rem.length < fuel) :
    cmdL0ReadLoopIn env crypt c fd fuel kl ⟨pre ++ (rem ++ stale), pre.length + rem.length⟩
        pre.length = .error .disconnected ∨
      ∃ r, cmdL0ReadLoopIn env crypt c fd fuel kl
          ⟨pre ++ (rem ++ stale), pre.length + rem.length⟩ pre.length = .ok r ∧
        LoopDone env c fd kl (pre.length + rem.length) rem stale r := by
  induction fuel generalizing kl pre rem with
  | zero => omega
  | succ fuel ih =>
    have hin : sizeSub (pre.length + rem.length) pre.length = rem.length := sizeSub_add (by omega)
    cases hget : kl.map.get fd with
    | none =>
      unfold cmdL0ReadLoopIn
      rw [hget]
      exact Or.inl rfl
    | some kld =>
      by_cases hlen : env.cli.packetLength rem ≤ rem.length
      swap
      · have hmem : (pre ++ (rem ++ stale)).drop pre.length ++ c.behind =
            rem ++ (stale ++ c.behind) := by
          rw [List.drop_left, List.append_assoc]
        unfold cmdL0ReadLoopIn
        rw [hget]
        dsimp only
        rw [hin, hmem, if_neg (mt (packetLength_append_le_iff _ _).mp hlen)]
        refine Or.inr ⟨_, rfl, pre, ?_, rfl, ?_, ⟨kld, hget⟩, ?_, ?_⟩
        · rw [parse_of_part hlen]
        · rw [parse_of_part hlen]
        · rw [cmdL0ReadLoop_ends env c.now c.subscribed hget hlen, parse_of_part hlen]
        · rw [parse_of_part hlen]
          rfl
      obtain ⟨left, hleft, hround⟩ := @cmdL0ReadLoopIn_packet Ctx env crypt c fd kl kld hget pre
        rem stale (by omega) hlen fuel
      rw [hround]
      cases hstops : (tcpProcessPacket env c.now c.subscribed kl fd kld rem).2.2 with
      | true => exact Or.inl (if_pos rfl)
      | false =>
        have hpos := env.cli.l0HeaderSize_le_packetLength rem
        unfold l0HeaderSize at hpos
        have hpre : pre.length + env.cli.packetLength rem = (pre ++ left).length := by
          rw [List.length_append, hleft]
        have huse : pre.length + rem.length =
            (pre ++ left).length + (rem.drop (env.cli.packetLength rem)).length := by
          rw [List.length_append, hleft, List.length_drop]
          omega
        rw [if_neg (by decide), hpre, huse]
        rcases @ih (tcpProcessPacket env c.now c.subscribed kl fd kld rem).1 (pre ++ left)
          (rem.drop (env.cli.packetLength rem)) (by rw [← huse]; omega)
          (by rw [List.length_drop]; omega) with hdis | ⟨r, hr, hdone⟩
        · rw [hdis]
          exact Or.inl rfl
        · rw [hr, ok_bind]
          obtain ⟨pre', hbuf, hptr, hlength, hrecord, hloop, hpackets⟩ := hdone
          have hparse := parse_of_packet hlen
          refine Or.inr ⟨_, rfl, pre', ?_, hptr, ?_, hrecord, ?_, ?_⟩
          · rw [hparse]
            exact hbuf
          · rw [hparse]
            exact hlength
          · rw [cmdL0ReadLoop_goesOn env c.now c.subscribed hget hlen hstops, hloop, hparse]
          · rw [packetsOf_append, packetsOf_packet, hpackets, hparse]
            rfl

/-- The loop from the front of the block. -/
theorem cmdL0ReadLoopIn_front (kl : KsnLNullClass Ctx) {rem stale : List UInt8}
    (hsize : rem.length + stale.length < sizeMod) :
    cmdL0ReadLoopIn env crypt c fd (rem.length + 1) kl ⟨rem ++ stale, rem.length⟩ 0 =
        .error .disconnected ∨
      ∃ r, cmdL0ReadLoopIn env crypt c fd (rem.length + 1) kl ⟨rem ++ stale, rem.length⟩ 0 =
          .ok r ∧ LoopDone env c fd kl rem.length rem stale r := by
  have hspec := @cmdL0ReadLoopIn_spec Ctx env crypt c fd (rem.length + 1) kl [] rem stale
    (by rw [List.length_nil, Nat.zero_add]; exact hsize) (Nat.lt_succ_self _)
  rw [List.length_nil, Nat.zero_add] at hspec
  exact hspec

/-! ### One read -/

/-- `KSN_BUFFER_DB_SIZE`, the size of the largest read. -/
def l0ReadSize : ℕ := 2048

/-- Between two calls: the record of the connection keeps the tail of the stream, and the buffer
holds it at its front. -/
structure HoldsTail (fd : ℤ) (s : KsnLNullClass Ctx × ReadBuffer) (tail : List UInt8) : Prop where
  record : ∃ kld, s.1.map.get fd = some kld ∧ kld.readBuffer = tail
  used : s.2.ptr = tail.length
  held : tail <+: s.2.block
  short : tail.length < maxL0Packet
  size : s.2.block.length ≤ maxL0Packet + 2 * l0ReadSize

theorem length_lt_sizeMod {n : ℕ} (h : n ≤ maxL0Packet + 2 * l0ReadSize) : n < sizeMod := by
  refine lt_of_le_of_lt h ?_
  decide

/-- After the growth there is room for the read bytes, and the block has not become too large. -/
theorem growBuffer_spec (m : Malloc) {s : KsnLNullClass Ctx × ReadBuffer} {tail : List UInt8}
    (h : HoldsTail fd s tail) {n : ℕ} (hn : n ≤ l0ReadSize) :
    ∃ stale, growBuffer m s.2 n = ⟨tail ++ stale, tail.length⟩ ∧ n ≤ stale.length ∧
      tail.length + stale.length ≤ maxL0Packet + 2 * l0ReadSize := by
  obtain ⟨kl, block, ptr⟩ := s
  obtain ⟨-, hused, ⟨stale, hblock⟩, hshort, hsize⟩ := h
  dsimp only at hused hblock hsize
  subst hblock
  obtain rfl : ptr = tail.length := hused
  rw [List.length_append] at hsize
  have hsub : sizeSub (tail ++ stale).length tail.length = stale.length := by
    rw [List.length_append]
    exact sizeSub_add (length_lt_sizeMod hsize)
  simp only [l0ReadSize] at hn hsize ⊢
  unfold growBuffer
  dsimp only
  rw [hsub]
  split_ifs with hgrow
  · refine ⟨stale ++ m.block 2048, by rw [List.append_assoc], ?_, ?_⟩
    · rw [List.length_append, m.length_block]
      omega
    · rw [List.length_append, m.length_block]
      omega
  · exact ⟨stale, rfl, by omega, hsize⟩

/-- The record keeps what is left. -/
theorem update_readBuffer_get {kl : KsnLNullClass Ctx} {kld : KsnLNullData Ctx}
    (h : kl.map.get fd = some kld) (rest : List UInt8) :
    (kl.update fd fun d => { d with readBuffer := rest }).map.get fd =
      some { kld with readBuffer := rest } := by
  show (kl.map.modify fd _).get fd = _
  rw [FinMap.get_modify, if_pos rfl, h]
  rfl

/-- The rest is moved to the front, and stays what it is. -/
theorem keepRest_spec {kl : KsnLNullClass Ctx} {kld : KsnLNullData Ctx}
    (hget : kl.map.get fd = some kld) {pre rest stale : List UInt8} (hshort : rest.length < maxL0Packet)
    (hsize : pre.length + rest.length + stale.length ≤ maxL0Packet + 2 * l0ReadSize) :
    ∃ b', keepRest kl fd ⟨pre ++ (rest ++ stale), pre.length + rest.length⟩ pre.length =
        .ok (kl.update fd fun d => { d with readBuffer := rest }, b') ∧
      HoldsTail fd (kl.update fd fun d => { d with readBuffer := rest }, b') rest := by
  have hsub : sizeSub (pre.length + rest.length) pre.length = rest.length := by
    have hlt := length_lt_sizeMod hsize
    exact sizeSub_add (by omega)
  have hlength : (pre ++ (rest ++ stale)).length ≤ maxL0Packet + 2 * l0ReadSize := by
    rw [List.length_append, List.length_append, ← Nat.add_assoc]
    exact hsize
  have hrecord := update_readBuffer_get hget rest
  unfold keepRest
  dsimp only
  rw [hsub]
  by_cases hpos : rest.length > 0
  · have hrest : bytesAt (pre ++ (rest ++ stale)) pre.length rest.length = some rest := by
      rw [bytesAt_eq (by simp only [List.length_append]; omega), List.drop_left, List.take_left]
    have hstore := store_zero (m := pre ++ (rest ++ stale)) (b := rest)
      (by simp only [List.length_append]; omega)
    rw [if_pos hpos, hrest]
    simp only [copied, bind, Except.bind, hstore]
    exact ⟨_, rfl, ⟨_, hrecord, rfl⟩, rfl, ⟨_, rfl⟩, hshort, (store_length hstore).trans_le hlength⟩
  · obtain rfl : rest = [] := List.length_eq_zero_iff.mp (by omega)
    rw [if_neg hpos]
    exact ⟨_, rfl, ⟨_, hrecord, rfl⟩, rfl, List.nil_prefix, hshort, hlength⟩

/-- **One read**: unless a packet causes a disconnect no copy leaves the block, the callback does
what `cmdL0ReadCb` does, and the packets are those of the tail and the read bytes. -/
theorem cmdL0ReadCbIn_spec {s : KsnLNullClass Ctx × ReadBuffer} {tail : List UInt8}
    (h : HoldsTail fd s tail) (hbytes : c.bytes.length ≤ l0ReadSize) :
    cmdL0ReadCbIn env crypt fd s c = .error .disconnected ∨
      ∃ s' trace, cmdL0ReadCbIn env crypt fd s c = .ok (s', trace) ∧
        cmdL0ReadCb env c.now c.subscribed s.1 fd (.data c.bytes) = (s'.1, trace) ∧
        packetsOf trace = ((l0Format env.cli).parse (tail ++ c.bytes)).frames ∧
        HoldsTail fd s' ((l0Format env.cli).parse (tail ++ c.bytes)).rest := by
  obtain ⟨stale, hgrow, hroom, hsize⟩ := growBuffer_spec c.malloc h hbytes
  obtain ⟨⟨kld, hget, htail⟩, -⟩ := h
  obtain ⟨kl, b⟩ := s
  dsimp only at hget hgrow
  have hstore : store (tail ++ stale) tail.length c.bytes =
      some ((tail ++ c.bytes) ++ stale.drop c.bytes.length) := by
    rw [store_append rfl hroom, List.append_assoc]
  have htotal : (tail ++ c.bytes).length + (stale.drop c.bytes.length).length ≤
      maxL0Packet + 2 * l0ReadSize := by
    rw [List.length_append, List.length_drop]
    omega
  have hused : tail.length + c.bytes.length = (tail ++ c.bytes).length := by
    rw [List.length_append]
  unfold cmdL0ReadCbIn cmdL0ReadCb
  dsimp only
  rw [hget]
  dsimp only
  rw [hgrow]
  rw [hstore, copied_bind]
  dsimp only
  rw [hused, htail]
  rcases @cmdL0ReadLoopIn_front Ctx env crypt c fd (storeRead c.now kl fd c.bytes) _ _
    (length_lt_sizeMod htotal) with hdis | ⟨⟨kl', b', ptr, trace⟩, hr, hdone⟩
  · rw [hdis]
    exact Or.inl rfl
  · obtain ⟨pre, hbuf, hptr, hlength, ⟨kld', hget'⟩, hloop, hpackets⟩ := hdone
    dsimp only at hbuf hptr hget' hloop hpackets
    subst hbuf hptr
    have hshort := l0Format_rest_length_lt env.cli (tail ++ c.bytes)
    obtain ⟨b', hkept, hholds⟩ := keepRest_spec hget' hshort (by rw [hlength]; exact htotal)
    rw [hlength] at hkept
    rw [hr, hloop, ok_bind]
    dsimp only
    rw [hkept, ok_bind]
    exact Or.inr ⟨_, _, rfl, rfl, hpackets, hholds⟩

/-! ### A connection -/

/-- The stream is cut into packets by the lengths in their headers, and a tail that is no whole
packet. -/
structure CutInto (cli : TeoCli Ctx) (stream : List UInt8) (packets : List (List UInt8))
    (tail : List UInt8) : Prop where
  whole : stream = packets.flatten ++ tail
  lengths : ∀ p ∈ packets, cli.packetLength p = p.length
  part : tail.length < cli.packetLength tail

/-- Every stream is cut in one way. -/
theorem CutInto.parse_eq {stream tail : List UInt8} {packets : List (List UInt8)}
    (h : CutInto cli stream packets tail) :
    (l0Format cli).parse stream = { frames := packets, rest := tail } := by
  obtain ⟨rfl, hlengths, hpart⟩ := h
  induction packets with
  | nil => exact parse_of_part (not_le.mpr hpart)
  | cons p packets ih =>
    have hp := hlengths p List.mem_cons_self
    have hwhole : cli.packetLength (p ++ (packets.flatten ++ tail)) = p.length := by
      rw [packetLength_append_of_le hp.le, hp]
    rw [List.flatten_cons, List.append_assoc,
      parse_of_packet (by rw [hwhole, List.length_append]; omega), hwhole, List.drop_left,
      List.take_left, ih fun q hq => hlengths q (List.mem_cons_of_mem _ hq)]

theorem CutInto.unique {stream tail tail' : List UInt8} {packets packets' : List (List UInt8)}
    (h : CutInto cli stream packets tail) (h' : CutInto cli stream packets' tail') :
    packets = packets' ∧ tail = tail' := by
  have heq := h.parse_eq.symm.trans h'.parse_eq
  rw [Parsed.mk.injEq] at heq
  exact ⟨heq.1, heq.2.1⟩

theorem cutInto_parse (cli : TeoCli Ctx) (stream : List UInt8) :
    CutInto cli stream ((l0Format cli).parse stream).frames ((l0Format cli).parse stream).rest := by
  induction hn : stream.length using Nat.strong_induction_on generalizing stream with
  | _ n ih =>
    by_cases hlen : cli.packetLength stream ≤ stream.length
    · have hpos := cli.l0HeaderSize_le_packetLength stream
      unfold l0HeaderSize at hpos
      obtain ⟨hwhole, hlengths, hpart⟩ := ih (stream.drop (cli.packetLength stream)).length
        (by rw [List.length_drop]; omega) _ rfl
      rw [parse_of_packet hlen]
      refine ⟨?_, ?_, hpart⟩
      · rw [List.flatten_cons, List.append_assoc, ← hwhole, List.take_append_drop]
      · intro p hp
        rcases List.mem_cons.mp hp with rfl | hrest
        · rw [cli.packetLength_take (cli.l0HeaderSize_le_packetLength stream), List.length_take,
            Nat.min_eq_left hlen]
        · exact hlengths p hrest
    · rw [parse_of_part hlen]
      exact ⟨rfl, fun _ hp => absurd hp List.not_mem_nil, not_le.mp hlen⟩

/-- What stands behind a packet does not change whether its checksums match. -/
theorem checksumsMatch_append {p : List UInt8} (h : cli.packetLength p = p.length)
    (x : List UInt8) : cli.checksumsMatch (p ++ x) = cli.checksumsMatch p := by
  have hsize := cli.l0HeaderSize_le_packetLength p
  have hheader : cli.packetHeader (p ++ x) = cli.packetHeader p :=
    cli.packetHeader_append (by omega) x
  have hbody : cli.packetBody (p ++ x) = cli.packetBody p := by
    unfold TeoCli.packetBody
    rw [hheader, List.drop_append_of_le_length (by omega), List.take_append_of_le_length]
    unfold TeoCli.packetLength at h
    rw [List.length_drop]
    omega
  unfold l0HeaderSize at hsize
  unfold TeoCli.checksumsMatch l0HeaderSize
  rw [hheader, hbody, List.take_append_of_le_length (by omega)]

/-- A packet of wrong checksum is skipped whole. -/
theorem tcpProcessPacket_of_wrong (now : ℚ) (subscribed : Bool) (kl : KsnLNullClass Ctx)
    (kld : KsnLNullData Ctx) {p : List UInt8} (hlen : env.cli.packetLength p = p.length)
    (hwrong : env.cli.checksumsMatch p = false) (x : List UInt8) :
    tcpProcessPacket env now subscribed kl fd kld (p ++ x) = (kl, [], false) := by
  unfold tcpProcessPacket
  rw [checksumsMatch_append hlen, hwrong]
  rfl

/-- The reads of a connection whose buffer holds the tail of what came before. -/
theorem l0Reads_spec {calls : List L0ReadCall} {s : KsnLNullClass Ctx × ReadBuffer}
    {tail : List UInt8} (h : HoldsTail fd s tail)
    (hpart : tail.length < env.cli.packetLength tail)
    (hreads : ∀ c ∈ calls, c.bytes.length ≤ l0ReadSize) :
    l0Reads env crypt fd s calls = .error .disconnected ∨
      ∃ s' trace, l0Reads env crypt fd s calls = .ok (s', trace) ∧
        packetsOf trace = ((l0Format env.cli).parse (tail ++ calls.flatMap (·.bytes))).frames ∧
        HoldsTail fd s' ((l0Format env.cli).parse (tail ++ calls.flatMap (·.bytes))).rest := by
  induction calls generalizing s tail with
  | nil =>
    refine Or.inr ⟨s, [], rfl, ?_, ?_⟩
    · rw [List.flatMap_nil, List.append_nil, parse_of_part (not_le.mpr hpart)]
      rfl
    · rw [List.flatMap_nil, List.append_nil, parse_of_part (not_le.mpr hpart)]
      exact h
  | cons c calls ih =>
    have hread := @cmdL0ReadCbIn_spec Ctx env crypt c fd s tail h (hreads c List.mem_cons_self)
    have hsplit := Format.parse_append_rest (F := l0Format env.cli) l0Format_stable
      (l0Format_parse_failed (tail ++ c.bytes)) (calls.flatMap (·.bytes))
    rw [List.append_assoc, ← List.flatMap_cons] at hsplit
    rw [l0Reads]
    rcases hread with hdis | ⟨s', trace, hok, -, hpackets, hholds⟩
    · rw [hdis]
      exact Or.inl rfl
    · rw [hok, ok_bind]
      dsimp only
      rcases ih hholds (cutInto_parse env.cli (tail ++ c.bytes)).part
        (fun c' hc' => hreads c' (List.mem_cons_of_mem _ hc')) with
        hdis | ⟨s'', traces, hoks, hrest, hfinal⟩
      · rw [hdis]
        exact Or.inl rfl
      · rw [hoks, ok_bind]
        refine Or.inr ⟨s'', _, rfl, ?_, ?_⟩
        · rw [packetsOf_append, hpackets, hrest, hsplit]
        · rw [hsplit]
          exact hfinal

/-- A connection from which nothing has been read. -/
theorem holdsTail_new {kl : KsnLNullClass Ctx} {kld : KsnLNullData Ctx}
    (hget : kl.map.get fd = some kld) (hempty : kld.readBuffer = []) : HoldsTail fd (kl, {}) [] :=
  ⟨⟨kld, hget, hempty⟩, rfl, List.nil_prefix, by decide, Nat.zero_le _⟩

/-- **A stream of a TCP client** is cut by the lengths in the headers into packets and a tail.
However it is divided into reads, unless a packet causes a disconnect, no copy leaves the buffer,
these packets are processed, in this order, and the buffer holds the tail.  A packet of wrong
checksum is skipped whole. -/
theorem l0Reads_packets (env : L0Env Ctx) (crypt : DecryptsInPlace env.cli) (fd : ℤ)
    (stream : List UInt8) :
    ∃ packets tail, CutInto env.cli stream packets tail ∧
      (∀ (kl : KsnLNullClass Ctx) (kld : KsnLNullData Ctx), kl.map.get fd = some kld →
        kld.readBuffer = [] → ∀ calls : List L0ReadCall, calls.flatMap (·.bytes) = stream →
        (∀ c ∈ calls, 1 ≤ c.bytes.length ∧ c.bytes.length ≤ l0ReadSize) →
        l0Reads env crypt fd (kl, {}) calls ≠ .error .disconnected →
        ∃ s trace, l0Reads env crypt fd (kl, {}) calls = .ok (s, trace) ∧
          packetsOf trace = packets ∧ s.2.block.take s.2.ptr = tail ∧
          s.2.ptr = tail.length ∧ s.2.ptr ≤ s.2.block.length) ∧
      ∀ p ∈ packets, env.cli.checksumsMatch p = false → ∀ now subscribed kl kld x,
        tcpProcessPacket env now subscribed kl fd kld (p ++ x) = (kl, [], false) := by
  have hcut := cutInto_parse env.cli stream
  refine ⟨_, _, hcut, ?_, ?_⟩
  · intro kl kld hget hempty calls hstream hreads hstays
    have hspec := @l0Reads_spec Ctx env crypt fd calls _ _ (holdsTail_new hget hempty)
      (lt_of_lt_of_le (by decide) (env.cli.l0HeaderSize_le_packetLength []))
      fun c hc => (hreads c hc).2
    rcases hspec with hdis | ⟨s, trace, hok, hpackets, hholds⟩
    · exact absurd hdis hstays
    · rw [List.nil_append, hstream] at hpackets hholds
      obtain ⟨x, hx⟩ := hholds.held
      refine ⟨s, trace, hok, hpackets, ?_, hholds.used, ?_⟩
      · rw [hholds.used, ← hx, List.take_left]
      · rw [hholds.used, ← hx, List.length_append]
        omega
  · intro p hp hwrong now subscribed kl kld x
    exact tcpProcessPacket_of_wrong now subscribed kl kld (hcut.lengths p hp) hwrong x

/-- A decryption that leaves the packet as it is. -/
def keepsPackets : DecryptsInPlace plainCli where
  leaves _ p := p
  leaves_of_decrypt _ _ _ h := Option.some.inj h
  length_leaves _ _ := rfl

/-- A read of some bytes; new memory is filled with `A`. -/
def readOf (bytes : List UInt8) : L0ReadCall :=
  ⟨5, false, bytes, ⟨fun n => List.replicate n 65, fun _ => List.length_replicate⟩, []⟩

/-- A packet for `b`, whose header comes in two reads, and a byte of the next one. -/
def splitPacket : List UInt8 := plainPacket 129 (CString.ofBuf [98]) [1, 2]

def splitReads : List L0ReadCall :=
  [readOf (splitPacket.take 3), readOf (splitPacket.drop 3 ++ [65])]

theorem cutInto_split : CutInto plainCli (splitPacket ++ [65]) [splitPacket] [65] :=
  ⟨by decide, by decide, by decide⟩

theorem l0Reads_packets_split :
    ∃ s trace, l0Reads secretEnv keepsPackets 5
        ((l0After secretEnv emptyServer (.accept 5 5 none 7000)).kl, {}) splitReads =
          .ok (s, trace) ∧
      packetsOf trace = [splitPacket] ∧ s.2.block.take s.2.ptr = [65] := by
  obtain ⟨packets, tail, hcut, hreads, -⟩ :=
    l0Reads_packets secretEnv keepsPackets 5 (splitPacket ++ [65])
  obtain ⟨rfl, rfl⟩ := hcut.unique cutInto_split
  obtain ⟨s, trace, hok, hpackets, htail, -⟩ :=
    hreads (l0After secretEnv emptyServer (.accept 5 5 none 7000)).kl _ rfl rfl splitReads
      (by decide) (by decide) fun h => absurd (congrArg Except.isOk h) (by decide +kernel)
  exact ⟨s, trace, hok, hpackets, htail⟩

end Teonet
