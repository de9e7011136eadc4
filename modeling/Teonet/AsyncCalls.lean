import Teonet.Lib.Bytes
import Teonet.Lib.CString
import Mathlib.Algebra.Order.Ring.Rat

/-! # Calls from other threads: the buffers

The functions of `async_calls.c` that any thread may call.  On the thread of the event loop each
of them makes its call directly (`AsyncCall.direct`).  On any other thread it writes its arguments
into a buffer (`AsyncCall.buf`), puts the buffer into the queue of the event loop
(`ksnetEvMgrAsync`), and the event loop reads the call out of the buffer (`parse`).

`AsyncCall.Fits` is the condition on the arguments: a name fits the 8-bit length, the flag `l0_f`
its byte, and the buffer the 32-bit length of the queue.  `parse_buf` is the round trip: what the
loop reads is then the direct call. -/

namespace Teonet.AsyncCalls

open Bytes

/-! ### The calls -/

/-- A call that the event loop makes. -/
inductive DirectCall
  | ksnCoreSendCmdto (peer : CString) (cmd : UInt8) (data : List UInt8)
  | teoSScrSend (event : UInt16) (data : List UInt8) (cmd : UInt8)
  | ksnLNullSendToL0 (addr : CString) (port : UInt32) (cname : List UInt8) (cmd : UInt8)
      (data : List UInt8)
  | ksnCoreSendto (addr : CString) (port : UInt32) (cmd : UInt8) (data : List UInt8)
  | teoSScrSubscribe (peer : CString) (ev : UInt16)
deriving DecidableEq

/-- What `sendCmdAnswerToBinaryA` reads of the received packet; `fromBuf` are the `from_len` bytes
at `from`. -/
structure AnswerTo where
  addr : CString
  port : UInt32
  fromBuf : List UInt8
  fromLen : fromBuf.length < 256
  l0F : ℤ

/-- A call that any thread may make. -/
inductive AsyncCall
  | ksnCoreSendCmdtoA (peer : CString) (cmd : UInt8) (data : List UInt8)
  | teoSScrSendA (event : UInt16) (data : List UInt8) (cmd : UInt8)
  | sendCmdAnswerToBinaryA (rd : AnswerTo) (cmd : UInt8) (data : List UInt8)
  | teoSScrSubscribeA (peer : CString) (ev : UInt16)

/-- The call on the thread of the event loop. -/
def AsyncCall.direct : AsyncCall → DirectCall
  | .ksnCoreSendCmdtoA peer cmd data => .ksnCoreSendCmdto peer cmd data
  | .teoSScrSendA event data cmd => .teoSScrSend event data cmd
  | .sendCmdAnswerToBinaryA rd cmd data =>
    if rd.l0F ≠ 0 then .ksnLNullSendToL0 rd.addr rd.port rd.fromBuf cmd data
    else .ksnCoreSendto rd.addr rd.port cmd data
  | .teoSScrSubscribeA peer ev => .teoSScrSubscribe peer ev

/-! ### Writing the buffer -/

/-- `peer_length` and `addr_length`: `strlen + 1` as a `uint8_t`. -/
def strLength (s : CString) : UInt8 := UInt8.ofNat (s.length + 1)

/-- The name as it is copied, with as many bytes as its length says. -/
def strCopy (s : CString) : List UInt8 := s.toBuf.take (strLength s).toNat

/-- The buffer of a call on another thread. -/
def AsyncCall.buf : AsyncCall → List UInt8
  | .ksnCoreSendCmdtoA peer cmd data => 1 :: cmd :: strLength peer :: (strCopy peer ++ data)
  | .teoSScrSendA event data cmd => 2 :: cmd :: (le16 event.toNat ++ data)
  | .sendCmdAnswerToBinaryA rd cmd data =>
    3 :: cmd :: UInt8.ofNat (rd.l0F % 256).toNat :: strLength rd.addr ::
      UInt8.ofNat rd.fromBuf.length ::
        (strCopy rd.addr ++ (rd.fromBuf ++ (le 4 rd.port.toNat ++ data)))
  | .teoSScrSubscribeA peer ev => 4 :: 0 :: strLength peer :: (le16 ev.toNat ++ strCopy peer)

/-- An element of `async_queue`: the data, and its length as a `uint32_t`. -/
structure AsyncElement where
  data : List UInt8
  dataLen : ℕ
deriving DecidableEq

/-- `ksnetEvMgrAsync`. -/
def ksnetEvMgrAsync (asyncQueue : List AsyncElement) (data : List UInt8) : List AsyncElement :=
  asyncQueue ++ [⟨data, data.length % 2 ^ 32⟩]

/-! ### Reading the buffer -/

/-- The data behind the other fields; `d_length` is a `size_t`. -/
def restOf (mem : List UInt8) (dataLength ptr : ℕ) : List UInt8 :=
  (mem.drop ptr).take ((dataLength + 2 ^ 64 - ptr) % 2 ^ 64)

/-- The call in a buffer, by its `f_type`; `mem` is the memory at `data`, which goes on behind the
`data_length` bytes. -/
def parse (mem : List UInt8) (dataLength : ℕ) : Option DirectCall :=
  let cmd := mem.getD 1 0
  match (mem.getD 0 0).toNat with
  | 1 =>
    let peerLength := (mem.getD 2 0).toNat
    some (.ksnCoreSendCmdto (CString.ofBuf (mem.drop 3)) cmd
      (restOf mem dataLength (3 + peerLength)))
  | 2 => some (.teoSScrSend (UInt16.ofNat (getLe16 (mem.drop 2))) (restOf mem dataLength 4) cmd)
  | 3 =>
    let l0F := mem.getD 2 0
    let addrLength := (mem.getD 3 0).toNat
    let fromLength := (mem.getD 4 0).toNat
    let addr := CString.ofBuf (mem.drop 5)
    let cname := (mem.drop (5 + addrLength)).take fromLength
    let port := UInt32.ofNat (getLe 4 (mem.drop (5 + addrLength + fromLength)))
    let d := restOf mem dataLength (5 + addrLength + fromLength + 4)
    some (if l0F ≠ 0 then .ksnLNullSendToL0 addr port cname cmd d
      else .ksnCoreSendto addr port cmd d)
  -- `ev` is read as a `uint32_t`
  | 4 => some (.teoSScrSubscribe (CString.ofBuf (mem.drop 5)) (UInt16.ofNat (getLe 4 (mem.drop 3))))
  | _ => none

/-! ### The round trip -/

/-- The arguments fit the fields of the buffer, and the buffer fits the queue. -/
def AsyncCall.Fits (call : AsyncCall) : Prop :=
  call.buf.length < 2 ^ 32 ∧
    match call with
    | .ksnCoreSendCmdtoA peer _ _ => peer.length < 255
    | .teoSScrSendA .. => True
    | .sendCmdAnswerToBinaryA rd _ _ =>
      rd.addr.length < 255 ∧ (rd.l0F % 256 = 0 → rd.l0F = 0)
    | .teoSScrSubscribeA peer _ => peer.length < 255

theorem strLength_toNat {s : CString} (h : s.length < 255) :
    (strLength s).toNat = s.length + 1 := by
  rw [strLength, toNat_ofNat, Nat.mod_eq_of_lt (by omega)]

theorem strCopy_eq {s : CString} (h : s.length < 255) : strCopy s = s.toBuf := by
  rw [strCopy, strLength_toNat h, List.take_of_length_le (by simp)]

/-- What lies behind the other fields is the data. -/
theorem restOf_append {fields data : List UInt8} {n : ℕ} (ptr : ℕ) (after : List UInt8)
    (hptr : fields.length = ptr) (hn : n = (fields ++ data).length) (hlt : n < 2 ^ 32) :
    restOf (fields ++ (data ++ after)) n ptr = data := by
  have hlen : (n + 2 ^ 64 - ptr) % 2 ^ 64 = data.length := by
    rw [List.length_append] at hn
    omega
  rw [restOf, hlen, List.drop_left' hptr, List.take_left' rfl]

/-- The low half of a 32-bit field is its first two bytes. -/
theorem ofNat_getLe_four (n : ℕ) (l : List UInt8) :
    UInt16.ofNat (getLe 4 (le16 n ++ l)) = UInt16.ofNat n := by
  apply UInt16.toNat_inj.mp
  have hlow : getLe 4 (le16 n ++ l) % 65536 = getLe16 (le16 n ++ l) := by
    simp only [le16, le, getLe16, getLe, List.cons_append, List.nil_append, toNat_ofNat]
    omega
  rw [UInt16.toNat_ofNat', UInt16.toNat_ofNat', hlow, getLe16_le16_append]

/-- A flag that fits its byte is set in the buffer exactly when it is set. -/
theorem l0F_byte_ne_zero {l0F : ℤ} (h : l0F % 256 = 0 → l0F = 0) :
    UInt8.ofNat (l0F % 256).toNat ≠ 0 ↔ l0F ≠ 0 := by
  have hbyte : UInt8.ofNat (l0F % 256).toNat = 0 ↔ l0F % 256 = 0 := by
    rw [← UInt8.toNat_inj, toNat_ofNat, UInt8.toNat_zero]
    omega
  rw [ne_eq, hbyte, not_iff_not]
  exact ⟨h, fun h0 => by rw [h0]; rfl⟩

theorem parse_sendCmdto {peer : CString} (cmd : UInt8) (data after : List UInt8)
    (hpeer : peer.length < 255) {n : ℕ}
    (hn : n = (1 :: cmd :: strLength peer :: peer.toBuf ++ data).length) (hlt : n < 2 ^ 32) :
    parse (1 :: cmd :: strLength peer :: peer.toBuf ++ (data ++ after)) n =
      some (.ksnCoreSendCmdto peer cmd data) := by
  have hrest := restOf_append (3 + (peer.length + 1)) after (by simp; omega) hn hlt
  have hname : CString.ofBuf (peer.toBuf ++ (data ++ after)) = peer :=
    CString.ofBuf_toBuf_append _ _
  simp only [parse, List.cons_append, List.getD_cons_zero, List.getD_cons_succ, List.drop_succ_cons,
    List.drop_zero, UInt8.toNat_one, strLength_toNat hpeer, hname] at hrest ⊢
  rw [hrest]

theorem parse_teoSScrSend (event : UInt16) (cmd : UInt8) (data after : List UInt8) {n : ℕ}
    (hn : n = (2 :: cmd :: le16 event.toNat ++ data).length) (hlt : n < 2 ^ 32) :
    parse (2 :: cmd :: le16 event.toNat ++ (data ++ after)) n =
      some (.teoSScrSend event data cmd) := by
  have hrest := restOf_append 4 after (by simp) hn hlt
  have hevent : UInt16.ofNat (getLe16 (le16 event.toNat ++ (data ++ after))) = event := by
    rw [getLe16_le16_append_of_lt event.toNat_lt, UInt16.ofNat_toNat]
  simp only [parse, List.cons_append, List.getD_cons_zero, List.getD_cons_succ,
    List.drop_succ_cons, List.drop_zero, UInt8.reduceToNat, hevent] at hrest ⊢
  rw [hrest]

theorem parse_subscribe (peer : CString) (ev : UInt16) (after : List UInt8) (n : ℕ) :
    parse (4 :: 0 :: strLength peer :: (le16 ev.toNat ++ (peer.toBuf ++ after))) n =
      some (.teoSScrSubscribe peer ev) := by
  have hname : CString.ofBuf ((le16 ev.toNat ++ (peer.toBuf ++ after)).drop 2) = peer := by
    rw [drop_le16_append, CString.ofBuf_toBuf_append]
  have hev : UInt16.ofNat (getLe 4 (le16 ev.toNat ++ (peer.toBuf ++ after))) = ev := by
    rw [ofNat_getLe_four, UInt16.ofNat_toNat]
  simp only [parse, List.getD_cons_zero, List.drop_succ_cons, List.drop_zero, UInt8.reduceToNat,
    hname, hev]

theorem drop_five (a b c d e : UInt8) (l : List UInt8) (k : ℕ) :
    (a :: b :: c :: d :: e :: l).drop (5 + k) = l.drop k := by
  rw [Nat.add_comm]
  rfl

theorem parse_answerTo {rd : AnswerTo} (cmd : UInt8) (data after : List UInt8)
    (haddr : rd.addr.length < 255) {n : ℕ}
    (hn : n = ((3 :: cmd :: UInt8.ofNat (rd.l0F % 256).toNat :: strLength rd.addr ::
      UInt8.ofNat rd.fromBuf.length :: (rd.addr.toBuf ++ (rd.fromBuf ++ le 4 rd.port.toNat))) ++
        data).length) (hlt : n < 2 ^ 32) :
    parse ((3 :: cmd :: UInt8.ofNat (rd.l0F % 256).toNat :: strLength rd.addr ::
      UInt8.ofNat rd.fromBuf.length :: (rd.addr.toBuf ++ (rd.fromBuf ++ le 4 rd.port.toNat))) ++
        (data ++ after)) n =
      some (if UInt8.ofNat (rd.l0F % 256).toNat ≠ 0 then
          .ksnLNullSendToL0 rd.addr rd.port rd.fromBuf cmd data
        else .ksnCoreSendto rd.addr rd.port cmd data) := by
  have hrest := restOf_append (5 + (rd.addr.length + 1) + rd.fromBuf.length + 4) after
    (by simp; omega) hn hlt
  have hfrom : (UInt8.ofNat rd.fromBuf.length).toNat = rd.fromBuf.length := by
    rw [toNat_ofNat, Nat.mod_eq_of_lt rd.fromLen]
  have hport : UInt32.ofNat (getLe 4 (le 4 rd.port.toNat ++ (data ++ after))) = rd.port := by
    have hlt : rd.port.toNat < 256 ^ 4 := rd.port.toNat_lt
    rw [getLe_le_append, Nat.mod_eq_of_lt hlt, UInt32.ofNat_toNat]
  have htail : rd.addr.toBuf ++ (rd.fromBuf ++ le 4 rd.port.toNat) ++ (data ++ after) =
      rd.addr.toBuf ++ (rd.fromBuf ++ (le 4 rd.port.toNat ++ (data ++ after))) := by
    simp only [List.append_assoc]
  have haddrAt : ∀ l : List UInt8, (rd.addr.toBuf ++ l).drop (rd.addr.length + 1) = l :=
    fun l => List.drop_left' (CString.toBuf_length _)
  have hfromAt : ∀ l : List UInt8,
      (rd.addr.toBuf ++ (rd.fromBuf ++ l)).drop (rd.addr.length + 1 + rd.fromBuf.length) = l := by
    intro l
    rw [← List.drop_drop, haddrAt, List.drop_left' rfl]
  simp only [parse, List.cons_append, List.getD_cons_zero, List.getD_cons_succ, Nat.add_assoc 5,
    drop_five, List.drop_succ_cons, List.drop_zero, UInt8.reduceToNat, strLength_toNat haddr, hfrom,
    htail, CString.ofBuf_toBuf_append, haddrAt, hfromAt, List.take_left' rfl, hport] at hrest ⊢
  rw [hrest]

/-- **The round trip**: the event loop reads the direct call out of the buffer, whatever lies
behind it. -/
theorem parse_buf {call : AsyncCall} (h : call.Fits) (after : List UInt8) :
    parse (call.buf ++ after) call.buf.length = some call.direct := by
  obtain ⟨hlen, hfits⟩ := h
  cases call with
  | ksnCoreSendCmdtoA peer cmd data =>
    have hbuf : (AsyncCall.ksnCoreSendCmdtoA peer cmd data).buf =
        1 :: cmd :: strLength peer :: peer.toBuf ++ data := by
      rw [AsyncCall.buf, strCopy_eq hfits]
      rfl
    have hparse := parse_sendCmdto cmd data after hfits (congrArg List.length hbuf) hlen
    rwa [← List.append_assoc, ← hbuf] at hparse
  | teoSScrSendA event data cmd =>
    have hparse := parse_teoSScrSend event cmd data after rfl hlen
    rwa [← List.append_assoc] at hparse
  | sendCmdAnswerToBinaryA rd cmd data =>
    have hbuf : (AsyncCall.sendCmdAnswerToBinaryA rd cmd data).buf =
        (3 :: cmd :: UInt8.ofNat (rd.l0F % 256).toNat :: strLength rd.addr ::
          UInt8.ofNat rd.fromBuf.length ::
            (rd.addr.toBuf ++ (rd.fromBuf ++ le 4 rd.port.toNat))) ++ data := by
      rw [AsyncCall.buf, strCopy_eq hfits.1]
      simp only [List.cons_append, List.append_assoc]
    have hparse := parse_answerTo cmd data after hfits.1 (congrArg List.length hbuf) hlen
    rw [← List.append_assoc, ← hbuf] at hparse
    rw [hparse, AsyncCall.direct]
    simp only [l0F_byte_ne_zero hfits.2]
  | teoSScrSubscribeA peer ev =>
    rw [AsyncCall.buf, strCopy_eq hfits, List.cons_append, List.cons_append, List.cons_append,
      List.append_assoc, parse_subscribe, AsyncCall.direct]

theorem buf_length_ge (call : AsyncCall) : 3 ≤ call.buf.length := by
  cases call <;> simp only [AsyncCall.buf, List.length_cons, List.length_append, le_length] <;>
    omega

end Teonet.AsyncCalls
