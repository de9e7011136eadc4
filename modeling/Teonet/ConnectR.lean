import Teonet.CommandData
import Teonet.Peers
import Mathlib.Algebra.BigOperators.Group.List.Basic

/-! # The data of CMD_CONNECT_R

A peer asks for its r-host with a `connect_r_packet_t`: a port, the number of its private addresses,
its type in a field of 64 bytes, and the addresses.  `commands_creator.c` has a creator for a UDP
connection and one for a TCP proxy connection, and the r-host reads the number in `cmd_connect_r_cb`
and the type in `ksnCoreCheckNewPeer`.  Creators and readers are translated over the block; a creator
may also end at an assertion.

`foldlM_connectRPutIp` is the loop over the addresses, and `connectR_decodes_iff` says which packets
are read as they were written. -/

namespace Teonet

open Block Bytes

/-! ### Addresses and types -/

/-- What `strtok` returns until there is nothing left. -/
def strtok (sep : UInt8) (l : List UInt8) : List (List UInt8) :=
  let (token, rest) := l.foldr (fun b r =>
    if b = sep then ([], if r.1 = [] then r.2 else r.1 :: r.2) else (b :: r.1, r.2)) ([], [])
  if token = [] then rest else token :: rest

/-- `ip_to_array`, into an array that holds `arr`. -/
def ipToArray (ip : CString) (arr : List UInt8) : List UInt8 :=
  let bytes := ((strtok 46 ip.bytes).take 4).map fun token =>
    UInt8.ofNat (atoi (CString.ofBuf token) % 256).toNat
  bytes ++ arr.drop bytes.length

/-- `ip_is_private`; the array is not initialized and holds `arr`. -/
def ipIsPrivate (arr : List UInt8) (ip : CString) : Bool :=
  let ipArr := ipToArray ip arr
  ipArr.getD 0 0 = 10 ∨ (ipArr.getD 0 0 = 192 ∧ ipArr.getD 1 0 = 168) ∨
    (ipArr.getD 0 0 = 172 ∧ 16 ≤ ipArr.getD 1 0 ∧ ipArr.getD 1 0 ≤ 31)

/-- The strings of `teoGetFullAppTypeFromHostInfo`, quoted and joined. -/
def quotedTypes : List CString → List UInt8
  | [] => []
  | [t] => 34 :: (t.bytes ++ [34])
  | t :: ts => 34 :: (t.bytes ++ 34 :: 44 :: 32 :: quotedTypes ts)

/-- What a creator takes from the configuration and the host: the addresses of `getIPs`, what lies
where `ip_is_private` has its array, the port, and the application type with the services. -/
structure ConnectRConfig where
  ips : List CString
  ipArr : List UInt8
  port : UInt32
  appType : CString
  l0AllowF : Bool := false
  vpnConnectF : Bool := false

/-- `teoGetFullAppTypeFromHostInfo`: the application type, `teo-l0` and `teo-vpn`. -/
def ConnectRConfig.fullType (cfg : ConnectRConfig) : CString :=
  CString.ofBuf (quotedTypes ([cfg.appType] ++
    (if cfg.l0AllowF then [.ofBuf [116, 101, 111, 45, 108, 48]] else []) ++
    (if cfg.vpnConnectF then [.ofBuf [116, 101, 111, 45, 118, 112, 110]] else [])))

/-! ### The creators -/

/-- Where a creator ends without a packet: at an assertion, or with a write outside the block. -/
inductive CreateStop
  | assertion
  | outside
deriving DecidableEq

/-- A write of the creator. -/
def put (packet : List UInt8) (i : ℕ) (b : List UInt8) : Except CreateStop (List UInt8) :=
  match store packet i b with
  | none => .error .outside
  | some packet => .ok packet

/-- `sizeof(packet->type)`. -/
def connectRTypeSize : ℕ := 64

/-- `sizeof(connect_r_packet_t)`: the addresses start here. -/
def connectRSize : ℕ := 4 + 1 + connectRTypeSize

/-- `MAX_IP_STR_LEN`. -/
def maxIpStrLen : ℕ := 16

/-- `strncpy` of `n` bytes, which fills up with zeros. -/
def strncpyBytes (n : ℕ) (s : CString) : List UInt8 :=
  s.bytes.take n ++ List.replicate (n - s.length) 0

/-- One address in the loop of `createCmdConnectRPacketUdp`, with `ptr`. -/
def connectRPutIp (arr : List UInt8) (len : ℕ) (w : List UInt8 × ℕ) (ip : CString) :
    Except CreateStop (List UInt8 × ℕ) :=
  if ipIsPrivate arr ip then
    let (packet, ptr) := w
    if len * maxIpStrLen > ptr then
      let ipLen := ip.length + 1
      if ptr + ipLen ≤ len * maxIpStrLen then do
        let packet ← put packet (connectRSize + ptr) ip.toBuf
        let packet ← put packet 4 [packet.getD 4 0 + 1]
        .ok (packet, ptr + ipLen)
      else .error .assertion
    else .error .assertion
  else .ok w

/-- `createCmdConnectRPacketUdp`; `len` is a `uint8_t`. -/
def createCmdConnectRPacketUdp (cfg : ConnectRConfig) : Except CreateStop (List UInt8) := do
  let len := cfg.ips.length % 256
  let packet ← put (List.replicate (connectRSize + len * maxIpStrLen) 0) 4 [0]
  let packet ← put packet 0 (le 4 cfg.port.toNat)
  if connectRTypeSize > cfg.fullType.length then
    let packet ← put packet 5 (strncpyBytes connectRTypeSize cfg.fullType)
    let w ← (cfg.ips.take len).foldlM (connectRPutIp cfg.ipArr len) (packet, 0)
    .ok w.1
  else .error .assertion

/-- `createCmdConnectRPacketTcp`: one byte, the number of addresses; `malloc` leaves `junk` there. -/
def createCmdConnectRPacketTcp (junk : UInt8) : Except CreateStop (List UInt8) :=
  put [junk] 0 [0]

/-- The two connections of `connect_r_host_cb`. -/
inductive ConnectRKind
  | udp
  | tcp (junk : UInt8)

def createCmdConnectRPacket (kind : ConnectRKind) (cfg : ConnectRConfig) :
    Except CreateStop (List UInt8) :=
  match kind with
  | .udp => createCmdConnectRPacketUdp cfg
  | .tcp junk => createCmdConnectRPacketTcp junk

/-! ### The readers -/

/-- `packet->ip_counts` in `cmd_connect_r_cb`, over the block at `rd->data`. -/
def connectRIpCountsIn (mem : List UInt8) : Option UInt8 := byteAt mem 4

/-- `packet->type` in `ksnCoreCheckNewPeer`. -/
def connectRTypeIn (mem : List UInt8) : Option CString := strAt mem 5

/-- Where the readers stay inside the packet, they read what lies there. -/
theorem connectRIpCounts_eq {rd : KsnCorePacketData} {n : UInt8}
    (h : connectRIpCountsIn rd.data = some n) : connectRIpCounts rd = n := by
  rw [connectRIpCountsIn, byteAt] at h
  obtain ⟨hlt, -⟩ := List.getElem?_eq_some_iff.mp h
  rw [connectRIpCounts, List.getD_eq_getElem?_getD, List.getElem?_append_left hlt, h,
    Option.getD_some]

theorem connectRType_eq {rd : KsnCorePacketData} {t : CString}
    (h : connectRTypeIn rd.data = some t) : connectRType rd = t := by
  have hdrop := drop_eq_of_strAt h
  have hle : 5 ≤ rd.data.length := by
    have hlen := congrArg List.length hdrop
    simp at hlen
    omega
  rw [connectRType, List.drop_append_of_le_length hle, hdrop, List.append_assoc,
    CString.ofBuf_toBuf_append]

/-! ### What the creator for UDP writes -/

/-- The packet with its fields. -/
def connectRLayout (port : UInt32) (count : UInt8) (type body : List UInt8) : List UInt8 :=
  le 4 port.toNat ++ ([count] ++ (type ++ body))

/-- The addresses that are written. -/
def ConnectRConfig.privateIps (cfg : ConnectRConfig) : List CString :=
  (cfg.ips.take (cfg.ips.length % 256)).filter (ipIsPrivate cfg.ipArr)

/-- The bytes that addresses take. -/
def ipsSize (ips : List CString) : ℕ := (ips.map fun ip => ip.length + 1).sum

theorem connectRLayout_length (port : UInt32) (count : UInt8) (type body : List UInt8) :
    (connectRLayout port count type body).length = 4 + 1 + type.length + body.length := by
  simp [connectRLayout]
  omega

theorem put_append {a m b : List UInt8} {i : ℕ} (hi : a.length = i) (h : b.length ≤ m.length) :
    put (a ++ m) i b = .ok (a ++ (b ++ m.drop b.length)) := by
  rw [put, store_append hi h]

theorem put_count (port : UInt32) (count c : UInt8) (type body : List UInt8) :
    put (connectRLayout port count type body) 4 [c] = .ok (connectRLayout port c type body) := by
  rw [connectRLayout, put_append (le_length 4 _) (by simp)]
  rfl

theorem getD_count (port : UInt32) (count : UInt8) (type body : List UInt8) :
    (connectRLayout port count type body).getD 4 0 = count := by
  rw [connectRLayout, List.getD_append_right _ _ _ _ (le_length 4 _).le, le_length]
  rfl

/-- An address that fits is written behind the others. -/
theorem put_ip (port : UInt32) (count : UInt8) {type body : List UInt8} {ptr : ℕ} {ip : CString}
    (htype : type.length = connectRTypeSize) (hfit : ptr + (ip.length + 1) ≤ body.length) :
    ∃ body', body'.length = body.length ∧
      put (connectRLayout port count type body) (connectRSize + ptr) ip.toBuf =
        .ok (connectRLayout port count type body') := by
  have hhead : (le 4 port.toNat ++ ([count] ++ (type ++ body.take ptr))).length =
      connectRSize + ptr := by
    simp [htype, connectRSize]
    omega
  have hlayout : connectRLayout port count type body =
      (le 4 port.toNat ++ ([count] ++ (type ++ body.take ptr))) ++ body.drop ptr := by
    simp [connectRLayout]
  have hlen : ip.toBuf.length ≤ (body.drop ptr).length := by
    simp
    omega
  refine ⟨body.take ptr ++ (ip.toBuf ++ (body.drop ptr).drop ip.toBuf.length), ?_, ?_⟩
  · simp
    omega
  · rw [hlayout, put_append hhead hlen]
    simp [connectRLayout]

/-- One round of the loop, with a private address. -/
theorem connectRPutIp_of_fits {arr : List UInt8} {len : ℕ} (port : UInt32) (count : UInt8)
    {type body : List UInt8} {ptr : ℕ} {ip : CString} (htype : type.length = connectRTypeSize)
    (hbody : body.length = len * maxIpStrLen) (hip : ipIsPrivate arr ip = true)
    (hfit : ptr + (ip.length + 1) ≤ len * maxIpStrLen) :
    ∃ body', body'.length = body.length ∧
      connectRPutIp arr len (connectRLayout port count type body, ptr) ip =
        .ok (connectRLayout port (count + 1) type body', ptr + (ip.length + 1)) := by
  obtain ⟨body', hlen, hput⟩ := put_ip port count htype (hbody ▸ hfit)
  refine ⟨body', hlen, ?_⟩
  unfold connectRPutIp
  dsimp only
  rw [if_pos hip, if_pos (by omega), if_pos hfit, hput]
  simp only [bind, Except.bind, getD_count, put_count]

theorem connectRPutIp_of_not_fits {arr : List UInt8} {len : ℕ} {packet : List UInt8} {ptr : ℕ}
    {ip : CString} (hip : ipIsPrivate arr ip = true)
    (hfit : ¬ ptr + (ip.length + 1) ≤ len * maxIpStrLen) :
    connectRPutIp arr len (packet, ptr) ip = .error .assertion := by
  unfold connectRPutIp
  dsimp only
  rw [if_pos hip, if_neg hfit]
  exact ite_self _

theorem ipsSize_cons (ip : CString) (ips : List CString) :
    ipsSize (ip :: ips) = ip.length + 1 + ipsSize ips := by
  simp [ipsSize]

/-- **The loop over the addresses**: all private ones are written if they fit, else an assertion
fails. -/
theorem foldlM_connectRPutIp (arr : List UInt8) (len : ℕ) (port : UInt32)
    {type : List UInt8} (htype : type.length = connectRTypeSize) (ips : List CString)
    (count : UInt8) (body : List UInt8) (hbody : body.length = len * maxIpStrLen) (ptr : ℕ)
    (hptr : ptr ≤ len * maxIpStrLen) :
    if ptr + ipsSize (ips.filter (ipIsPrivate arr)) ≤ len * maxIpStrLen then
      ∃ body' ptr', body'.length = len * maxIpStrLen ∧
        ips.foldlM (connectRPutIp arr len) (connectRLayout port count type body, ptr) =
          .ok (connectRLayout port
            (count + UInt8.ofNat (ips.filter (ipIsPrivate arr)).length) type body', ptr')
    else ips.foldlM (connectRPutIp arr len) (connectRLayout port count type body, ptr) =
      .error .assertion := by
  induction ips generalizing count body ptr with
  | nil =>
    rw [if_pos (by simpa [ipsSize] using hptr)]
    refine ⟨body, ptr, hbody, ?_⟩
    simp
    rfl
  | cons ip ips ih =>
    rw [List.foldlM_cons]
    by_cases hip : ipIsPrivate arr ip
    · rw [List.filter_cons_of_pos hip, ipsSize_cons, List.length_cons]
      by_cases hfit : ptr + (ip.length + 1) ≤ len * maxIpStrLen
      · obtain ⟨body', hlen, hstep⟩ :=
          connectRPutIp_of_fits port count htype hbody hip hfit
        have hnext := ih (count + 1) body' (hlen.trans hbody) (ptr + (ip.length + 1)) hfit
        have hcount : count + 1 + UInt8.ofNat (ips.filter (ipIsPrivate arr)).length =
            count + UInt8.ofNat ((ips.filter (ipIsPrivate arr)).length + 1) := by
          rw [UInt8.ofNat_add, UInt8.add_assoc]
          congr 1
          exact UInt8.add_comm _ _
        rw [hcount, Nat.add_assoc] at hnext
        rw [hstep]
        exact hnext
      · rw [connectRPutIp_of_not_fits hip hfit, if_neg (by omega)]
        rfl
    · rw [List.filter_cons_of_neg hip, connectRPutIp, if_neg hip]
      exact ih count body hbody ptr hptr

theorem strncpyBytes_length {n : ℕ} {s : CString} (h : s.length ≤ n) :
    (strncpyBytes n s).length = n := by
  rw [CString.length] at h
  simp [strncpyBytes, CString.length]
  omega

/-- The cleared block has the fields as well. -/
theorem replicate_connectRLayout (n : ℕ) :
    List.replicate (connectRSize + n) 0 =
      connectRLayout 0 0 (List.replicate connectRTypeSize 0) (List.replicate n 0) := by
  rw [connectRSize, Nat.add_assoc, Nat.add_assoc, ← List.replicate_append_replicate,
    ← List.replicate_append_replicate, ← List.replicate_append_replicate]
  rfl

theorem put_port (port port' : UInt32) (count : UInt8) (type body : List UInt8) :
    put (connectRLayout port count type body) 0 (le 4 port'.toNat) =
      .ok (connectRLayout port' count type body) := by
  have hput := put_append (a := []) (m := connectRLayout port count type body)
    (b := le 4 port'.toNat) rfl (by rw [connectRLayout_length, le_length]; omega)
  have hdrop : (connectRLayout port count type body).drop 4 = [count] ++ (type ++ body) :=
    List.drop_left' (le_length 4 _)
  rw [List.nil_append, List.nil_append, le_length, hdrop] at hput
  exact hput

theorem put_type (port : UInt32) (count : UInt8) {type type' : List UInt8} (body : List UInt8)
    (h : type'.length = type.length) :
    put (connectRLayout port count type body) 5 type' =
      .ok (connectRLayout port count type' body) := by
  have hput := put_append (a := le 4 port.toNat ++ [count]) (m := type ++ body) (b := type')
    (i := 5) (by simp) (by simp; omega)
  rw [h, List.drop_left] at hput
  simpa [connectRLayout] using hput

/-- **The packet for UDP**: the number and the text of the private addresses, and the type, if they
fit, else an assertion fails. -/
theorem createCmdConnectRPacketUdp_eq (cfg : ConnectRConfig) :
    if cfg.fullType.length < connectRTypeSize ∧
        ipsSize cfg.privateIps ≤ cfg.ips.length % 256 * maxIpStrLen then
      ∃ body, createCmdConnectRPacketUdp cfg =
        .ok (connectRLayout cfg.port (UInt8.ofNat cfg.privateIps.length)
          (strncpyBytes connectRTypeSize cfg.fullType) body)
    else createCmdConnectRPacketUdp cfg = .error .assertion := by
  unfold createCmdConnectRPacketUdp
  dsimp only
  rw [replicate_connectRLayout]
  simp only [bind, Except.bind, put_count, put_port]
  by_cases htype : cfg.fullType.length < connectRTypeSize
  · have hlen := strncpyBytes_length (n := connectRTypeSize) (s := cfg.fullType) (by omega)
    have hloop := foldlM_connectRPutIp cfg.ipArr (cfg.ips.length % 256) cfg.port hlen
      (cfg.ips.take (cfg.ips.length % 256)) 0
      (List.replicate (cfg.ips.length % 256 * maxIpStrLen) 0) List.length_replicate 0
      (Nat.zero_le _)
    rw [Nat.zero_add, UInt8.zero_add, ← ConnectRConfig.privateIps] at hloop
    rw [if_pos htype, put_type _ _ _ (by rw [hlen, List.length_replicate])]
    dsimp only
    by_cases hfit : ipsSize cfg.privateIps ≤ cfg.ips.length % 256 * maxIpStrLen
    · rw [if_pos hfit] at hloop
      obtain ⟨body, ptr, -, hrun⟩ := hloop
      rw [if_pos ⟨htype, hfit⟩, hrun]
      exact ⟨body, rfl⟩
    · rw [if_neg hfit] at hloop
      rw [if_neg fun h => hfit h.2, hloop]
  · rw [if_neg fun h => htype h.1, if_neg htype]

/-! ### What is read -/

/-- A packet is built, and the readers stay inside it and find the number of addresses and, in a
packet for UDP, the type. -/
def ConnectRDecodes (kind : ConnectRKind) (cfg : ConnectRConfig) : Prop :=
  ∃ packet n t, createCmdConnectRPacket kind cfg = .ok packet ∧
    connectRIpCountsIn packet = some n ∧ connectRTypeIn packet = some t ∧
    match kind with
    | .udp => n.toNat = cfg.privateIps.length ∧ t = cfg.fullType
    | .tcp _ => n = 0

theorem connectRIpCountsIn_layout (port : UInt32) (count : UInt8) (type body : List UInt8) :
    connectRIpCountsIn (connectRLayout port count type body) = some count := by
  rw [connectRIpCountsIn, byteAt_eq (by rw [connectRLayout_length]; omega), getD_count]

theorem connectRTypeIn_layout (port : UInt32) (count : UInt8) {t : CString} (body : List UInt8)
    (h : t.length < connectRTypeSize) :
    connectRTypeIn (connectRLayout port count (strncpyBytes connectRTypeSize t) body) = some t := by
  have hzeros : List.replicate (connectRTypeSize - t.length) (0 : UInt8) =
      0 :: List.replicate (connectRTypeSize - t.length - 1) 0 := by
    rw [← List.replicate_succ]
    congr 1
    omega
  have htext : t.bytes.take connectRTypeSize = t.bytes := List.take_of_length_le h.le
  have hhead : (le 4 port.toNat ++ [count]).length = 5 := by simp
  have hlayout : connectRLayout port count (strncpyBytes connectRTypeSize t) body =
      (le 4 port.toNat ++ [count]) ++ (strncpyBytes connectRTypeSize t ++ body) := by
    simp [connectRLayout]
  have hdrop : (connectRLayout port count (strncpyBytes connectRTypeSize t) body).drop 5 =
      t.toBuf ++ (List.replicate (connectRTypeSize - t.length - 1) 0 ++ body) := by
    rw [hlayout, List.drop_left' hhead, strncpyBytes, htext, hzeros, CString.toBuf]
    simp
  exact strAt_of_drop_eq hdrop

/-- **The data of `CMD_CONNECT_R`**: a creator never writes outside its packet, and its packet is
built and read back exactly when the connection is a UDP one and the type and the addresses fit. -/
theorem connectR_decodes_iff (kind : ConnectRKind) (cfg : ConnectRConfig) :
    createCmdConnectRPacket kind cfg ≠ .error .outside ∧
    (ConnectRDecodes kind cfg ↔
      kind = .udp ∧ cfg.fullType.length < connectRTypeSize ∧
        ipsSize cfg.privateIps ≤ cfg.ips.length % 256 * maxIpStrLen) := by
  cases kind with
  | tcp junk =>
    have hpacket : createCmdConnectRPacket (.tcp junk) cfg = .ok [0] := rfl
    rw [hpacket]
    refine ⟨by simp, iff_of_false ?_ fun h => nomatch h.1⟩
    rintro ⟨packet, n, t, hcreate, hcounts, -⟩
    rw [hpacket] at hcreate
    obtain rfl := Except.ok.inj hcreate
    cases hcounts
  | udp =>
    have hcreate := createCmdConnectRPacketUdp_eq cfg
    have hcount : (UInt8.ofNat cfg.privateIps.length).toNat = cfg.privateIps.length := by
      apply UInt8.toNat_ofNat_of_lt'
      have hle := List.length_filter_le (ipIsPrivate cfg.ipArr)
        (cfg.ips.take (cfg.ips.length % 256))
      rw [List.length_take] at hle
      rw [ConnectRConfig.privateIps]
      have hmod := Nat.mod_lt cfg.ips.length (show 0 < 256 by decide)
      have hsize : UInt8.size = 256 := rfl
      omega
    unfold ConnectRDecodes
    dsimp only [createCmdConnectRPacket]
    by_cases hfit : cfg.fullType.length < connectRTypeSize ∧
        ipsSize cfg.privateIps ≤ cfg.ips.length % 256 * maxIpStrLen
    · rw [if_pos hfit] at hcreate
      obtain ⟨body, hcreate⟩ := hcreate
      rw [hcreate]
      refine ⟨by simp, iff_of_true ⟨_, _, _, rfl, connectRIpCountsIn_layout _ _ _ _,
        connectRTypeIn_layout _ _ _ hfit.1, hcount, rfl⟩ ⟨rfl, hfit⟩⟩
    · rw [if_neg hfit] at hcreate
      rw [hcreate]
      refine ⟨by simp, iff_of_false ?_ fun h => hfit h.2⟩
      rintro ⟨packet, n, t, hnone, -⟩
      cases hnone

/-- A host with one private address. -/
def connectRHost : ConnectRConfig where
  ips := [.ofBuf [49, 48, 46, 48, 46, 48, 46, 49]]
  ipArr := [0, 0, 0, 0]
  port := 9000
  appType := .ofBuf [116]

/-- The packet for a TCP proxy connection has one byte; the number is read four bytes behind it. -/
theorem not_connectR_decodes :
    ¬ ∀ (kind : ConnectRKind) (cfg : ConnectRConfig) (packet : List UInt8),
      createCmdConnectRPacket kind cfg = .ok packet →
      (connectRIpCountsIn packet).isSome ∧ (connectRTypeIn packet).isSome := by
  intro h
  exact absurd (h (.tcp 0) connectRHost [0] rfl).1 (by decide)

end Teonet
