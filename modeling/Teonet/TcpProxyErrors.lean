import Teonet.TcpProxyClient
import Teonet.TcpProxyReads

/-! # Package errors of a TCP proxy connection

One read callback serves both sides of a connection.  When `ksnTCPProxyPackageProcess` returns a
negative value it calls `ksnTCPProxyServerClientDisconnect`, which looks the descriptor up in
`tp->map`: there a connection of the server is registered, and the client's connection is not.

`Established` says where a connection is registered and started, `Closed` that it no longer is.
`closesOnError_iff` states for every byte stream, in any division into reads, when an error closes
the connection: always on the server, as long as the buffer is not overrun, and never on the client. -/

namespace Teonet

open Framing Runs

/-! ### The read callback -/

/-- What `read` returns. -/
inductive ReadResult
  /-- `0`: the other side has closed the connection -/
  | closed
  /-- a negative value -/
  | error
  | data (received : List UInt8)

namespace KsnTCPProxyClass

variable (tp : KsnTCPProxyClass)

/-- The packet buffer of a connection.  A server's connection without a record has none. -/
def packetOf (side : CliSer) (fd : ℤ) : Option KsnTCPProxyPacketData :=
  match side with
  | .server => (tp.map.get fd).bind KsnTCPProxyData.packet
  | .client => some tp.packet

/-- The class with another packet buffer for the connection. -/
def setPacket (side : CliSer) (fd : ℤ) (packet : KsnTCPProxyPacketData) : KsnTCPProxyClass :=
  match side with
  | .server => { tp with map := tp.map.modify fd fun tpd => { tpd with packet := some packet } }
  | .client => { tp with packet := packet }

/-- The event loop has a started watcher for the connection. -/
def watched (side : CliSer) (fd : ℤ) : Bool :=
  match side with
  | .server => tp.map.toPairs.any fun p => p.2.w = some fd
  | .client => tp.wClient = some fd

end KsnTCPProxyClass

/-- The class, the buffer as it was at each package, and whether `ksnTCPProxyPackageProcess` has
returned a negative value. -/
structure TcppCall where
  tp : KsnTCPProxyClass
  packages : List KsnTCPProxyPacketData := []
  failed : Bool := false

section Callback

variable (getByteChecksum : List UInt8 → UInt8)

/-- `_cmd_tcpp_read_cb` on the descriptor `fd`. -/
def cmdTcppReadCb (rTcpF : Bool) (side : CliSer) (tp : KsnTCPProxyClass) (fd : ℤ) :
    ReadResult → Except PackageFault TcppCall
  | .closed =>
    match side with
    | .server => .ok { tp := ksnTCPProxyServerClientDisconnect tp fd 1 }
    | .client => .ok { tp := tp.ksnTCPProxyClientStop rTcpF }
  | .error => .ok { tp := tp }
  | .data received =>
    match tp.packetOf side fd with
    | none => .ok { tp := tp }
    | some packet => do
      let r ← tcppRounds getByteChecksum (ksnBufferDbSize + 1) packet received
      let tp := tp.setPacket side fd r.packet
      .ok { tp := if r.failed then ksnTCPProxyServerClientDisconnect tp fd 1 else tp
            packages := r.packages
            failed := r.failed }

/-- The event loop calls the callback while the watcher is started. -/
def tcppStep (rTcpF : Bool) (side : CliSer) (fd : ℤ) (s : TcppCall) (read : ReadResult) :
    Except PackageFault TcppCall :=
  if s.tp.watched side fd then do
    let r ← cmdTcppReadCb getByteChecksum rTcpF side s.tp fd read
    .ok { tp := r.tp, packages := s.packages ++ r.packages, failed := s.failed || r.failed }
  else .ok s

/-- The reads of a byte stream. -/
def tcppReads (rTcpF : Bool) (side : CliSer) (fd : ℤ) (s : TcppCall) (reads : List (List UInt8)) :
    Except PackageFault TcppCall :=
  (reads.map ReadResult.data).foldlM (tcppStep getByteChecksum rTcpF side fd) s

end Callback

/-! ### Connections -/

/-- A connection is made on a descriptor that is not open. -/
inductive Connects (tp : KsnTCPProxyClass) : CliSer → ℤ → KsnTCPProxyClass → Prop
  | server {fd udpProxyFd : ℤ} (udpProxyPort : ℕ) : fd ∉ tp.fds → udpProxyFd ∉ tp.fds →
      fd ≠ udpProxyFd →
      Connects tp .server fd (ksnTCPProxyServerClientConnect tp fd udpProxyFd udpProxyPort)
  | client {fd : ℤ} : fd ∉ tp.fds → fd ≥ 0 →
      Connects tp .client fd (tp.ksnTCPProxyClientConnect true fd)

/-- The connection's watcher is not started, its descriptor is closed, and it is registered
nowhere. -/
structure Closed (tp : KsnTCPProxyClass) (side : CliSer) (fd : ℤ) : Prop where
  watcher : tp.watched side fd = false
  closed : fd ∉ tp.fds
  unregistered : match side with
    | .server => ∀ k d, tp.map.get k = some d → d.tcpProxyFd ≠ fd
    | .client => tp.fdClient ≠ fd

/-- Whenever a negative value was returned the connection is closed, and what is read later changes
nothing; no read goes past the buffer. -/
def ClosesOnError (getByteChecksum : List UInt8 → UInt8) (rTcpF : Bool) (side : CliSer) (fd : ℤ)
    (tp : KsnTCPProxyClass) (reads : List (List UInt8)) : Prop :=
  ∀ past, past <+: reads →
    ∃ s, tcppReads getByteChecksum rTcpF side fd { tp := tp } past = .ok s ∧
      (s.failed = true → Closed s.tp side fd ∧
        ∀ later, tcppReads getByteChecksum rTcpF side fd s later = .ok s)

/-- The connection is registered and started, with its packet buffer. -/
inductive Established (tp : KsnTCPProxyClass) : CliSer → ℤ → KsnTCPProxyPacketData → Prop
  | server {live : List ProxyConn} {c : ProxyConn} {d : KsnTCPProxyData}
      {packet : KsnTCPProxyPacketData} : Registered live tp → c ∈ live →
      tp.map.get c.fd = some d → d.packet = some packet → Established tp .server c.fd packet
  | client {fd : ℤ} : tp.fdClient = fd → tp.wClient = some fd → tp.map.get fd = none →
      Established tp .client fd tp.packet

variable {tp tp' : KsnTCPProxyClass} {side : CliSer} {fd : ℤ} {packet : KsnTCPProxyPacketData}
  {live : List ProxyConn} {c : ProxyConn}

/-- A new connection is established with an empty buffer. -/
theorem Connects.established (hreg : Registered live tp) (h : Connects tp side fd tp') :
    ∃ packet, Established tp' side fd packet ∧ Carries packet [] ∧
      packet.ptr ≤ ksnBufferDbSize := by
  cases h with
  | @server fd udpProxyFd udpProxyPort hfd hudp hne =>
    have hget := get_connect (c := ⟨fd, udpProxyFd, udpProxyPort⟩) tp hne fd
    rw [if_pos rfl] at hget
    exact ⟨{}, .server (hreg.connect (c := ⟨fd, udpProxyFd, udpProxyPort⟩) hfd hudp hne)
      List.mem_cons_self hget rfl, .empty rfl rfl, Nat.zero_le _⟩
  | client hfd hge =>
    have hnone : tp.map.get fd = none := by
      cases hget : tp.map.get fd with
      | none => rfl
      | some d =>
        obtain ⟨c, hc, hown⟩ := hreg.owned fd d hget
        exact absurd (hreg.opened c hc fd hown) hfd
    unfold KsnTCPProxyClass.ksnTCPProxyClientConnect
    rw [if_pos rfl]
    dsimp only
    rw [if_pos hge]
    exact ⟨_, .client rfl rfl hnone, .empty rfl rfl, Nat.zero_le _⟩

theorem Established.watched (h : Established tp side fd packet) : tp.watched side fd = true := by
  cases h with
  | @server live c d _ hreg hc hget _ =>
    obtain ⟨d', hd', -, hw, -⟩ := hreg.tcp c hc
    exact List.any_eq_true.mpr ⟨(c.fd, d'), (FinMap.mem_toPairs _ _ _).mpr hd', by simpa using hw⟩
  | client _ hw _ => simpa [KsnTCPProxyClass.watched] using hw

theorem Established.packetOf (h : Established tp side fd packet) :
    tp.packetOf side fd = some packet := by
  cases h with
  | server _ _ hget hpacket =>
    change (tp.map.get _).bind _ = _
    rw [hget, Option.bind_some, hpacket]
  | client _ _ _ => rfl

/-- Another packet buffer changes nothing else. -/
theorem Registered.setPacket (h : Registered live tp) (hc : c ∈ live)
    (packet : KsnTCPProxyPacketData) : Registered live (tp.setPacket .server c.fd packet) := by
  have hget : ∀ fd, (tp.setPacket .server c.fd packet).map.get fd =
      if fd = c.fd then (tp.map.get c.fd).map fun tpd => { tpd with packet := some packet }
      else tp.map.get fd := fun fd => FinMap.get_modify _ _ _ _
  have hfd : ∀ c' ∈ live, c'.udpProxyFd ≠ c.fd := by
    intro c' hc' he
    obtain rfl := h.owner c' hc' c hc c.fd (.inr he.symm) (.inl rfl)
    exact h.fd_ne c' hc' he.symm
  refine ⟨h.fd_ne, h.owner, fun c' hc' => ?_, fun c' hc' => ?_, fun fd d hd => ?_, h.opened⟩
  · obtain ⟨d, hd, hholds, hw, hwudp, hpacket⟩ := h.tcp c' hc'
    rw [hget]
    split_ifs with he
    · rw [← he, hd]
      exact ⟨_, rfl, hholds, hw, hwudp, Option.some_ne_none _⟩
    · exact ⟨d, hd, hholds, hw, hwudp, hpacket⟩
  · rw [hget, if_neg (hfd c' hc')]
    exact h.udp c' hc'
  · rw [hget] at hd
    split_ifs at hd with he
    · exact ⟨c, hc, .inl he⟩
    · exact h.owned fd d hd

theorem Established.setPacket (h : Established tp side fd packet)
    (packet' : KsnTCPProxyPacketData) :
    Established (tp.setPacket side fd packet') side fd packet' := by
  cases h with
  | @server live c d _ hreg hc hget _ =>
    have hget' : (tp.setPacket .server c.fd packet').map.get c.fd =
        some { d with packet := some packet' } := by
      change (tp.map.modify c.fd _).get c.fd = _
      rw [FinMap.get_modify, if_pos rfl, hget]
      rfl
    exact .server (hreg.setPacket hc packet') hc hget' rfl
  | client hfd hw hnone => exact .client hfd hw hnone

/-- **On the server** the disconnect closes the connection. -/
theorem Established.closed (h : Established tp .server fd packet) :
    Closed (ksnTCPProxyServerClientDisconnect tp fd 1) .server fd := by
  cases h with
  | @server live c _ _ hreg hc _ _ =>
    have hreg' := hreg.disconnect c.fd
    have hother : ∀ c' ∈ liveAfter live (.disconnect c.fd), c'.fd ≠ c.fd := by
      intro c' hc'
      simpa using (List.mem_filter.mp hc').2
    refine ⟨?_, ?_, ?_⟩
    · rw [KsnTCPProxyClass.watched, List.any_eq_false]
      rintro ⟨k, d⟩ hmem
      have hget := (FinMap.mem_toPairs _ _ _).mp hmem
      obtain ⟨c', hc', hown⟩ := hreg'.owned k d hget
      rcases hown with rfl | rfl
      · obtain ⟨d', hd', -, hw, -⟩ := hreg'.tcp c' hc'
        obtain rfl := Option.some.inj (hget.symm.trans hd')
        simpa [hw] using hother c' hc'
      · obtain ⟨d', hd', -, hw⟩ := hreg'.udp c' hc'
        obtain rfl := Option.some.inj (hget.symm.trans hd')
        simp [hw]
    · rw [(hreg.disconnect_eq hc).2]
      exact fun hmem => Finset.notMem_erase _ _ (Finset.mem_of_mem_erase hmem)
    · intro k d hget
      obtain ⟨c', hc', -, htcp, -⟩ := hreg'.holds_of_get hget
      rw [htcp]
      exact hother c' hc'

/-- **On the client** it does nothing. -/
theorem Established.disconnect_client (h : Established tp .client fd packet) :
    ksnTCPProxyServerClientDisconnect tp fd 1 = tp := by
  cases h with
  | client _ _ hnone =>
    unfold ksnTCPProxyServerClientDisconnect
    rw [hnone]

theorem Established.not_closed (h : Established tp side fd packet) : ¬ Closed tp side fd := by
  intro hclosed
  have hwatched := h.watched
  rw [hclosed.watcher] at hwatched
  cases hwatched

/-! ### What the format says of a stream -/

section Stream

variable (getByteChecksum : List UInt8 → UInt8)

/-- What stands in front does not change once it is decided. -/
theorem tcppFront_append {w : List UInt8} (x : List UInt8) (h : tcppFront getByteChecksum w ≠ .part) :
    tcppFront getByteChecksum (w ++ x) = tcppFront getByteChecksum w := by
  have hsize : ¬ w.length < tcpProxyHeaderSize := by
    intro hlt
    exact h (if_pos hlt)
  have h8 : 8 ≤ w.length := Nat.le_of_not_lt hsize
  have hok : HeaderOk getByteChecksum (w ++ x) ↔ HeaderOk getByteChecksum w := by
    unfold HeaderOk tcpProxyHeaderSize
    rw [hdrAddrLength_append x h8, hdrPort_append x h8, hdrPacketChecksum_append x h8,
      slice_append x (by omega)]
  have hle := le_packageLength w
  unfold tcpProxyHeaderSize at hle
  unfold tcppFront at h ⊢
  rw [List.length_append, packageLength_append x h8, hdrChecksum_append x h8]
  rw [if_neg hsize] at h ⊢
  rw [if_neg (by omega)]
  by_cases hheader : HeaderOk getByteChecksum w
  · rw [if_neg (not_not_intro hheader)] at h ⊢
    rw [if_neg (not_not_intro (hok.mpr hheader))]
    split_ifs at h with hpart hsum
    · exact absurd rfl h
    · rw [if_neg (by omega), if_neg hpart, slice_append x (by omega)]
    · rw [if_neg (by omega), if_neg hpart, slice_append x (by omega)]
  · rw [if_pos hheader, if_pos fun hx => hheader (hok.mp hx)]

/-- The stream has a package that is wrong. -/
def HasPackageError (stream : List UInt8) : Prop :=
  ((tcppFormat getByteChecksum).parse stream).failed = true

variable {getByteChecksum} in
theorem HasPackageError.append {stream : List UInt8} (h : HasPackageError getByteChecksum stream)
    (x : List UInt8) : HasPackageError getByteChecksum (stream ++ x) :=
  Format.failed_append (fun x hx => tcppFront_append getByteChecksum x hx) h x

/-- The state of a connection after the reads `past`, of which the format's receiver keeps
`r.rest`. -/
structure Reading (side : CliSer) (fd : ℤ) (past : List (List UInt8)) (s : TcppCall)
    (r : Receiver UInt8) : Prop where
  failed : s.failed = true ↔ HasPackageError getByteChecksum past.flatten
  rest : s.failed = false → r.rest = ((tcppFormat getByteChecksum).parse past.flatten).rest
  stopped : r.stopped = (s.failed && decide (side = .server))
  closed : r.stopped = true → Closed s.tp side fd
  established : r.stopped = false →
    ∃ packet, Established s.tp side fd packet ∧ Carries packet r.rest ∧
      packet.ptr ≤ ksnBufferDbSize

variable {getByteChecksum} {past : List (List UInt8)} {s : TcppCall} {r : Receiver UInt8}
  {d : List UInt8} {rTcpF : Bool}

/-- After the connection is closed nothing is read. -/
theorem Closed.tcppReads (h : Closed s.tp side fd) (reads : List (List UInt8)) :
    tcppReads getByteChecksum rTcpF side fd s reads = .ok s := by
  induction reads with
  | nil => rfl
  | cons d ds ih =>
    unfold Teonet.tcppReads at ih ⊢
    rw [List.map_cons, List.foldlM_cons, tcppStep, h.watcher]
    exact ih

/-- One more read, of a stream without an error, is parsed behind what is kept. -/
theorem Reading.parse_eq (h : Reading getByteChecksum side fd past s r)
    (hfailed : s.failed = false) (d : List UInt8) :
    (tcppFormat getByteChecksum).parse (past ++ [d]).flatten =
      { (tcppFormat getByteChecksum).parse (r.rest ++ d) with
        frames := ((tcppFormat getByteChecksum).parse past.flatten).frames ++
          ((tcppFormat getByteChecksum).parse (r.rest ++ d)).frames } := by
  have hnot : ((tcppFormat getByteChecksum).parse past.flatten).failed = false := by
    rw [Bool.eq_false_iff]
    intro herr
    rw [h.failed.mpr herr] at hfailed
    cases hfailed
  have hstable : ∀ {w : List UInt8} {n : ℕ} (x : List UInt8),
      (tcppFormat getByteChecksum).front w = .frame n →
      (tcppFormat getByteChecksum).front (w ++ x) = .frame n := by
    intro w n x hw
    have hne : tcppFront getByteChecksum w ≠ .part := by
      change tcppFront getByteChecksum w = .frame n at hw
      rw [hw]
      simp
    exact (tcppFront_append getByteChecksum x hne).trans hw
  rw [List.flatten_append, List.flatten_singleton, h.rest hfailed]
  exact Format.parse_append_rest hstable hnot d

/-- What the error branch leaves: the server's connection closed, the client's as it was. -/
theorem Established.afterError (h : Established tp side fd packet) :
    (side = .server → Closed (ksnTCPProxyServerClientDisconnect tp fd 1) side fd) ∧
    (side = .client → ksnTCPProxyServerClientDisconnect tp fd 1 = tp) := by
  refine ⟨?_, ?_⟩
  · rintro rfl
    exact h.closed
  · rintro rfl
    exact h.disconnect_client

/-- A read of an established connection runs the loop. -/
theorem Established.tcppStep (h : Established s.tp side fd packet) (d : List UInt8) :
    tcppStep getByteChecksum rTcpF side fd s (.data d) =
      (tcppRounds getByteChecksum (ksnBufferDbSize + 1) packet d).map fun q =>
        let tp := s.tp.setPacket side fd q.packet
        { tp := if q.failed then ksnTCPProxyServerClientDisconnect tp fd 1 else tp
          packages := s.packages ++ q.packages
          failed := s.failed || q.failed } := by
  unfold Teonet.tcppStep cmdTcppReadCb
  rw [h.watched, if_pos rfl, h.packetOf]
  dsimp only
  cases tcppRounds getByteChecksum (ksnBufferDbSize + 1) packet d <;> rfl

/-- An error stays in every longer stream. -/
theorem Reading.error_concat (h : Reading getByteChecksum side fd past s r)
    (hs : s.failed = true) (d : List UInt8) :
    HasPackageError getByteChecksum (past ++ [d]).flatten := by
  rw [List.flatten_append, List.flatten_singleton]
  exact (h.failed.mp hs).append d

/-- A read of a connection that is closed does nothing. -/
theorem Reading.step_of_stopped (h : Reading getByteChecksum side fd past s r)
    (hstop : r.stopped = true) (d : List UInt8) :
    tcppStep getByteChecksum rTcpF side fd s (.data d) = .ok s ∧
      Reading getByteChecksum side fd (past ++ [d]) s r := by
  have hclosed := h.closed hstop
  have hboth := h.stopped
  rw [hstop] at hboth
  have hs : s.failed = true := (Bool.and_eq_true_iff.mp hboth.symm).1
  constructor
  · rw [tcppStep, hclosed.watcher]
    rfl
  · refine ⟨⟨fun _ => h.error_concat hs d, fun _ => hs⟩, fun hs' => ?_, h.stopped, h.closed,
      h.established⟩
    rw [hs] at hs'
    cases hs'

variable (rTcpF) in
/-- **A read that fits** is taken as the format says. -/
theorem Reading.step (h : Reading getByteChecksum side fd past s r)
    (hfit : r.stopped = false → r.rest.length + d.length ≤ ksnBufferDbSize) :
    ∃ s', tcppStep getByteChecksum rTcpF side fd s (.data d) = .ok s' ∧
      Reading getByteChecksum side fd (past ++ [d]) s'
        ((tcppFormat getByteChecksum).feed (side = .server) r d) := by
  cases hstop : r.stopped with
  | true =>
    rw [Format.feed_of_stopped hstop]
    exact ⟨s, h.step_of_stopped hstop d⟩
  | false =>
    obtain ⟨packet, hest, hcarries, -⟩ := h.established hstop
    obtain ⟨q, hq, hqcarries, hqptr, -, hqfailed⟩ := tcppRounds_spec getByteChecksum
      (ksnBufferDbSize + 1) hcarries (hfit hstop)
      (by rw [List.length_append]; exact Nat.lt_succ_of_le (hfit hstop))
    have hset := hest.setPacket q.packet
    have hdone := hset.afterError
    have hfeed : (tcppFormat getByteChecksum).feed (side = .server) r d =
        { frames := r.frames ++ ((tcppFormat getByteChecksum).parse (r.rest ++ d)).frames
          rest := ((tcppFormat getByteChecksum).parse (r.rest ++ d)).rest
          stopped := q.failed && decide (side = .server) } := by
      rw [hqfailed, Format.feed, hstop]
      rfl
    have hboth := h.stopped
    rw [hstop] at hboth
    rw [hest.tcppStep, hq, hfeed]
    refine ⟨_, rfl, ?_, ?_, ?_, ?_, ?_⟩
    · cases hs : s.failed with
      | true => simpa [hs] using h.error_concat hs d
      | false =>
        dsimp only
        rw [Bool.false_or, HasPackageError, h.parse_eq hs, hqfailed]
    · intro hs
      obtain ⟨hs, -⟩ := Bool.or_eq_false_iff.mp hs
      rw [h.parse_eq hs]
    · -- an error before this read has not been on the server
      dsimp only
      cases side with
      | server =>
        have hs : s.failed = false := by simpa using hboth.symm
        rw [hs, Bool.false_or]
      | client => simp
    · intro hstopped
      obtain ⟨herr, hside⟩ := Bool.and_eq_true_iff.mp hstopped
      dsimp only
      rw [if_pos herr]
      exact hdone.1 (of_decide_eq_true hside)
    · intro hgo
      dsimp only
      refine ⟨q.packet, ?_, hqcarries, hqptr⟩
      split_ifs with herr
      · cases side with
        | server => simp [herr] at hgo
        | client =>
          rw [hdone.2 rfl]
          exact hset
      · exact hset

/-- A read that does not fit is written past the buffer. -/
theorem Reading.copy (h : Reading getByteChecksum side fd past s r) (hstop : r.stopped = false)
    (hover : ksnBufferDbSize < r.rest.length + d.length) :
    tcppStep getByteChecksum rTcpF side fd s (.data d) = .error .copy := by
  obtain ⟨packet, hest, hcarries, hptr⟩ := h.established hstop
  have hle := hcarries.length_le
  have hne : d ≠ [] := by
    rintro rfl
    simp only [List.length_nil] at hover
    omega
  have hrounds : tcppRounds getByteChecksum (ksnBufferDbSize + 1) packet d = .error .copy := by
    rw [tcppRounds, packageProcessChecked_copy getByteChecksum hcarries hne hover]
    rfl
  rw [hest.tcppStep, hrounds]
  rfl

theorem tcppReads_cons (d : List UInt8) (ds : List (List UInt8)) :
    tcppReads getByteChecksum rTcpF side fd s (d :: ds) =
      tcppStep getByteChecksum rTcpF side fd s (.data d) >>= fun s' =>
        tcppReads getByteChecksum rTcpF side fd s' ds := by
  unfold tcppReads
  rw [List.map_cons, List.foldlM_cons]

variable (rTcpF) in
/-- **Reads that fit** are taken as the format says. -/
theorem Reading.reads {reads : List (List UInt8)} (h : Reading getByteChecksum side fd past s r)
    (hfits : (tcppFormat getByteChecksum).Fits (side = .server) ksnBufferDbSize r reads) :
    ∃ s', tcppReads getByteChecksum rTcpF side fd s reads = .ok s' ∧
      Reading getByteChecksum side fd (past ++ reads) s'
        (reads.foldl ((tcppFormat getByteChecksum).feed (side = .server)) r) := by
  induction reads generalizing past s r with
  | nil => exact ⟨s, rfl, by rwa [List.append_nil]⟩
  | cons d ds ih =>
    obtain ⟨s', hs', hreading⟩ := h.step rTcpF hfits.1
    rw [tcppReads_cons, hs']
    obtain ⟨s'', hs'', hreading'⟩ := ih hreading hfits.2
    rw [List.append_assoc] at hreading'
    exact ⟨s'', hs'', hreading'⟩

/-- Reads that run without a fault fit. -/
theorem Reading.fits {reads : List (List UInt8)} (h : Reading getByteChecksum side fd past s r)
    {s' : TcppCall} (hok : tcppReads getByteChecksum rTcpF side fd s reads = .ok s') :
    (tcppFormat getByteChecksum).Fits (side = .server) ksnBufferDbSize r reads := by
  induction reads generalizing past s r with
  | nil => trivial
  | cons d ds ih =>
    rw [tcppReads_cons] at hok
    obtain ⟨t, ht, hok⟩ := bind_eq_ok hok
    have hfit : r.stopped = false → r.rest.length + d.length ≤ ksnBufferDbSize := by
      intro hstop
      by_contra hover
      rw [h.copy hstop (by omega)] at ht
      cases ht
    obtain ⟨t', ht', hreading⟩ := h.step rTcpF hfit
    obtain rfl := Except.ok.inj (ht.symm.trans ht')
    exact ⟨hfit, ih hreading hok⟩

/-- **When an error closes the connection**: for every byte stream in any division into reads, the
reads stay in the buffer and every negative value closes the connection exactly when each read fits
behind what is kept and the connection is one of the server or the stream has no wrong package. -/
theorem closesOnError_iff (getByteChecksum : List UInt8 → UInt8) (rTcpF : Bool)
    {es : List ProxyServerEvent} {tp tp' : KsnTCPProxyClass} {side : CliSer} {fd : ℤ}
    (hrun : Run ProxyServerStep {} es tp) (hconn : Connects tp side fd tp')
    (reads : List (List UInt8)) :
    ClosesOnError getByteChecksum rTcpF side fd tp' reads ↔
      (tcppFormat getByteChecksum).Fits (side = .server) ksnBufferDbSize {} reads ∧
        (side = .server ∨ ¬ HasPackageError getByteChecksum reads.flatten) := by
  obtain ⟨packet, hest, hcarries, hptr⟩ := hconn.established (registered_run hrun)
  have hstart : Reading getByteChecksum side fd [] { tp := tp' } {} := by
    have hparse : (tcppFormat getByteChecksum).parse [] = { rest := [] } := Format.parse_part rfl
    refine ⟨?_, fun _ => ?_, rfl, fun hstop => (by cases hstop),
      fun _ => ⟨packet, hest, hcarries, hptr⟩⟩
    · rw [HasPackageError, List.flatten_nil, hparse]
    · rw [List.flatten_nil, hparse]
  constructor
  · intro hcloses
    obtain ⟨s, hs, hclosed⟩ := hcloses reads (List.prefix_refl _)
    have hfits := hstart.fits hs
    refine ⟨hfits, ?_⟩
    obtain ⟨s', hs', hreading⟩ := hstart.reads rTcpF hfits
    obtain rfl := Except.ok.inj (hs.symm.trans hs')
    cases side with
    | server => exact .inl rfl
    | client =>
      refine .inr fun herror => ?_
      have hstopped := hreading.stopped
      rw [show decide (CliSer.client = .server) = false from rfl, Bool.and_false] at hstopped
      obtain ⟨p, hest', -⟩ := hreading.established hstopped
      exact hest'.not_closed (hclosed (hreading.failed.mpr herror)).1
  · rintro ⟨hfits, hside⟩ past ⟨future, rfl⟩
    obtain ⟨s, hs, hreading⟩ := hstart.reads rTcpF hfits.append_left
    refine ⟨s, hs, fun hfailed => ?_⟩
    have hclosed : Closed s.tp side fd := by
      rcases hside with rfl | hnot
      · refine hreading.closed ?_
        rw [hreading.stopped, hfailed]
        rfl
      · refine absurd ?_ hnot
        rw [List.flatten_append]
        exact (hreading.failed.mp hfailed).append _
    exact ⟨hclosed, hclosed.tcppReads⟩

end Stream

/-- Eight bytes that are no header. -/
def wrongHeader : List UInt8 := List.replicate 8 0

/-- A client's connection on descriptor 5. -/
def clientProxy : KsnTCPProxyClass :=
  KsnTCPProxyClass.ksnTCPProxyClientConnect {} true 5

theorem clientProxy_connects : Connects {} .client 5 clientProxy :=
  .client (by decide) (by decide)

theorem closesOnError_iff_client :
    ClosesOnError sampleEnv.getByteChecksum true .client 5 clientProxy [samplePackage] ↔
      (tcppFormat sampleEnv.getByteChecksum).Fits (CliSer.client = .server) ksnBufferDbSize {}
        [samplePackage] ∧
      (CliSer.client = .server ∨
        ¬ HasPackageError sampleEnv.getByteChecksum [samplePackage].flatten) :=
  closesOnError_iff sampleEnv.getByteChecksum true (.nil _) clientProxy_connects [samplePackage]

/-- A wrong header leaves the client's connection registered and open. -/
theorem not_closesOnError :
    ¬ ∀ (getByteChecksum : List UInt8 → UInt8) (tp tp' : KsnTCPProxyClass) (side : CliSer) (fd : ℤ)
      (es : List ProxyServerEvent) (reads : List (List UInt8)), Run ProxyServerStep {} es tp →
      Connects tp side fd tp' →
      (tcppFormat getByteChecksum).Fits (side = .server) ksnBufferDbSize {} reads →
      ClosesOnError getByteChecksum true side fd tp' reads := by
  intro h
  have hrun : (tcppReads sampleEnv.getByteChecksum true .client 5 { tp := clientProxy }
      [wrongHeader]).map (fun s => (s.failed, s.tp.fdClient)) = .ok (true, 5) := by
    decide +kernel
  have hfits : (tcppFormat sampleEnv.getByteChecksum).Fits false ksnBufferDbSize {}
      [wrongHeader] := ⟨fun _ => by decide, trivial⟩
  obtain ⟨s, hs, hclosed⟩ := h sampleEnv.getByteChecksum {} clientProxy .client 5 [] [wrongHeader]
    (.nil _) clientProxy_connects hfits [wrongHeader] (List.prefix_refl _)
  rw [hs] at hrun
  obtain ⟨hfailed, hfd⟩ := Prod.mk.inj (Except.ok.inj hrun)
  exact (hclosed hfailed).1.unregistered hfd

end Teonet
