import Teonet.TcpProxyStream
import Mathlib.Data.List.Forall2

/-! # The reads of a TCP proxy connection

The read callback runs `ksnTCPProxyPackageProcess` on every read until nothing more can be taken
out of the buffer.  `tcppRounds_spec` lifts the facts about one call to this loop,
`connectionReads_spec` to a connection.

The main results are about whole connections: `readsBounded_iff` (when the buffer is never overrun;
`readsFit_of_short` is a condition on the stream alone) and `connectionReads_packages` (any division
into reads gives the packages that were sent). -/

namespace Teonet

open Framing

/-- `KSN_BUFFER_SIZE`. -/
def ksnBufferSize : ℕ := 1024

/-! ### The loop of the read callback -/

/-- What one read leaves: the buffer, the buffer as it was at each package, and whether an error
ended the loop. -/
structure TcppRead where
  packet : KsnTCPProxyPacketData
  packages : List KsnTCPProxyPacketData := []
  failed : Bool := false

/-- The loop of `_cmd_tcpp_read_cb`: the first round takes the read, the others what is left. -/
def tcppRounds (getByteChecksum : List UInt8 → UInt8) :
    ℕ → KsnTCPProxyPacketData → List UInt8 → Except PackageFault TcppRead
  | 0, _, _ => .error .rounds
  | fuel + 1, packet, data => do
    let (packet, rv) ← packageProcessChecked getByteChecksum packet data
    if rv > 0 then
      if packet.ptr ≠ 0 then
        let r ← tcppRounds getByteChecksum fuel packet []
        .ok { r with packages := packet :: r.packages }
      else .ok { packet := packet, packages := [packet] }
    else .ok { packet := packet, failed := decide (rv < 0) }

/-- The events of the read callback are those of its packages, and the error's. -/
theorem tcppLoop_of_rounds {A : Type} (env : ProxyEnv A) (side : CliSer) :
    ∀ (fuel : ℕ) (packet : KsnTCPProxyPacketData) (data : List UInt8) {r : TcppRead},
      tcppRounds env.getByteChecksum fuel packet data = .ok r →
      tcppLoop env side fuel packet data = (r.packet,
        r.packages.flatMap (tcppPackage env side) ++ if r.failed = true then [.disconnect] else [])
  | 0, _, _, _, h => by cases h
  | fuel + 1, packet, data, r, h => by
      obtain ⟨⟨p, rv⟩, hp, hr⟩ := Runs.bind_eq_ok h
      rw [tcppLoop, packageProcessChecked_eq_ok _ hp]
      dsimp only at hr ⊢
      by_cases hpos : rv > 0
      · rw [if_pos hpos] at hr ⊢
        by_cases hmore : p.ptr ≠ 0
        · rw [if_pos hmore] at hr ⊢
          obtain ⟨r', hr', hr⟩ := Runs.bind_eq_ok hr
          obtain rfl := Except.ok.inj hr
          rw [tcppLoop_of_rounds env side fuel p [] hr']
          simp
        · rw [if_neg hmore] at hr ⊢
          obtain rfl := Except.ok.inj hr
          simp
      · rw [if_neg hpos] at hr ⊢
        obtain rfl := Except.ok.inj hr
        by_cases hneg : rv < 0
        · simp [hneg]
        · simp [hneg]

section Connection

variable (getByteChecksum : List UInt8 → UInt8)

/-- **One read**: the loop takes the packages that the format finds. -/
theorem tcppRounds_spec (fuel : ℕ) {packet : KsnTCPProxyPacketData} {u data : List UInt8}
    (h : Carries packet u) (hfit : u.length + data.length ≤ ksnBufferDbSize)
    (hfuel : (u ++ data).length < fuel) :
    ∃ r, tcppRounds getByteChecksum fuel packet data = .ok r ∧
      Carries r.packet ((tcppFormat getByteChecksum).parse (u ++ data)).rest ∧
      r.packet.ptr ≤ ksnBufferDbSize ∧
      List.Forall₂ Shows r.packages ((tcppFormat getByteChecksum).parse (u ++ data)).frames ∧
      r.failed = ((tcppFormat getByteChecksum).parse (u ++ data)).failed := by
  induction fuel generalizing packet u data with
  | zero => omega
  | succ fuel ih =>
    obtain ⟨⟨p, rv⟩, hcall, hp⟩ := packageProcessChecked_spec getByteChecksum h hfit
    have hrv := hp.rv
    have hcarries := hp.carries
    have hframe := hp.frame
    have hle := hp.fits
    dsimp only at hrv hcarries hframe hle
    rw [tcppRounds, hcall]
    generalize u ++ data = w at hrv hcarries hframe hfuel ⊢
    change ∃ r, (if rv > 0 then _ else _) = _ ∧ _
    cases hf : tcppFront getByteChecksum w with
    | part =>
      rw [hf] at hrv hcarries
      subst hrv
      rw [Format.parse_part (F := tcppFormat getByteChecksum) hf]
      exact ⟨_, rfl, hcarries, hle, .nil, rfl⟩
    | reject =>
      rw [hf] at hrv hcarries
      subst hrv
      rw [Format.parse_reject (F := tcppFormat getByteChecksum) hf]
      exact ⟨_, rfl, hcarries, hle, .nil, rfl⟩
    | broken n =>
      rw [hf] at hrv hcarries
      subst hrv
      rw [Format.parse_broken (F := tcppFormat getByteChecksum) hf]
      exact ⟨_, rfl, hcarries, hle, .nil, rfl⟩
    | frame n =>
      rw [hf] at hrv hcarries
      have hcarries' : Carries p (w.drop n) := hcarries
      obtain ⟨hbuf, hptr⟩ := hframe n hf
      have hpos : 0 < n := (tcppFormat getByteChecksum).frame_pos hf
      have hnle : n ≤ w.length := (tcppFormat getByteChecksum).frame_le hf
      rw [Format.parse_frame (F := tcppFormat getByteChecksum) hf,
        if_pos (by rw [hrv]; exact Int.natCast_pos.mpr hpos)]
      by_cases hmore : p.ptr ≠ 0
      · have hdrop : (w.drop n).length + ([] : List UInt8).length ≤ ksnBufferDbSize := by
          have hlen : (w.drop n).length ≤ p.ptr := hcarries'.length_le
          simp only [List.length_nil]
          omega
        obtain ⟨r, hr, hrest, hrle, hall, hfailed⟩ := ih hcarries' hdrop
          (by rw [List.append_nil, List.length_drop]; omega)
        rw [List.append_nil] at hrest hall hfailed
        rw [if_pos hmore, hr]
        exact ⟨_, rfl, hrest, hrle, .cons ⟨hle, hbuf⟩ hall, hfailed⟩
      · have hnil : w.drop n = [] := hptr.mp (not_not.mp hmore)
        rw [if_neg hmore, hnil, Format.parse_part (F := tcppFormat getByteChecksum) rfl]
        refine ⟨_, rfl, ?_, hle, .cons ⟨hle, hbuf⟩ .nil, rfl⟩
        rwa [hnil] at hcarries'

/-! ### A connection -/

/-- One side of a connection: the receiving buffer, the packages so far, and whether the connection
was closed.  An error closes it on the server only: the client's descriptor is not in the map that
`ksnTCPProxyServerClientDisconnect` looks it up in. -/
structure TcppConnection where
  packet : KsnTCPProxyPacketData := {}
  packages : List KsnTCPProxyPacketData := []
  stopped : Bool := false
deriving DecidableEq

/-- `_cmd_tcpp_read_cb` after a successful read.  Each round takes at least one byte, so the rounds
suffice. -/
def connectionRead (side : CliSer) (conn : TcppConnection) (data : List UInt8) :
    Except PackageFault TcppConnection :=
  if conn.stopped = true then .ok conn
  else do
    let r ← tcppRounds getByteChecksum (ksnBufferDbSize + 1) conn.packet data
    .ok { packet := r.packet
          packages := conn.packages ++ r.packages
          stopped := r.failed && decide (side = .server) }

/-- The connection holds what the format's receiver holds. -/
structure Refines (conn : TcppConnection) (r : Receiver UInt8) : Prop where
  stopped : conn.stopped = r.stopped
  carries : Carries conn.packet r.rest
  fits : conn.packet.ptr ≤ ksnBufferDbSize
  shows : List.Forall₂ Shows conn.packages r.frames

theorem refines_init : Refines {} {} :=
  ⟨rfl, .empty rfl rfl, Nat.zero_le _, .nil⟩

variable (side : CliSer) {conn : TcppConnection} {r : Receiver UInt8} {data : List UInt8}

/-- **A read that fits** is taken as the format says. -/
theorem connectionRead_spec (h : Refines conn r)
    (hfit : r.stopped = false → r.rest.length + data.length ≤ ksnBufferDbSize) :
    ∃ conn', connectionRead getByteChecksum side conn data = .ok conn' ∧
      Refines conn' ((tcppFormat getByteChecksum).feed (side = .server) r data) := by
  unfold connectionRead Format.feed
  rw [h.stopped]
  by_cases hstop : r.stopped = true
  · rw [if_pos hstop, if_pos hstop]
    exact ⟨conn, rfl, h⟩
  · rw [if_neg hstop, if_neg hstop]
    have hfit' := hfit (Bool.eq_false_iff.mpr hstop)
    obtain ⟨q, hq, hcarries, hle, hall, hfailed⟩ := tcppRounds_spec getByteChecksum
      (ksnBufferDbSize + 1) h.carries hfit' (by rw [List.length_append]; omega)
    rw [hq]
    refine ⟨_, rfl, ?_, hcarries, hle, List.rel_append h.shows hall⟩
    simp only [hfailed]

/-- A read that does not fit is written past the buffer. -/
theorem connectionRead_copy (h : Refines conn r) (hstop : r.stopped = false)
    (hover : ksnBufferDbSize < r.rest.length + data.length) :
    connectionRead getByteChecksum side conn data = .error .copy := by
  have hle := h.carries.length_le
  have hfits := h.fits
  have hne : data ≠ [] := by
    rintro rfl
    simp only [List.length_nil] at hover
    omega
  unfold connectionRead
  rw [h.stopped, hstop, if_neg (by decide), tcppRounds,
    packageProcessChecked_copy getByteChecksum h.carries hne hover]
  rfl

/-- The reads of a connection. -/
def connectionReads (conn : TcppConnection) (reads : List (List UInt8)) :
    Except PackageFault TcppConnection :=
  reads.foldlM (connectionRead getByteChecksum side) conn

theorem connectionReads_cons (d : List UInt8) (ds : List (List UInt8)) :
    connectionReads getByteChecksum side conn (d :: ds) =
      connectionRead getByteChecksum side conn d >>= fun c =>
        connectionReads getByteChecksum side c ds :=
  List.foldlM_cons ..

/-- **Reads that fit** are taken as the format says. -/
theorem connectionReads_spec {reads : List (List UInt8)} (h : Refines conn r)
    (hfits : (tcppFormat getByteChecksum).Fits (side = .server) ksnBufferDbSize r reads) :
    ∃ conn', connectionReads getByteChecksum side conn reads = .ok conn' ∧
      Refines conn' (reads.foldl ((tcppFormat getByteChecksum).feed (side = .server)) r) := by
  induction reads generalizing conn r with
  | nil => exact ⟨conn, rfl, h⟩
  | cons d ds ih =>
    obtain ⟨c, hc, href⟩ := connectionRead_spec getByteChecksum side h hfits.1
    rw [connectionReads_cons, hc]
    exact ih href hfits.2

/-- A run that does not overrun the buffer fits, and no other fault stops a run. -/
theorem connectionReads_fits (reads : List (List UInt8)) (h : Refines conn r) :
    (tcppFormat getByteChecksum).Fits (side = .server) ksnBufferDbSize r reads ∨
      connectionReads getByteChecksum side conn reads = .error .copy := by
  induction reads generalizing conn r with
  | nil => exact .inl trivial
  | cons d ds ih =>
    rw [connectionReads_cons]
    by_cases hfit : r.stopped = false → r.rest.length + d.length ≤ ksnBufferDbSize
    · obtain ⟨c, hc, href⟩ := connectionRead_spec getByteChecksum side h hfit
      rcases ih href with hds | hds
      · exact .inl ⟨hfit, hds⟩
      · refine .inr ?_
        rw [hc]
        exact hds
    · obtain ⟨hstop, hover⟩ := Classical.not_imp.mp hfit
      refine .inr ?_
      rw [connectionRead_copy getByteChecksum side h hstop (by omega)]
      rfl

/-! ### The buffer is not overrun -/

/-- After every part of the reads, the accesses were in bounds and `ptr` is within the buffer. -/
def ReadsBounded (reads : List (List UInt8)) : Prop :=
  ∀ past, past <+: reads → ∃ conn, connectionReads getByteChecksum side {} past = .ok conn ∧
    conn.packet.ptr ≤ ksnBufferDbSize ∧ ∀ packet ∈ conn.packages, packet.ptr ≤ ksnBufferDbSize

theorem ptr_le_of_shows {packages : List KsnTCPProxyPacketData} {bs : List (List UInt8)}
    (h : List.Forall₂ Shows packages bs) : ∀ packet ∈ packages, packet.ptr ≤ ksnBufferDbSize := by
  induction h with
  | nil => simp
  | cons hshow _ ih =>
    intro packet hmem
    rcases List.mem_cons.mp hmem with rfl | hmem
    · exact hshow.1
    · exact ih packet hmem

/-- **The buffer is never overrun** exactly when each read fits behind what the reads before it left
incomplete; the copy is the only access that may go wrong. -/
theorem readsBounded_iff (reads : List (List UInt8)) :
    (ReadsBounded getByteChecksum side reads ↔
      (tcppFormat getByteChecksum).Fits (side = .server) ksnBufferDbSize {} reads) ∧
    ∀ fault, connectionReads getByteChecksum side {} reads = .error fault → fault = .copy := by
  have hrun := connectionReads_fits getByteChecksum side reads refines_init
  refine ⟨⟨fun hbounded => ?_, fun hfits past hpast => ?_⟩, fun fault hfault => ?_⟩
  · obtain ⟨conn, hconn, -⟩ := hbounded reads (List.prefix_refl _)
    refine hrun.resolve_right fun herr => ?_
    rw [hconn] at herr
    cases herr
  · obtain ⟨future, rfl⟩ := hpast
    obtain ⟨conn, hconn, href⟩ :=
      connectionReads_spec getByteChecksum side refines_init hfits.append_left
    exact ⟨conn, hconn, href.fits, ptr_le_of_shows href.shows⟩
  · rcases hrun with hfits | herr
    · obtain ⟨conn, hconn, -⟩ := connectionReads_spec getByteChecksum side refines_init hfits
      rw [hconn] at hfault
      cases hfault
    · rw [herr] at hfault
      exact (Except.error.inj hfault).symm

end Connection

/-- On the server the buffer is enough where no header that passes the checks, anywhere in the
stream, announces a package of more than 1025 bytes. -/
theorem readsFit_of_short (getByteChecksum : List UInt8 → UInt8) {reads : List (List UInt8)}
    (hreads : ∀ d ∈ reads, d.length ≤ ksnBufferSize)
    (hshort : ∀ w, w <:+: reads.flatten → tcpProxyHeaderSize ≤ w.length →
      HeaderOk getByteChecksum w → packageLength w ≤ ksnBufferDbSize - ksnBufferSize + 1) :
    (tcppFormat getByteChecksum).Fits true ksnBufferDbSize {} reads := by
  refine Format.fits_of_part_le (k := ksnBufferDbSize - ksnBufferSize) (m := ksnBufferSize)
    (by decide) [] ?_ hreads rfl (List.suffix_refl _) rfl rfl
  intro w hw hpart
  change tcppFront getByteChecksum w = .part at hpart
  unfold tcppFront at hpart
  split_ifs at hpart with hsize hok hlen
  · unfold tcpProxyHeaderSize at hsize
    unfold ksnBufferDbSize ksnBufferSize
    omega
  · have hle := hshort w hw (by omega) hok
    omega

/-- A package as long as the buffer. -/
def longPackage : SentPackage sampleEnv.getByteChecksum where
  addr := .empty
  port := 9000
  cmd := cmdTcppProxy
  data := List.replicate 2039 0
  bufferLength := ksnBufferDbSize
  bytes := [148, 0, 40, 35, 247, 7, 1, 74] ++ List.replicate 2040 0
  addr_lt := by decide
  port_pos := by decide
  port_lt := by decide
  data_lt := by decide +kernel
  created := by decide +kernel

/-- A short package, the long one and the short one again, in reads of 1024 bytes. -/
def overrunReads : List (List UInt8) :=
  let stream := samplePackage ++ longPackage.bytes ++ samplePackage
  [stream.take 1024, (stream.drop 1024).take 1024, stream.drop 2048]

/-- The third read is written past the buffer. -/
theorem not_readsBounded :
    ¬ ∀ (getByteChecksum : List UInt8 → UInt8) (side : CliSer) (reads : List (List UInt8)),
      (∀ d ∈ reads, d ≠ [] ∧ d.length ≤ ksnBufferSize) →
      ReadsBounded getByteChecksum side reads := by
  intro h
  have hreads : ∀ d ∈ overrunReads, d ≠ [] ∧ d.length ≤ ksnBufferSize := by
    decide +kernel
  have hrun : connectionReads sampleEnv.getByteChecksum .server {} overrunReads = .error .copy := by
    decide +kernel
  obtain ⟨conn, hconn, -⟩ := h sampleEnv.getByteChecksum .server overrunReads hreads overrunReads
    (List.prefix_refl _)
  rw [hrun] at hconn
  cases hconn

/-! ### Any division into reads -/

section Reads

variable {getByteChecksum : List UInt8 → UInt8}

/-- What is buffered and the next read fit in the buffer. -/
def ReadFits (conn : TcppConnection) (data : List UInt8) : Prop :=
  conn.packet.ptr + data.length ≤ ksnBufferDbSize

instance (conn : TcppConnection) (data : List UInt8) : Decidable (ReadFits conn data) :=
  inferInstanceAs (Decidable (_ ≤ _))

theorem fits_of_meets {side : CliSer} {reads : List (List UInt8)} {conn : TcppConnection}
    {r : Receiver UInt8} (h : Refines conn r)
    (hmeets : Runs.Meets ReadFits (connectionRead getByteChecksum side) conn reads) :
    (tcppFormat getByteChecksum).Fits (side = .server) ksnBufferDbSize r reads := by
  induction reads generalizing conn r with
  | nil => trivial
  | cons d ds ih =>
    have hfit : r.stopped = false → r.rest.length + d.length ≤ ksnBufferDbSize := fun _ =>
      le_trans (Nat.add_le_add_right h.carries.length_le _) hmeets.1
    obtain ⟨c, hc, href⟩ := connectionRead_spec getByteChecksum side h hfit
    exact ⟨hfit, ih href (hmeets.2 c hc)⟩

theorem map_tcppReceived {ps : List (SentPackage getByteChecksum)}
    {packages : List KsnTCPProxyPacketData}
    (h : List.Forall₂ Shows packages (ps.map SentPackage.bytes)) :
    packages.map tcppReceived = ps.map fun p => (p.cmd % 16, p.addr, p.port, p.data) := by
  induction ps generalizing packages with
  | nil =>
    cases h
    rfl
  | cons p ps ih =>
    cases h with
    | cons hshow hall => rw [List.map_cons, List.map_cons, p.tcppReceived_eq hshow, ih hall]

/-- **Any division into reads** gives the packages that were sent, in order, and leaves the buffer
empty. -/
theorem connectionReads_packages (side : CliSer) (ps : List (SentPackage getByteChecksum))
    (reads : List (List UInt8)) (hreads : reads.flatten = (ps.map SentPackage.bytes).flatten)
    (hfit : Runs.Meets ReadFits (connectionRead getByteChecksum side) {} reads) :
    ∃ conn, connectionReads getByteChecksum side {} reads = .ok conn ∧
      conn.packages.map tcppReceived = ps.map (fun p => (p.cmd % 16, p.addr, p.port, p.data)) ∧
      conn.packet.ptr = 0 ∧ conn.stopped = false := by
  obtain ⟨conn, hconn, href⟩ := connectionReads_spec getByteChecksum side refines_init
    (fits_of_meets refines_init hfit)
  have hframes : ∀ f ∈ ps.map SentPackage.bytes, (tcppFormat getByteChecksum).IsFrame f := by
    intro f hf
    obtain ⟨p, -, rfl⟩ := List.mem_map.mp hf
    exact p.isFrame
  rw [Format.foldl_feed_frames (r := {}) (side = .server) hframes rfl rfl hreads] at href
  exact ⟨conn, hconn, map_tcppReceived href.shows, href.carries.ptr_eq_zero, href.stopped⟩

end Reads

/-- One byte from port 9000 of `1.2.3.4`, with a command. -/
def smallPackage (cmd : ℕ) (bytes : List UInt8)
    (h : ksnTCPProxyPackageCreate sampleEnv.getByteChecksum ksnBufferDbSize
      (CString.ofBuf [49, 46, 50, 46, 51, 46, 52]) 9000 cmd [1] = .ok bytes) :
    SentPackage sampleEnv.getByteChecksum where
  addr := CString.ofBuf [49, 46, 50, 46, 51, 46, 52]
  port := 9000
  cmd := cmd
  data := [1]
  bufferLength := ksnBufferDbSize
  bytes := bytes
  addr_lt := by decide
  port_pos := by decide
  port_lt := by decide
  data_lt := by decide
  created := h

/-- Two packages in three reads. -/
theorem connectionReads_packages_two :
    ∃ conn, connectionReads sampleEnv.getByteChecksum .server {}
        [samplePackage.take 5, samplePackage.drop 5 ++ samplePackage.take 9, samplePackage.drop 9] =
        .ok conn ∧
      conn.packages.map tcppReceived =
        [(0, CString.ofBuf [49, 46, 50, 46, 51, 46, 52], 9000, [1]),
          (0, CString.ofBuf [49, 46, 50, 46, 51, 46, 52], 9000, [1])] ∧
      conn.packet.ptr = 0 ∧ conn.stopped = false :=
  connectionReads_packages .server
    [smallPackage 0 samplePackage (by decide), smallPackage 0 samplePackage (by decide)] _
    (by decide) (by decide +kernel)

/-- A command above the four bits of its field is not received. -/
theorem not_connectionReads_packages :
    ¬ ∀ (getByteChecksum : List UInt8 → UInt8) (side : CliSer)
      (ps : List (SentPackage getByteChecksum)) (reads : List (List UInt8)),
      reads.flatten = (ps.map SentPackage.bytes).flatten →
      Runs.Meets ReadFits (connectionRead getByteChecksum side) {} reads →
      ∃ conn, connectionReads getByteChecksum side {} reads = .ok conn ∧
        conn.packages.map tcppReceived = ps.map (fun p => (p.cmd, p.addr, p.port, p.data)) ∧
        conn.packet.ptr = 0 := by
  intro h
  obtain ⟨conn, hconn, hpackages, -⟩ := h sampleEnv.getByteChecksum .server
    [smallPackage 16 samplePackage (by decide)] [samplePackage] (by decide) (by decide +kernel)
  have hrun : connectionReads sampleEnv.getByteChecksum .server {} [samplePackage] =
      .ok { packet := samplePacket, packages := [samplePacket] } := by
    decide +kernel
  rw [hrun] at hconn
  obtain rfl := Except.ok.inj hconn
  revert hpackages
  decide +kernel

end Teonet
