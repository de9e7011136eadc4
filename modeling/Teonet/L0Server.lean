import Teonet.Lib.Bytes
import Teonet.Lib.Directory
import Teonet.Lib.FinMap
import Teonet.L0Auth

/-! # The L0 server

`l0-server.c` keeps a record for each client connection in `map`, under the connection's file
descriptor (TR-UDP connections get numbers from `MAX_FD_NUMBER` on), and in `map_n` the
descriptor of each logged in client under its name.  This file translates the functions that
change the two maps and those they call: registration, disconnection, login, key exchange, the
processing of one packet of a TCP and of a TR-UDP client, and the sending of packets.  A function
returns the state of the class and the calls it makes, in order.

The two maps are a directory of the connections (`KsnLNullClass.directory`), and each function has
a lemma that says what it does to the directory: nothing, `enter`, `leave` or `login`.
`tcpProcessPacket_outcome` and `processPacket_outcome` say it for a packet. -/

namespace Teonet

open Bytes

/-! ### State -/

/-- `ksnLNullSStat`. -/
structure KsnLNullSStat where
  clients : ℤ := 0
  visits : ℕ := 0
  packetsFromClient : ℕ := 0
  packetsToClient : ℕ := 0
  packetsFromPeer : ℕ := 0
  packetsToPeer : ℕ := 0

/-- `ksnLNullData`; `readBuffer` are the `read_buffer_ptr` bytes that wait in the buffer. -/
structure KsnLNullData (Ctx : Type) where
  name : Option CString := none
  serverCrypt : Option Ctx := none
  readBuffer : List UInt8 := []
  readBufferSize : ℕ := 0
  tAddr : Option CString := none
  tPort : ℕ := 0
  lastTime : ℚ := 0

/-- `ksnLNullClass`. -/
structure KsnLNullClass (Ctx : Type) where
  map : FinMap ℤ (KsnLNullData Ctx) := FinMap.empty
  mapN : FinMap CString ℤ := FinMap.empty
  stat : KsnLNullSStat := {}
  fdTrudp : ℤ

/-- What the server takes from outside, besides the login checks: the client library, this host's
name, `MAX_FD_NUMBER`, and the byte in memory behind a client's name. -/
structure L0Env (Ctx : Type) extends L0AuthEnv where
  cli : TeoCli Ctx
  hostName : CString
  maxFdNumber : ℤ
  staleByte : UInt8

/-- The calls the server makes. -/
inductive L0Effect
  /-- `teosockSend` -/
  | tcpSend (fd : ℤ) (pkg : List UInt8)
  /-- `ksnTRUDPsendto` -/
  | trudpSend (addr : Option CString) (port : ℕ) (cmd : UInt8) (chunk : List UInt8)
  /-- `ksnCoreSendCmdto` with `CMD_L0` -/
  | toPeer (peer : CString) (data : List UInt8)
  /-- `ksnCoreProcessPacket` -/
  | toThisHost (packet : List UInt8)
  /-- the events for the subscribers, with the number of clients -/
  | clientConnected (name : CString) (addr : Option CString) (clients : ℤ)
  | clientDisconnected (name : CString) (addr : Option CString) (clients : ℤ)
  /-- `ev_io_stop` and `close` of a client's socket -/
  | stopWatch (fd : ℤ)
  | close (fd : ℤ)
  /-- the record of a connection is freed -/
  | removed (fd : ℤ)
  /-- `trudp_ChannelSendReset` -/
  | channelReset
deriving DecidableEq

variable {Ctx : Type}

namespace KsnLNullClass

/-- Change the record of a connection. -/
def update (kl : KsnLNullClass Ctx) (fd : ℤ) (f : KsnLNullData Ctx → KsnLNullData Ctx) :
    KsnLNullClass Ctx :=
  { kl with map := kl.map.modify fd f }

/-- Change the encryption context of a connection that has one. -/
def updateCrypt (kl : KsnLNullClass Ctx) (fd : ℤ) (f : Ctx → Ctx) : KsnLNullClass Ctx :=
  kl.update fd fun d => { d with serverCrypt := d.serverCrypt.map f }

/-- Set the encryption context of a connection. -/
def setCrypt (kl : KsnLNullClass Ctx) (fd : ℤ) (ctx : Ctx) : KsnLNullClass Ctx :=
  kl.update fd fun d => { d with serverCrypt := some ctx }

/-- Set the name of a connection. -/
def setName (kl : KsnLNullClass Ctx) (fd : ℤ) (name : CString) : KsnLNullClass Ctx :=
  kl.update fd fun d => { d with name := some name }

end KsnLNullClass

/-! ### Connections -/

/-- `ksnLNullGetNextFakeFd`; the counter is an `int`. -/
def ksnLNullGetNextFakeFd (env : L0Env Ctx) (kl : KsnLNullClass Ctx) : ℤ × KsnLNullClass Ctx :=
  let fd := if kl.fdTrudp < env.maxFdNumber then env.maxFdNumber else kl.fdTrudp
  (fd, { kl with fdTrudp := (fd + 1).bmod (2 ^ 32) })

/-- `ksnLNullClientRegister`. -/
def ksnLNullClientRegister (now : ℚ) (kl : KsnLNullClass Ctx) (fd : ℤ) (addr : Option CString)
    (port : ℕ) : KsnLNullClass Ctx :=
  { kl with
    map := kl.map.add fd { tAddr := addr, tPort := port, lastTime := now }
    stat := { kl.stat with clients := kl.stat.clients + 1 } }

/-- `ksnLNullClientIsConnected`: the descriptor of a client, or 0. -/
def ksnLNullClientIsConnected (kl : KsnLNullClass Ctx) (name : CString) : ℤ :=
  (kl.mapN.get name).getD 0

/-- The socket of a TCP client is closed, except for `remove_f` 2. -/
def closeSocket (env : L0Env Ctx) (fd : ℤ) (removeF : ℕ) : List L0Effect :=
  if fd < env.maxFdNumber then
    if removeF ≠ 2 then [.stopWatch fd, .close fd] else [.stopWatch fd]
  else []

/-- The event for the subscribers, except for `remove_f` 2. -/
def disconnectedEvent (kld : KsnLNullData Ctx) (removeF : ℕ) (clients : ℤ) : List L0Effect :=
  match kld.name with
  | some name => if removeF ≠ 2 then [.clientDisconnected name kld.tAddr clients] else []
  | none => []

/-- `ksnLNullClientDisconnect`.  With `remove_f` 0 the record stays, without its name, address,
buffer and context. -/
def ksnLNullClientDisconnect (env : L0Env Ctx) (kl : KsnLNullClass Ctx) (fd : ℤ) (removeF : ℕ) :
    KsnLNullClass Ctx × List L0Effect :=
  match kl.map.get fd with
  | none => (kl, [])
  | some kld =>
    let clients := kl.stat.clients - 1
    let told := closeSocket env fd removeF ++ disconnectedEvent kld removeF clients
    if removeF ≠ 0 then
      ({ kl with
          map := kl.map.remove fd
          mapN := match kld.name with
            | some name => kl.mapN.remove name
            | none => kl.mapN
          stat := { kl.stat with clients := clients } },
        told ++ [.removed fd])
    else
      ({ kl with
          map := kl.map.add fd
            { kld with
              name := none
              serverCrypt := none
              readBuffer := []
              readBufferSize := 0
              tAddr := none }
          stat := { kl.stat with clients := clients } },
        told)

/-! ### Sending -/

/-- `CMD_TRUDP_CHECK`. -/
def cmdTrudpCheck (cmd : UInt8) : Bool := cmd = 0 ∨ cmd = cmdConnect ∨ (64 ≤ cmd ∧ cmd < 192)

/-- `ksnLNullPacketSend`.  Packets of TR-UDP commands are sealed with the connection's context. -/
def ksnLNullPacketSend (env : L0Env Ctx) (kl : KsnLNullClass Ctx) (fd : ℤ) (pkg : List UInt8) :
    KsnLNullClass Ctx × List L0Effect :=
  let withEncryption := cmdTrudpCheck (env.cli.packetHeader pkg).cmd
  let kld := kl.map.get fd
  let ctx := if withEncryption then kld.bind (·.serverCrypt) else none
  let sealed := env.cli.packetSeal ctx withEncryption pkg
  let cmd := (env.cli.packetHeader sealed).cmd
  let kl := if withEncryption then kl.updateCrypt fd (env.cli.sealContext · pkg) else kl
  let stat := { kl.stat with packetsToClient := kl.stat.packetsToClient + 1 }
  (if cmd ≠ 0 then { kl with stat := stat } else kl,
    if fd < env.maxFdNumber then [.tcpSend fd sealed]
    else
      match kld with
      | some kld => (packetChunks sealed).map (.trudpSend kld.tAddr kld.tPort cmd)
      | none => [])

/-- `ksnLNullSend`. -/
def ksnLNullSend (env : L0Env Ctx) (kl : KsnLNullClass Ctx) (fd : ℤ) (cmd : UInt8)
    (data : List UInt8) : KsnLNullClass Ctx × List L0Effect :=
  ksnLNullPacketSend env kl fd (env.cli.packetCreate cmd env.hostName data)

/-- The `ksnLNullSPacket` that `ksnLNullSendFromL0` builds.  The length of the name goes through a
`uint8_t`, and the data are copied behind a name of that length. -/
def l0SPacket (cmd : UInt8) (name : CString) (data : List UInt8) : List UInt8 :=
  let payload := name.toBuf ++ List.replicate data.length 0
  let offset := (name.length + 1) % 256
  cmd :: UInt8.ofNat (name.length + 1) ::
    (le16 data.length ++ (payload.take offset ++ (data ++ payload.drop (offset + data.length))))

/-- `ksnLNullSendFromL0`: a client's packet, at the start of `buf`, goes to the peer it names. -/
def ksnLNullSendFromL0 (env : L0Env Ctx) (kl : KsnLNullClass Ctx) (buf : List UInt8)
    (name : CString) : KsnLNullClass Ctx × List L0Effect :=
  let h := env.cli.packetHeader buf
  let spacket := l0SPacket h.cmd name ((env.cli.packetPayload buf).take h.dataLength.toNat)
  let peer := TeoCli.packetPeerName buf
  ({ kl with stat := { kl.stat with packetsToPeer := kl.stat.packetsToPeer + 1 } },
    [if peer ≠ CString.empty ∧ peer ≠ env.hostName then .toPeer peer spacket
      else .toThisHost (ksnCoreCreatePacket env.hostName cmdL0 spacket)])

/-! ### Login -/

/-- `CMD_CONFIRM_AUTH` and `CMD_L0_CLIENT_RESET`. -/
def cmdConfirmAuth : UInt8 := 147
def cmdL0ClientReset : UInt8 := 99

/-- The first part of `updateClientName`: a client with the same name on another connection is
disconnected. -/
def disconnectOwner (env : L0Env Ctx) (kl : KsnLNullClass Ctx) (fd : ℤ) (name : CString) :
    KsnLNullClass Ctx × List L0Effect :=
  let fdEx := ksnLNullClientIsConnected kl name
  if fdEx ≠ 0 ∧ fdEx ≠ fd then ksnLNullClientDisconnect env kl fdEx 1 else (kl, [])

/-- `updateClientName`. -/
def updateClientName (env : L0Env Ctx) (kl : KsnLNullClass Ctx) (fd : ℤ) (name : CString) :
    KsnLNullClass Ctx × List L0Effect :=
  let fdEx := ksnLNullClientIsConnected kl name
  let displaced := disconnectOwner env kl fd name
  let kl := displaced.1.setName fd name
  (if fdEx ≠ fd then { kl with mapN := kl.mapN.add name fd } else kl, displaced.2)

/-- `confirmAuth`.  The data are one byte longer than the name with its terminator. -/
def confirmAuth (env : L0Env Ctx) (kl : KsnLNullClass Ctx) (fd : ℤ) (name : CString) :
    KsnLNullClass Ctx × List L0Effect :=
  ksnLNullPacketSend env kl fd
    (env.cli.packetCreate cmdConfirmAuth env.hostName (name.toBuf ++ [env.staleByte]))

/-- `sendConnectedEvent`. -/
def sendConnectedEvent (kl : KsnLNullClass Ctx) (fd : ℤ) (name : CString) :
    KsnLNullClass Ctx × List L0Effect :=
  ({ kl with stat := { kl.stat with visits := kl.stat.visits + 1 } },
    [.clientConnected name ((kl.map.get fd).bind (·.tAddr)) kl.map.entries.length])

/-- `ksnLNullClientAuthCheck`; `subscribed` says that some application waits for the connected
event, and then confirms the login later. -/
def ksnLNullClientAuthCheck (env : L0Env Ctx) (now : ℚ) (subscribed : Bool)
    (kl : KsnLNullClass Ctx) (fd : ℤ) (payload : List UInt8) :
    KsnLNullClass Ctx × List L0Effect × Bool :=
  match loginName env.toL0AuthEnv now payload with
  | none =>
    let gone := ksnLNullClientDisconnect env kl fd 1
    (gone.1, gone.2, false)
  | some name =>
    let named := updateClientName env kl fd name
    let told :=
      if subscribed then sendConnectedEvent named.1 fd name else confirmAuth env named.1 fd name
    (told.1, named.2 ++ told.2, true)

/-! ### Key exchange -/

/-- `sendKEXResponse`. -/
def sendKexResponse (env : L0Env Ctx) (kl : KsnLNullClass Ctx) (fd : ℤ) (ctx : Ctx) :
    KsnLNullClass Ctx × List L0Effect × Bool :=
  match env.cli.kexCreate ctx with
  | some resp =>
    let sent := ksnLNullSend env kl fd 0 resp
    (sent.1, sent.2, true)
  | none => (kl, [], false)

/-- The encryption context that `processKeyExchange` works with: the connection's own, or a new
one for the client's protocol. -/
def kexContext (env : L0Env Ctx) (kl : KsnLNullClass Ctx) (fd : ℤ) (protocolId : ℕ) : Option Ctx :=
  match (kl.map.get fd).bind (·.serverCrypt) with
  | some ctx => some ctx
  | none => env.cli.contextCreate protocolId

/-- `processKeyExchange`. -/
def processKeyExchange (env : L0Env Ctx) (kl : KsnLNullClass Ctx) (fd : ℤ) (protocolId : ℕ)
    (kex : List UInt8) : KsnLNullClass Ctx × List L0Effect × Bool :=
  match kexContext env kl fd protocolId with
  | none => (kl, [], false)
  | some ctx =>
    if env.cli.kexValidate ctx kex then
      let applied := env.cli.applyKex ctx kex
      if applied.2 then
        -- the response is sent unencrypted
        let pending := env.cli.setEstablished false applied.1
        let sent := sendKexResponse env (kl.setCrypt fd pending) fd pending
        if sent.2.2 then (sent.1.updateCrypt fd (env.cli.setEstablished true), sent.2.1, true)
        else sent
      else (kl.setCrypt fd applied.1, [], false)
    else (kl.setCrypt fd ctx, [], false)

/-! ### One packet -/

/-- The test for a packet to the server itself: command 0, an empty peer name, and data. -/
def isInitialize (cli : TeoCli Ctx) (buf : List UInt8) : Bool :=
  let h := cli.packetHeader buf
  h.cmd = 0 ∧ h.peerNameLength = 1 ∧ buf.getD l0HeaderSize 0 = 0 ∧ h.dataLength ≠ 0

/-- The data of such a packet, by their length. -/
def initializeData (cli : TeoCli Ctx) (buf : List UInt8) : List UInt8 :=
  (cli.packetPayload buf).take (cli.packetHeader buf).dataLength.toNat

/-- The test for login data: one string that fills them. -/
def isLoginData (cli : TeoCli Ctx) (buf : List UInt8) : Bool :=
  let data := cli.packetPayload buf
  let expectedLen := (cli.packetHeader buf).dataLength.toNat - 1
  expectedLen > 0 ∧ data.getD expectedLen 0 = 0 ∧ (CString.ofBuf data).length = expectedLen

/-- A packet at the start of `buf` after its decryption, with the bytes behind it. -/
def decrypted (cli : TeoCli Ctx) (ctx : Option Ctx) (buf : List UInt8) : Option (List UInt8) :=
  (cli.packetDecrypt ctx (buf.take (cli.packetLength buf))).map
    (· ++ buf.drop (cli.packetLength buf))

/-- The encryption context after the decryption. -/
def decryptedContext (cli : TeoCli Ctx) (buf : List UInt8) (ctx : Ctx) : Ctx :=
  cli.decryptContext ctx (buf.take (cli.packetLength buf))

/-- The body of the loop of `cmd_l0_read_cb`, for the packet at the start of `buf`; the flag says
that the callback returns. -/
def tcpProcessPacket (env : L0Env Ctx) (now : ℚ) (subscribed : Bool) (kl : KsnLNullClass Ctx)
    (fd : ℤ) (kld : KsnLNullData Ctx) (buf : List UInt8) :
    KsnLNullClass Ctx × List L0Effect × Bool :=
  if env.cli.checksumsMatch buf then
    let kl := kl.updateCrypt fd (decryptedContext env.cli buf)
    match decrypted env.cli kld.serverCrypt buf with
    | none => (kl, [], false)
    | some buf =>
      if isInitialize env.cli buf then
        match env.cli.kexGetFromPayload (initializeData env.cli buf) with
        | some protocolId =>
          let done := processKeyExchange env kl fd protocolId (initializeData env.cli buf)
          if done.2.2 then (done.1, done.2.1, false)
          else
            let gone := ksnLNullClientDisconnect env done.1 fd 1
            (gone.1, done.2.1 ++ gone.2, true)
        | none =>
          if isLoginData env.cli buf then
            let checked :=
              ksnLNullClientAuthCheck env now subscribed kl fd (env.cli.packetPayload buf)
            (checked.1, checked.2.1, false)
          else (kl, [], false)
      else
        match kld.name with
        | some name =>
          let sent := ksnLNullSendFromL0 env kl buf name
          (sent.1, sent.2, false)
        | none => (kl, [], false)
  else (kl, [], false)

/-- What the packet at the start of `buf` is as a login: none at all, one that is rejected, or one
that is accepted under a name. -/
def loginOutcome (env : L0Env Ctx) (now : ℚ) (ctx : Option Ctx) (buf : List UInt8) :
    Option (Option CString) :=
  match decrypted env.cli ctx buf with
  | none => none
  | some buf =>
    if isInitialize env.cli buf ∧
        env.cli.kexGetFromPayload (initializeData env.cli buf) = none ∧
        isLoginData env.cli buf then
      some (loginName env.toL0AuthEnv now (env.cli.packetPayload buf))
    else none

/-- The same for a packet of a TCP client, whose checksums are tested first. -/
def tcpLoginOutcome (env : L0Env Ctx) (now : ℚ) (ctx : Option Ctx) (buf : List UInt8) :
    Option (Option CString) :=
  if env.cli.checksumsMatch buf then loginOutcome env now ctx buf else none

/-- `processPacket`, for a packet of a TR-UDP client at the start of `buf`; the flag is its
result. -/
def processPacket (env : L0Env Ctx) (now : ℚ) (subscribed : Bool) (kl : KsnLNullClass Ctx)
    (fd : ℤ) (kld : KsnLNullData Ctx) (buf : List UInt8) :
    KsnLNullClass Ctx × List L0Effect × Bool :=
  let kl := kl.updateCrypt fd (decryptedContext env.cli buf)
  match decrypted env.cli kld.serverCrypt buf with
  | none => (kl, [], false)
  | some buf =>
    if (env.cli.packetHeader buf).cmd = 0 then
      if isInitialize env.cli buf then
        match env.cli.kexGetFromPayload (initializeData env.cli buf) with
        | some protocolId =>
          let done := processKeyExchange env kl fd protocolId (initializeData env.cli buf)
          if done.2.2 then (done.1, done.2.1, true)
          else
            let gone := ksnLNullClientDisconnect env done.1 fd 1
            (gone.1, done.2.1 ++ .channelReset :: gone.2, true)
        | none =>
          if isLoginData env.cli buf then
            let checked :=
              ksnLNullClientAuthCheck env now subscribed kl fd (env.cli.packetPayload buf)
            (checked.1, checked.2.1 ++ if checked.2.2 then [] else [.channelReset], true)
          else
            let gone := ksnLNullClientDisconnect env kl fd 1
            (gone.1, .channelReset :: gone.2, true)
      else (kl, [], false)
    else
      let kl := { kl with
        stat := { kl.stat with packetsFromClient := kl.stat.packetsFromClient + 1 } }
      match kld.name with
      | some name =>
        let sent :=
          ksnLNullSendFromL0 env (kl.update fd fun d => { d with lastTime := now }) buf name
        (sent.1, sent.2, true)
      | none => (kl, [.channelReset], true)

/-- `ksnLNulltrudpCheckPaket` from the point where it has a packet, at the start of `buf`: small
when the received data hold it whole, else large.  A connection without a record is registered,
except for a small packet that was parsed as one of the mesh with a command. -/
def trudpDeliver (env : L0Env Ctx) (now : ℚ) (subscribed : Bool) (kl : KsnLNullClass Ctx)
    (fd : ℤ) (rd : KsnCorePacketData) (small : Bool) (buf : List UInt8) :
    KsnLNullClass Ctx × List L0Effect × Bool :=
  match kl.map.get fd with
  | some kld => processPacket env now subscribed kl fd kld buf
  | none =>
    if small ∧ rd.cmd ≠ 0 then
      let gone := ksnLNullClientDisconnect env kl fd 1
      (gone.1, gone.2, false)
    else
      let kl := ksnLNullClientRegister now kl fd (some rd.addr) rd.port
      match kl.map.get fd with
      | some kld => processPacket env now subscribed kl fd kld buf
      | none => (kl, [], false)

/-! ### The server -/

/-- `_check_connected` for one connection; `echo` is the data of the ping. -/
def checkConnected (env : L0Env Ctx) (now : ℚ) (kl : KsnLNullClass Ctx) (fd : ℤ)
    (echo : List UInt8) : KsnLNullClass Ctx × List L0Effect :=
  match kl.map.get fd with
  | none => (kl, [])
  | some kld =>
    if now - kld.lastTime ≥ 60 then ksnLNullClientDisconnect env kl fd 1
    else if kld.name ≠ none ∧ now - kld.lastTime ≥ 30 then ksnLNullSend env kl fd cmdEcho echo
    else (kl, [])

/-- The loop of `ksnLNullStop`. -/
def disconnectAll (env : L0Env Ctx) (kl : KsnLNullClass Ctx) :
    List ℤ → KsnLNullClass Ctx × List L0Effect
  | [] => (kl, [])
  | fd :: fds =>
    let gone := ksnLNullClientDisconnect env kl fd 0
    let rest := disconnectAll env gone.1 fds
    (rest.1, gone.2 ++ rest.2)

/-- `ksnLNullStop`: every client is disconnected and the maps are cleared. -/
def ksnLNullStop (env : L0Env Ctx) (kl : KsnLNullClass Ctx) :
    KsnLNullClass Ctx × List L0Effect :=
  let gone := disconnectAll env kl (kl.map.toPairs.map Prod.fst)
  ({ gone.1 with map := FinMap.empty, mapN := FinMap.empty }, gone.2)

/-! ### Requests of peers -/

/-- `cmd_l0_kick_client`, for the user id in the request. -/
def cmdL0KickClient (env : L0Env Ctx) (kl : KsnLNullClass Ctx) (userId : Option CString) :
    KsnLNullClass Ctx × List L0Effect :=
  match userId with
  | none => (kl, [])
  | some name =>
    let fd := ksnLNullClientIsConnected kl name
    if fd ≠ 0 then
      let sent := ksnLNullSend env kl fd cmdL0ClientReset [50, 0]
      let gone := ksnLNullClientDisconnect env sent.1 fd 2
      (gone.1, sent.2 ++ gone.2)
    else (kl, [])

/-- The client that a `CMD_L0_TO` packet is for: the start of `payload`. -/
def l0ToName (rd : KsnCorePacketData) : CString := CString.ofBuf ((rd.data ++ rd.after).drop 4)

/-- `cmd_l0_to_cb`. -/
def cmdL0ToCb (env : L0Env Ctx) (kl : KsnLNullClass Ctx) (rd : KsnCorePacketData) :
    KsnLNullClass Ctx × List L0Effect :=
  let buf := rd.data ++ rd.after
  let kl := { kl with stat := { kl.stat with packetsFromPeer := kl.stat.packetsFromPeer + 1 } }
  let fd := ksnLNullClientIsConnected kl (l0ToName rd)
  if fd ≠ 0 then
    let clientNameLength := (buf.getD 1 0).toNat
    let dataLength := getLe16 (buf.drop 2)
    ksnLNullPacketSend env kl fd
      (env.cli.packetCreate (buf.getD 0 0) rd.fromName
        ((buf.drop (4 + clientNameLength)).take dataLength))
  else (kl, [])

/-! ### The directory of the connections -/

/-- The connections with their names, and the connection of each name. -/
def KsnLNullClass.directory (kl : KsnLNullClass Ctx) : Directory ℤ CString where
  member fd := (kl.map.get fd).map (·.name)
  owner := kl.mapN.get

/-- The sockets that are closed. -/
def closedFds (es : List L0Effect) : List ℤ :=
  es.filterMap fun e => match e with
    | .close fd => some fd
    | _ => none

/-- The connections whose socket is closed or whose record is freed. -/
def endedFds (es : List L0Effect) : List ℤ :=
  es.filterMap fun e => match e with
    | .close fd => some fd
    | .removed fd => some fd
    | _ => none

@[simp] theorem closedFds_append (es fs : List L0Effect) :
    closedFds (es ++ fs) = closedFds es ++ closedFds fs := List.filterMap_append

@[simp] theorem endedFds_append (es fs : List L0Effect) :
    endedFds (es ++ fs) = endedFds es ++ endedFds fs := List.filterMap_append

theorem closedFds_subset (es : List L0Effect) : closedFds es ⊆ endedFds es := by
  intro fd hfd
  obtain ⟨e, he, hclose⟩ := List.mem_filterMap.mp hfd
  refine List.mem_filterMap.mpr ⟨e, he, ?_⟩
  cases e with
  | close fd' => exact hclose
  | _ => cases hclose

theorem mem_endedFds_of_removed {es : List L0Effect} {fd : ℤ} (h : .removed fd ∈ es) :
    fd ∈ endedFds es :=
  List.mem_filterMap.mpr ⟨_, h, rfl⟩

namespace KsnLNullClass

theorem update_directory (kl : KsnLNullClass Ctx) (fd : ℤ)
    {f : KsnLNullData Ctx → KsnLNullData Ctx} (hf : ∀ d, (f d).name = d.name) :
    (kl.update fd f).directory = kl.directory := by
  apply Directory.ext
  · intro fd'
    show ((kl.map.modify fd f).get fd').map (·.name) = (kl.map.get fd').map (·.name)
    rw [FinMap.get_modify]
    split
    · rename_i heq
      rw [heq]
      cases kl.map.get fd with
      | none => rfl
      | some d => exact congrArg some (hf d)
    · rfl
  · intro n
    rfl

@[simp] theorem updateCrypt_directory (kl : KsnLNullClass Ctx) (fd : ℤ) (f : Ctx → Ctx) :
    (kl.updateCrypt fd f).directory = kl.directory :=
  kl.update_directory fd fun _ => rfl

@[simp] theorem setCrypt_directory (kl : KsnLNullClass Ctx) (fd : ℤ) (ctx : Ctx) :
    (kl.setCrypt fd ctx).directory = kl.directory :=
  kl.update_directory fd fun _ => rfl

theorem directory_absent {kl : KsnLNullClass Ctx} {fd : ℤ} (h : kl.map.get fd = none) :
    kl.directory.member fd = none := by
  show (kl.map.get fd).map (·.name) = none
  rw [h]
  rfl

theorem directory_member {kl : KsnLNullClass Ctx} {fd : ℤ} {d : KsnLNullData Ctx}
    (h : kl.map.get fd = some d) : kl.directory.member fd = some d.name := by
  show (kl.map.get fd).map (·.name) = some d.name
  rw [h]
  rfl

theorem directory_member_ne_none {kl : KsnLNullClass Ctx} {fd : ℤ} {d : KsnLNullData Ctx}
    (h : kl.map.get fd = some d) : kl.directory.member fd ≠ none := by
  rw [directory_member h]
  exact Option.some_ne_none _

end KsnLNullClass

theorem ksnLNullClientRegister_directory (now : ℚ) (kl : KsnLNullClass Ctx) (fd : ℤ)
    (addr : Option CString) (port : ℕ) :
    (ksnLNullClientRegister now kl fd addr port).directory = kl.directory.enter fd := by
  apply Directory.ext
  · intro fd'
    show ((kl.map.add fd _).get fd').map (·.name) =
      Function.update kl.directory.member fd (some none) fd'
    rw [FinMap.get_add, Function.update_apply]
    split
    · rfl
    · rfl
  · intro n
    rfl

theorem endedFds_closeSocket (env : L0Env Ctx) (fd : ℤ) (removeF : ℕ) :
    ∀ fd' ∈ endedFds (closeSocket env fd removeF), fd' = fd := by
  intro fd' hfd'
  unfold closeSocket at hfd'
  split at hfd'
  · split at hfd'
    · exact List.mem_singleton.mp hfd'
    · cases hfd'
  · cases hfd'

theorem endedFds_disconnectedEvent (kld : KsnLNullData Ctx) (removeF : ℕ) (clients : ℤ) :
    endedFds (disconnectedEvent kld removeF clients) = [] := by
  unfold disconnectedEvent
  split
  · split
    · rfl
    · rfl
  · rfl

/-- A disconnection ends at most the connection itself, when there is one. -/
theorem endedFds_ksnLNullClientDisconnect (env : L0Env Ctx) (kl : KsnLNullClass Ctx) (fd : ℤ)
    (removeF : ℕ) : ∀ fd' ∈ endedFds (ksnLNullClientDisconnect env kl fd removeF).2,
      fd' = fd ∧ kl.directory.member fd ≠ none := by
  intro fd' hfd'
  unfold ksnLNullClientDisconnect at hfd'
  cases hget : kl.map.get fd with
  | none =>
    rw [hget] at hfd'
    cases hfd'
  | some kld =>
    refine ⟨?_, KsnLNullClass.directory_member_ne_none hget⟩
    have htold : ∀ fd' ∈ endedFds (closeSocket env fd removeF ++
        disconnectedEvent kld removeF (kl.stat.clients - 1)), fd' = fd := by
      rw [endedFds_append, endedFds_disconnectedEvent, List.append_nil]
      exact endedFds_closeSocket env fd removeF
    rw [hget] at hfd'
    dsimp only at hfd'
    split at hfd'
    · rw [endedFds_append] at hfd'
      rcases List.mem_append.mp hfd' with h | h
      · exact htold fd' h
      · exact List.mem_singleton.mp h
    · exact htold fd' hfd'

/-- The connection leaves the directory; its record is freed, when there is one, and no other
connection ends. -/
structure Leaves (kl : KsnLNullClass Ctx) (fd : ℤ) (r : KsnLNullClass Ctx × List L0Effect) :
    Prop where
  directory : r.1.directory = kl.directory.leave fd
  ended : ∀ fd' ∈ endedFds r.2, fd' = fd ∧ kl.directory.member fd ≠ none
  removed : kl.directory.member fd ≠ none → .removed fd ∈ r.2

theorem Leaves.reset {kl : KsnLNullClass Ctx} {fd : ℤ} {r : KsnLNullClass Ctx × List L0Effect}
    (h : Leaves kl fd r) : Leaves kl fd (r.1, .channelReset :: r.2) :=
  ⟨h.directory, h.ended, fun hmember => List.mem_cons_of_mem _ (h.removed hmember)⟩

theorem Leaves.of_directory_eq {kl kl' : KsnLNullClass Ctx} {fd : ℤ}
    {r : KsnLNullClass Ctx × List L0Effect} (hdir : kl'.directory = kl.directory)
    (h : Leaves kl' fd r) : Leaves kl fd r :=
  ⟨hdir ▸ h.directory, hdir ▸ h.ended, hdir ▸ h.removed⟩

theorem ksnLNullClientDisconnect_leaves (env : L0Env Ctx) (kl : KsnLNullClass Ctx) (fd : ℤ)
    {removeF : ℕ} (h : removeF ≠ 0) :
    Leaves kl fd (ksnLNullClientDisconnect env kl fd removeF) := by
  refine ⟨?_, endedFds_ksnLNullClientDisconnect env kl fd removeF, fun hmember => ?_⟩
  rotate_left
  · unfold ksnLNullClientDisconnect
    cases hget : kl.map.get fd with
    | none => exact absurd (KsnLNullClass.directory_absent hget) hmember
    | some kld =>
      dsimp only
      rw [if_pos h]
      exact List.mem_append_right _ (List.mem_singleton_self _)
  unfold ksnLNullClientDisconnect
  cases hget : kl.map.get fd with
  | none => exact (Directory.leave_of_absent (KsnLNullClass.directory_absent hget)).symm
  | some kld =>
    dsimp only
    rw [if_pos h]
    apply Directory.ext
    · intro fd'
      show ((kl.map.remove fd).get fd').map (·.name) =
        Function.update kl.directory.member fd none fd'
      rw [FinMap.get_remove, Function.update_apply]
      split
      · rfl
      · rfl
    · intro n
      unfold Directory.leave
      rw [KsnLNullClass.directory_member hget]
      cases kld.name with
      | none => rfl
      | some name =>
        show (kl.mapN.remove name).get n = Function.update kl.mapN.get name none n
        rw [FinMap.get_remove, Function.update_apply]

/-! ### Functions that leave the directory alone -/

/-- The function leaves the directory alone and ends no connection. -/
def Quiet (kl : KsnLNullClass Ctx) (r : KsnLNullClass Ctx × List L0Effect) : Prop :=
  r.1.directory = kl.directory ∧ endedFds r.2 = []

theorem ksnLNullPacketSend_quiet (env : L0Env Ctx) (kl : KsnLNullClass Ctx) (fd : ℤ)
    (pkg : List UInt8) : Quiet kl (ksnLNullPacketSend env kl fd pkg) := by
  have hchunks : ∀ (addr : Option CString) (port : ℕ) (cmd : UInt8) (l : List (List UInt8)),
      endedFds (l.map (.trudpSend addr port cmd)) = [] := by
    intro addr port cmd l
    unfold endedFds
    rw [List.filterMap_map]
    exact List.filterMap_eq_nil_iff.mpr fun _ _ => rfl
  have hstat : ∀ (c : Prop) [Decidable c] (kl : KsnLNullClass Ctx) (stat : KsnLNullSStat),
      (if c then { kl with stat := stat } else kl).directory = kl.directory := by
    intro c _ kl stat
    split
    · rfl
    · rfl
  unfold ksnLNullPacketSend
  refine ⟨?_, ?_⟩
  · refine (hstat _ _ _).trans ?_
    split
    · exact kl.updateCrypt_directory fd _
    · rfl
  · dsimp only
    split
    · rfl
    · split
      · exact hchunks _ _ _ _
      · rfl

theorem ksnLNullSendFromL0_quiet (env : L0Env Ctx) (kl : KsnLNullClass Ctx) (buf : List UInt8)
    (name : CString) : Quiet kl (ksnLNullSendFromL0 env kl buf name) := by
  refine ⟨rfl, ?_⟩
  unfold ksnLNullSendFromL0
  dsimp only
  split
  · rfl
  · rfl

theorem sendConnectedEvent_quiet (kl : KsnLNullClass Ctx) (fd : ℤ) (name : CString) :
    Quiet kl (sendConnectedEvent kl fd name) := ⟨rfl, rfl⟩

theorem sendKexResponse_quiet (env : L0Env Ctx) (kl : KsnLNullClass Ctx) (fd : ℤ) (ctx : Ctx) :
    Quiet kl ((sendKexResponse env kl fd ctx).1, (sendKexResponse env kl fd ctx).2.1) := by
  unfold sendKexResponse
  cases env.cli.kexCreate ctx with
  | some resp => exact ksnLNullPacketSend_quiet env kl fd _
  | none => exact ⟨rfl, rfl⟩

/-- A key exchange changes contexts only. -/
theorem processKeyExchange_quiet (env : L0Env Ctx) (kl : KsnLNullClass Ctx) (fd : ℤ)
    (protocolId : ℕ) (kex : List UInt8) :
    Quiet kl ((processKeyExchange env kl fd protocolId kex).1,
      (processKeyExchange env kl fd protocolId kex).2.1) := by
  unfold processKeyExchange
  cases kexContext env kl fd protocolId with
  | none => exact ⟨rfl, rfl⟩
  | some ctx =>
    dsimp only
    split
    · split
      · have hsent := sendKexResponse_quiet env
          (kl.setCrypt fd (env.cli.setEstablished false (env.cli.applyKex ctx kex).1)) fd
          (env.cli.setEstablished false (env.cli.applyKex ctx kex).1)
        have hdir := hsent.1.trans (kl.setCrypt_directory fd _)
        split
        · exact ⟨(KsnLNullClass.updateCrypt_directory _ _ _).trans hdir, hsent.2⟩
        · exact ⟨hdir, hsent.2⟩
      · exact ⟨kl.setCrypt_directory fd _, rfl⟩
    · exact ⟨kl.setCrypt_directory fd _, rfl⟩

/-! ### Logins -/

/-- The connection logs in.  It stays, and at most the name's owner so far ends.  In the directory
this is a login, when 0, which stands for no connection, is none. -/
structure LogsIn (kl : KsnLNullClass Ctx) (fd : ℤ) (name : CString)
    (r : KsnLNullClass Ctx × List L0Effect) : Prop where
  stays : r.1.directory.member fd ≠ none
  ended : ∀ fd' ∈ endedFds r.2, fd' ≠ fd ∧ kl.directory.owner name = some fd'
  directory : fd ≠ 0 → kl.directory.owner name ≠ some 0 →
    r.1.directory = kl.directory.login fd name

theorem Quiet.leaves {kl : KsnLNullClass Ctx} {fd : ℤ} {r r' : KsnLNullClass Ctx × List L0Effect}
    (h : Quiet kl r) (h' : Leaves r.1 fd r') : Leaves kl fd (r'.1, r.2 ++ r'.2) := by
  have h' := h'.of_directory_eq h.1
  refine ⟨h'.directory, fun fd' hfd' => h'.ended fd' ?_, fun hmember =>
    List.mem_append_right _ (h'.removed hmember)⟩
  rw [endedFds_append, h.2] at hfd'
  exact hfd'

theorem LogsIn.quiet {kl : KsnLNullClass Ctx} {fd : ℤ} {name : CString}
    {r r' : KsnLNullClass Ctx × List L0Effect} (h : LogsIn kl fd name r) (h' : Quiet r.1 r') :
    LogsIn kl fd name (r'.1, r.2 ++ r'.2) := by
  refine ⟨h'.1 ▸ h.stays, fun fd' hfd' => h.ended fd' ?_, fun hfd hzero =>
    h'.1.trans (h.directory hfd hzero)⟩
  rw [endedFds_append, h'.2, List.append_nil] at hfd'
  exact hfd'

theorem setName_member (kl : KsnLNullClass Ctx) {fd : ℤ} (name : CString)
    (h : kl.directory.member fd ≠ none) :
    (kl.setName fd name).directory.member =
      Function.update kl.directory.member fd (some (some name)) := by
  funext fd'
  show ((kl.map.modify fd _).get fd').map (·.name) = _
  rw [FinMap.get_modify, Function.update_apply]
  split
  · cases hget : kl.map.get fd with
    | none => exact absurd (KsnLNullClass.directory_absent hget) h
    | some d => rfl
  · rfl

/-- The record is given a name and the index an entry. -/
theorem setName_directory (kl : KsnLNullClass Ctx) {fd : ℤ} (name : CString)
    (h : kl.directory.member fd ≠ none) :
    { kl.setName fd name with mapN := kl.mapN.add name fd }.directory =
      kl.directory.rename fd name := by
  apply Directory.ext
  · intro fd'
    exact congrFun (setName_member kl name h) fd'
  · intro n
    show (kl.mapN.add name fd).get n = Function.update kl.mapN.get name (some fd) n
    rw [FinMap.get_add, Function.update_apply]

theorem ksnLNullClientIsConnected_of_owner {kl : KsnLNullClass Ctx} {name : CString} {fd : ℤ}
    (h : kl.directory.owner name = some fd) : ksnLNullClientIsConnected kl name = fd := by
  show (kl.directory.owner name).getD 0 = fd
  rw [h]
  rfl

theorem ksnLNullClientIsConnected_of_free {kl : KsnLNullClass Ctx} {name : CString}
    (h : kl.directory.owner name = none) : ksnLNullClientIsConnected kl name = 0 := by
  show (kl.directory.owner name).getD 0 = 0
  rw [h]
  rfl

/-- The connection that logs in stays, and at most the name's owner so far ends. -/
theorem disconnectOwner_stays (env : L0Env Ctx) (kl : KsnLNullClass Ctx) {fd : ℤ}
    (name : CString) (hmember : kl.directory.member fd ≠ none) :
    (disconnectOwner env kl fd name).1.directory.member fd ≠ none ∧
      ∀ fd' ∈ endedFds (disconnectOwner env kl fd name).2,
        fd' ≠ fd ∧ kl.directory.owner name = some fd' := by
  unfold disconnectOwner
  dsimp only
  split
  · rename_i hother
    have hgone := ksnLNullClientDisconnect_leaves env kl (ksnLNullClientIsConnected kl name)
      one_ne_zero
    refine ⟨?_, fun fd' hfd' => ?_⟩
    · rw [hgone.directory, kl.directory.leave_member_of_ne (Ne.symm hother.2)]
      exact hmember
    · obtain ⟨rfl, -⟩ := hgone.ended fd' hfd'
      refine ⟨hother.2, ?_⟩
      cases howner : kl.directory.owner name with
      | none => exact absurd (ksnLNullClientIsConnected_of_free howner) hother.1
      | some k => rw [ksnLNullClientIsConnected_of_owner howner]
  · exact ⟨hmember, fun fd' hfd' => by cases hfd'⟩

theorem updateClientName_logsIn (env : L0Env Ctx) (kl : KsnLNullClass Ctx) {fd : ℤ}
    (name : CString) (hmember : kl.directory.member fd ≠ none) :
    LogsIn kl fd name (updateClientName env kl fd name) := by
  obtain ⟨hstays, hended⟩ := disconnectOwner_stays env kl name hmember
  refine ⟨?_, hended, fun hfd hzero => ?_⟩
  · have hname : ((disconnectOwner env kl fd name).1.setName fd name).directory.member fd ≠
        none := by
      rw [setName_member _ name hstays, Function.update_self]
      simp
    unfold updateClientName
    dsimp only
    split
    · exact hname
    · exact hname
  · unfold updateClientName disconnectOwner Directory.login
    dsimp only
    cases howner : kl.directory.owner name with
    | none =>
      rw [ksnLNullClientIsConnected_of_free howner, if_pos (Ne.symm hfd),
        if_neg (fun h => h.1 rfl)]
      exact setName_directory kl name hmember
    | some k =>
      have hk : k ≠ 0 := fun h => hzero (h ▸ howner)
      rw [ksnLNullClientIsConnected_of_owner howner]
      by_cases heq : k = fd
      · rw [if_neg (fun h => h heq), if_neg (fun h => h.2 heq)]
        dsimp only
        rw [if_pos heq, ← setName_directory kl name hmember]
        refine Directory.ext (fun _ => rfl) fun n => ?_
        show kl.mapN.get n = (kl.mapN.add name fd).get n
        rw [FinMap.get_add]
        split
        · rename_i hn
          rw [hn, ← heq]
          exact howner
        · rfl
      · rw [if_pos heq, if_pos ⟨hk, heq⟩]
        dsimp only
        rw [if_neg heq]
        have hgone := ksnLNullClientDisconnect_leaves env kl k one_ne_zero
        have hmember' : (ksnLNullClientDisconnect env kl k 1).1.directory.member fd ≠ none := by
          rw [hgone.directory, kl.directory.leave_member_of_ne (Ne.symm heq)]
          exact hmember
        exact (setName_directory _ name hmember').trans (by rw [hgone.directory])

/-- A login removes the connection or gives it the name that the tests find. -/
theorem ksnLNullClientAuthCheck_cases (env : L0Env Ctx) (now : ℚ) (subscribed : Bool)
    (kl : KsnLNullClass Ctx) {fd : ℤ} (payload : List UInt8)
    (hmember : kl.directory.member fd ≠ none) :
    (loginName env.toL0AuthEnv now payload = none ∧
      Leaves kl fd ((ksnLNullClientAuthCheck env now subscribed kl fd payload).1,
        (ksnLNullClientAuthCheck env now subscribed kl fd payload).2.1)) ∨
    ∃ name, loginName env.toL0AuthEnv now payload = some name ∧
      LogsIn kl fd name ((ksnLNullClientAuthCheck env now subscribed kl fd payload).1,
        (ksnLNullClientAuthCheck env now subscribed kl fd payload).2.1) := by
  unfold ksnLNullClientAuthCheck
  cases hname : loginName env.toL0AuthEnv now payload with
  | none => exact Or.inl ⟨rfl, ksnLNullClientDisconnect_leaves env kl fd one_ne_zero⟩
  | some name =>
    refine Or.inr ⟨name, rfl, ?_⟩
    have hnamed := updateClientName_logsIn env kl name hmember
    dsimp only
    split
    · exact hnamed.quiet (sendConnectedEvent_quiet _ fd name)
    · exact hnamed.quiet (ksnLNullPacketSend_quiet env _ fd _)

/-! ### What a packet can come to -/

/-- Nothing, or a reset of the channel. -/
def IsReset (es : List L0Effect) : Prop := es = [] ∨ es = [.channelReset]

/-- A packet is counted, and the time of it is noted. -/
inductive Noted (now : ℚ) (kl : KsnLNullClass Ctx) (fd : ℤ) : KsnLNullClass Ctx → Prop
  | same : Noted now kl fd kl
  | packet : Noted now kl fd { kl with
      stat := { kl.stat with packetsFromClient := kl.stat.packetsFromClient + 1 } }
  | timed : Noted now kl fd (({ kl with
      stat := { kl.stat with packetsFromClient := kl.stat.packetsFromClient + 1 } } :
        KsnLNullClass Ctx).update fd fun d => { d with lastTime := now })

/-- The cases of a packet: nothing, a key exchange that goes on or fails, a login, a connection that
is ended, and a packet to the mesh.  `login` is what the packet is as a login, the flag says that the
connection is gone for another reason than a rejected login, and `Forwards` is what is known of a
packet that goes to the mesh and of the name of its client. -/
inductive PacketCase (env : L0Env Ctx) (now : ℚ) (subscribed : Bool) (kl : KsnLNullClass Ctx)
    (fd : ℤ) (Forwards : List UInt8 → CString → Prop) :
    Option (Option CString) → Bool → KsnLNullClass Ctx × List L0Effect → Prop
  | nothing {kl'} (es) (hkl : Noted now kl fd kl') (hes : IsReset es) :
      PacketCase env now subscribed kl fd Forwards none false (kl', es)
  | kex (protocolId kex) :
      PacketCase env now subscribed kl fd Forwards none false
        ((processKeyExchange env kl fd protocolId kex).1,
          (processKeyExchange env kl fd protocolId kex).2.1)
  | kexFailed (protocolId kex es) (hes : IsReset es) :
      PacketCase env now subscribed kl fd Forwards none true
        ((ksnLNullClientDisconnect env (processKeyExchange env kl fd protocolId kex).1 fd 1).1,
          (processKeyExchange env kl fd protocolId kex).2.1 ++ (es ++
            (ksnLNullClientDisconnect env (processKeyExchange env kl fd protocolId kex).1 fd 1).2))
  | login {fs} (payload es) (hes : IsReset es)
      (hfs : fs = (ksnLNullClientAuthCheck env now subscribed kl fd payload).2.1 ++ es) :
      PacketCase env now subscribed kl fd Forwards
        (some (loginName env.toL0AuthEnv now payload)) false
        ((ksnLNullClientAuthCheck env now subscribed kl fd payload).1, fs)
  | gone (es) (hes : IsReset es) :
      PacketCase env now subscribed kl fd Forwards none true
        ((ksnLNullClientDisconnect env kl fd 1).1, es ++ (ksnLNullClientDisconnect env kl fd 1).2)
  | toMesh {kl' plain name} (hkl : Noted now kl fd kl') (h : Forwards plain name) :
      PacketCase env now subscribed kl fd Forwards none false (ksnLNullSendFromL0 env kl' plain name)

/-- The state in which a packet has been decrypted. -/
def Decrypted (kl : KsnLNullClass Ctx) (fd : ℤ) (kl' : KsnLNullClass Ctx) : Prop :=
  kl' = kl ∨ ∃ f, kl' = kl.updateCrypt fd f

theorem tcpProcessPacket_case (env : L0Env Ctx) (now : ℚ) (subscribed : Bool)
    (kl : KsnLNullClass Ctx) (fd : ℤ) (kld : KsnLNullData Ctx) (buf : List UInt8) :
    ∃ kl', Decrypted kl fd kl' ∧ PacketCase env now subscribed kl' fd
      (fun plain name => env.cli.checksumsMatch buf = true ∧
        decrypted env.cli kld.serverCrypt buf = some plain ∧
        isInitialize env.cli plain = false ∧ kld.name = some name)
      (tcpLoginOutcome env now kld.serverCrypt buf)
      (tcpProcessPacket env now subscribed kl fd kld buf).2.2
      ((tcpProcessPacket env now subscribed kl fd kld buf).1,
        (tcpProcessPacket env now subscribed kl fd kld buf).2.1) := by
  unfold tcpProcessPacket tcpLoginOutcome loginOutcome
  split_ifs with hsums
  · refine ⟨kl.updateCrypt fd (decryptedContext env.cli buf), .inr ⟨_, rfl⟩, ?_⟩
    dsimp only
    cases hplain : decrypted env.cli kld.serverCrypt buf with
    | none => exact .nothing [] .same (.inl rfl)
    | some plain =>
      dsimp only
      cases hinit : isInitialize env.cli plain with
      | true =>
        cases env.cli.kexGetFromPayload (initializeData env.cli plain) with
        | some protocolId =>
          simp only [if_true, reduceCtorEq, false_and, and_false, if_false]
          split
          · exact .kex protocolId _
          · exact .kexFailed protocolId _ [] (.inl rfl)
        | none =>
          cases isLoginData env.cli plain with
          | true =>
            simp only [if_true, and_self]
            exact .login _ [] (.inl rfl) (List.append_nil _).symm
          | false =>
            simp only [if_true, Bool.false_eq_true, and_false, if_false]
            exact .nothing [] .same (.inl rfl)
      | false =>
        simp only [Bool.false_eq_true, false_and, if_false]
        cases hname : kld.name with
        | some name => exact .toMesh .same ⟨hsums, rfl, hinit, rfl⟩
        | none => exact .nothing [] .same (.inl rfl)
  · exact ⟨kl, .inl rfl, .nothing [] .same (.inl rfl)⟩

theorem cmd_eq_zero_of_isInitialize {cli : TeoCli Ctx} {buf : List UInt8}
    (h : isInitialize cli buf = true) : (cli.packetHeader buf).cmd = 0 := by
  unfold isInitialize at h
  exact (of_decide_eq_true h).1

theorem processPacket_case (env : L0Env Ctx) (now : ℚ) (subscribed : Bool)
    (kl : KsnLNullClass Ctx) (fd : ℤ) (kld : KsnLNullData Ctx) (buf : List UInt8) :
    ∃ kl' stops, Decrypted kl fd kl' ∧ PacketCase env now subscribed kl' fd
      (fun plain name => decrypted env.cli kld.serverCrypt buf = some plain ∧
        (env.cli.packetHeader plain).cmd ≠ 0 ∧ kld.name = some name)
      (loginOutcome env now kld.serverCrypt buf) stops
      ((processPacket env now subscribed kl fd kld buf).1,
        (processPacket env now subscribed kl fd kld buf).2.1) := by
  unfold processPacket loginOutcome
  refine ⟨kl.updateCrypt fd (decryptedContext env.cli buf), ?_⟩
  suffices h : ∃ stops, PacketCase env now subscribed
      (kl.updateCrypt fd (decryptedContext env.cli buf)) fd _ _ stops _ from
    h.imp fun _ h => ⟨.inr ⟨_, rfl⟩, h⟩
  dsimp only
  cases hplain : decrypted env.cli kld.serverCrypt buf with
  | none => exact ⟨_, .nothing [] .same (.inl rfl)⟩
  | some plain =>
    dsimp only
    cases hinit : isInitialize env.cli plain with
    | true =>
      rw [if_pos (cmd_eq_zero_of_isInitialize hinit)]
      cases env.cli.kexGetFromPayload (initializeData env.cli plain) with
      | some protocolId =>
        simp only [if_true, reduceCtorEq, false_and, and_false, if_false]
        split
        · exact ⟨_, .kex protocolId _⟩
        · exact ⟨_, .kexFailed protocolId _ [.channelReset] (.inr rfl)⟩
      | none =>
        cases isLoginData env.cli plain with
        | true =>
          simp only [if_true, and_self]
          refine ⟨_, .login _ _ ?_ rfl⟩
          split
          · exact .inl rfl
          · exact .inr rfl
        | false =>
          simp only [if_true, Bool.false_eq_true, and_false, if_false]
          exact ⟨_, .gone [.channelReset] (.inr rfl)⟩
    | false =>
      simp only [Bool.false_eq_true, false_and, if_false]
      split_ifs with hcmd
      · exact ⟨_, .nothing [] .same (.inl rfl)⟩
      · cases hname : kld.name with
        | some name => exact ⟨_, .toMesh .timed ⟨rfl, hcmd, rfl⟩⟩
        | none => exact ⟨_, .nothing [.channelReset] .packet (.inr rfl)⟩

/-! ### What one packet does -/

/-- What the processing of a packet amounts to.  `login` is what the packet is as a login, and
`stops` says that the connection is gone for another reason than a rejected login. -/
inductive PacketOutcome (kl : KsnLNullClass Ctx) (fd : ℤ) (login : Option (Option CString)) :
    Bool → KsnLNullClass Ctx × List L0Effect → Prop
  | quiet {r} (h : Quiet kl r) (hlogin : login = none) : PacketOutcome kl fd login false r
  | gone {r} (h : Leaves kl fd r) (hlogin : login = none) : PacketOutcome kl fd login true r
  | rejected {r} (h : Leaves kl fd r) (hlogin : login = some none) :
      PacketOutcome kl fd login false r
  | accepted {r} (name : CString) (h : LogsIn kl fd name r) (hlogin : login = some (some name)) :
      PacketOutcome kl fd login false r

/-- The processing starts from another state with the same directory. -/
theorem PacketOutcome.of_directory_eq {kl kl' : KsnLNullClass Ctx} {fd : ℤ}
    {login : Option (Option CString)} {stops : Bool} {r : KsnLNullClass Ctx × List L0Effect}
    (hdir : kl'.directory = kl.directory) (h : PacketOutcome kl' fd login stops r) :
    PacketOutcome kl fd login stops r := by
  cases h with
  | quiet h hlogin => exact .quiet ⟨h.1.trans hdir, h.2⟩ hlogin
  | gone h hlogin => exact .gone (h.of_directory_eq hdir) hlogin
  | rejected h hlogin => exact .rejected (h.of_directory_eq hdir) hlogin
  | accepted name h hlogin =>
    exact .accepted name ⟨h.stays, hdir ▸ h.ended, hdir ▸ h.directory⟩ hlogin

/-- A login packet does what `ksnLNullClientAuthCheck` does. -/
theorem PacketOutcome.of_authCheck (env : L0Env Ctx) (now : ℚ) (subscribed : Bool)
    (kl : KsnLNullClass Ctx) {fd : ℤ} (payload : List UInt8)
    (hmember : kl.directory.member fd ≠ none) :
    PacketOutcome kl fd (some (loginName env.toL0AuthEnv now payload)) false
      ((ksnLNullClientAuthCheck env now subscribed kl fd payload).1,
        (ksnLNullClientAuthCheck env now subscribed kl fd payload).2.1) := by
  rcases ksnLNullClientAuthCheck_cases env now subscribed kl payload hmember with
    ⟨hname, h⟩ | ⟨name, hname, h⟩
  · exact .rejected h (by rw [hname])
  · exact .accepted name h (by rw [hname])

/-- A further call that ends no connection. -/
theorem PacketOutcome.append {kl : KsnLNullClass Ctx} {fd : ℤ} {login : Option (Option CString)}
    {stops : Bool} {r : KsnLNullClass Ctx × List L0Effect} {es : List L0Effect}
    (h : PacketOutcome kl fd login stops r) (hes : endedFds es = []) :
    PacketOutcome kl fd login stops (r.1, r.2 ++ es) := by
  have hended : endedFds (r.2 ++ es) = endedFds r.2 := by
    rw [endedFds_append, hes, List.append_nil]
  have hleaves : Leaves kl fd r → Leaves kl fd (r.1, r.2 ++ es) := fun h =>
    ⟨h.directory, hended ▸ h.ended, fun hm => List.mem_append_left _ (h.removed hm)⟩
  cases h with
  | quiet h hlogin => exact .quiet ⟨h.1, hended.trans h.2⟩ hlogin
  | gone h hlogin => exact .gone (hleaves h) hlogin
  | rejected h hlogin => exact .rejected (hleaves h) hlogin
  | accepted name h hlogin => exact .accepted name ⟨h.stays, hended ▸ h.ended, h.directory⟩ hlogin

theorem IsReset.endedFds {es : List L0Effect} (h : IsReset es) : endedFds es = [] := by
  rcases h with rfl | rfl <;> rfl

theorem Leaves.resets {kl : KsnLNullClass Ctx} {fd : ℤ} {r : KsnLNullClass Ctx × List L0Effect}
    {es : List L0Effect} (h : Leaves kl fd r) (hes : IsReset es) : Leaves kl fd (r.1, es ++ r.2) := by
  rcases hes with rfl | rfl
  · exact h
  · exact h.reset

theorem Noted.directory_eq {now : ℚ} {kl kl' : KsnLNullClass Ctx} {fd : ℤ}
    (h : Noted now kl fd kl') : kl'.directory = kl.directory := by
  cases h with
  | same => rfl
  | packet => rfl
  | timed => exact KsnLNullClass.update_directory _ fd fun _ => rfl

theorem Decrypted.directory_eq {kl kl' : KsnLNullClass Ctx} {fd : ℤ} (h : Decrypted kl fd kl') :
    kl'.directory = kl.directory := by
  rcases h with rfl | ⟨f, rfl⟩
  · rfl
  · exact kl.updateCrypt_directory fd f

theorem PacketCase.outcome {env : L0Env Ctx} {now : ℚ} {subscribed : Bool}
    {kl : KsnLNullClass Ctx} {fd : ℤ} {Forwards : List UInt8 → CString → Prop}
    {login : Option (Option CString)} {stops : Bool} {r : KsnLNullClass Ctx × List L0Effect}
    (h : PacketCase env now subscribed kl fd Forwards login stops r)
    (hmember : kl.directory.member fd ≠ none) : PacketOutcome kl fd login stops r := by
  cases h with
  | nothing es hkl hes => exact .quiet ⟨hkl.directory_eq, hes.endedFds⟩ rfl
  | kex protocolId kex => exact .quiet (processKeyExchange_quiet env kl fd protocolId kex) rfl
  | kexFailed protocolId kex es hes =>
    have hgone := (ksnLNullClientDisconnect_leaves env
      (processKeyExchange env kl fd protocolId kex).1 fd one_ne_zero).resets hes
    exact .gone ((processKeyExchange_quiet env kl fd protocolId kex).leaves hgone) rfl
  | login payload es hes hfs =>
    rw [hfs]
    exact (PacketOutcome.of_authCheck env now subscribed kl payload hmember).append hes.endedFds
  | gone es hes =>
    exact .gone ((ksnLNullClientDisconnect_leaves env kl fd one_ne_zero).resets hes) rfl
  | toMesh hkl _ =>
    obtain ⟨hdir, hended⟩ := ksnLNullSendFromL0_quiet env _ _ _
    exact .quiet ⟨hdir.trans hkl.directory_eq, hended⟩ rfl

/-- **What a packet of a TCP client does**; the callback returns only when a key exchange has
failed. -/
theorem tcpProcessPacket_outcome (env : L0Env Ctx) (now : ℚ) (subscribed : Bool)
    (kl : KsnLNullClass Ctx) {fd : ℤ} (kld : KsnLNullData Ctx) (buf : List UInt8)
    (hmember : kl.directory.member fd ≠ none) :
    PacketOutcome kl fd (tcpLoginOutcome env now kld.serverCrypt buf)
      (tcpProcessPacket env now subscribed kl fd kld buf).2.2
      ((tcpProcessPacket env now subscribed kl fd kld buf).1,
        (tcpProcessPacket env now subscribed kl fd kld buf).2.1) := by
  obtain ⟨kl', hkl', hcase⟩ := tcpProcessPacket_case env now subscribed kl fd kld buf
  have hdir := hkl'.directory_eq
  exact (hcase.outcome (hdir ▸ hmember)).of_directory_eq hdir

/-- **What a packet of a TR-UDP client does.** -/
theorem processPacket_outcome (env : L0Env Ctx) (now : ℚ) (subscribed : Bool)
    (kl : KsnLNullClass Ctx) {fd : ℤ} (kld : KsnLNullData Ctx) (buf : List UInt8)
    (hmember : kl.directory.member fd ≠ none) :
    ∃ stops, PacketOutcome kl fd (loginOutcome env now kld.serverCrypt buf) stops
      ((processPacket env now subscribed kl fd kld buf).1,
        (processPacket env now subscribed kl fd kld buf).2.1) := by
  obtain ⟨kl', stops, hkl', hcase⟩ := processPacket_case env now subscribed kl fd kld buf
  have hdir := hkl'.directory_eq
  exact ⟨stops, (hcase.outcome (hdir ▸ hmember)).of_directory_eq hdir⟩

end Teonet
