import Teonet.Core
import Teonet.L0Server
import Teonet.Vpn

/-! # Sending to a name (`net_core.c`)

`ksnCoreSendCmdto` sends a command to the peer of a name, else to one of the peers whose type contains
the name, else to the L0 client of the name, and returns the record of the peer or null.  Its callers
take null for a failure.

`sendReported_iff` says when the result tells whether the data has been sent: only the peer of the
name is returned, and that also if the data is too large. -/

namespace Teonet

variable {Ctx : Type}

/-! ### The function -/

/-- What the function uses of the event manager. -/
structure SendHost (Ctx : Type) where
  kc : KsnCoreClass
  ks : KsnSplitClass
  arp : KsnetArpClass
  l0AllowF : Bool
  kl : KsnLNullClass Ctx

/-- What it takes from outside: the world of the L0 server, the result of `rand`, and the contents of
fresh memory. -/
structure SendEnv (Ctx : Type) extends L0Env Ctx where
  rand : ℕ
  fresh : List UInt8

/-- The calls that send. -/
inductive SendCall
  /-- `ksn_sendto` with the datagrams of `ksnCoreSendto` -/
  | sendto (addr : CString) (port : ℕ) (datagrams : List (UInt8 × List UInt8))
  /-- what `ksnLNullPacketSend` does -/
  | toClient (fd : ℤ) (effects : List L0Effect)

/-- The host afterwards, what has been sent, and the result. -/
structure SendResult (Ctx : Type) where
  host : SendHost Ctx
  sent : List SendCall
  arp : Option ArpData

/-- `ksnCoreSendto`, the result of which is not used. -/
def SendHost.sendto (host : SendHost Ctx) (addr : CString) (port : ℕ) (cmd : UInt8)
    (data : List UInt8) : SendHost Ctx × List SendCall :=
  match ksnCoreSendto host.kc host.ks cmd data with
  | some (ks, datagrams) => ({ host with ks := ks }, [.sendto addr port datagrams])
  | none => (host, [])

/-- The packet for an L0 client: `mem` starts with a `ksnLNullSPacket`.  As many bytes are sent as the
lengths in it say. -/
def l0ClientPacket (env : SendEnv Ctx) (mem : List UInt8) : List UInt8 :=
  let clientNameLength := (mem.getD 1 0).toNat
  let dataLength := Bytes.getLe16 (mem.drop 2)
  let payload := mem.drop 4
  let packet := env.cli.packetCreate (mem.getD 0 0) (CString.ofBuf payload)
    ((payload.drop clientNameLength).take dataLength)
  (packet ++ env.fresh).take (l0HeaderSize + clientNameLength + dataLength)

/-- `ksnCoreSendCmdto`; `after` lies behind the data. -/
def ksnCoreSendCmdto (env : SendEnv Ctx) (host : SendHost Ctx) (toName : CString) (cmd : UInt8)
    (data after : List UInt8) : SendResult Ctx :=
  match host.arp.get toName with
  | some a =>
    let sent := host.sendto a.addr a.port cmd data
    ⟨sent.1, sent.2, some a⟩
  | none =>
    match (peersOfType host.arp toName)[env.rand % (peersOfType host.arp toName).length]? with
    | some p =>
      let sent := host.sendto p.2.addr p.2.port cmd data
      ⟨sent.1, sent.2, none⟩
    | none =>
      -- `ksnMultiSendCmdTo` sends nothing and returns null
      let fd := ksnLNullClientIsConnected host.kl toName
      if cmd = cmdL0 ∧ host.l0AllowF = true ∧ fd ≠ 0 then
        let sent := ksnLNullPacketSend env.toL0Env host.kl fd (l0ClientPacket env (data ++ after))
        ⟨{ host with kl := sent.1 }, [.toClient fd sent.2], none⟩
      else ⟨host, [], none⟩

/-! ### What the result tells -/

/-- The result is null exactly if nothing has been sent, and else the data has been sent to the
address in the record. -/
def SendReported (host : SendHost Ctx) (cmd : UInt8) (data : List UInt8) (r : SendResult Ctx) :
    Prop :=
  (r.arp = none ↔ r.sent = []) ∧ ∀ a, r.arp = some a → ∃ ks datagrams,
    ksnCoreSendto host.kc host.ks cmd data = some (ks, datagrams) ∧
      .sendto a.addr a.port datagrams ∈ r.sent

/-- The data is not too large for `ksnCoreSendto`. -/
def SendFits (data : List UInt8) : Prop := data.length ≤ maxPacketLen - maxDataLen

/-- There is a peer of the name and the data is not too large for it; or there is none, and it is too
large for the peers of the type, or there are none and the name is no L0 client's that it is for. -/
def SendCondition (host : SendHost Ctx) (toName : CString) (cmd : UInt8) (data : List UInt8) : Prop :=
  match host.arp.get toName with
  | some _ => SendFits data
  | none =>
    if peersOfType host.arp toName = [] then
      ¬ (cmd = cmdL0 ∧ host.l0AllowF = true ∧ ksnLNullClientIsConnected host.kl toName ≠ 0)
    else ¬ SendFits data

/-- `ksnCoreSendto` sends unless the data is too large. -/
theorem ksnCoreSendto_eq_none_iff (kc : KsnCoreClass) (ks : KsnSplitClass) (cmd : UInt8)
    (data : List UInt8) : ksnCoreSendto kc ks cmd data = none ↔ ¬ SendFits data := by
  unfold ksnCoreSendto SendFits
  split
  · rename_i hfit
    refine iff_of_false ?_ (not_not_intro hfit)
    dsimp only
    split_ifs <;> exact not_false
  · rename_i hlarge
    exact iff_of_true rfl hlarge

theorem SendHost.sendto_sent_eq_nil_iff (host : SendHost Ctx) (addr : CString) (port : ℕ)
    (cmd : UInt8) (data : List UInt8) :
    (host.sendto addr port cmd data).2 = [] ↔ ¬ SendFits data := by
  rw [← ksnCoreSendto_eq_none_iff host.kc host.ks cmd data, SendHost.sendto]
  cases ksnCoreSendto host.kc host.ks cmd data with
  | none => exact iff_of_true rfl rfl
  | some sent => exact iff_of_false (List.cons_ne_nil _ _) (Option.some_ne_none _)

/-- A null result tells that nothing has been sent. -/
theorem sendReported_null_iff (host host' : SendHost Ctx) (cmd : UInt8) (data : List UInt8)
    (sent : List SendCall) : SendReported host cmd data ⟨host', sent, none⟩ ↔ sent = [] := by
  constructor
  · exact fun h => h.1.mp rfl
  · exact fun h => ⟨iff_of_true rfl h, fun a ha => by cases ha⟩

/-- There is a peer of the type unless the list of them is empty. -/
theorem getElem?_rand {α : Type} (l : List α) (rand : ℕ) :
    l[rand % l.length]? = none ↔ l = [] := by
  rw [List.getElem?_eq_none_iff]
  constructor
  · intro h
    by_contra hne
    exact absurd (Nat.mod_lt rand (List.length_pos_iff.mpr hne)) (Nat.not_lt.mpr h)
  · rintro rfl
    exact Nat.zero_le _

/-- **The result** tells whether and where the data has been sent exactly under `SendCondition`. -/
theorem sendReported_iff (env : SendEnv Ctx) (host : SendHost Ctx) (toName : CString) (cmd : UInt8)
    (data after : List UInt8) :
    SendReported host cmd data (ksnCoreSendCmdto env host toName cmd data after) ↔
      SendCondition host toName cmd data := by
  unfold ksnCoreSendCmdto SendCondition
  cases host.arp.get toName with
  | some a =>
    dsimp only
    constructor
    · rintro ⟨hnull, -⟩
      by_contra hlarge
      have hsent := (host.sendto_sent_eq_nil_iff a.addr a.port cmd data).mpr hlarge
      cases hnull.mpr hsent
    · intro hfit
      refine ⟨iff_of_false (Option.some_ne_none a) fun h => ?_, fun b hb => ?_⟩
      · exact (host.sendto_sent_eq_nil_iff a.addr a.port cmd data).mp h hfit
      · obtain rfl := Option.some.inj hb
        unfold SendHost.sendto
        cases hsendto : ksnCoreSendto host.kc host.ks cmd data with
        | none => exact absurd hfit ((ksnCoreSendto_eq_none_iff _ _ _ _).mp hsendto)
        | some sent => exact ⟨sent.1, sent.2, rfl, List.mem_singleton_self _⟩
  | none =>
    dsimp only
    cases htype : (peersOfType host.arp toName)[env.rand % (peersOfType host.arp toName).length]? with
    | some p =>
      have hne : peersOfType host.arp toName ≠ [] := fun h => by
        rw [(getElem?_rand _ env.rand).mpr h] at htype
        cases htype
      rw [if_neg hne, sendReported_null_iff]
      exact host.sendto_sent_eq_nil_iff _ _ cmd data
    | none =>
      rw [if_pos ((getElem?_rand _ env.rand).mp htype)]
      dsimp only
      split_ifs with hclient
      · rw [sendReported_null_iff]
        exact iff_of_false (List.cons_ne_nil _ _) (not_not_intro hclient)
      · rw [sendReported_null_iff]
        exact iff_of_true rfl hclient

/-- A host that knows the peer `b` of the type `t`. -/
def typedHost : SendHost Unit where
  kc := { name := CString.empty, cryptF := false, encrypt := id, decrypt := some }
  ks := {}
  arp := FinMap.empty.add (CString.ofBuf [98])
    { addr := CString.empty, port := 9000, mode := 0, type := some (CString.ofBuf [116]) }
  l0AllowF := false
  kl := { fdTrudp := 0 }

/-- The world of the host. -/
def typedEnv : SendEnv Unit where
  jsmnParse _ := none
  staleTok := ⟨.other, 0, 0⟩
  md5 _ := []
  authSecret := CString.empty
  cli := plainCli
  hostName := CString.empty
  maxFdNumber := 1024
  staleByte := 0
  rand := 0
  fresh := []

/-- The data for the type `t` is sent to its only peer, and the result is null. -/
theorem not_sendReported :
    ¬ ∀ (env : SendEnv Unit) (host : SendHost Unit) (toName : CString) (cmd : UInt8)
      (data after : List UInt8),
      SendReported host cmd data (ksnCoreSendCmdto env host toName cmd data after) := by
  intro h
  have hreported := (h typedEnv typedHost (CString.ofBuf [116]) 129 [1] []).1
  have hnull : (ksnCoreSendCmdto typedEnv typedHost (CString.ofBuf [116]) 129 [1] []).arp = none := by
    decide +kernel
  have hsent :
      (ksnCoreSendCmdto typedEnv typedHost (CString.ofBuf [116]) 129 [1] []).sent.length = 1 := by
    decide +kernel
  rw [hreported.mp hnull] at hsent
  cases hsent

end Teonet
