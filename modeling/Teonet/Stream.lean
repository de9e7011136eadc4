import Teonet.CQueRuns
import Teonet.Lib.CString

/-! # The stream module

Streams between two peers, each under the key `peer \0 name \0`.  A stream that this host asks for
waits for the answer of the peer with an entry in the callback queue, `kq_connect_cb`, and the two
hold pointers to each other: the entry to the record of the stream, and the record to the entry.

Records lie in a heap of their own, and the map holds pointers to them.  `pblMapAdd` of a key that
is present frees the old record.  Reading through a pointer to a record, or to an entry of the
queue, that was freed is a fault, and so is reading through `data->cq` where it is `NULL`.

The queue is that of the whole program, so entries of other modules lie in it as well. -/

namespace Teonet

/-- The third argument of `ksnStreamCreate` and `ksnStreamClose`. -/
inductive StreamCmd
  | create
  | createGot
  | created
  | close
  | closeGot
  | closeNotremove
deriving DecidableEq, Repr

def cmdStCreate : ℕ := 1

def cmdStCreated : ℕ := 3

def cmdStData : ℕ := 4

def cmdStClose : ℕ := 5

/-- The record of a stream.  `key` is the copy of the key that the record owns, until it is
freed; `cq` is the pointer to the entry of the callback queue. -/
structure KsnStreamMapData where
  created : Bool
  pipeIn : ℤ × ℤ
  pipeOut : ℤ × ℤ
  key : Option (List UInt8)
  cq : Option ℕ
deriving DecidableEq

/-- The callbacks in the queue: that of this module, and those of the rest of the program. -/
inductive KqCallback
  | kqConnectCb
  | other
deriving DecidableEq, Repr

/-- The module, and the callback queue `kev->kq`, whose entries have pointers as data.  `watchers`
are the records whose `w_in` and `w_out` the event loop watches. -/
structure KsnStreamClass where
  map : FinMap (List UInt8) ℕ
  heap : Heap KsnStreamMapData
  watchers : List ℕ
  kq : KsnCQueClass KqCallback ℕ

/-- What no C program may do. -/
inductive StreamFault
  /-- the callback queue is misused, or one of its entries is read after it was freed -/
  | queue (f : CQueFault)
  /-- `data->cq` is read where it is `NULL` -/
  | nullEntry
  /-- a record is read after it was freed -/
  | useAfterFree
  /-- the key of a record is freed twice -/
  | doubleFree
deriving DecidableEq, Repr

/-- What the module does to the rest of the world. -/
inductive StreamEffect
  /-- `ksnStreamSendTo` without data -/
  | sendTo (toPeer streamName : CString) (cmd : ℕ)
  /-- `EV_K_STREAM_CONNECTED` -/
  | connected (key : List UInt8)
  /-- `EV_K_STREAM_DISCONNECTED` -/
  | disconnected (key : List UInt8)
  /-- `EV_K_STREAM_CONNECT_TIMEOUT` -/
  | connectTimeout (smd : ℕ)
  | write (fd : ℤ) (data : List UInt8)
deriving DecidableEq

/-- A received stream packet: `struct stream_packet`, with the bytes from `data` on. -/
structure StreamPacket where
  cmd : ℕ
  dataLen : ℕ
  streamNameLen : ℕ
  data : List UInt8

/-! ### Keys -/

/-- The key of a stream. -/
def streamKey (toPeer streamName : CString) : List UInt8 := toPeer.toBuf ++ streamName.toBuf

/-- The peer in a key. -/
def keyPeer (key : List UInt8) : CString := CString.ofBuf key

/-- The stream name in a key: `key + strlen(key) + 1`. -/
def keyName (key : List UInt8) : CString := CString.ofBuf (key.drop ((keyPeer key).length + 1))

@[simp] theorem keyPeer_streamKey (toPeer streamName : CString) :
    keyPeer (streamKey toPeer streamName) = toPeer :=
  CString.ofBuf_toBuf_append _ _

@[simp] theorem keyName_streamKey (toPeer streamName : CString) :
    keyName (streamKey toPeer streamName) = streamName := by
  rw [keyName, keyPeer_streamKey, streamKey, ← CString.toBuf_length, List.drop_left]
  exact CString.ofBuf_toBuf streamName

/-! ### The code -/

/-- Read through a pointer to a record. -/
def KsnStreamClass.deref (ks : KsnStreamClass) (a : ℕ) : Except StreamFault KsnStreamMapData :=
  match ks.heap.get a with
  | some d => .ok d
  | none => .error .useAfterFree

/-- `if(kev->event_cb != NULL) kev->event_cb(..)`. -/
def KsnStreamClass.event (ks : KsnStreamClass) (e : StreamEffect) : List StreamEffect :=
  if ks.kq.eventCb then [e] else []

/-- `ksnStreamClose`. -/
def ksnStreamClose (ks : KsnStreamClass) (toPeer streamName : CString) (sendF : StreamCmd) :
    Except StreamFault (List StreamEffect × KsnStreamClass) :=
  let key := streamKey toPeer streamName
  match ks.map.get key with
  | none => .ok ([], ks)
  | some a => do
    let smd ← ks.deref a
    let watchers := if smd.created then ks.watchers.filter (· ≠ a) else ks.watchers
    let effects :=
      if smd.created then
        (if sendF ≠ .closeGot then [.sendTo toPeer streamName cmdStClose] else []) ++
          ks.event (.disconnected key)
      else []
    -- `free(smd->key)`
    if smd.key = none then .error .doubleFree
    else if sendF ≠ .closeNotremove then
      return (effects,
        { ks with map := ks.map.remove key, heap := ks.heap.free a, watchers := watchers })
    else
      return (effects,
        { ks with
          heap := ks.heap.update a fun d => { d with key := none }
          watchers := watchers })

/-- `kq_connect_cb`. -/
def kqConnectCb (ks : KsnStreamClass) (type smd : ℕ) :
    Except StreamFault (List StreamEffect × KsnStreamClass) := do
  let d ← ks.deref smd
  if type = 0 then
    match d.key with
    | none => .error .useAfterFree
    | some key => do
      let (effects, ks') ← ksnStreamClose ks (keyPeer key) (keyName key) .closeGot
      return (ks.event (.connectTimeout smd) ++ effects, ks')
  else return ([], ks)

/-- The callback of an entry of the queue. -/
def KsnStreamClass.runCall (ks : KsnStreamClass) :
    CQueCall KqCallback ℕ → Except StreamFault (List StreamEffect × KsnStreamClass)
  | .callback _ .kqConnectCb _ type data => kqConnectCb ks type data
  | _ => .ok ([], ks)

/-- The calls that the queue makes.  They leave the queue alone, so it does not matter that the
queue has already changed when they run. -/
def KsnStreamClass.runCalls (ks : KsnStreamClass) :
    List (CQueCall KqCallback ℕ) → Except StreamFault (List StreamEffect × KsnStreamClass)
  | [] => .ok ([], ks)
  | c :: cs => do
    let (effects, ks') ← ks.runCall c
    let (effects', ks'') ← ks'.runCalls cs
    return (effects ++ effects', ks'')

/-- `pblMapAdd(ks->map, ..)`: `0` where the key was present, and then the old record is freed. -/
def KsnStreamClass.pblMapAdd (ks : KsnStreamClass) (key : List UInt8) (d : KsnStreamMapData) :
    ℤ × KsnStreamClass :=
  match ks.map.get key with
  | some old =>
    (0, { ks with map := ks.map.add key ks.heap.next, heap := (ks.heap.alloc d).free old })
  | none => (1, { ks with map := ks.map.add key ks.heap.next, heap := ks.heap.alloc d })

/-- `connect_watchers`, without its event. -/
def KsnStreamClass.connectWatchers (ks : KsnStreamClass) (a : ℕ) : KsnStreamClass :=
  { ks with
    watchers := a :: ks.watchers
    heap := ks.heap.update a fun d => { d with created := true } }

/-- `KSN_STREAM_CONNECT_TIMEOUT`. -/
def ksnStreamConnectTimeout : ℚ := 5

/-- `ksnStreamCreate`; `pipeIn` and `pipeOut` are what the two calls of `pipe` give, if they
succeed.  The new record is at `ks.heap.next`. -/
def ksnStreamCreate (ks : KsnStreamClass) (toPeer streamName : CString) (sendF : StreamCmd)
    (pipeIn pipeOut : Option (ℤ × ℤ)) :
    Except StreamFault (ℤ × List StreamEffect × KsnStreamClass) :=
  let key := streamKey toPeer streamName
  if sendF = .create ∨ sendF = .createGot then
    match pipeIn, pipeOut with
    | some pipeIn, some pipeOut =>
      let a := ks.heap.next
      let (rc, ks) := ks.pblMapAdd key
        { created := false, pipeIn := pipeIn, pipeOut := pipeOut, key := some key, cq := none }
      if 0 ≤ rc then
        if sendF = .create then
          let c := ks.kq.heap.next
          .ok (0, [.sendTo toPeer streamName cmdStCreate],
            { ks with
              kq := ksnCQueAdd ks.kq (some .kqConnectCb) ksnStreamConnectTimeout a 0
              heap := ks.heap.update a fun d => { d with cq := some c } })
        else
          .ok (0, ks.event (.connected key) ++ [.sendTo toPeer streamName cmdStCreated],
            ks.connectWatchers a)
      else if rc = 0 then .ok (-2, [], ks)
      else .ok (0, [], ks)
    | _, _ => .ok (-1, [], ks)
  else if sendF = .created then
    match ks.map.get key with
    | none => .ok (-3, [], ks)
    | some a => do
      let ks := ks.connectWatchers a
      let d ← ks.deref a
      match d.cq with
      | none => .error .nullEntry
      | some c => do
        let cq ← (ks.kq.deref c).mapError .queue
        let (_, calls, kq) ← (ksnCQueExec ks.kq cq.id).mapError .queue
        let (effects, ks') ← ks.runCalls calls
        return (0, ks.event (.connected key) ++ effects, { ks' with kq := kq })
  else .ok (0, [], ks)

/-- `ksnStreamClosePeer`: it closes the first stream of the peer that it meets and calls itself
again.  `fuel` bounds the number of streams. -/
def closePeerLoop (ks : KsnStreamClass) (peerName : CString) :
    ℕ → Except StreamFault (List StreamEffect × KsnStreamClass)
  | 0 => .ok ([], ks)
  | fuel + 1 =>
    match ks.map.toPairs.find? fun p => keyPeer p.1 = peerName with
    | none => .ok ([], ks)
    | some p => do
      let (effects, ks') ← ksnStreamClose ks (keyPeer p.1) (keyName p.1) .closeGot
      let (effects', ks'') ← closePeerLoop ks' peerName fuel
      return (effects ++ effects', ks'')

def ksnStreamClosePeer (ks : KsnStreamClass) (peerName : CString) :
    Except StreamFault (List StreamEffect × KsnStreamClass) :=
  closePeerLoop ks peerName ks.map.toPairs.length

/-- `cmd_stream_cb`: the return value, and what happens. -/
def cmdStreamCb (ks : KsnStreamClass) (peer : CString) (sp : StreamPacket)
    (pipeIn pipeOut : Option (ℤ × ℤ)) :
    Except StreamFault (ℤ × List StreamEffect × KsnStreamClass) :=
  let streamName := CString.ofBuf sp.data
  if sp.cmd = cmdStCreate then do
    let (_, effects, ks) ← ksnStreamCreate ks peer streamName .createGot pipeIn pipeOut
    return (1, effects, ks)
  else if sp.cmd = cmdStCreated then do
    let (_, effects, ks) ← ksnStreamCreate ks peer streamName .created pipeIn pipeOut
    return (1, effects, ks)
  else if sp.cmd = cmdStClose then do
    let (effects, ks) ← ksnStreamClose ks peer streamName .closeGot
    return (1, effects, ks)
  else if sp.cmd = cmdStData then
    match ks.map.get (streamKey peer streamName) with
    | none => .ok (1, [], ks)
    | some a => do
      let sd ← ks.deref a
      return (1, [.write sd.pipeIn.2 ((sp.data.drop sp.streamNameLen).take sp.dataLen)], ks)
  else .ok (0, [], ks)

/-- The event loop finds the timer of an entry of the queue expired. -/
def KsnStreamClass.queueTimer (ks : KsnStreamClass) (c : ℕ) :
    Except StreamFault (List StreamEffect × KsnStreamClass) := do
  let (calls, kq) ← (cqTimerCb ks.kq c).mapError .queue
  let (effects, ks') ← ks.runCalls calls
  return (effects, { ks' with kq := kq })

end Teonet
