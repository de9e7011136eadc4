import Teonet.ConnectR
import Teonet.Peers
import Teonet.PeersJson

/-! # The answer to `CMD_PEERS` (`net_com.c`, `net_arp.c`)

`cmd_peers_cb` answers with the ARP table, as a JSON text or as the memory of an array.  The array is
allocated by `teoArpGetExtendedArpTable` for elements of one size, and
`teoArpGetExtendedArpTableLength` counts the string in every element once more.  A byte of memory is
`none` here while nothing has been written to it, and so is a byte that lies behind the array.

`peersAnswer_iff` says when the binary answer is the array and no more. -/

namespace Teonet

open Bytes

/-! ### The array -/

/-- `ksnet_arp_data_ext_ar`: the sizes of the fields of an element and of the gaps behind them, the
gap behind `length`, and the bytes of the fields that are copied from a record. -/
structure ArpExtLayout where
  headerPad : ℕ
  nameSize : ℕ
  namePad : ℕ
  dataSize : ℕ
  dataPad : ℕ
  typeSize : ℕ
  typePad : ℕ
  cquePad : ℕ
  data : ArpData → Vector UInt8 dataSize
  cqueIdPeerType : ArpData → Vector UInt8 4

namespace ArpExtLayout

variable (l : ArpExtLayout)

/-- `sizeof(ksnet_arp_data_ext_ar)`. -/
def headerSize : ℕ := 4 + l.headerPad

/-- The place of the type in an element. -/
def typeOffset : ℕ := l.nameSize + l.namePad + (l.dataSize + l.dataPad)

/-- The size of an element. -/
def elemSize : ℕ := l.typeOffset + (l.typeSize + l.typePad + (4 + l.cquePad))

/-- A field and the gap behind it. -/
def field (bytes : List UInt8) (pad : ℕ) : List (Option UInt8) :=
  bytes.map some ++ List.replicate pad none

/-- An element. -/
def element (p : CString × ArpData) : List (Option UInt8) :=
  field (strncpyBytes l.nameSize p.1) l.namePad ++
    (field (l.data p.2).toList l.dataPad ++
      (field (strncpyBytes l.typeSize (p.2.type.getD CString.empty)) l.typePad ++
        field (l.cqueIdPeerType p.2).toList l.cquePad))

end ArpExtLayout

/-- `teoArpGetExtendedArpTable`. -/
def teoArpGetExtendedArpTable (l : ArpExtLayout) (arp : KsnetArpClass) : List (Option UInt8) :=
  ArpExtLayout.field (le 4 arp.toPairs.length) l.headerPad ++ arp.toPairs.flatMap l.element

/-- `teoArpGetExtendedArpTableLength` of an array of `n` elements; `mem` is what lies in memory from
its start on. -/
def teoArpGetExtendedArpTableLength (l : ArpExtLayout) (n : ℕ) (mem : List UInt8) : ℕ :=
  l.headerSize + ((List.range n).map fun i =>
    l.elemSize +
      ((CString.ofBuf (mem.drop (l.headerSize + i * l.elemSize + l.typeOffset))).length + 1)).sum

/-! ### The command -/

/-- What the command takes from outside: the layout of the array, the bytes that fresh memory and the
memory behind the array hold, and for the JSON text the allocator, `%.3f`, and what an element shows
of a record. -/
structure PeersAnswerEnv (D : Type) where
  layout : ArpExtLayout
  fresh : ℕ → UInt8
  behind : List UInt8
  mem : Malloc
  fixed3 : D → CString
  shown : CString × ArpData → ArpShowDataExt D

/-- `rd->data_len && !strncmp(rd->data, JSON, rd->data_len)`. -/
def isJsonRequest (data : List UInt8) : Bool :=
  data ≠ [] ∧ (CString.ofBuf data).bytes = (ascii "JSON").take data.length

variable {D : Type}

/-- The bytes that are read at the start of an array. -/
def PeersAnswerEnv.memory (env : PeersAnswerEnv D) (cells : List (Option UInt8)) : List UInt8 :=
  (cells.mapIdx fun i c => c.getD (env.fresh i)) ++ env.behind

/-- `cmd_peers_cb`: the data that is sent to the peer or to the L0 client. -/
def cmdPeersCb (env : PeersAnswerEnv D) (arp : KsnetArpClass) (data : List UInt8) :
    Option (List (Option UInt8)) :=
  let peersData := teoArpGetExtendedArpTable env.layout arp
  let peersDataLength :=
    teoArpGetExtendedArpTableLength env.layout arp.toPairs.length (env.memory peersData)
  if isJsonRequest data then
    (teoArpGetExtendedArpTableJson env.fixed3 env.mem env.layout.elemSize
      (arp.toPairs.map env.shown)).map fun text => text.toBuf.map some
  else
    some (peersData.take peersDataLength ++
      List.replicate (peersDataLength - peersData.length) none)

/-! ### What is sent -/

/-- As many bytes are sent as the array has, and all of them have been written. -/
def AnswerExact (l : ArpExtLayout) (arp : KsnetArpClass) (answer : Option (List (Option UInt8))) :
    Prop :=
  ∃ sent, answer = some sent ∧ sent.length = (teoArpGetExtendedArpTable l arp).length ∧ none ∉ sent

theorem ArpExtLayout.length_field (bytes : List UInt8) (pad : ℕ) :
    (field bytes pad).length = bytes.length + pad := by
  rw [field, List.length_append, List.length_map, List.length_replicate]

theorem ArpExtLayout.length_element (l : ArpExtLayout) (p : CString × ArpData) :
    (l.element p).length = l.elemSize := by
  have hstrncpy : ∀ n s, (strncpyBytes n s).length = n := fun n s => by
    rw [strncpyBytes, List.length_append, List.length_take, List.length_replicate, CString.length]
    omega
  unfold element elemSize typeOffset
  simp only [List.length_append, length_field, hstrncpy, Vector.length_toList]
  omega

theorem length_teoArpGetExtendedArpTable (l : ArpExtLayout) (arp : KsnetArpClass) :
    (teoArpGetExtendedArpTable l arp).length =
      l.headerSize + arp.toPairs.length * l.elemSize := by
  rw [teoArpGetExtendedArpTable, List.length_append, ArpExtLayout.length_field, le_length]
  simp [ArpExtLayout.headerSize, ArpExtLayout.length_element, List.length_flatMap]

/-- The length that is sent has one byte more for every element at least. -/
theorem le_teoArpGetExtendedArpTableLength (l : ArpExtLayout) (n : ℕ) (mem : List UInt8) :
    l.headerSize + n * l.elemSize + n ≤ teoArpGetExtendedArpTableLength l n mem := by
  unfold teoArpGetExtendedArpTableLength
  rw [Nat.add_assoc]
  refine Nat.add_le_add_left ?_ _
  induction n with
  | zero => simp
  | succ n ih =>
    rw [List.range_succ, List.map_append, List.sum_append, List.map_singleton, List.sum_singleton,
      Nat.succ_mul]
    omega

theorem ArpExtLayout.none_not_mem_field (bytes : List UInt8) (pad : ℕ) :
    none ∉ field bytes pad ↔ pad = 0 := by
  simp [field]

/-- The answer for an empty table is the length and the gap behind it. -/
theorem cmdPeersCb_of_empty (env : PeersAnswerEnv D) {arp : KsnetArpClass} (hempty : arp.toPairs = [])
    {data : List UInt8} (h : isJsonRequest data = false) :
    cmdPeersCb env arp data = some (ArpExtLayout.field (le 4 0) env.layout.headerPad) := by
  have htable : teoArpGetExtendedArpTable env.layout arp =
      ArpExtLayout.field (le 4 0) env.layout.headerPad := by
    rw [teoArpGetExtendedArpTable, hempty]
    exact List.append_nil _
  have hlength : (ArpExtLayout.field (le 4 0) env.layout.headerPad).length =
      env.layout.headerSize := by
    rw [ArpExtLayout.length_field, le_length]
    rfl
  unfold cmdPeersCb
  dsimp only
  rw [if_neg (by rw [h]; exact Bool.false_ne_true), htable, hempty]
  simp [teoArpGetExtendedArpTableLength, hlength]

/-- **The binary answer** is the array exactly if the table is empty and there is no gap behind the
length of the array. -/
theorem peersAnswer_iff (env : PeersAnswerEnv D) (arp : KsnetArpClass) {data : List UInt8}
    (h : isJsonRequest data = false) :
    AnswerExact env.layout arp (cmdPeersCb env arp data) ↔
      arp.toPairs = [] ∧ env.layout.headerPad = 0 := by
  have hlength := length_teoArpGetExtendedArpTable env.layout arp
  have hsent := le_teoArpGetExtendedArpTableLength env.layout arp.toPairs.length
    (env.memory (teoArpGetExtendedArpTable env.layout arp))
  constructor
  · rintro ⟨sent, hanswer, hexact, hwritten⟩
    have hempty : arp.toPairs = [] := by
      unfold cmdPeersCb at hanswer
      dsimp only at hanswer
      rw [if_neg (by rw [h]; exact Bool.false_ne_true)] at hanswer
      obtain rfl := Option.some.inj hanswer
      rw [List.length_append, List.length_take, List.length_replicate] at hexact
      exact List.length_eq_zero_iff.mp (by omega)
    rw [cmdPeersCb_of_empty env hempty h] at hanswer
    obtain rfl := Option.some.inj hanswer
    exact ⟨hempty, (ArpExtLayout.none_not_mem_field _ _).mp hwritten⟩
  · rintro ⟨hempty, hpad⟩
    refine ⟨_, cmdPeersCb_of_empty env hempty h, ?_, ?_⟩
    · rw [hlength, ArpExtLayout.length_field, le_length, hempty]
      simp [ArpExtLayout.headerSize]
    · exact (ArpExtLayout.none_not_mem_field _ _).mpr hpad

/-- An array without gaps, and memory that is cleared. -/
def plainAnswerEnv : PeersAnswerEnv Unit where
  layout := {
    headerPad := 0
    nameSize := 4
    namePad := 0
    dataSize := 4
    dataPad := 0
    typeSize := 4
    typePad := 0
    cquePad := 0
    data := fun a => Vector.ofFn fun _ => UInt8.ofNat a.port
    cqueIdPeerType := fun _ => Vector.replicate 4 0 }
  fresh _ := 0
  behind := []
  mem := Malloc.clear
  fixed3 _ := lit "0.000"
  shown p := {
    name := p.1
    mode := p.2.mode
    addr := p.2.addr
    port := p.2.port
    lastTriptime := ()
    connectedTime := ()
    type := p.2.type.getD CString.empty }

/-- The answer for an empty table. -/
theorem peersAnswer_iff_empty :
    AnswerExact plainAnswerEnv.layout FinMap.empty (cmdPeersCb plainAnswerEnv FinMap.empty []) :=
  (peersAnswer_iff plainAnswerEnv FinMap.empty (by decide)).mpr ⟨by decide, rfl⟩

/-- The table has a record of this host. -/
def ownTable : KsnetArpClass :=
  FinMap.empty.add (lit "a") { addr := lit "::1", port := 9000, mode := -1, type := none }

/-- With the record of this host one byte behind the array is sent. -/
theorem not_peersAnswer :
    ¬ ∀ (env : PeersAnswerEnv Unit) (arp : KsnetArpClass) (data : List UInt8),
      isJsonRequest data = false → AnswerExact env.layout arp (cmdPeersCb env arp data) := by
  intro h
  obtain ⟨sent, hanswer, hexact, -⟩ := h plainAnswerEnv ownTable [] (by decide)
  have hlong : (cmdPeersCb plainAnswerEnv ownTable []).map List.length = some 21 := by
    decide +kernel
  rw [hanswer, Option.map_some, hexact, length_teoArpGetExtendedArpTable] at hlong
  exact absurd hlong (by decide +kernel)

end Teonet
