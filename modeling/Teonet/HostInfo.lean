import Teonet.PeersAnswer

/-! # Host info (`ev_mgr.c`, `net_com.c`)

`teoGetHostInfo` puts the name of the host, its application type, the services and the application
version into one block, which grows with every string behind the first two.  The count in the header
leaves the version out.  `teoGetFullAppTypeFromHostInfo` and the JSON answer of `cmd_host_info_cb`
walk over the strings by that count and do not know the length of the block.

A block that holds a header and strings is `HoldsInfo`.  Each write keeps that, `combineTypes_eq` is
the loop of the readers over it, and `hostInfo_reads` says what they get back. -/

namespace Teonet

open Block TextBuffer

/-! ### The writer -/

/-- `host_info_data`: its size, which is the place of `string_ar`, the places of `ver` and
`string_ar_num`, and the length `DIG_IN_TEO_VER` of `ver`, which `teoGetHostInfo` calls a "3 digits
array". -/
structure HostInfoLayout where
  digInTeoVer : ℕ
  digInTeoVer_eq : digInTeoVer = 3
  size : ℕ
  ver : ℕ
  stringArNum : ℕ
  ver_le : ver + digInTeoVer ≤ size
  stringArNum_lt : stringArNum < size
  apart : stringArNum < ver ∨ ver + digInTeoVer ≤ stringArNum

/-- What the event manager knows of its host. -/
structure HostConfig where
  hostName : CString
  appType : Option CString := none
  appVersion : Option CString := none
  l0AllowF : Bool := false
  vpnConnectF : Bool := false

/-- `VERSION`. -/
def teoVersion : CString := lit "0.4.7"

/-- The loop that splits the version into numbers: `n` more of them, from `ptr` on. -/
def verDigits (version : List UInt8) : ℕ → ℕ → Option (List UInt8)
  | 0, _ => some []
  | n + 1, ptr => do
    let len ← (version.drop ptr).findIdx? fun c => c = 46 ∨ c = 0
    let dig := (version.drop ptr).take len
    let v := if len < 10 then UInt8.ofNat (atoi (CString.ofBuf dig) % 256).toNat else 0
    let ver ← verDigits version n (ptr + len + 1)
    return v :: ver

/-- The block with its length and the place behind its strings. -/
structure HostInfoBuf where
  hd : List UInt8
  hdLen : ℕ
  ptr : ℕ

/-- The block grows by a string. -/
def addString (l : HostInfoLayout) (mem : Malloc) (w : HostInfoBuf) (s : CString) :
    Option HostInfoBuf := do
  let hdLen := w.hdLen + (s.length + 1)
  let hd ← store (mem.realloc w.hd hdLen) (l.size + w.ptr) s.toBuf
  return { hd := hd, hdLen := hdLen, ptr := w.ptr + (s.length + 1) }

/-- `hd->string_ar_num++`. -/
def countString (l : HostInfoLayout) (w : HostInfoBuf) : Option HostInfoBuf := do
  let n ← byteAt w.hd l.stringArNum
  let hd ← store w.hd l.stringArNum [n + 1]
  return { w with hd := hd }

/-- A service, if it is there. -/
def addService (l : HostInfoLayout) (mem : Malloc) (flag : Bool) (s : CString) (w : HostInfoBuf) :
    Option HostInfoBuf :=
  if flag then (addString l mem w s).bind (countString l) else some w

/-- `teoGetHostInfo`: the block and its length. -/
def teoGetHostInfo (l : HostInfoLayout) (mem : Malloc) (ke : HostConfig) :
    Option (List UInt8 × ℕ) := do
  let name := ke.hostName
  let appType := ke.appType.getD (lit "teo-default")
  let appVersion := ke.appVersion.getD CString.empty
  let stringArLen := (name.length + 1) + (appType.length + 1)
  let hdLen := l.size + stringArLen
  -- `malloc` and `memset`
  let hd := List.replicate hdLen 0
  let ver ← verDigits teoVersion.toBuf l.digInTeoVer 0
  let hd ← store hd l.ver ver
  let hd ← store hd l.stringArNum [2]
  let hd ← store hd (l.size + 0) name.toBuf
  let hd ← store hd (l.size + (name.length + 1)) appType.toBuf
  let w ← addService l mem ke.l0AllowF (lit "teo-l0")
    { hd := hd, hdLen := hdLen, ptr := stringArLen }
  let w ← addService l mem ke.vpnConnectF (lit "teo-vpn") w
  let w ← addString l mem w appVersion
  return (w.hd, w.hdLen)

/-! ### The readers -/

/-- The loop over the types, for `n` more of them from number `i` on. -/
def combineTypes (l : HostInfoLayout) (hid : List UInt8) :
    ℕ → ℕ → ℕ → CString → Option (CString × ℕ)
  | 0, _, ptr, typeStr => some (typeStr, ptr)
  | n + 1, i, ptr, typeStr => do
    let s ← strAt hid (l.size + ptr)
    let typeStr := concat [typeStr, if i > 1 then lit ", " else CString.empty, lit "\"", s, lit "\""]
    combineTypes l hid n (i + 1) (ptr + (s.length + 1)) typeStr

/-- What both readers begin with: the text of the types, and the place behind them. -/
def readTypes (l : HostInfoLayout) (hid : List UInt8) : Option (CString × ℕ) := do
  let name ← strAt hid l.size
  let stringArNum ← byteAt hid l.stringArNum
  combineTypes l hid (stringArNum.toNat - 1) 1 (name.length + 1) CString.empty

/-- `teoGetFullAppTypeFromHostInfo`. -/
def teoGetFullAppTypeFromHostInfo (l : HostInfoLayout) (hid : List UInt8) : Option CString := do
  let types ← readTypes l hid
  return types.1

/-- The JSON text of `cmd_host_info_cb`. -/
def hostInfoJson (l : HostInfoLayout) (hid : List UInt8) : Option CString := do
  let (typeStr, ptr) ← readTypes l hid
  let appVersion ← strAt hid (l.size + ptr)
  let name ← strAt hid l.size
  let ver0 ← byteAt hid l.ver
  let ver1 ← byteAt hid (l.ver + 1)
  let ver2 ← byteAt hid (l.ver + 2)
  return concat [
    lit "\x7b ",
    lit "\"name\": \"", name, lit "\", ",
    lit "\"type\": [ ", typeStr, lit " ], ",
    lit "\"appType\": [ ", typeStr, lit " ], ",
    lit "\"version\": \"", decimal ver0.toNat, lit ".", decimal ver1.toNat, lit ".",
      decimal ver2.toNat, lit "\", ",
    lit "\"app_version\": \"", appVersion, lit "\", ",
    lit "\"appVersion\": \"", appVersion, lit "\"",
    lit " \x7d"]

/-- `cmd_host_info_cb`: the data that is sent to the peer or to the L0 client. -/
def cmdHostInfoCb (l : HostInfoLayout) (mem : Malloc) (ke : HostConfig) (data : List UInt8) :
    Option (List UInt8) := do
  let (hid, hidLen) ← teoGetHostInfo l mem ke
  if isJsonRequest data then
    let json ← hostInfoJson l hid
    return json.toBuf
  else bytesAt hid 0 hidLen

/-! ### The block -/

/-- A header with the digits of the version and a count, and zero bytes elsewhere. -/
structure IsHeader (l : HostInfoLayout) (header : List UInt8) (n : UInt8) : Prop where
  length_eq : header.length = l.size
  ver_eq : bytesAt header l.ver l.digInTeoVer = some [0, 4, 7]
  num_eq : bytesAt header l.stringArNum 1 = some [n]
  zero_eq : ∀ i < l.size, i < l.ver ∨ l.ver + l.digInTeoVer ≤ i → i ≠ l.stringArNum →
    bytesAt header i 1 = some [0]

/-- The block is a header with the strings behind it, and its length and the place behind the strings
are right. -/
structure HoldsInfo (l : HostInfoLayout) (w : HostInfoBuf) (n : UInt8) (strings : List CString) :
    Prop where
  hd_eq : ∃ header, IsHeader l header n ∧ w.hd = header ++ strings.flatMap CString.toBuf
  hdLen_eq : w.hdLen = w.hd.length
  ptr_eq : w.ptr = (strings.flatMap CString.toBuf).length

variable {l : HostInfoLayout} {w : HostInfoBuf} {n : UInt8} {strings : List CString}

theorem verDigits_teoVersion (l : HostInfoLayout) :
    verDigits teoVersion.toBuf l.digInTeoVer 0 = some [0, 4, 7] := by
  rw [l.digInTeoVer_eq]
  decide +kernel

/-- The count is written. -/
theorem IsHeader.store_num {header : List UInt8} (h : IsHeader l header n) (m : UInt8)
    (rest : List UInt8) : ∃ header', IsHeader l header' m ∧
      store (header ++ rest) l.stringArNum [m] = some (header' ++ rest) := by
  have hlt := l.stringArNum_lt
  have hlen := h.length_eq
  obtain ⟨header', hstore, happend⟩ :=
    store_append_left (a := header) (b := [m]) (i := l.stringArNum)
      (by rw [List.length_singleton]; omega) rest
  refine ⟨header', ⟨(store_length hstore).trans hlen, ?_, bytesAt_store hstore, ?_⟩, happend⟩
  · rw [bytesAt_store_of_apart hstore, h.ver_eq]
    rw [List.length_singleton]
    have hapart := l.apart
    omega
  · intro i hi hver hnum
    rw [bytesAt_store_of_apart hstore, h.zero_eq i hi hver hnum]
    rw [List.length_singleton]
    omega

/-- The header of a new block. -/
theorem exists_header (l : HostInfoLayout) (rest : List UInt8) :
    ∃ header hd, IsHeader l header 2 ∧
      store (List.replicate l.size 0 ++ rest) l.ver [0, 4, 7] = some hd ∧
      store hd l.stringArNum [2] = some (header ++ rest) := by
  have hver := l.ver_le
  have hapart := l.apart
  have hnum := l.stringArNum_lt
  rw [l.digInTeoVer_eq] at hver hapart
  obtain ⟨header, hstore, happend⟩ :=
    store_append_left (a := List.replicate l.size 0) (b := [0, 4, 7]) (i := l.ver)
      (by rw [List.length_replicate]; exact hver) rest
  have hlen : header.length = l.size := (store_length hstore).trans List.length_replicate
  -- nothing is known of the count before it is written
  obtain ⟨n, hn⟩ : ∃ n, bytesAt header l.stringArNum 1 = some [n] := by
    have hsome : (bytesAt header l.stringArNum 1).isSome :=
      (bytesAt_isSome_iff _ _ _).mpr (by omega)
    obtain ⟨b, hb⟩ := Option.isSome_iff_exists.mp hsome
    obtain ⟨n, rfl⟩ := List.length_eq_one_iff.mp (bytesAt_length hb)
    exact ⟨n, hb⟩
  have hheader : IsHeader l header n := by
    refine ⟨hlen, ?_, hn, fun i hi hver _ => ?_⟩
    · rw [l.digInTeoVer_eq]
      exact bytesAt_store hstore
    rw [l.digInTeoVer_eq] at hver
    rw [bytesAt_store_of_apart hstore (hver.imp_left Nat.succ_le_of_lt),
      bytesAt_eq (by rw [List.length_replicate]; exact hi), List.drop_replicate,
      List.take_replicate, Nat.min_eq_left (Nat.le_sub_of_add_le' hi)]
    rfl
  obtain ⟨header', hheader', hstore'⟩ := hheader.store_num 2 rest
  exact ⟨header', header ++ rest, hheader', happend, hstore'⟩

/-- A string is added behind the others. -/
theorem addString_holds (h : HoldsInfo l w n strings) (mem : Malloc) (s : CString) :
    ∃ w', addString l mem w s = some w' ∧ HoldsInfo l w' n (strings ++ [s]) := by
  obtain ⟨header, hheader, hhd⟩ := h.hd_eq
  have hlen := hheader.length_eq
  have hptr := h.ptr_eq
  have hhdLen : w.hdLen = l.size + w.ptr := by
    rw [h.hdLen_eq, hhd, List.length_append, hlen, hptr]
  have hnew : ((mem.block (w.hdLen + (s.length + 1))).drop w.hd.length).length =
      s.toBuf.length := by
    rw [List.length_drop, mem.length_block, ← h.hdLen_eq, CString.toBuf_length]
    omega
  have hstore : store (mem.realloc w.hd (w.hdLen + (s.length + 1))) (l.size + w.ptr) s.toBuf =
      some (w.hd ++ s.toBuf) := by
    rw [Malloc.realloc, store_append (by rw [← hhdLen, h.hdLen_eq]) (Nat.le_of_eq hnew.symm),
      List.drop_eq_nil_of_le (Nat.le_of_eq hnew), List.append_nil]
  refine ⟨{ hd := w.hd ++ s.toBuf, hdLen := w.hdLen + (s.length + 1), ptr := w.ptr + (s.length + 1) },
    ?_, ⟨header, hheader, ?_⟩, ?_, ?_⟩
  · rw [addString, hstore]
    rfl
  · rw [hhd, List.append_assoc, List.flatMap_append, List.flatMap_singleton]
  · rw [h.hdLen_eq, List.length_append, CString.toBuf_length]
  · rw [hptr, List.flatMap_append, List.flatMap_singleton, List.length_append,
      CString.toBuf_length]

theorem HoldsInfo.byteAt_num (h : HoldsInfo l w n strings) :
    byteAt w.hd l.stringArNum = some n := by
  obtain ⟨header, hheader, hhd⟩ := h.hd_eq
  have hlt := l.stringArNum_lt
  have hread : bytesAt w.hd l.stringArNum 1 = some [n] := by
    rw [hhd, bytesAt_append_left (by rw [hheader.length_eq]; omega), hheader.num_eq]
  exact byteAt_of_bytesAt hread Nat.one_pos

/-- The count goes up. -/
theorem countString_holds (h : HoldsInfo l w n strings) :
    ∃ w', countString l w = some w' ∧ HoldsInfo l w' (n + 1) strings := by
  obtain ⟨header, hheader, hhd⟩ := h.hd_eq
  obtain ⟨header', hheader', hstore⟩ :=
    hheader.store_num (n + 1) (strings.flatMap CString.toBuf)
  rw [← hhd] at hstore
  refine ⟨{ w with hd := header' ++ strings.flatMap CString.toBuf }, ?_,
    ⟨header', hheader', rfl⟩, h.hdLen_eq.trans (store_length hstore).symm, h.ptr_eq⟩
  rw [countString, h.byteAt_num, Option.bind_eq_bind, Option.bind_some, hstore]
  rfl

/-- A service that is there is added and counted. -/
theorem addService_holds (h : HoldsInfo l w n strings) (mem : Malloc) (flag : Bool) (s : CString) :
    ∃ w', addService l mem flag s w = some w' ∧
      HoldsInfo l w' (if flag then n + 1 else n) (strings ++ if flag then [s] else []) := by
  cases flag with
  | false =>
    refine ⟨w, rfl, ?_⟩
    rw [if_neg Bool.false_ne_true, if_neg Bool.false_ne_true, List.append_nil]
    exact h
  | true =>
    obtain ⟨w', hadd, hw'⟩ := addString_holds h mem s
    obtain ⟨w'', hcount, hw''⟩ := countString_holds hw'
    exact ⟨w'', by rw [addService, if_pos rfl, hadd, Option.bind_some, hcount], hw''⟩

/-- The types of a host: its application type and the services. -/
def hostTypes (ke : HostConfig) : List CString :=
  ke.appType.getD (lit "teo-default") ::
    ((if ke.l0AllowF then [lit "teo-l0"] else []) ++
      (if ke.vpnConnectF then [lit "teo-vpn"] else []))

/-- The strings of the block. -/
def hostStrings (ke : HostConfig) : List CString :=
  ke.hostName :: (hostTypes ke ++ [ke.appVersion.getD CString.empty])

/-- The first two strings fill the new block. -/
theorem firstStrings_hold {header : List UInt8} (h : IsHeader l header 2) (name appType : CString) :
    ∃ hd hd', store (header ++ List.replicate ((name.length + 1) + (appType.length + 1)) 0)
        (l.size + 0) name.toBuf = some hd ∧
      store hd (l.size + (name.length + 1)) appType.toBuf = some hd' ∧
      HoldsInfo l
        { hd := hd'
          hdLen := l.size + ((name.length + 1) + (appType.length + 1))
          ptr := (name.length + 1) + (appType.length + 1) } 2 [name, appType] := by
  have hlen := h.length_eq
  refine ⟨(header ++ name.toBuf) ++ List.replicate (appType.length + 1) 0,
    header ++ [name, appType].flatMap CString.toBuf, ?_, ?_, ⟨header, h, rfl⟩, ?_, ?_⟩
  · rw [store_append (i := l.size + 0) hlen
        (by rw [List.length_replicate, CString.toBuf_length]; omega),
      List.drop_replicate, CString.toBuf_length, Nat.add_sub_cancel_left, List.append_assoc]
  · rw [store_append (by rw [List.length_append, hlen, CString.toBuf_length])
        (by rw [List.length_replicate, CString.toBuf_length]),
      List.drop_replicate, CString.toBuf_length, Nat.sub_self, List.replicate_zero,
      List.append_nil]
    simp
  · simp [hlen]
  · simp

/-- `teoGetHostInfo` writes the whole block, and the count is one more than the types. -/
theorem teoGetHostInfo_eq (l : HostInfoLayout) (mem : Malloc) (ke : HostConfig) :
    ∃ w n, teoGetHostInfo l mem ke = some (w.hd, w.hdLen) ∧
      HoldsInfo l w n (hostStrings ke) ∧ n.toNat = (hostTypes ke).length + 1 := by
  set name := ke.hostName with hname
  set appType := ke.appType.getD (lit "teo-default") with happType
  obtain ⟨header, hd₁, hheader, hver, hnum⟩ := exists_header l
    (List.replicate ((name.length + 1) + (appType.length + 1)) 0)
  rw [List.replicate_append_replicate] at hver
  obtain ⟨hd₂, hd₃, hstore₂, hstore₃, hstart⟩ := firstStrings_hold hheader name appType
  obtain ⟨w₁, hl0, hw₁⟩ := addService_holds hstart mem ke.l0AllowF (lit "teo-l0")
  obtain ⟨w₂, hvpn, hw₂⟩ := addService_holds hw₁ mem ke.vpnConnectF (lit "teo-vpn")
  obtain ⟨w₃, hversion, hw₃⟩ := addString_holds hw₂ mem (ke.appVersion.getD CString.empty)
  have hstrings : (([name, appType] ++ if ke.l0AllowF then [lit "teo-l0"] else []) ++
      if ke.vpnConnectF then [lit "teo-vpn"] else []) ++ [ke.appVersion.getD CString.empty] =
        hostStrings ke := by
    simp [hostStrings, hostTypes, hname, happType]
  refine ⟨w₃, _, ?_, hstrings ▸ hw₃, ?_⟩
  · unfold teoGetHostInfo
    dsimp only
    simp only [Option.bind_eq_bind]
    rw [verDigits_teoVersion, ← happType, ← hname, Option.bind_some, hver, Option.bind_some, hnum,
      Option.bind_some, hstore₂, Option.bind_some, hstore₃, Option.bind_some, hl0,
      Option.bind_some, hvpn, Option.bind_some, hversion]
    rfl
  · unfold hostTypes
    cases ke.l0AllowF <;> cases ke.vpnConnectF <;> rfl

/-! ### What is read back -/

/-- The string behind others is read where they end. -/
theorem HoldsInfo.strAt_eq {s : CString} {before rest : List CString}
    (h : HoldsInfo l w n (before ++ s :: rest)) :
    strAt w.hd (l.size + (before.flatMap CString.toBuf).length) = some s := by
  obtain ⟨header, hheader, hhd⟩ := h.hd_eq
  have hdrop : w.hd.drop (l.size + (before.flatMap CString.toBuf).length) =
      s.toBuf ++ rest.flatMap CString.toBuf := by
    rw [hhd, ← hheader.length_eq, List.drop_length_add_append, List.flatMap_append,
      List.drop_left, List.flatMap_cons]
  exact strAt_of_drop_eq hdrop

theorem HoldsInfo.strAt_first {s : CString} {rest : List CString}
    (h : HoldsInfo l w n (s :: rest)) : strAt w.hd l.size = some s := by
  have hnone : HoldsInfo l w n ([] ++ s :: rest) := h
  exact hnone.strAt_eq

theorem HoldsInfo.byteAt_ver (h : HoldsInfo l w n strings) {i : ℕ} (hi : i < l.digInTeoVer) :
    byteAt w.hd (l.ver + i) = ([0, 4, 7] : List UInt8)[i]? := by
  obtain ⟨header, hheader, hhd⟩ := h.hd_eq
  have hle := l.ver_le
  have hread : bytesAt w.hd l.ver l.digInTeoVer = some [0, 4, 7] := by
    rw [hhd, bytesAt_append_left (by rw [hheader.length_eq]; exact hle), hheader.ver_eq]
  exact byteAt_of_bytesAt hread hi

/-- A type behind the first one. -/
def quotedNext (t : CString) : List UInt8 := 44 :: 32 :: 34 :: (t.bytes ++ [34])

theorem quotedTypes_cons (t : CString) (ts : List CString) :
    quotedTypes (t :: ts) = 34 :: (t.bytes ++ 34 :: ts.flatMap quotedNext) := by
  induction ts generalizing t with
  | nil => rfl
  | cons t' ts ih =>
    rw [quotedTypes, ih, List.flatMap_cons, quotedNext]
    · simp
    · simp

/-- The loop over the types that are left, behind the first one. -/
theorem combineTypes_eq {before types rest : List CString}
    (h : HoldsInfo l w n (before ++ (types ++ rest))) {i : ℕ} (hi : 1 < i) (typeStr : CString) :
    ∃ text, combineTypes l w.hd types.length i (before.flatMap CString.toBuf).length typeStr =
        some (text, ((before ++ types).flatMap CString.toBuf).length) ∧
      text.bytes = typeStr.bytes ++ types.flatMap quotedNext := by
  induction types generalizing before i typeStr with
  | nil => exact ⟨typeStr, by rw [List.append_nil]; rfl, by simp⟩
  | cons t types ih =>
    have hnext : HoldsInfo l w n ((before ++ [t]) ++ (types ++ rest)) := by simpa using h
    obtain ⟨text, htext, hbytes⟩ := ih hnext (Nat.lt_succ_of_lt hi)
      (concat [typeStr, lit ", ", lit "\"", t, lit "\""])
    have hptr : ((before ++ [t]).flatMap CString.toBuf).length =
        (before.flatMap CString.toBuf).length + (t.length + 1) := by
      simp
    refine ⟨text, ?_, ?_⟩
    · rw [List.length_cons, combineTypes, h.strAt_eq, Option.bind_eq_bind, Option.bind_some,
        if_pos hi, ← hptr, htext, List.append_assoc]
      rfl
    · have hcomma : (lit ", ").bytes = [44, 32] := rfl
      have hquote : (lit "\"").bytes = [34] := rfl
      rw [hbytes]
      simp [concat, quotedNext, hcomma, hquote]

/-- Both readers get the types of the host, and go on at the version. -/
theorem readTypes_eq {name : CString} {types rest : List CString}
    (h : HoldsInfo l w n ((name :: types) ++ rest)) (hne : types ≠ [])
    (hn : n.toNat = types.length + 1) :
    ∃ text, readTypes l w.hd = some (text, ((name :: types).flatMap CString.toBuf).length) ∧
      text.bytes = quotedTypes types := by
  obtain ⟨t, types, rfl⟩ := List.exists_cons_of_ne_nil hne
  have hone : HoldsInfo l w n ([name] ++ t :: (types ++ rest)) := h
  have htwo : HoldsInfo l w n ([name, t] ++ (types ++ rest)) := h
  obtain ⟨text, htext, hbytes⟩ := combineTypes_eq htwo Nat.one_lt_two
    (concat [CString.empty, CString.empty, lit "\"", t, lit "\""])
  have hptr (s : CString) (ss : List CString) : ((s :: ss).flatMap CString.toBuf).length =
      (s.length + 1) + (ss.flatMap CString.toBuf).length := by
    simp
  refine ⟨text, ?_, ?_⟩
  · have hfirst := hone.strAt_eq
    rw [hptr, List.flatMap_nil, List.length_nil, Nat.add_zero] at hfirst
    rw [hptr, hptr, List.flatMap_nil, List.length_nil, Nat.add_zero] at htext
    rw [readTypes, HoldsInfo.strAt_first h, Option.bind_eq_bind, Option.bind_some,
      h.byteAt_num, Option.bind_eq_bind, Option.bind_some, hn, Nat.add_sub_cancel,
      List.length_cons, combineTypes, hfirst, Option.bind_eq_bind, Option.bind_some]
    exact htext
  · have hquote : (lit "\"").bytes = [34] := rfl
    rw [hbytes, quotedTypes_cons]
    simp [concat, CString.empty, hquote]

theorem decimal_teoVersion : concat [decimal ((0 : UInt8).toNat), lit ".",
    decimal ((4 : UInt8).toNat), lit ".", decimal ((7 : UInt8).toNat)] = teoVersion := by
  decide +kernel

/-- The JSON text with the types of a host. -/
def hostInfoText (name typeStr version appVersion : CString) : CString :=
  concat [
    lit "\x7b ",
    lit "\"name\": \"", name, lit "\", ",
    lit "\"type\": [ ", typeStr, lit " ], ",
    lit "\"appType\": [ ", typeStr, lit " ], ",
    lit "\"version\": \"", version, lit "\", ",
    lit "\"app_version\": \"", appVersion, lit "\", ",
    lit "\"appVersion\": \"", appVersion, lit "\"",
    lit " \x7d"]

/-- What both readers get from the block of a host. -/
theorem hostInfo_readers {ke : HostConfig} (hw : HoldsInfo l w n (hostStrings ke))
    (hn : n.toNat = (hostTypes ke).length + 1) :
    ∃ typeStr, teoGetFullAppTypeFromHostInfo l w.hd = some typeStr ∧
      typeStr.bytes = quotedTypes (hostTypes ke) ∧
      hostInfoJson l w.hd = some (hostInfoText ke.hostName typeStr teoVersion
        (ke.appVersion.getD CString.empty)) := by
  have hversion : HoldsInfo l w n
      ((ke.hostName :: hostTypes ke) ++ [ke.appVersion.getD CString.empty]) := hw
  obtain ⟨typeStr, htypes, hbytes⟩ := readTypes_eq hversion (List.cons_ne_nil _ _) hn
  refine ⟨typeStr, ?_, hbytes, ?_⟩
  · rw [teoGetFullAppTypeFromHostInfo, htypes]
    rfl
  · have hdigits := l.digInTeoVer_eq
    have hver0 : byteAt w.hd l.ver = some 0 := hw.byteAt_ver (i := 0) (by omega)
    have hver1 : byteAt w.hd (l.ver + 1) = some 4 := hw.byteAt_ver (i := 1) (by omega)
    have hver2 : byteAt w.hd (l.ver + 2) = some 7 := hw.byteAt_ver (i := 2) (by omega)
    simp only [hostInfoJson, htypes, hversion.strAt_eq, hw.strAt_first, hver0, hver1, hver2,
      Option.bind_eq_bind, Option.bind_some]
    rw [hostInfoText, ← decimal_teoVersion]
    refine congrArg some (CString.ext ?_)
    simp [concat]

/-- **Host info.**  The block is a header and the strings of the host, no byte of it is anything else,
and the length is its length.  Both readers stay inside: the one gets the types, and the other one
sends a text with all of them or the block itself. -/
theorem hostInfo_reads (l : HostInfoLayout) (mem : Malloc) (ke : HostConfig) :
    ∃ header hd typeStr,
      teoGetHostInfo l mem ke = some (hd, hd.length) ∧
      IsHeader l header (UInt8.ofNat ((hostTypes ke).length + 1)) ∧
      hd = header ++ (hostStrings ke).flatMap CString.toBuf ∧
      teoGetFullAppTypeFromHostInfo l hd = some typeStr ∧
      typeStr.bytes = quotedTypes (hostTypes ke) ∧
      ∀ data, cmdHostInfoCb l mem ke data =
        some (if isJsonRequest data then
          (hostInfoText ke.hostName typeStr teoVersion (ke.appVersion.getD CString.empty)).toBuf
        else hd) := by
  obtain ⟨w, n, hget, hw, hn⟩ := teoGetHostInfo_eq l mem ke
  obtain ⟨header, hheader, hhd⟩ := hw.hd_eq
  obtain ⟨typeStr, htypes, hbytes, hjson⟩ := hostInfo_readers hw hn
  rw [hw.hdLen_eq] at hget
  refine ⟨header, w.hd, typeStr, hget, ?_, hhd, htypes, hbytes, fun data => ?_⟩
  · rw [← hn, UInt8.ofNat_toNat]
    exact hheader
  · rw [cmdHostInfoCb, hget, Option.bind_eq_bind, Option.bind_some]
    dsimp only
    split_ifs
    · rw [hjson]
      rfl
    · rw [bytesAt_eq (Nat.le_of_eq (Nat.zero_add _)), List.drop_zero, List.take_length]

/-- The type that is sent in a `CMD_CONNECT_R` packet is read from the block of the host. -/
theorem fullType_eq (l : HostInfoLayout) (mem : Malloc) (cfg : ConnectRConfig) (hostName : CString)
    (appVersion : Option CString) :
    ((teoGetHostInfo l mem
        { hostName := hostName
          appType := some cfg.appType
          appVersion := appVersion
          l0AllowF := cfg.l0AllowF
          vpnConnectF := cfg.vpnConnectF }).bind fun h =>
      teoGetFullAppTypeFromHostInfo l h.1) = some cfg.fullType := by
  obtain ⟨w, n, hget, hw, hn⟩ := teoGetHostInfo_eq l mem
    { hostName := hostName
      appType := some cfg.appType
      appVersion := appVersion
      l0AllowF := cfg.l0AllowF
      vpnConnectF := cfg.vpnConnectF }
  obtain ⟨typeStr, htypes, hbytes, -⟩ := hostInfo_readers hw hn
  rw [hget, Option.bind_some, htypes]
  have hfull : cfg.fullType = CString.ofBuf typeStr.bytes := by
    rw [hbytes]
    rfl
  rw [hfull]
  exact congrArg some (CString.ext (CString.bytes_ofBuf typeStr.noNul).symm)

end Teonet
