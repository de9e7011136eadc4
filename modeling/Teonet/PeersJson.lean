import Teonet.Lib.Decimal
import Teonet.Lib.TextBuffer
import Teonet.Packet

/-! # The peers as a JSON text (`net_arp.c`)

`ksnetArpShowDataJson` and `teoArpGetExtendedArpTable_json` print an array of peers as a JSON text,
into a buffer that is twice as large as the array.  What a peer takes in the text depends on its
strings and numbers, and the text begins and ends with more than the peers.

`arpJson_iff` says when the text fits.  It never does for an array without peers. -/

namespace Teonet

open TextBuffer

/-- An element of `ksnet_arp_data_ar`, as far as it is printed; `D` is `double`. -/
structure ArpShowData (D : Type) where
  name : CString
  mode : ℤ
  addr : CString
  port : ℤ
  lastTriptime : D
  connectedTime : D

/-- An element of `ksnet_arp_data_ext_ar`. -/
structure ArpShowDataExt (D : Type) extends ArpShowData D where
  type : CString

/-! ### Printing -/

/-- A part of a format. -/
def lit (s : String) : CString := CString.ofBuf (ascii s)

/-- `%d`. -/
def decimal (i : ℤ) : CString where
  bytes := Decimal.ofInt i
  noNul h := by
    cases i with
    | ofNat n => exact Decimal.nul_not_mem_ofNat n h
    | negSucc n =>
      rcases List.mem_cons.mp h with h | h
      · cases h
      · exact Decimal.nul_not_mem_ofNat (n + 1) h

variable {D : Type} (fixed3 : D → CString)

/-- The text before the elements; the length is a `uint32_t` that is printed as an `int`. -/
def jsonHead (length : ℕ) : CString :=
  concat [lit "\x7b \"length\": ", decimal (Int.bmod length (2 ^ 32)), lit ", \"arp_data_ar\": [ "]

/-- The text behind the elements. -/
def jsonTail : CString := lit " ] \x7d"

/-- An element in `ksnetArpShowDataJson`; `fixed3` is `%.3f`. -/
def showElement (d : ArpShowData D) : CString :=
  concat [
    lit "\x7b ",
    lit "\"name\": \"", d.name, lit "\", ",
    lit "\"mode\": ", decimal d.mode, lit ", ",
    lit "\"addr\": \"", d.addr, lit "\", ",
    lit "\"port\": ", decimal d.port, lit ", ",
    lit "\"triptime\": ", fixed3 d.lastTriptime, lit ",",
    lit "\"uptime\": ", fixed3 d.connectedTime,
    lit " \x7d"]

/-- An element in `teoArpGetExtendedArpTable_json`. -/
def showElementExt (d : ArpShowDataExt D) : CString :=
  concat [
    lit "\x7b ",
    lit "\"name\": \"", d.name, lit "\", ",
    lit "\"type\": [", d.type, lit "], ",
    lit "\"mode\": ", decimal d.mode, lit ", ",
    lit "\"addr\": \"", d.addr, lit "\", ",
    lit "\"port\": ", decimal d.port, lit ", ",
    lit "\"triptime\": ", fixed3 d.lastTriptime, lit ",",
    lit "\"uptime\": ", fixed3 d.connectedTime,
    lit " \x7d"]

/-- The elements with `i ? ", " : ""` in front. -/
def separated : List CString → List CString
  | [] => []
  | e :: l => e :: l.map fun e => concat [lit ", ", e]

/-- Both functions, for the size of an element of the array and the texts of the elements. -/
def arpJson (mem : Malloc) (elemSize : ℕ) (elements : List CString) : Option CString :=
  (build mem (elemSize * 2 * elements.length % 2 ^ 64)
    (jsonHead elements.length :: separated elements) jsonTail).bind (Block.strAt · 0)

/-- `ksnetArpShowDataJson`. -/
def ksnetArpShowDataJson (mem : Malloc) (elemSize : ℕ) (ar : List (ArpShowData D)) :
    Option CString :=
  arpJson mem elemSize (ar.map (showElement fixed3))

/-- `teoArpGetExtendedArpTable_json`. -/
def teoArpGetExtendedArpTableJson (mem : Malloc) (elemSize : ℕ) (ar : List (ArpShowDataExt D)) :
    Option CString :=
  arpJson mem elemSize (ar.map (showElementExt fixed3))

/-! ### The text -/

/-- The whole text for some elements. -/
def arpDocument (elements : List CString) : List UInt8 :=
  (jsonHead elements.length).bytes ++
    ((ascii ", ").intercalate (elements.map CString.bytes) ++ jsonTail.bytes)

/-- The text and its terminator fit into the buffer, and what the calls of `snprintf` but the last
return is an `int` in sum. -/
def JsonFits (elemSize : ℕ) (elements : List CString) : Prop :=
  (arpDocument elements).length < elemSize * 2 * elements.length % 2 ^ 64 ∧
    (arpDocument elements).length < 2 ^ 31 + jsonTail.length

theorem concat_separated : ∀ l : List CString,
    (concat (separated l)).bytes = (ascii ", ").intercalate (l.map CString.bytes)
  | [] => rfl
  | [e] => by simp [separated, concat]
  | e :: e' :: l => by
      have hlit : (lit ", ").bytes = ascii ", " := by decide
      have ih := concat_separated (e' :: l)
      rw [separated, concat_cons_bytes] at ih ⊢
      rw [List.map_cons, concat_cons_bytes, concat_cons_bytes, concat_cons_bytes, hlit,
        List.map_cons, List.map_cons, List.intercalate_cons_cons, ← List.map_cons, ← ih]
      simp [concat]

/-- A head, elements with commas between them, and the tail. -/
def arrayDocument (head : CString) (elements : List CString) : List UInt8 :=
  head.bytes ++ ((ascii ", ").intercalate (elements.map CString.bytes) ++ jsonTail.bytes)

/-- `JsonFits` for any head. -/
def ArrayFits (elemSize : ℕ) (head : CString) (elements : List CString) : Prop :=
  (arrayDocument head elements).length < elemSize * 2 * elements.length % 2 ^ 64 ∧
    (arrayDocument head elements).length < 2 ^ 31 + jsonTail.length

/-- What the calls print is the whole text. -/
theorem concat_array (head : CString) (elements : List CString) :
    (concat ((head :: separated elements) ++ [jsonTail])).bytes = arrayDocument head elements := by
  rw [concat_append_bytes, concat_cons_bytes, concat_separated, arrayDocument, List.append_assoc,
    concat_cons_bytes]
  simp [concat]

theorem arrayFits_iff (elemSize : ℕ) (head : CString) (elements : List CString) :
    (concat ((head :: separated elements) ++ [jsonTail])).length <
          elemSize * 2 * elements.length % 2 ^ 64 ∧
        (concat (head :: separated elements)).length < 2 ^ 31 ↔
      ArrayFits elemSize head elements := by
  have hlength : (arrayDocument head elements).length =
      (concat (head :: separated elements)).length + jsonTail.length := by
    rw [← concat_array, concat_append_bytes, List.length_append, concat_cons_bytes jsonTail]
    simp [concat, CString.length]
  rw [ArrayFits, CString.length, concat_array]
  refine and_congr_right fun _ => ?_
  omega

section
variable {elemSize : ℕ} {head : CString} {elements : List CString}
  {p : List UInt8 → ℕ → CString → Option (List UInt8)}

/-- An array that fits is there as a whole. -/
theorem buildWith_array (hp : Prints (elemSize * 2 * elements.length % 2 ^ 64) p) (mem : Malloc)
    (h : ArrayFits elemSize head elements) :
    ∃ s, (buildWith p mem (elemSize * 2 * elements.length % 2 ^ 64) (head :: separated elements)
        jsonTail).bind (Block.strAt · 0) = some s ∧ s.bytes = arrayDocument head elements := by
  obtain ⟨hroom, hint⟩ := (arrayFits_iff elemSize head elements).mpr h
  exact ⟨_, buildWith_eq hp mem hroom hint, concat_array head elements⟩

/-- One that does not fit is cut. -/
theorem eq_or_lt_of_array (hp : Prints (elemSize * 2 * elements.length % 2 ^ 64) p) {mem : Malloc}
    {s : CString}
    (h : (buildWith p mem (elemSize * 2 * elements.length % 2 ^ 64) (head :: separated elements)
        jsonTail).bind (Block.strAt · 0) = some s) :
    s.bytes = arrayDocument head elements ∧ ArrayFits elemSize head elements ∨
      s.length < (arrayDocument head elements).length := by
  rw [← concat_array, ← arrayFits_iff]
  rcases eq_or_lt_of_buildWith hp h with ⟨he, hfits⟩ | hlt
  · exact .inl ⟨congrArg CString.bytes he, hfits⟩
  · exact .inr hlt

end

theorem prints_arpJson (elemSize n : ℕ) :
    Prints (elemSize * 2 * n % 2 ^ 64)
      fun m i => snprintf m i (remaining (elemSize * 2 * n % 2 ^ 64) i) :=
  prints_snprintf (Nat.mod_lt _ (by decide))

theorem arpJson_eq_iff (mem : Malloc) (elemSize : ℕ) (elements : List CString) :
    (arpJson mem elemSize elements).map CString.bytes = some (arpDocument elements) ↔
      JsonFits elemSize elements := by
  constructor
  · intro h
    obtain ⟨s, hs, he⟩ := Option.map_eq_some_iff.mp h
    rcases eq_or_lt_of_array (prints_arpJson elemSize elements.length) hs with ⟨-, hfits⟩ | hlt
    · exact hfits
    · exact absurd (congrArg List.length he) hlt.ne
  · intro h
    obtain ⟨s, hs, he⟩ := buildWith_array (prints_arpJson elemSize elements.length) mem h
    exact Option.map_eq_some_iff.mpr ⟨s, hs, he⟩

/-- **The JSON texts** are complete, and nothing is written outside the buffer, exactly if they
fit. -/
theorem arpJson_iff (mem : Malloc) (elemSize elemSizeExt : ℕ) (ar : List (ArpShowData D))
    (ext : List (ArpShowDataExt D)) :
    ((ksnetArpShowDataJson fixed3 mem elemSize ar).map CString.bytes =
        some (arpDocument (ar.map (showElement fixed3))) ↔
      JsonFits elemSize (ar.map (showElement fixed3))) ∧
    ((teoArpGetExtendedArpTableJson fixed3 mem elemSizeExt ext).map CString.bytes =
        some (arpDocument (ext.map (showElementExt fixed3))) ↔
      JsonFits elemSizeExt (ext.map (showElementExt fixed3))) :=
  ⟨arpJson_eq_iff mem elemSize _, arpJson_eq_iff mem elemSizeExt _⟩

/-- For an array without peers the buffer has no bytes, and the text is written behind it. -/
theorem arpJson_nil (mem : Malloc) (elemSize : ℕ) : arpJson mem elemSize [] = none := by
  have hsize : elemSize * 2 * ([] : List CString).length % 2 ^ 64 = 0 := by simp
  have hlength : (jsonHead 0).length = 32 := by decide
  have hhead : append 0 (mem.block 0, 0) (jsonHead 0) = some (mem.block 0, 32) := by
    rw [append, hlength]
    rfl
  have htail : snprintf (mem.block 0) 32 (remaining 0 32) jsonTail = none := by
    have hempty : (mem.block 0).length < 32 := by rw [mem.length_block]; decide
    have hout := snprintf_of_lt hempty (by decide) jsonTail
    rwa [mem.length_block] at hout
  rw [arpJson, hsize, build, separated, List.length_nil, List.foldlM_cons, hhead]
  simp [htail]

/-- The text for an array without peers has no buffer. -/
theorem not_arpJson :
    ¬ ∀ (fixed3 : Unit → CString) (mem : Malloc) (elemSize elemSizeExt : ℕ)
      (ar : List (ArpShowData Unit)) (ext : List (ArpShowDataExt Unit)),
      (ksnetArpShowDataJson fixed3 mem elemSize ar).map CString.bytes =
          some (arpDocument (ar.map (showElement fixed3))) ∧
        (teoArpGetExtendedArpTableJson fixed3 mem elemSizeExt ext).map CString.bytes =
          some (arpDocument (ext.map (showElementExt fixed3))) := by
  intro h
  have hfits := (arpJson_eq_iff Malloc.clear 100 []).mp
    (h (fun _ => CString.empty) Malloc.clear 100 100 [] []).1
  exact absurd hfits.1 (Nat.not_lt_zero _)

end Teonet
