import Teonet.WsConversions

/-! # The frame for a websocket client (`teo_ws.c`)

`read_cb` prints the command, the peer name and the converted data of an L0 packet into a buffer that
is 128 bytes larger than the data, and passes the result of `snprintf` on as the length of the frame.
That result is the length of the whole text, whether it fits into the buffer or not, and most
conversions make the data longer.

`document` is what the data is as JSON, and its length is known from the data (`length_document`).
`frameComplete_iff` says for which packets the frame is the whole text and lies in the buffer. -/

namespace Teonet

open Block TextBuffer Replace

/-! ### The function -/

/-- The text of a frame. -/
def frameText (cmd : ℤ) (peerName data : CString) : CString :=
  concat [lit "\x7b \"cmd\": ", decimal cmd, lit ", \"from\": \"", peerName, lit "\", \"data\": ", data,
    lit " \x7d"]

/-- The result of `snprintf` as a `size_t`; it is negative if the text is too long for an `int`. -/
def printedLength (text : CString) : ℕ := if text.length < 2 ^ 31 then text.length else 2 ^ 64 - 1

variable {D : Type} (env : WsReadEnv D) (cp : L0Received)

/-- `read_cb` for a packet: the buffer and the length that are passed to `mg_send_websocket_frame`. -/
def readCb : Option (List UInt8 × ℕ) := do
  let data ← convert env cp
  let peerName ← strAt cp.memory 0
  let s ← data.printed
  let dataJson ← snprintf (env.mem.block (128 + cp.dataLength)) 0 (128 + cp.dataLength)
    (frameText cp.cmd peerName s)
  some (dataJson, printedLength (frameText cp.cmd peerName s))

/-! ### The text and its length -/

/-- The data as JSON. -/
def document : Option (List UInt8) :=
  match conversion env cp with
  | .peers => (env.arpData cp.data).map fun ar => arpDocument (ar.map (showElement env.fixed3))
  | .clients => (env.clientData cp.data).map clientsDocument
  | .subscribe =>
    (env.scrData cp.data).map fun e =>
      (scrText e.1 e.2 (base64 ((cp.data.take cp.dataLength).drop env.scrDataSize))).bytes
  | .echo => none
  | .undefined =>
    (strAt cp.data 0).map fun s =>
      match cut (ascii "\"data\":") s.bytes with
      | some (before, _) =>
        before ++
          slashQuotes (CString.ofBuf ((cp.data.take cp.dataLength).drop before.length)).bytes
      | none => quoted (lit "\"") (base64 (cp.data.take cp.dataLength))
  | .raw => some (quoted (dataQuote env cp) (CString.ofBuf (cp.data.take cp.dataLength)))

/-- The command, the peer name and the data in a text. -/
def frame (cmd : ℤ) (peerName : CString) (data : List UInt8) : List UInt8 :=
  ascii "\x7b \"cmd\": " ++ (decimal cmd).bytes ++ ascii ", \"from\": \"" ++ peerName.bytes ++
    ascii "\", \"data\": " ++ data ++ ascii " \x7d"

/-- The length that is passed on is not larger than the buffer, which holds the whole text. -/
def FrameComplete : Prop :=
  ∃ peerName text dataJson length, strAt cp.memory 0 = some peerName ∧
    document env cp = some text ∧ readCb env cp = some (dataJson, length) ∧
      length ≤ dataJson.length ∧ dataJson.take length = frame cp.cmd peerName text

/-- The buffer of the conversion holds the text: arrays that are not too long for twice the size of
their elements, a subscription that lacks at most one byte of its structure, and a member `data` that
begins in the data. -/
def Convertible : Prop :=
  match conversion env cp with
  | .peers =>
    ∀ ar ∈ env.arpData cp.data, JsonFits env.arpDataSize (ar.map (showElement env.fixed3))
  | .clients =>
    ∀ names ∈ env.clientData cp.data,
      ArrayFits env.clientDataSize (clientsHead names.length) (names.map clientElement)
  | .subscribe => ∀ _ ∈ env.scrData cp.data, env.scrDataSize ≤ cp.dataLength + 1
  | .undefined =>
    ∀ s ∈ strAt cp.data 0, ∀ r ∈ cut (ascii "\"data\":") s.bytes, r.1.length ≤ cp.dataLength
  | _ => True

/-- The length of elements between a head and the tail. -/
def arrayLength (head : CString) (elements : List CString) : ℕ :=
  head.length + ((elements.map CString.length).sum + 2 * (elements.length - 1)) + jsonTail.length

/-- How long the data is as JSON. -/
def documentLength : Option ℕ :=
  match conversion env cp with
  | .peers =>
    (env.arpData cp.data).map fun ar =>
      arrayLength (jsonHead ar.length) (ar.map (showElement env.fixed3))
  | .clients =>
    (env.clientData cp.data).map fun names =>
      arrayLength (clientsHead names.length) (names.map clientElement)
  | .subscribe =>
    (env.scrData cp.data).map fun e =>
      (scrText e.1 e.2 CString.empty).length + 4 * ((cp.dataLength - env.scrDataSize + 2) / 3)
  | .echo => none
  | .undefined =>
    (strAt cp.data 0).map fun s =>
      match cut (ascii "\"data\":") s.bytes with
      | some (before, _) =>
        let rest := CString.ofBuf ((cp.data.take cp.dataLength).drop before.length)
        before.length + rest.length + quotesInside rest.bytes
      | none => 4 * ((cp.dataLength + 2) / 3) + 2
  | .raw =>
    some ((CString.ofBuf (cp.data.take cp.dataLength)).length + 2 * (dataQuote env cp).length)

/-- There is a tag for any data, and the branch that needs none is never taken. -/
theorem conversion_ne_echo : conversion env cp ≠ .echo := by
  have htags : ¬(cp.cmd = cmdLEcho ∧ getNumOfTags cp.data cp.dataLength = 0) := by
    rintro ⟨-, h⟩
    unfold getNumOfTags at h
    omega
  unfold conversion
  rw [if_neg htags]
  split_ifs <;> exact Conversion.noConfusion

theorem dataQuote_of_undefined (h : conversion env cp = .undefined) :
    dataQuote env cp = lit "\"" := by
  unfold conversion at h
  split_ifs at h with _ _ _ _ htype
  exact if_pos (.inr htype)

/-- The text before the member `data` lies at the start of the data. -/
theorem start_of_cut {m needle before behind : List UInt8} {s : CString} (hstr : strAt m 0 = some s)
    (hcut : cut needle s.bytes = some (before, behind)) : 0 ∉ before ∧ before <+: m := by
  have hbytes := eq_append_of_cut hcut
  constructor
  · intro hmem
    refine s.noNul ?_
    rw [hbytes]
    exact List.mem_append_left _ (List.mem_append_left _ hmem)
  · have hm := drop_eq_of_strAt hstr
    rw [List.drop_zero, CString.toBuf, hbytes] at hm
    rw [hm, List.append_assoc, List.append_assoc, List.append_assoc]
    exact List.prefix_append _ _

theorem converts_undefined (h : conversion env cp = .undefined) :
    Converts (convertUndefined env cp)
      ((strAt cp.data 0).map fun s =>
        match cut (ascii "\"data\":") s.bytes with
        | some (before, _) =>
          before ++
            slashQuotes (CString.ofBuf ((cp.data.take cp.dataLength).drop before.length)).bytes
        | none => quoted (lit "\"") (base64 (cp.data.take cp.dataLength)))
      (∀ s ∈ strAt cp.data 0, ∀ r ∈ cut (ascii "\"data\":") s.bytes,
        r.1.length ≤ cp.dataLength) := by
  unfold convertUndefined
  cases hstr : strAt cp.data 0 with
  | none => exact ⟨fun hd => (by cases hd), fun ht => (by cases ht)⟩
  | some s =>
    rw [Option.map_some]
    dsimp only [Option.bind_eq_bind, Option.bind_some]
    cases hcut : cut (ascii "\"data\":") s.bytes with
    | none =>
      have hbase := base64Text_eq env.mem cp.dataLength_lt cp.dataLength_le
      dsimp only
      rw [hbase, dataQuote_of_undefined env cp h]
      refine Converts.ofText (c := some (base64 (cp.data.take cp.dataLength)))
        (fun t ht => ⟨_, rfl, .inl ⟨?_, ?_⟩⟩) fun t ht _ => ⟨_, rfl, Option.some.inj ht⟩
      · rw [← Option.some.inj ht]
      · rintro _ ⟨⟩ _ hr
        rw [hcut] at hr
        cases hr
    | some r =>
      obtain ⟨before, behind⟩ := r
      obtain ⟨hnul, hstart⟩ := start_of_cut hstr hcut
      have hfits : (∀ s' ∈ some s, ∀ r ∈ cut (ascii "\"data\":") s'.bytes,
          r.1.length ≤ cp.dataLength) ↔ before.length ≤ cp.dataLength := by
        refine ⟨fun hall => hall s rfl _ hcut, ?_⟩
        rintro hle _ ⟨⟩ r hr
        obtain rfl := Option.some.inj (hcut.symm.trans hr)
        exact hle
      rw [hfits]
      exact converts_escape env.mem cp.dataLength_lt cp.dataLength_le hnul hstart

/-- **The conversion** prints the document, if it is convertible. -/
theorem converts : Converts (convert env cp) (document env cp) (Convertible env cp) := by
  unfold convert document Convertible
  cases h : conversion env cp with
  | peers => exact converts_peers env _
  | clients => exact converts_clients env.mem env.clientDataSize _
  | subscribe => exact converts_scr env cp _
  | echo => exact absurd h (conversion_ne_echo env cp)
  | undefined => exact converts_undefined env cp h
  | raw => exact converts_raw cp.dataLength_lt cp.dataLength_le (dataQuote env cp)

theorem length_intercalate (l : List CString) :
    ((ascii ", ").intercalate (l.map CString.bytes)).length =
      (l.map CString.length).sum + 2 * (l.length - 1) := by
  have hsep : (ascii ", ").length = 2 := by decide
  induction l with
  | nil => rfl
  | cons e l ih =>
    cases l with
    | nil => simp [CString.length]
    | cons e' l =>
      have hsum : ((e :: e' :: l).map CString.length).sum =
          e.length + ((e' :: l).map CString.length).sum := List.sum_cons
      rw [List.map_cons, List.map_cons, List.intercalate_cons_cons, ← List.map_cons,
        List.length_append, List.length_append, ih, hsep, hsum, CString.length]
      simp only [List.length_cons]
      omega

theorem length_arrayDocument (head : CString) (elements : List CString) :
    (arrayDocument head elements).length = arrayLength head elements := by
  rw [arrayDocument, List.length_append, List.length_append, length_intercalate]
  exact (Nat.add_assoc _ _ _).symm

theorem length_scrText (ev cmd : ℤ) (data : CString) :
    (scrText ev cmd data).length = (scrText ev cmd CString.empty).length + data.length := by
  simp only [scrText, concat, CString.length, List.flatMap_cons, List.length_append]
  simp only [CString.empty, List.length_nil]
  omega

/-- The length of the data as JSON is known from the data. -/
theorem length_document : (document env cp).map List.length = documentLength env cp := by
  have hin := cp.dataLength_le
  unfold document documentLength
  cases h : conversion env cp with
  | peers =>
    rw [Option.map_map]
    refine Option.map_congr fun ar _ => ?_
    have hlength : (arpDocument (ar.map (showElement env.fixed3))).length =
        arrayLength (jsonHead (ar.map (showElement env.fixed3)).length)
          (ar.map (showElement env.fixed3)) := length_arrayDocument _ _
    refine hlength.trans ?_
    rw [List.length_map]
  | clients =>
    rw [Option.map_map]
    exact Option.map_congr fun names _ => length_arrayDocument _ _
  | subscribe =>
    rw [Option.map_map]
    refine Option.map_congr fun e _ => ?_
    refine (length_scrText e.1 e.2 _).trans ?_
    rw [length_base64, List.length_drop, List.length_take_of_le hin]
  | echo => rfl
  | undefined =>
    rw [Option.map_map]
    refine Option.map_congr fun s _ => ?_
    dsimp only [Function.comp_apply]
    cases cut (ascii "\"data\":") s.bytes with
    | none =>
      have hquote : (lit "\"").length = 1 := by decide
      dsimp only
      rw [length_quoted, length_base64, List.length_take_of_le hin, hquote]
    | some r =>
      dsimp only
      rw [List.length_append, length_slashQuotes]
      exact (Nat.add_assoc _ _ _).symm
  | raw => exact congrArg some (length_quoted _ _)

/-! ### The frame -/

theorem bytes_frameText (cmd : ℤ) (peerName data : CString) :
    (frameText cmd peerName data).bytes = frame cmd peerName data.bytes := by
  have hcmd : (lit "\x7b \"cmd\": ").bytes = ascii "\x7b \"cmd\": " := by decide
  have hfrom : (lit ", \"from\": \"").bytes = ascii ", \"from\": \"" := by decide
  have hdata : (lit "\", \"data\": ").bytes = ascii "\", \"data\": " := by decide
  have hend : (lit " \x7d").bytes = ascii " \x7d" := by decide
  simp only [frameText, concat, List.flatMap_cons, List.flatMap_nil, hcmd, hfrom, hdata, hend, frame,
    List.append_assoc, List.append_nil]

theorem length_frame (cmd : ℤ) (peerName : CString) (data : List UInt8) :
    (frame cmd peerName data).length =
      (decimal cmd).length + peerName.length + data.length + 33 := by
  have hcmd : (ascii "\x7b \"cmd\": ").length = 9 := by decide
  have hfrom : (ascii ", \"from\": \"").length = 11 := by decide
  have hdata : (ascii "\", \"data\": ").length = 11 := by decide
  have hend : (ascii " \x7d").length = 2 := by decide
  simp only [frame, List.length_append, hcmd, hfrom, hdata, hend, CString.length]
  omega

theorem frame_inj {cmd : ℤ} {peerName : CString} {data data' : List UInt8}
    (h : frame cmd peerName data = frame cmd peerName data') : data = data' :=
  List.append_cancel_left (List.append_cancel_right h)

/-- A frame does not end with a zero byte. -/
theorem frame_ne_append_nul (cmd : ℤ) (peerName : CString) (data l : List UInt8) :
    frame cmd peerName data ≠ l ++ [0] := by
  have hend : ascii " \x7d" = [32] ++ [125] := by decide
  intro h
  rw [frame, hend, ← List.append_assoc] at h
  have hlast := (List.append_inj' h rfl).2
  cases hlast

/-- What is printed into the buffer. -/
theorem snprintf_dataJson (mem : Malloc) {size : ℕ} (hsize : 0 < size) (text : CString) :
    snprintf (mem.block size) 0 size text =
      some ((text.take (size - 1)).toBuf ++
        (mem.block size).drop (text.take (size - 1)).toBuf.length) := by
  rw [snprintf, if_neg (by omega), store_zero]
  rw [CString.toBuf_length, CString.length_take, mem.length_block]
  omega

/-- The buffer with a text that fits holds the whole text, and one with a text that does not has no
room for the length that is passed on, or ends with a zero byte. -/
theorem take_dataJson_eq_iff {mem : Malloc} {size : ℕ} (hsize : 0 < size) (hint : size < 2 ^ 31)
    {text : CString} {dataJson t : List UInt8}
    (h : snprintf (mem.block size) 0 size text = some dataJson) (ht : ∀ l, t ≠ l ++ [0]) :
    printedLength text ≤ dataJson.length ∧ dataJson.take (printedLength text) = t ↔
      text.bytes = t ∧ text.length < size := by
  have hlength : dataJson.length = size := (snprintf_length h).trans (mem.length_block size)
  rw [snprintf_dataJson mem hsize] at h
  obtain rfl := Option.some.inj h
  rw [hlength]
  by_cases hfits : text.length < size
  · have hprinted : printedLength text = text.bytes.length := if_pos (by omega)
    have htake : text.take (size - 1) = text := CString.take_of_length_le (by omega)
    rw [hprinted, htake, CString.toBuf, List.append_assoc, List.take_left]
    exact ⟨fun h => ⟨h.2, hfits⟩, fun h => ⟨hfits.le, h.1⟩⟩
  · refine iff_of_false (fun h => ?_) fun h => hfits h.2
    obtain ⟨hle, htake⟩ := h
    have hend : size ≤ printedLength text := by
      unfold printedLength
      split_ifs <;> omega
    have hdrop : (mem.block size).drop (text.take (size - 1)).toBuf.length = [] := by
      refine List.drop_eq_nil_of_le ?_
      rw [CString.toBuf_length, CString.length_take, mem.length_block]
      omega
    rw [List.take_of_length_le (hlength.le.trans hend), hdrop, List.append_nil, CString.toBuf] at htake
    exact ht _ htake.symm

theorem readCb_eq_some_iff {dataJson : List UInt8} {length : ℕ} :
    readCb env cp = some (dataJson, length) ↔
      ∃ data peerName s, convert env cp = some data ∧ strAt cp.memory 0 = some peerName ∧
        data.printed = some s ∧
        snprintf (env.mem.block (128 + cp.dataLength)) 0 (128 + cp.dataLength)
          (frameText cp.cmd peerName s) = some dataJson ∧
        printedLength (frameText cp.cmd peerName s) = length := by
  unfold readCb
  constructor
  · intro h
    obtain ⟨data, hconv, h⟩ := Option.bind_eq_some_iff.mp h
    obtain ⟨peerName, hname, h⟩ := Option.bind_eq_some_iff.mp h
    obtain ⟨s, hs, h⟩ := Option.bind_eq_some_iff.mp h
    obtain ⟨m, hm, h⟩ := Option.bind_eq_some_iff.mp h
    obtain ⟨rfl, rfl⟩ := Prod.mk.inj (Option.some.inj h)
    exact ⟨data, peerName, s, hconv, hname, hs, hm, rfl⟩
  · rintro ⟨data, peerName, s, hconv, hname, hs, hm, rfl⟩
    exact Option.bind_eq_some_iff.mpr ⟨data, hconv, Option.bind_eq_some_iff.mpr ⟨peerName, hname,
      Option.bind_eq_some_iff.mpr ⟨s, hs, Option.bind_eq_some_iff.mpr ⟨dataJson, hm, rfl⟩⟩⟩⟩

/-- A complete frame is one of a text that fits into the buffer. -/
theorem FrameComplete.fits (h : FrameComplete env cp) :
    Convertible env cp ∧ ∃ peerName length, strAt cp.memory 0 = some peerName ∧
      documentLength env cp = some length ∧
        (decimal cp.cmd).length + peerName.length + length < 95 + cp.dataLength := by
  have hsize := cp.dataLength_lt
  obtain ⟨peerName, text, dataJson, length, hname, htext, hread, hframe⟩ := h
  obtain ⟨data, peerName', s, hconv, hname', hs, hm, rfl⟩ := (readCb_eq_some_iff env cp).mp hread
  obtain rfl := Option.some.inj (hname.symm.trans hname')
  obtain ⟨hbytes, hfits⟩ := (take_dataJson_eq_iff (by omega) (by omega) hm
    (frame_ne_append_nul cp.cmd peerName text)).mp hframe
  have hs_text : s.bytes = text := frame_inj ((bytes_frameText _ _ _).symm.trans hbytes)
  obtain ⟨t, ht, hprinted⟩ := (converts env cp).sound hconv hs
  obtain rfl := Option.some.inj (htext.symm.trans ht)
  have hlength := length_document env cp
  rw [htext] at hlength
  refine ⟨?_, peerName, text.length, hname, hlength.symm, ?_⟩
  · rcases hprinted with ⟨-, hconvertible⟩ | hlt
    · exact hconvertible
    · exact absurd (congrArg List.length hs_text) hlt.ne
  · rw [CString.length, hbytes, length_frame] at hfits
    omega

/-- **The frame.**  The whole text is passed on, and no byte behind the buffer, exactly when the
conversion has room for the data, the memory holds a peer name, and the command, the name and the data
as JSON are together less than 95 bytes longer than the data. -/
theorem frameComplete_iff :
    FrameComplete env cp ↔
      Convertible env cp ∧ ∃ peerName length, strAt cp.memory 0 = some peerName ∧
        documentLength env cp = some length ∧
          (decimal cp.cmd).length + peerName.length + length < 95 + cp.dataLength := by
  have hsize := cp.dataLength_lt
  refine ⟨FrameComplete.fits env cp, ?_⟩
  rintro ⟨hconvertible, peerName, length, hname, hlength, hfits⟩
  rw [← length_document] at hlength
  obtain ⟨text, htext, rfl⟩ := Option.map_eq_some_iff.mp hlength
  obtain ⟨data, s, hconv, hs, rfl⟩ :=
    (converts env cp).complete htext hconvertible (by omega)
  have hm := snprintf_dataJson env.mem (show 0 < 128 + cp.dataLength by omega)
    (frameText cp.cmd peerName s)
  have htake := (take_dataJson_eq_iff (by omega) (by omega) hm
    (frame_ne_append_nul cp.cmd peerName s.bytes)).mpr
    ⟨bytes_frameText _ _ _, by rw [CString.length, bytes_frameText, length_frame]; omega⟩
  exact ⟨peerName, s.bytes, _, _, hname, htext,
    (readCb_eq_some_iff env cp).mpr ⟨data, peerName, s, hconv, hname, hs, hm, rfl⟩, htake⟩

/-! ### Data that is no JSON text -/

/-- A tokenizer that finds no token, and no structures in the memory. -/
def noTokenEnv : WsReadEnv Unit where
  jsmnParse _ _ := (-2, fun _ => ⟨.other, 0, 0⟩)
  mem := Malloc.clear
  fixed3 _ := CString.empty
  fixed6 _ := CString.empty
  arpDataSize := 0
  arpData _ := none
  clientDataSize := 0
  clientData _ := none
  scrDataSize := 3
  scrDataSize_lt := by decide
  scrData _ := none

/-- 300 bytes that are no text, from the peer `peer`. -/
def bytesPacket : L0Received where
  header :=
    { cmd := 129, peerNameLength := 5, dataLength := 300, checksum := 0, headerChecksum := 0 }
  memory := (lit "peer").toBuf ++ (List.replicate 300 1 ++ [0])
  inside := by decide +kernel

/-- They take 400 digits in base64, and the buffer has 428 bytes for these and the rest of the text. -/
theorem not_frameComplete :
    ¬∀ (env : WsReadEnv Unit) (cp : L0Received), FrameComplete env cp := by
  intro h
  obtain ⟨-, peerName, length, hname, hlength, hfits⟩ :=
    FrameComplete.fits noTokenEnv bytesPacket (h noTokenEnv bytesPacket)
  have hpeer : strAt bytesPacket.memory 0 = some (lit "peer") := by decide +kernel
  have hdocument : documentLength noTokenEnv bytesPacket = some 402 := by decide +kernel
  have hcmd : (decimal bytesPacket.cmd).length = 3 := by decide +kernel
  obtain rfl := Option.some.inj (hname.symm.trans hpeer)
  obtain rfl := Option.some.inj (hlength.symm.trans hdocument)
  have hfour : (lit "peer").length = 4 := by decide
  have hdata : bytesPacket.dataLength = 300 := by decide
  omega

end Teonet
