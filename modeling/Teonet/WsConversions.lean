import Teonet.L0Packet
import Teonet.Lib.Base64
import Teonet.Lib.Replace
import Teonet.PeersJson
import Teonet.WebSocketAuth

/-! # The data of an L0 packet as JSON (`teo_ws.c`)

Before `read_cb` sends an L0 packet to a websocket client it turns the data into JSON: lists of peers
and of clients and the answer to a subscription are arrays of structures, data that is no JSON text is
sent in base64 or, if it has a member `data`, with a backslash before the quotes in that member, and
a JSON text stays as it is.  `convert` is this part of the function.  The layouts of the structures
belong to the L0 client library.

A conversion `Converts` to a text if it prints that text as a whole where its block has room for it,
and a shorter one otherwise.  There is a lemma for each of the conversions. -/

namespace Teonet

open Block TextBuffer Replace

/-- `CMD_L_PEERS_ANSWER`. -/
def cmdLPeersAnswer : ℤ := 73

/-- `CMD_L_L0_CLIENTS_ANSWER`. -/
def cmdLL0ClientsAnswer : ℤ := 80

/-- `CMD_L_SUBSCRIBE_ANSWER`. -/
def cmdLSubscribeAnswer : ℤ := 83

/-- A packet in the read buffer: its header, and the memory from `peer_name` on, in which the name and
the data of the packet lie. -/
structure L0Received where
  header : L0Header
  memory : List UInt8
  inside : header.peerNameLength.toNat + header.dataLength.toNat ≤ memory.length

namespace L0Received

variable (cp : L0Received)

def cmd : ℤ := cp.header.cmd.toNat

def dataLength : ℕ := cp.header.dataLength.toNat

/-- The memory at `data`. -/
def data : List UInt8 := cp.memory.drop cp.header.peerNameLength.toNat

theorem dataLength_lt : cp.dataLength < 2 ^ 16 := cp.header.dataLength.toNat_lt

theorem dataLength_le : cp.dataLength ≤ cp.data.length := by
  have hinside := cp.inside
  rw [data, List.length_drop]
  exact Nat.le_sub_of_add_le' hinside

end L0Received

/-- The world of `read_cb`: the tokenizer, the heap, what `%.3f` and `%f` print, and the structures of
the L0 client library with their sizes.  A structure that does not lie in the memory is `none`. -/
structure WsReadEnv (D : Type) where
  jsmnParse : List UInt8 → ℕ → ℤ × (ℕ → JsmnTok)
  mem : Malloc
  fixed3 : D → CString
  fixed6 : List UInt8 → CString
  arpDataSize : ℕ
  arpData : List UInt8 → Option (List (ArpShowData D))
  clientDataSize : ℕ
  clientData : List UInt8 → Option (List CString)
  scrDataSize : ℕ
  scrDataSize_lt : scrDataSize < 2 ^ 16
  scrData : List UInt8 → Option (ℤ × ℤ)

/-- What `data_str`, `data_len`, and both of `beg` and `end` are when the frame is printed. -/
structure JsonData where
  dataStr : List UInt8
  dataLen : ℕ
  quote : CString

namespace JsonData

/-- `(int)data_len`. -/
def precision (d : JsonData) : ℤ := Int.bmod d.dataLen (2 ^ 32)

/-- `%.*s` of `data_str`.  A negative precision is none. -/
def text (d : JsonData) : Option CString :=
  if d.precision < 0 then strAt d.dataStr 0
  else if d.precision.toNat ≤ d.dataStr.length ∨ 0 ∈ d.dataStr then
    some (CString.ofBuf (d.dataStr.take d.precision.toNat))
  else none

/-- The text between `beg` and `end`. -/
def printed (d : JsonData) : Option CString := d.text.map fun s => concat [d.quote, s, d.quote]

/-- A string with its `strlen`. -/
def ofText (quote s : CString) : JsonData := { dataStr := s.toBuf, dataLen := s.length, quote := quote }

end JsonData

/-! ### Base64 -/

def base64 (l : List UInt8) : CString := ⟨Base64.encode l, Base64.nul_not_mem_encode l⟩

/-- `mg_base64_encode` of `data_len` bytes into a block of `2 * data_len + 4`.  Both numbers are passed
as `int`. -/
def base64Text (mem : Malloc) (src : List UInt8) (dataLen : ℕ) : Option CString := do
  let bytes ← bytesAt src 0 (Int.bmod dataLen (2 ^ 32)).toNat
  let b64Data ← store (mem.block (Int.bmod (2 * dataLen + 4) (2 ^ 32)).toNat) 0 (base64 bytes).toBuf
  strAt b64Data 0

/-! ### Lists and subscriptions -/

/-- The text before the clients. -/
def clientsHead (length : ℕ) : CString :=
  concat [lit "\x7b \"length\": ", decimal (Int.bmod length (2 ^ 32)), lit ", \"client_data_ar\": [ "]

/-- A client. -/
def clientElement (name : CString) : CString :=
  concat [lit "\x7b ", lit "\"name\": \"", name, lit "\"", lit " \x7d"]

/-- The list of clients, which is printed without regard to the size of its block. -/
def clientsJson (mem : Malloc) (elemSize : ℕ) (names : List CString) : Option CString :=
  (buildWith sprintf mem (elemSize * 2 * names.length % 2 ^ 64)
    (clientsHead names.length :: separated (names.map clientElement)) jsonTail).bind (strAt · 0)

/-- An event. -/
def scrText (ev cmd : ℤ) (data : CString) : CString :=
  concat [lit "\x7b \"ev\": ", decimal ev, lit ", \"cmd\": ", decimal cmd, lit ", \"data\": \"", data,
    lit "\" \x7d"]

/-- The answer to an echo message. -/
def echoText (cmd : ℤ) (peerName msg time : CString) : CString :=
  concat [lit "\x7b \"cmd\": ", decimal cmd, lit ", \"from\": \"", peerName,
    lit "\", \"data\": \x7b \"msg\": \"", msg, lit "\", \"time\": ", time, lit " \x7d \x7d"]

/-! ### Quotes -/

/-- The bytes that are copied from `data[i]` on, for a `state_f` of 0 or 1: those of the loop, and
those that are left when it ends. -/
def escapeLoop : Bool → List UInt8 → List UInt8
  | _, [] => []
  | false, c :: s => c :: escapeLoop (c = 123) s
  | true, c :: s =>
    if c = 125 then c :: s
    else if c = 34 then 92 :: c :: escapeLoop true s
    else c :: escapeLoop true s

/-- The text before the place `i`, what the loop copies from there on, and the rest. -/
def escapeText (data : List UInt8) (dataLength i : ℕ) : List UInt8 :=
  data.take i ++ escapeLoop false ((data.take dataLength).drop i)

/-- This text in a block of twice the length.  The number of bytes that are copied last is negative if
the place lies behind the data. -/
def escapeData (mem : Malloc) (data : List UInt8) (dataLength i : ℕ) : Option JsonData :=
  if dataLength < i then none
  else
    (store (mem.block (dataLength * 2)) 0 (escapeText data dataLength i)).map fun dataNew =>
      { dataStr := dataNew
        dataLen := (escapeText data dataLength i).length
        quote := CString.empty }

/-! ### The conversion -/

/-- The branches of `read_cb`. -/
inductive Conversion
  | peers
  | clients
  | subscribe
  | echo
  | undefined
  | raw

variable {D : Type} (env : WsReadEnv D) (cp : L0Received)

/-- The type of the first token; `none` is `JSMN_UNDEFINED`. -/
def dataType : Option JsmnType :=
  let numOfTags := getNumOfTags cp.data cp.dataLength
  if numOfTags ≠ 0 then
    let (r, t) := env.jsmnParse (cp.data.take cp.dataLength) numOfTags
    if ¬r < 1 then some (t 0).type else none
  else none

/-- `beg` and `end` of data that is printed as it is. -/
def dataQuote : CString :=
  if dataType env cp = some .string ∨ dataType env cp = none then lit "\"" else CString.empty

/-- The branch that is taken. -/
def conversion : Conversion :=
  if cp.cmd = cmdLPeersAnswer then .peers
  else if cp.cmd = cmdLL0ClientsAnswer then .clients
  else if cp.cmd = cmdLSubscribeAnswer then .subscribe
  else if cp.cmd = cmdLEcho ∧ getNumOfTags cp.data cp.dataLength = 0 then .echo
  else if dataType env cp = none then .undefined
  else .raw

/-- The data of a subscription, which is behind the structure with the event and the command. -/
def scrJson (e : ℤ × ℤ) : Option CString :=
  (base64Text env.mem (cp.data.drop env.scrDataSize)
    (((cp.dataLength : ℤ) - env.scrDataSize) % 2 ^ 64).toNat).map (scrText e.1 e.2)

/-- The time of an echo message is the `double` behind its text. -/
def convertEcho : Option JsonData := do
  let peerName ← strAt cp.memory 0
  let msg ← strAt cp.data 0
  let time ← bytesAt cp.data (msg.length + 1) 8
  some (.ofText (dataQuote env cp) (echoText cp.cmd peerName msg (env.fixed6 time)))

/-- Data that is no JSON text. -/
def convertUndefined : Option JsonData := do
  let s ← strAt cp.data 0
  match cut (ascii "\"data\":") s.bytes with
  | some (before, _) => escapeData env.mem cp.data cp.dataLength before.length
  | none =>
    let b64Data ← base64Text env.mem cp.data cp.dataLength
    some (.ofText (dataQuote env cp) b64Data)

/-- What `read_cb` makes of the data. -/
def convert : Option JsonData :=
  match conversion env cp with
  | .peers =>
    ((env.arpData cp.data).bind (ksnetArpShowDataJson env.fixed3 env.mem env.arpDataSize)).map
      (.ofText CString.empty)
  | .clients =>
    ((env.clientData cp.data).bind (clientsJson env.mem env.clientDataSize)).map
      (.ofText CString.empty)
  | .subscribe => ((env.scrData cp.data).bind (scrJson env cp)).map (.ofText CString.empty)
  | .echo => convertEcho env cp
  | .undefined => convertUndefined env cp
  | .raw =>
    some { dataStr := cp.data, dataLen := cp.dataLength, quote := dataQuote env cp }

/-! ### What is printed -/

/-- A text in quotes. -/
def quoted (quote s : CString) : List UInt8 := quote.bytes ++ s.bytes ++ quote.bytes

theorem concat_quoted (quote s : CString) : (concat [quote, s, quote]).bytes = quoted quote s := by
  simp [concat, quoted]

theorem length_quoted (quote s : CString) :
    (quoted quote s).length = s.length + 2 * quote.length := by
  simp only [quoted, List.length_append, CString.length]
  omega

namespace JsonData

theorem precision_of_lt {d : JsonData} (h : d.dataLen < 2 ^ 31) : d.precision = d.dataLen := by
  unfold precision
  rw [Int.bmod_eq_of_le] <;> omega

theorem text_of_lt {d : JsonData} (h : d.dataLen < 2 ^ 31) (hin : d.dataLen ≤ d.dataStr.length) :
    d.text = some (CString.ofBuf (d.dataStr.take d.dataLen)) := by
  have hprecision : d.precision.toNat = d.dataLen := by rw [precision_of_lt h, Int.toNat_natCast]
  rw [text, if_neg (by rw [precision_of_lt h]; omega), hprecision, if_pos (.inl hin)]

/-- Bytes of which all are printed, unless there is a zero byte. -/
theorem printed_append {t : List UInt8} (h : t.length < 2 ^ 31) (rest : List UInt8) (quote : CString) :
    ({ dataStr := t ++ rest, dataLen := t.length, quote := quote } : JsonData).printed =
      some (concat [quote, CString.ofBuf t, quote]) := by
  have hin : t.length ≤ (t ++ rest).length := by
    rw [List.length_append]
    exact Nat.le_add_right _ _
  rw [printed, text_of_lt h hin]
  dsimp only
  rw [List.take_left]
  rfl

theorem text_ofText (quote : CString) {s : CString} (h : s.length < 2 ^ 31) :
    (ofText quote s).text = some s := by
  have htext : (ofText quote s).text = some (CString.ofBuf (s.toBuf.take s.length)) :=
    text_of_lt h (by rw [ofText, CString.toBuf_length]; exact Nat.le_succ _)
  rw [htext, CString.ofBuf_take_toBuf, CString.take_of_length_le le_rfl]

/-- What is printed of a string is its start. -/
theorem take_of_text {quote s t : CString} (h : (ofText quote s).text = some t) :
    ∃ n, t = s.take n := by
  unfold text at h
  split_ifs at h
  · have hstr : strAt s.toBuf 0 = some s := strAt_of_drop_eq (List.append_nil _).symm
    refine ⟨s.length, ?_⟩
    rw [CString.take_of_length_le le_rfl]
    exact Option.some.inj (h.symm.trans hstr)
  · exact ⟨_, (Option.some.inj h).symm.trans (CString.ofBuf_take_toBuf s _)⟩

/-- It is the whole string, or it is shorter. -/
theorem eq_or_lt_of_printed {quote s p : CString} (h : (ofText quote s).printed = some p) :
    p = concat [quote, s, quote] ∨ p.length < (quoted quote s).length := by
  obtain ⟨t, ht, rfl⟩ := Option.map_eq_some_iff.mp h
  obtain ⟨n, rfl⟩ := take_of_text ht
  by_cases hn : s.length ≤ n
  · exact .inl (by rw [CString.take_of_length_le hn]; rfl)
  · refine .inr ?_
    have hlength : (concat [quote, s.take n, quote]).length = (quoted quote (s.take n)).length :=
      congrArg List.length (concat_quoted quote (s.take n))
    have hprinted := hlength.trans (length_quoted quote (s.take n))
    rw [CString.length_take] at hprinted
    rw [length_quoted]
    change (concat [quote, s.take n, quote]).length < _
    omega

end JsonData

/-- A conversion prints a text as a whole if it fits, and something shorter otherwise. -/
structure Converts (conv : Option JsonData) (text : Option (List UInt8)) (fits : Prop) : Prop where
  sound : ∀ {d p}, conv = some d → d.printed = some p →
    ∃ t, text = some t ∧ (p.bytes = t ∧ fits ∨ p.length < t.length)
  complete : ∀ {t}, text = some t → fits → t.length < 2 ^ 31 →
    ∃ d p, conv = some d ∧ d.printed = some p ∧ p.bytes = t

/-- A conversion to a string. -/
theorem Converts.ofText {c : Option CString} {quote : CString} {text : Option (List UInt8)}
    {fits : Prop}
    (hsound : ∀ s, c = some s → ∃ t, text = some t ∧
      (quoted quote s = t ∧ fits ∨ (quoted quote s).length < t.length))
    (hcomplete : ∀ t, text = some t → fits → ∃ s, c = some s ∧ quoted quote s = t) :
    Converts (c.map (JsonData.ofText quote)) text fits where
  sound {d p} hd hp := by
    obtain ⟨s, hs, rfl⟩ := Option.map_eq_some_iff.mp hd
    obtain ⟨t, ht, htext⟩ := hsound s hs
    refine ⟨t, ht, ?_⟩
    rcases JsonData.eq_or_lt_of_printed hp with rfl | hlt
    · rwa [CString.length, concat_quoted]
    · refine .inr (hlt.trans_le ?_)
      rcases htext with ⟨rfl, -⟩ | hle
      · exact le_rfl
      · exact hle.le
  complete {t} ht hfits hint := by
    obtain ⟨s, hs, rfl⟩ := hcomplete t ht hfits
    rw [length_quoted] at hint
    refine ⟨_, _, Option.map_eq_some_iff.mpr ⟨s, hs, rfl⟩, ?_, concat_quoted quote s⟩
    rw [JsonData.printed, JsonData.text_ofText quote (by omega)]
    rfl

/-- A structure that is printed as a string. -/
theorem Converts.bind {α : Type} {x : Option α} {f : α → Option CString} {g : α → List UInt8}
    {fits : α → Prop}
    (hsound : ∀ a s, f a = some s → s.bytes = g a ∧ fits a ∨ s.length < (g a).length)
    (hcomplete : ∀ a, fits a → ∃ s, f a = some s ∧ s.bytes = g a) :
    Converts ((x.bind f).map (JsonData.ofText CString.empty)) (x.map g) (∀ a ∈ x, fits a) := by
  have hquoted (s : CString) : quoted CString.empty s = s.bytes := List.append_nil _
  refine Converts.ofText (fun s hs => ?_) fun t ht hfits => ?_
  · obtain ⟨a, rfl, ha⟩ := Option.bind_eq_some_iff.mp hs
    refine ⟨g a, rfl, ?_⟩
    rw [hquoted]
    refine (hsound a s ha).imp_left fun h => ⟨h.1, fun b hb => ?_⟩
    obtain rfl := Option.some.inj hb
    exact h.2
  · obtain ⟨a, rfl, rfl⟩ := Option.map_eq_some_iff.mp ht
    obtain ⟨s, hs, he⟩ := hcomplete a (hfits a rfl)
    exact ⟨s, hs, (hquoted s).trans he⟩

/-- A conversion that has no other result than the text. -/
theorem Converts.exact {conv : Option JsonData} {t : List UInt8} {fits : Prop}
    (hfits : conv.isSome → fits)
    (hprinted : fits → ∃ d p, conv = some d ∧ d.printed = some p ∧ p.bytes = t) :
    Converts conv (some t) fits where
  sound {d p} hd hp := by
    have h : fits := hfits (by rw [hd]; rfl)
    obtain ⟨d', p', hd', hp', he⟩ := hprinted h
    obtain rfl := Option.some.inj (hd.symm.trans hd')
    obtain rfl := Option.some.inj (hp.symm.trans hp')
    exact ⟨t, rfl, .inl ⟨he, h⟩⟩
  complete {t'} ht h _ := by
    obtain rfl := Option.some.inj ht
    exact hprinted h

/-! ### Base64 text -/

theorem length_base64 (l : List UInt8) : (base64 l).length = 4 * ((l.length + 2) / 3) :=
  Base64.length_encode l

/-- The block is large enough for what is a length of data. -/
theorem base64Text_eq (mem : Malloc) {src : List UInt8} {n : ℕ} (hn : n < 2 ^ 16)
    (hsrc : n ≤ src.length) : base64Text mem src n = some (base64 (src.take n)) := by
  have hlen : (Int.bmod n (2 ^ 32)).toNat = n := by
    rw [Int.bmod_eq_of_le] <;> omega
  have hsize : (Int.bmod (2 * n + 4) (2 ^ 32)).toNat = 2 * n + 4 := by
    rw [Int.bmod_eq_of_le] <;> omega
  have hroom : (base64 (src.take n)).length < 2 * n + 4 := by
    rw [length_base64, List.length_take_of_le hsrc]
    omega
  unfold base64Text
  rw [hlen, hsize, bytesAt_eq (by omega), List.drop_zero]
  exact (mem.store_block _ _).trans (if_pos hroom)

/-- If the data is shorter than the structure, its length wraps.  One byte less is as good as none. -/
theorem base64Text_wrapped (mem : Malloc) (src : List UInt8) {k : ℕ} (hk : 0 < k) (hle : k < 2 ^ 16) :
    base64Text mem src (2 ^ 64 - k) = if k = 1 then some (base64 []) else none := by
  have hlen : (Int.bmod (2 ^ 64 - k : ℕ) (2 ^ 32)).toNat = 0 := by
    rw [Int.bmod_def]
    omega
  have hsize : (Int.bmod (2 * (2 ^ 64 - k : ℕ) + 4) (2 ^ 32)).toNat = 4 - 2 * k := by
    rw [Int.bmod_def]
    omega
  have hnil : (base64 []).length = 0 := length_base64 []
  unfold base64Text
  rw [hlen, hsize, bytesAt_eq (Nat.zero_le _), List.take_zero]
  refine (mem.store_block _ _).trans ?_
  rw [hnil]
  refine if_congr ?_ rfl rfl
  omega

/-! ### Quotes in the first braces -/

/-- A quote gets a backslash. -/
def slash (c : UInt8) : List UInt8 := if c = 34 then [92, 34] else [c]

/-- The quotes between the first `{` and the next `}` get backslashes. -/
def slashQuotes (s : List UInt8) : List UInt8 :=
  s.takeWhile (· ≠ 123) ++
    match s.dropWhile (· ≠ 123) with
    | [] => []
    | c :: t => c :: ((t.takeWhile (· ≠ 125)).flatMap slash ++ t.dropWhile (· ≠ 125))

/-- How many they are. -/
def quotesInside (s : List UInt8) : ℕ :=
  match s.dropWhile (· ≠ 123) with
  | [] => 0
  | _ :: t => (t.takeWhile (· ≠ 125)).count 34

theorem escapeLoop_true (s : List UInt8) :
    escapeLoop true s = (s.takeWhile (· ≠ 125)).flatMap slash ++ s.dropWhile (· ≠ 125) := by
  induction s with
  | nil => rfl
  | cons c s ih =>
    rw [escapeLoop, ih]
    by_cases hend : c = 125
    · subst hend
      rfl
    · rw [List.takeWhile_cons, List.dropWhile_cons, if_neg hend]
      simp only [hend, ne_eq, not_false_eq_true, decide_true, if_true, List.flatMap_cons, slash]
      split_ifs with hquote
      · subst hquote
        rfl
      · rfl

theorem escapeLoop_false (s : List UInt8) : escapeLoop false s = slashQuotes s := by
  induction s with
  | nil => rfl
  | cons c s ih =>
    rw [escapeLoop]
    by_cases hopen : c = 123
    · subst hopen
      change 123 :: escapeLoop true s = _
      rw [escapeLoop_true]
      rfl
    · rw [decide_eq_false hopen, ih, slashQuotes, slashQuotes, List.takeWhile_cons,
        List.dropWhile_cons]
      simp only [hopen, ne_eq, not_false_eq_true, decide_true, if_true, List.cons_append]

/-- The loop goes over zero bytes, and they do not matter for what stands before them. -/
theorem ofBuf_escapeLoop (state : Bool) (s : List UInt8) :
    (CString.ofBuf (escapeLoop state s)).bytes = escapeLoop state (CString.ofBuf s).bytes := by
  induction s generalizing state with
  | nil => cases state <;> rfl
  | cons c s ih =>
    by_cases hc : c = 0
    · subst hc
      cases state <;> rfl
    · rw [CString.bytes_ofBuf_cons hc]
      cases state with
      | false => rw [escapeLoop, escapeLoop, CString.bytes_ofBuf_cons hc, ih]
      | true =>
        rw [escapeLoop, escapeLoop]
        split_ifs
        · exact CString.bytes_ofBuf_cons hc s
        · rw [CString.bytes_ofBuf_cons (by decide), CString.bytes_ofBuf_cons hc, ih]
        · rw [CString.bytes_ofBuf_cons hc, ih]

theorem length_flatMap_slash (s : List UInt8) : (s.flatMap slash).length = s.length + s.count 34 := by
  induction s with
  | nil => rfl
  | cons c s ih =>
    rw [List.flatMap_cons, List.length_append, ih, slash]
    split_ifs with hc
    · subst hc
      rw [List.count_cons_self, List.length_cons]
      simp only [List.length_cons, List.length_nil]
      omega
    · rw [List.count_cons_of_ne hc]
      simp only [List.length_cons, List.length_nil]
      omega

theorem length_slashQuotes (s : List UInt8) :
    (slashQuotes s).length = s.length + quotesInside s := by
  have hopen := congrArg List.length (List.takeWhile_append_dropWhile (p := (· ≠ 123)) (l := s))
  rw [List.length_append] at hopen
  unfold slashQuotes quotesInside
  rw [List.length_append]
  cases h : s.dropWhile (· ≠ 123) with
  | nil =>
    rw [h] at hopen
    exact hopen
  | cons c t =>
    have hclose := congrArg List.length (List.takeWhile_append_dropWhile (p := (· ≠ 125)) (l := t))
    rw [List.length_append] at hclose
    rw [h, List.length_cons] at hopen
    dsimp only
    rw [List.length_cons, List.length_append, length_flatMap_slash]
    omega

/-! ### Each conversion -/

/-- The text of a list of clients. -/
def clientsDocument (names : List CString) : List UInt8 :=
  arrayDocument (clientsHead names.length) (names.map clientElement)

theorem converts_peers {D : Type} (env : WsReadEnv D) (x : Option (List (ArpShowData D))) :
    Converts ((x.bind (ksnetArpShowDataJson env.fixed3 env.mem env.arpDataSize)).map
        (.ofText CString.empty))
      (x.map fun ar => arpDocument (ar.map (showElement env.fixed3)))
      (∀ ar ∈ x, JsonFits env.arpDataSize (ar.map (showElement env.fixed3))) :=
  Converts.bind (fun _ _ h => eq_or_lt_of_array (prints_arpJson _ _) h)
    fun _ h => buildWith_array (prints_arpJson _ _) env.mem h

theorem converts_clients (mem : Malloc) (elemSize : ℕ) (x : Option (List CString)) :
    Converts ((x.bind (clientsJson mem elemSize)).map (.ofText CString.empty))
      (x.map clientsDocument)
      (∀ names ∈ x, ArrayFits elemSize (clientsHead names.length) (names.map clientElement)) := by
  have hsize (names : List CString) :
      clientsJson mem elemSize names =
        (buildWith sprintf mem (elemSize * 2 * (names.map clientElement).length % 2 ^ 64)
          (clientsHead names.length :: separated (names.map clientElement)) jsonTail).bind
          (strAt · 0) := by
    rw [clientsJson, List.length_map]
  refine Converts.bind (fun names s h => ?_) fun names h => ?_
  · rw [hsize] at h
    exact eq_or_lt_of_array (prints_sprintf _) h
  · rw [hsize]
    exact buildWith_array (prints_sprintf _) mem h

theorem converts_scr {D : Type} (env : WsReadEnv D) (cp : L0Received) (x : Option (ℤ × ℤ)) :
    Converts ((x.bind (scrJson env cp)).map (.ofText CString.empty))
      (x.map fun e =>
        (scrText e.1 e.2 (base64 ((cp.data.take cp.dataLength).drop env.scrDataSize))).bytes)
      (∀ _ ∈ x, env.scrDataSize ≤ cp.dataLength + 1) := by
  have hlength := cp.dataLength_lt
  have hin := cp.dataLength_le
  have hsize := env.scrDataSize_lt
  have hjson : base64Text env.mem (cp.data.drop env.scrDataSize)
        (((cp.dataLength : ℤ) - env.scrDataSize) % 2 ^ 64).toNat =
      if env.scrDataSize ≤ cp.dataLength + 1 then
        some (base64 ((cp.data.take cp.dataLength).drop env.scrDataSize))
      else none := by
    by_cases hle : env.scrDataSize ≤ cp.dataLength
    · have hlen : (((cp.dataLength : ℤ) - env.scrDataSize) % 2 ^ 64).toNat =
          cp.dataLength - env.scrDataSize := by omega
      rw [hlen, base64Text_eq env.mem (by omega) (by rw [List.length_drop]; omega),
        if_pos (by omega), List.drop_take]
    · have hlen : (((cp.dataLength : ℤ) - env.scrDataSize) % 2 ^ 64).toNat =
          2 ^ 64 - (env.scrDataSize - cp.dataLength) := by omega
      have hnil : (cp.data.take cp.dataLength).drop env.scrDataSize = [] :=
        List.drop_eq_nil_of_le (by rw [List.length_take]; omega)
      rw [hlen, base64Text_wrapped env.mem _ (by omega) (by omega), hnil]
      refine if_congr ?_ rfl rfl
      omega
  refine Converts.bind (fun e s h => ?_) fun e h => ?_
  · rw [scrJson, hjson] at h
    obtain ⟨t, ht, rfl⟩ := Option.map_eq_some_iff.mp h
    split_ifs at ht with hle
    obtain rfl := Option.some.inj ht
    exact .inl ⟨rfl, hle⟩
  · refine ⟨_, ?_, rfl⟩
    rw [scrJson, hjson, if_pos h]
    rfl

theorem quotesInside_le (s : List UInt8) : quotesInside s ≤ s.length := by
  have hopen := congrArg List.length (List.takeWhile_append_dropWhile (p := (· ≠ 123)) (l := s))
  rw [List.length_append] at hopen
  unfold quotesInside
  cases h : s.dropWhile (· ≠ 123) with
  | nil => exact Nat.zero_le _
  | cons c t =>
    have hcount : (t.takeWhile (· ≠ 125)).count 34 ≤ t.length :=
      List.count_le_length.trans (List.takeWhile_prefix _).length_le
    rw [h, List.length_cons] at hopen
    dsimp only
    omega

theorem converts_escape (mem : Malloc) {data before : List UInt8} {n : ℕ} (hn : n < 2 ^ 16)
    (hin : n ≤ data.length) (hnul : 0 ∉ before) (hstart : before <+: data) :
    Converts (escapeData mem data n before.length)
      (some (before ++ slashQuotes (CString.ofBuf ((data.take n).drop before.length)).bytes))
      (before.length ≤ n) := by
  refine Converts.exact (fun h => ?_) fun hle => ?_
  · by_contra hlt
    rw [escapeData, if_pos (by omega)] at h
    cases h
  · have htext : escapeText data n before.length =
        before ++ slashQuotes ((data.take n).drop before.length) := by
      rw [escapeText, ← List.prefix_iff_eq_take.mp hstart, escapeLoop_false]
    have hbound : (escapeText data n before.length).length ≤ n * 2 := by
      have hquotes := quotesInside_le ((data.take n).drop before.length)
      rw [htext, List.length_append, length_slashQuotes]
      rw [List.length_drop, List.length_take_of_le hin] at hquotes ⊢
      omega
    have hbytes : (CString.ofBuf (escapeText data n before.length)).bytes =
        before ++ slashQuotes (CString.ofBuf ((data.take n).drop before.length)).bytes := by
      rw [htext, CString.bytes_ofBuf_append hnul, ← escapeLoop_false, ofBuf_escapeLoop,
        escapeLoop_false]
    have hstore := store_zero (m := mem.block (n * 2)) (b := escapeText data n before.length)
      (by rwa [mem.length_block])
    refine ⟨_, _, (if_neg (by omega)).trans (congrArg _ hstore),
      JsonData.printed_append (by omega) _ _, (concat_quoted _ _).trans ?_⟩
    rw [← hbytes]
    exact List.append_nil _

theorem converts_raw {data : List UInt8} {n : ℕ} (hn : n < 2 ^ 16) (hin : n ≤ data.length)
    (quote : CString) :
    Converts (some { dataStr := data, dataLen := n, quote := quote })
      (some (quoted quote (CString.ofBuf (data.take n)))) True := by
  refine Converts.exact (fun _ => trivial) fun _ => ⟨_, _, rfl, ?_, concat_quoted quote _⟩
  rw [JsonData.printed, JsonData.text_of_lt (show n < 2 ^ 31 by omega) hin]
  rfl

end Teonet
