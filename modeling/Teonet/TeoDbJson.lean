import Mathlib.Data.List.DropRight
import Teonet.L0Json
import Teonet.Lib.Replace

/-! # JSON requests of the key-value store (`teodb.c`)

A request is either a block or a text.  The text of a request has its quotes escaped, as it may have
come as a part of another text, and `data_to_json_str` undoes that in two passes over the whole text:
first every backslash with a quote behind it gives the quote, and then every two backslashes give
one.  `dataToJsonStr_escapeJson` says that this is right for every text.

`json_parse` looks for the values of five members in the tokens of the text.  It takes the token
behind a name for the value without asking whether there is one, which is `none` here;
`jsonParse_isSome_iff` says for which texts it stays inside the tokens. -/

namespace Teonet

open Replace TokenScan

/-! ### The text of a request -/

/-- A space or a tabulation. -/
def isBlank (c : UInt8) : Bool := c = 32 || c = 9

/-- `trim`. -/
def trim (s : List UInt8) : List UInt8 := (s.dropWhile isBlank).rdropWhile isBlank

/-- `str_replace`. -/
def strReplace (source needle into : List UInt8) : List UInt8 := replaceAll needle into source

/-- `JSON`. -/
def jsonTag : List UInt8 := ascii "JSON"

/-- `data_to_json_str`; the tag may be followed by a colon. -/
def dataToJsonStr (data : List UInt8) : List UInt8 :=
  let ptr := jsonTag.length + if data[jsonTag.length]? = some 58 then 1 else 0
  let jsonDataUnesc := trim (CString.ofBuf (data.drop ptr)).bytes
  let jsonDataUnesc := strReplace jsonDataUnesc (ascii "\\\"") (ascii "\"")
  strReplace jsonDataUnesc (ascii "\\\\") (ascii "\\")

/-! ### Escaped texts -/

/-- Put a backslash before every backslash and every quote. -/
def escapeJson (s : List UInt8) : List UInt8 :=
  s.flatMap fun c => if c = 92 ∨ c = 34 then [92, c] else [c]

/-- Put a backslash before every backslash. -/
def escapeBackslashes (s : List UInt8) : List UInt8 :=
  s.flatMap fun c => if c = 92 then [92, c] else [c]

theorem escapeJson_cons (c : UInt8) (s : List UInt8) :
    escapeJson (c :: s) = (if c = 92 ∨ c = 34 then [92, c] else [c]) ++ escapeJson s := rfl

theorem escapeBackslashes_cons (c : UInt8) (s : List UInt8) :
    escapeBackslashes (c :: s) = (if c = 92 then [92, c] else [c]) ++ escapeBackslashes s := rfl

/-- A word that begins with a backslash does not stand at another letter. -/
theorem not_prefix_of_ne {a c : UInt8} {s : List UInt8} (hc : c ≠ 92) : ¬[92, a] <+: c :: s := by
  rw [List.cons_prefix_cons]
  exact fun h => hc h.1.symm

/-- An escaped text does not begin with a quote. -/
theorem not_quote_prefix_escapeJson (s : List UInt8) : ¬[34] <+: escapeJson s := by
  cases s with
  | nil => simp [escapeJson]
  | cons c s =>
    rw [escapeJson_cons]
    split
    · simp
    · rename_i hc
      rw [List.singleton_append, List.cons_prefix_cons]
      exact fun h => hc (.inr h.1.symm)

/-- The first pass takes away the backslashes before the quotes, and no others: the backslash at
which it looks is never one that an escaped backslash ends with, since what follows that one is not a
quote. -/
theorem strReplace_escapeJson (s : List UInt8) :
    strReplace (escapeJson s) [92, 34] [34] = escapeBackslashes s := by
  have hne : ([92, 34] : List UInt8) ≠ [] := by simp
  induction s with
  | nil => exact replaceAll_nil hne _
  | cons c s ih =>
    unfold strReplace at ih ⊢
    rw [escapeJson_cons, escapeBackslashes_cons]
    by_cases hback : c = 92
    · subst hback
      have hfirst : ¬[92, 34] <+: (92 :: 92 :: escapeJson s : List UInt8) := by
        simp [List.cons_prefix_cons]
      have hsecond : ¬[92, 34] <+: (92 :: escapeJson s : List UInt8) := by
        rw [List.cons_prefix_cons]
        exact fun h => not_quote_prefix_escapeJson s h.2
      rw [if_pos (.inl rfl), if_pos rfl, List.cons_append, List.cons_append, List.nil_append,
        replaceAll_cons hfirst, replaceAll_cons hsecond, ih]
      rfl
    · rw [if_neg hback]
      by_cases hquote : c = 34
      · subst hquote
        rw [if_pos (.inr rfl), replaceAll_append hne, ih]
      · rw [if_neg (not_or.mpr ⟨hback, hquote⟩), List.singleton_append, List.singleton_append,
          replaceAll_cons (not_prefix_of_ne hback), ih]

/-- The second pass meets the backslashes two at a time. -/
theorem strReplace_escapeBackslashes (s : List UInt8) :
    strReplace (escapeBackslashes s) [92, 92] [92] = s := by
  have hne : ([92, 92] : List UInt8) ≠ [] := by simp
  induction s with
  | nil => exact replaceAll_nil hne _
  | cons c s ih =>
    unfold strReplace at ih ⊢
    rw [escapeBackslashes_cons]
    by_cases hback : c = 92
    · subst hback
      rw [if_pos rfl, replaceAll_append hne, ih]
      rfl
    · rw [if_neg hback, List.singleton_append, replaceAll_cons (not_prefix_of_ne hback), ih]

theorem zero_notMem_escapeJson {s : List UInt8} (h : 0 ∉ s) : 0 ∉ escapeJson s := by
  unfold escapeJson
  rw [List.mem_flatMap]
  rintro ⟨c, hc, hmem⟩
  have hne : c ≠ 0 := fun he => h (he ▸ hc)
  split at hmem <;> simp_all

theorem escapeJson_concat (s : List UInt8) (c : UInt8) :
    ∃ l, escapeJson (s ++ [c]) = l ++ [c] := by
  unfold escapeJson
  rw [List.flatMap_append, List.flatMap_singleton]
  split
  · exact ⟨_, List.append_assoc _ [92] [c] |>.symm⟩
  · exact ⟨_, rfl⟩

/-- The first and the last letter of an escaped text are blanks only if those of the text are. -/
theorem trim_escapeJson {s : List UInt8} (hhead : ∀ c ∈ s.head?, isBlank c = false)
    (hlast : ∀ c ∈ s.getLast?, isBlank c = false) : trim (escapeJson s) = escapeJson s := by
  have hfront : (escapeJson s).dropWhile isBlank = escapeJson s := by
    cases s with
    | nil => rfl
    | cons c s =>
      have hc : isBlank c = false := hhead c rfl
      rw [escapeJson_cons]
      split
      · rfl
      · rw [List.singleton_append, List.dropWhile_cons_of_neg (by simp [hc])]
  rw [trim, hfront]
  rcases List.eq_nil_or_concat s with rfl | ⟨s', c, rfl⟩
  · rfl
  · have hc : isBlank c = false := hlast c (by simp)
    obtain ⟨l, hl⟩ := escapeJson_concat s' c
    rw [List.concat_eq_append, hl, List.rdropWhile_concat_neg _ _ _ (by simp [hc])]

/-- **Unescaping**: of a text without blanks at its ends, escaped, with the tag and a colon in front
and a zero byte behind, `data_to_json_str` gives back the text. -/
theorem dataToJsonStr_escapeJson (s : List UInt8) (hzero : 0 ∉ s)
    (hhead : ∀ c ∈ s.head?, isBlank c = false) (hlast : ∀ c ∈ s.getLast?, isBlank c = false) :
    dataToJsonStr (ascii "JSON:" ++ escapeJson s ++ [0]) = s := by
  have htext : (CString.ofBuf (escapeJson s ++ [0])).bytes = escapeJson s :=
    CString.bytes_ofBuf_append_zero (zero_notMem_escapeJson hzero)
  have hdata : dataToJsonStr (ascii "JSON:" ++ escapeJson s ++ [0]) =
      strReplace (strReplace (trim (CString.ofBuf (escapeJson s ++ [0])).bytes) [92, 34] [34])
        [92, 92] [92] := rfl
  rw [hdata, htext, trim_escapeJson hhead hlast, strReplace_escapeJson, strReplace_escapeBackslashes]

/-- The text `\"` between quotes. -/
theorem dataToJsonStr_escapeJson_quoted :
    dataToJsonStr (ascii "JSON:" ++ escapeJson (ascii "\"\\\"\"") ++ [0]) = ascii "\"\\\"\"" :=
  dataToJsonStr_escapeJson _ (by decide) (by rintro c ⟨⟩; rfl) (by rintro c ⟨⟩; rfl)

/-! ### The members of a request -/

/-- The members of `json_param`. -/
inductive DbKey
  | key
  | data
  | id
  | fromIdx
  | toIdx
deriving DecidableEq

/-- The name of a member. -/
def DbKey.tag : DbKey → String
  | key => "key"
  | data => "data"
  | id => "id"
  | fromIdx => "from"
  | toIdx => "to"

/-- The members in the order in which they are looked for. -/
def DbKey.all : List DbKey := [key, data, id, fromIdx, toIdx]

/-- `json_param`. -/
abbrev DbParam : Type := DbKey → Option CString

/-- The tokenizer, whose tokens lie in the text that it is given. -/
structure DbJsonEnv where
  jsmn : JsonEnv
  inText : ∀ json room tokens, jsmn.jsmnParse json room = some tokens →
    ∀ t ∈ tokens, t.start ≤ t.stop ∧ t.stop ≤ json.length

/-- The loop of `json_parse` over the tokens that are left. -/
def dbTokenLoop (json : List UInt8) : List JsmnTok → DbParam → Option DbParam
  | [], jp => some jp
  | tok :: rest, jp =>
    if DbKey.all.all fun k => (jp k).isSome then some jp
    else
      match DbKey.all.find? fun k => (jp k).isNone && jsoneq json tok k.tag with
      | none => dbTokenLoop json rest jp
      | some k =>
        match rest with
        | [] => none
        | value :: rest => dbTokenLoop json rest (Function.update jp k (some (tokDup json value)))

/-- The tokens of an object. -/
def DbJsonEnv.object (env : DbJsonEnv) (json : List UInt8) : Option (List JsmnTok) :=
  env.jsmn.object json (getNumOfTags json json.length)

/-- `json_parse` with all members of `jp` null before; it leaves them so if it fails. -/
def dbJsonParse (env : DbJsonEnv) (json : List UInt8) : Option DbParam :=
  match env.object json with
  | none => some fun _ => none
  | some tokens => dbTokenLoop json tokens.tail fun _ => none

/-- The member that a token is the name of. -/
def dbKey (json : List UInt8) (tok : JsmnTok) : Option DbKey :=
  DbKey.all.find? fun k => jsoneq json tok k.tag

theorem mem_all (k : DbKey) : k ∈ DbKey.all := by
  cases k <;> decide

theorem DbKey.tag_injective : ∀ a b : DbKey, ascii a.tag = ascii b.tag → a = b := by
  rintro (_ | _) (_ | _) h <;> first | rfl | exact absurd h (by decide)

theorem dbKey_eq_some_iff {json : List UInt8} {tok : JsmnTok} {k : DbKey} :
    dbKey json tok = some k ↔ jsoneq json tok k.tag = true := by
  refine find?_eq_some_iff_of_unique mem_all fun a b ha hb => DbKey.tag_injective a b ?_
  simp only [jsoneq, decide_eq_true_iff] at ha hb
  rw [← ha.2.2, hb.2.2]

/-- The member that `json_parse` still looks for. -/
theorem find_dbKey_eq_filter (json : List UInt8) (tok : JsmnTok) (jp : DbParam) :
    (DbKey.all.find? fun k => (jp k).isNone && jsoneq json tok k.tag) =
      (dbKey json tok).filter fun k => (jp k).isNone := by
  refine Option.ext fun k => ?_
  rw [Option.filter_eq_some_iff, dbKey_eq_some_iff, find?_eq_some_iff_of_unique mem_all]
  · rw [Bool.and_eq_true, and_comm]
  · intro a b ha hb
    have ha' := dbKey_eq_some_iff.mpr (Bool.and_eq_true_iff.mp ha).2
    have hb' := dbKey_eq_some_iff.mpr (Bool.and_eq_true_iff.mp hb).2
    exact Option.some.inj (ha'.symm.trans hb')

/-- The texts at the places of the values. -/
def dbTexts (json : List UInt8) (t : ℕ → JsmnTok) (places : DbKey → Option ℕ) : DbParam :=
  fun k => (places k).map fun p => tokDup json (t p)

theorem dbTexts_update (json : List UInt8) (t : ℕ → JsmnTok) (places : DbKey → Option ℕ)
    (k : DbKey) (p : ℕ) :
    dbTexts json t (Function.update places k (some p)) =
      Function.update (dbTexts json t places) k (some (tokDup json (t p))) := by
  funext k'
  by_cases hk : k' = k
  · subst hk
    rw [dbTexts, Function.update_self, Function.update_self]
    rfl
  · rw [dbTexts, Function.update_of_ne hk, Function.update_of_ne hk]
    rfl

/-- The loop gives the texts at the places that it takes, unless it takes the last token for a
name. -/
theorem dbTokenLoop_eq (json : List UInt8) (tokens : List JsmnTok) (stale : JsmnTok) (n : ℕ) :
    ∀ (i : ℕ) (places : DbKey → Option ℕ), i + n = tokens.length →
      dbTokenLoop json (tokens.drop i) (dbTexts json (tokens.getD · stale) places) =
        let r := scan .once (named (dbKey json) tokens) i n places
        if r.2 then none else some (dbTexts json (tokens.getD · stale) r.1) := by
  induction n using Nat.strongRecOn with
  | _ n ih =>
    intro i places hn
    match n with
    | 0 =>
      rw [List.drop_eq_nil_of_le (by omega)]
      rfl
    | n + 1 =>
      have hi : i < tokens.length := by omega
      have hkey : keyAt .once (named (dbKey json) tokens) places i =
          DbKey.all.find? fun k =>
            (dbTexts json (tokens.getD · stale) places k).isNone && jsoneq json tokens[i] k.tag := by
        rw [find_dbKey_eq_filter, keyAt, named, List.getElem?_eq_getElem hi, Option.bind_some]
        simp [dbTexts, Look.once]
      rw [List.drop_eq_getElem_cons hi, dbTokenLoop]
      split_ifs with hall
      · have hfound : ∀ k, (places k).isSome := fun k => by
          have hk := List.all_eq_true.mp hall k (mem_all k)
          simpa [dbTexts] using hk
        rw [scan_of_done fun k => by simp [Look.once, hfound k]]
        rfl
      · rw [scan, hkey]
        cases hk : DbKey.all.find? fun k =>
            (dbTexts json (tokens.getD · stale) places k).isNone && jsoneq json tokens[i] k.tag with
        | none => exact ih n (by omega) (i + 1) places (by omega)
        | some k =>
          cases n with
          | zero =>
            rw [List.drop_eq_nil_of_le (by omega)]
            rfl
          | succ n =>
            have hi' : i + 1 < tokens.length := by omega
            have hrest := ih n (by omega) (i + 2) (Function.update places k (some (i + 1)))
              (by omega)
            have hvalue : tokens.getD (i + 1) stale = tokens[i + 1] := by
              rw [List.getD_eq_getElem?_getD, List.getElem?_eq_getElem hi', Option.getD_some]
            rw [dbTexts_update, hvalue] at hrest
            rw [List.drop_eq_getElem_cons hi']
            exact hrest

/-- The last token of the text is taken for the name of a member. -/
def LastIsName (env : DbJsonEnv) (json : List UInt8) : Prop :=
  ∃ tokens, env.object json = some tokens ∧
    Taken .once (named (dbKey json) tokens) (tokens.length - 1)

/-- A token of the text is taken for the name of this member. -/
def IsNamed (env : DbJsonEnv) (json : List UInt8) (k : DbKey) : Prop :=
  ∃ tokens, env.object json = some tokens ∧
    ∃ i < tokens.length, Taken .once (named (dbKey json) tokens) i ∧
      named (dbKey json) tokens i = some k

/-- What `json_parse` does with an object. -/
theorem dbJsonParse_of_object {env : DbJsonEnv} {json : List UInt8} {tokens : List JsmnTok}
    (h : env.object json = some tokens) :
    dbJsonParse env json =
      if Taken .once (named (dbKey json) tokens) (tokens.length - 1) then none
      else some (dbTexts json (tokens.getD · env.jsmn.staleTok)
        (values .once (named (dbKey json) tokens) tokens.length)) := by
  have hpos : tokens.length ≠ 0 := by
    unfold DbJsonEnv.object JsonEnv.object at h
    split at h
    · split at h
      · obtain rfl := Option.some.inj h
        exact Nat.succ_ne_zero _
      · cases h
    · cases h
  have hloop := dbTokenLoop_eq json tokens env.jsmn.staleTok (tokens.length - 1) 1 (fun _ => none)
    (by omega)
  rw [scan_start, show tokens.length - 1 + 1 = tokens.length by omega] at hloop
  unfold dbJsonParse
  rw [h]
  show dbTokenLoop json tokens.tail (fun _ => none) = _
  rw [← List.drop_one]
  refine hloop.trans ?_
  simp only [decide_eq_true_iff]
  refine if_congr ?_ rfl rfl
  rw [Taken, show tokens.length - 1 + 1 = tokens.length by omega]

theorem dbJsonParse_isSome_iff (env : DbJsonEnv) (json : List UInt8) :
    (dbJsonParse env json).isSome ↔ ¬LastIsName env json := by
  unfold LastIsName
  cases h : env.object json with
  | none => simp [dbJsonParse, h]
  | some tokens =>
    rw [dbJsonParse_of_object h]
    split_ifs with hlast <;> simp [hlast]

/-- A member is found if its name is taken somewhere. -/
theorem isSome_key_iff {env : DbJsonEnv} {json : List UInt8} {jp : DbParam}
    (h : dbJsonParse env json = some jp) (k : DbKey) : (jp k).isSome ↔ IsNamed env json k := by
  unfold IsNamed
  cases hobject : env.object json with
  | none =>
    rw [dbJsonParse, hobject] at h
    obtain rfl := Option.some.inj h
    simp
  | some tokens =>
    rw [dbJsonParse_of_object hobject] at h
    split_ifs at h
    obtain rfl := Option.some.inj h
    rw [dbTexts, Option.isSome_map, Option.isSome_iff_ne_none, ne_eq, values_eq_none_iff]
    simp

end Teonet
