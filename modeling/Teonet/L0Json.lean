import Teonet.Lib.TokenScan
import Teonet.Lib.TokenTree
import Teonet.WebSocketAuth

/-! # The fields of a JSON object (`l0-server.c`)

`parseAuthPayload` and `json_parse` look for the values of some members in the tokens of an object.
Both compare every token with the names they look for and take the next one for its value:
`parseAuthPayload` takes the last one that it finds, `json_parse` the first one.  Here they are
translated with the places of the tokens that they take (`parseAuthPlaces`, `jsonPlaces`), and a look
behind the last token is seen; `parseAuthPayload_eq` and `jsonParse_eq` connect these to the texts
that the functions return.

`jsonFields_iff` says for which objects they return the members of the object. -/

namespace Teonet

open TokenScan TokenTree

/-! ### Names -/

/-- The fields of `parseAuthPayload`. -/
inductive AuthKey
  | userId
  | sign
  | timestamp
deriving DecidableEq

/-- The name of a field. -/
def AuthKey.tag : AuthKey → List UInt8
  | userId => userIdKey
  | sign => signKey
  | timestamp => timestampKey

/-- The field that `parseAuthPayload` takes a token for. -/
def authKey (json : List UInt8) (t : JsmnTok) : Option AuthKey :=
  [AuthKey.userId, .sign, .timestamp].find? fun k => jsonEq json t k.tag

/-- The members of `json_param`. -/
inductive JsonKey
  | userId
  | clientId
  | username
  | accessToken
  | networks
deriving DecidableEq

/-- The name of a member. -/
def JsonKey.tag : JsonKey → List UInt8
  | userId => ascii "userId"
  | clientId => ascii "clientId"
  | username => ascii "username"
  | accessToken => ascii "accessToken"
  | networks => ascii "networks"

/-- The members in the order in which they are looked for. -/
def JsonKey.all : List JsonKey := [userId, clientId, username, accessToken, networks]

/-- `jsoneq` of `l0-server.c`, which does not look at the type of the token. -/
def JsonKey.isTag (json : List UInt8) (tok : JsmnTok) (k : JsonKey) : Bool :=
  k.tag.length = tok.stop - tok.start ∧ tokText json tok = k.tag

/-- The member that `json_parse` takes a token for. -/
def jsonKey (json : List UInt8) (t : JsmnTok) : Option JsonKey :=
  JsonKey.all.find? fun k => k.isTag json t

/-- `json_param`. -/
abbrev JsonParam : Type := JsonKey → Option CString

/-! ### The parsers -/

/-- The tokenizer with room for a number of tokens, and what its array holds behind its tokens. -/
structure JsonEnv where
  jsmnParse : List UInt8 → ℕ → Option (List JsmnTok)
  staleTok : JsmnTok

/-- The tokens of an object: there is no result for anything else. -/
def JsonEnv.object (env : JsonEnv) (json : List UInt8) (room : ℕ) : Option (List JsmnTok) :=
  match env.jsmnParse json room with
  | some (t :: rest) => if t.type = .object then some (t :: rest) else none
  | _ => none

/-- `json_parse`: if it fails, it leaves `jp` as it is. -/
def jsonParse (env : JsonEnv) (data : List UInt8) : Option JsonParam :=
  let json := (CString.ofBuf data).bytes
  (env.object json (getNumOfTags json json.length)).map fun tokens =>
    tokenLoop json (tokens.getD · env.staleTok) (fun jp => JsonKey.all.all fun k => (jp k).isSome)
      (fun jp tok value =>
        (JsonKey.all.find? fun k => (jp k).isNone && k.isTag json tok).map fun k =>
          Function.update jp k (some value))
      1 (tokens.length - 1) fun _ => none

/-- The field that the token at a place is taken for. -/
def named {F : Type} (key : JsmnTok → Option F) (tokens : List JsmnTok) (i : ℕ) : Option F :=
  tokens[i]?.bind key

/-- The loop of `parseAuthPayload`, with the places of the values. -/
def parseAuthPlaces (env : JsonEnv) (payload : List UInt8) : Option ((AuthKey → Option ℕ) × Bool) :=
  let json := (CString.ofBuf payload).bytes
  (env.object json 128).map fun tokens =>
    scan .again (named (authKey json) tokens) 1 (tokens.length - 1) fun _ => none

/-- The loop of `json_parse`, with the places of the values. -/
def jsonPlaces (env : JsonEnv) (data : List UInt8) : Option ((JsonKey → Option ℕ) × Bool) :=
  let json := (CString.ofBuf data).bytes
  (env.object json (getNumOfTags json json.length)).map fun tokens =>
    scan .once (named (jsonKey json) tokens) 1 (tokens.length - 1) fun _ => none

/-! ### Documents -/

/-- A JSON object: its keys are strings, and its tokens lie in the text.  Names and values are taken
as they are written there, with their escapes. -/
structure JsonDoc (json : List UInt8) where
  root : JsmnTok
  members : Members JsmnTok
  isObject : root.type = .object
  keyIsString : ∀ m ∈ members.places 1, m.1.type = .string
  inText : ∀ t ∈ root :: members.tokens, t.start ≤ t.stop ∧ t.stop ≤ json.length

namespace JsonDoc

variable {json : List UInt8}

/-- The tokens of the object. -/
def tokens (doc : JsonDoc json) : List JsmnTok := doc.root :: doc.members.tokens

/-- The places of its own keys. -/
def keys (doc : JsonDoc json) : List ℕ := (doc.members.places 1).map fun m => m.2.2 - 1

/-- The tokenizer gives the tokens of the object, or fails if there is no room for them. -/
def Tokenises (doc : JsonDoc json) (env : JsonEnv) : Prop :=
  ∀ room, env.jsmnParse json room = if doc.tokens.length ≤ room then some doc.tokens else none

/-- The parser returns for every field the value of a member of the object with its name, and nothing
if there is none; and it has not looked behind the last token. -/
def FieldsFound {F : Type} (doc : JsonDoc json) (tag : F → List UInt8)
    (r : Option ((F → Option ℕ) × Bool)) : Prop :=
  ∃ places, r = some (places, false) ∧ ∀ f,
    match places f with
    | some p => ∃ m ∈ doc.members.places 1, tokText json m.1 = tag f ∧ m.2.2 = p
    | none => ∀ m ∈ doc.members.places 1, tokText json m.1 ≠ tag f

/-- A member lies at its place. -/
theorem of_mem_places (doc : JsonDoc json) {m : JsmnTok × Value JsmnTok × ℕ}
    (hm : m ∈ doc.members.places 1) :
    ∃ i, m.2.2 = i + 2 ∧ i + 1 < doc.members.tokens.length ∧ doc.tokens[i + 1]? = some m.1 ∧
      doc.tokens[i + 2]? = some m.2.1.root := by
  obtain ⟨key, v, p⟩ := m
  obtain ⟨i, rfl, hkey, hroot⟩ := Members.of_mem_places hm
  exact ⟨i, by dsimp only; omega, (List.getElem?_eq_some_iff.mp hroot).1, hkey, hroot⟩

theorem mem_keys (doc : JsonDoc json) {j : ℕ} :
    j ∈ doc.keys ↔ ∃ m ∈ doc.members.places 1, m.2.2 = j + 1 := by
  unfold keys
  rw [List.mem_map]
  constructor
  · rintro ⟨m, hm, rfl⟩
    obtain ⟨i, hp, -⟩ := doc.of_mem_places hm
    exact ⟨m, hm, by omega⟩
  · rintro ⟨m, hm, hp⟩
    exact ⟨m, hm, by omega⟩

/-- The keys lie behind the object and before the last token, and none directly behind another. -/
theorem keys_spec (doc : JsonDoc json) : ∀ j ∈ doc.keys,
    j ≠ 0 ∧ j < doc.tokens.length - 1 ∧ j - 1 ∉ doc.keys := by
  intro j hj
  obtain ⟨m, hm, hp⟩ := doc.mem_keys.mp hj
  obtain ⟨i, hi, hlt, -, -⟩ := doc.of_mem_places hm
  have hlength : doc.tokens.length - 1 = doc.members.tokens.length := rfl
  refine ⟨by omega, by omega, fun hprev => ?_⟩
  obtain ⟨m', hm', hp'⟩ := doc.mem_keys.mp hprev
  have hne : m ≠ m' := fun he => by
    rw [← he] at hp'
    omega
  rcases Members.places_apart hm hm' hne with h | h <;> omega

theorem named_of_mem_places {F : Type} (doc : JsonDoc json) {m : JsmnTok × Value JsmnTok × ℕ}
    (hm : m ∈ doc.members.places 1) {j : ℕ} (hj : m.2.2 = j + 1) {key : JsmnTok → Option F} :
    named key doc.tokens j = key m.1 := by
  obtain ⟨i, hp, -, hget, -⟩ := doc.of_mem_places hm
  obtain rfl : j = i + 1 := by omega
  rw [named, hget]
  rfl

/-- What `FieldsFound` says of the places that the loop takes. -/
theorem fieldsFound_iff {F : Type} (doc : JsonDoc json) {tag : F → List UInt8}
    {key : JsmnTok → Option F}
    (hkey : ∀ m ∈ doc.members.places 1, ∀ f, key m.1 = some f ↔ tokText json m.1 = tag f)
    (r : (F → Option ℕ) × Bool) :
    doc.FieldsFound tag (some r) ↔ Exact (named key doc.tokens) doc.keys r := by
  obtain ⟨places, beyond⟩ := r
  have hnamed : ∀ m ∈ doc.members.places 1, ∀ j, m.2.2 = j + 1 → ∀ f,
      named key doc.tokens j = some f ↔ tokText json m.1 = tag f := fun m hm j hj f => by
    rw [doc.named_of_mem_places hm hj, ← hkey m hm]
  constructor
  · rintro ⟨found, he, hfound⟩
    obtain ⟨rfl, rfl⟩ := Prod.mk.inj (Option.some.inj he)
    refine ⟨fun f p (hp : places f = some p) => ?_, fun f (hnone : places f = none) j hj => ?_, rfl⟩
    · have h := hfound f
      rw [hp] at h
      obtain ⟨m, hm, htext, hpm⟩ := h
      obtain ⟨i, hi, -⟩ := doc.of_mem_places hm
      refine ⟨i + 1, doc.mem_keys.mpr ⟨m, hm, hi⟩, (hnamed m hm (i + 1) hi f).mpr htext, ?_⟩
      omega
    · have h := hfound f
      rw [hnone] at h
      obtain ⟨m, hm, hp⟩ := doc.mem_keys.mp hj
      exact fun hf => h m hm ((hnamed m hm j hp f).mp hf)
  · rintro ⟨hsome, hnone, hbeyond⟩
    obtain rfl : beyond = false := hbeyond
    refine ⟨places, rfl, fun f => ?_⟩
    cases hp : places f with
    | some p =>
      obtain ⟨j, hj, hf, rfl⟩ := hsome f p hp
      obtain ⟨m, hm, hpm⟩ := doc.mem_keys.mp hj
      exact ⟨m, hm, (hnamed m hm j hpm f).mp hf, hpm⟩
    | none =>
      intro m hm htext
      obtain ⟨i, hi, -⟩ := doc.of_mem_places hm
      exact hnone f hp (i + 1) (doc.mem_keys.mpr ⟨m, hm, hi⟩) ((hnamed m hm (i + 1) hi f).mpr htext)

/-- The object has no result if its tokens have no room. -/
theorem Tokenises.object {doc : JsonDoc json} {env : JsonEnv} (h : doc.Tokenises env) (room : ℕ) :
    env.object json room = if doc.tokens.length ≤ room then some doc.tokens else none := by
  unfold JsonEnv.object
  rw [h room]
  split_ifs with hroom
  · exact if_pos doc.isObject
  · rfl

/-- A parser finds the fields exactly if there is room for the tokens and its loop is exact. -/
theorem fieldsFound_parse {F : Type} [DecidableEq F] {doc : JsonDoc json} {env : JsonEnv}
    (h : doc.Tokenises env) {tag : F → List UInt8} {key : JsmnTok → Option F}
    (hkey : ∀ m ∈ doc.members.places 1, ∀ f, key m.1 = some f ↔ tokText json m.1 = tag f)
    (look : Look F) (room : ℕ) :
    doc.FieldsFound tag ((env.object json room).map fun tokens =>
        scan look (named key tokens) 1 (tokens.length - 1) fun _ => none) ↔
      doc.tokens.length ≤ room ∧ Exact (named key doc.tokens) doc.keys
        (scan look (named key doc.tokens) 1 (doc.tokens.length - 1) fun _ => none) := by
  rw [h.object]
  split_ifs with hroom
  · rw [Option.map_some, doc.fieldsFound_iff hkey]
    exact (and_iff_right hroom).symm
  · refine iff_of_false ?_ fun h => hroom h.1
    rintro ⟨places, he, -⟩
    cases he

end JsonDoc

/-! ### What is found -/

/-- At most one element of a list is found. -/
theorem find?_eq_some_iff_of_unique {α : Type} {l : List α} {p : α → Bool} (hl : ∀ a, a ∈ l)
    (hp : ∀ a b, p a = true → p b = true → a = b) {a : α} : l.find? p = some a ↔ p a = true := by
  refine ⟨List.find?_some, fun ha => ?_⟩
  cases hfind : l.find? p with
  | none => exact absurd ha (by simpa using List.find?_eq_none.mp hfind a (hl a))
  | some b => rw [hp b a (List.find?_some hfind) ha]

theorem AuthKey.tag_injective : ∀ a b : AuthKey, a.tag = b.tag → a = b := by
  intro a b
  cases a <;> cases b <;> decide

theorem JsonKey.tag_injective : ∀ a b : JsonKey, a.tag = b.tag → a = b := by
  intro a b
  cases a <;> cases b <;> decide

theorem authKey_eq_some_iff {json : List UInt8} {t : JsmnTok} {k : AuthKey} :
    authKey json t = some k ↔ jsonEq json t k.tag = true := by
  refine find?_eq_some_iff_of_unique (fun a => by cases a <;> decide) fun a b ha hb => ?_
  simp only [jsonEq, decide_eq_true_eq] at ha hb
  exact AuthKey.tag_injective a b (ha.2.symm.trans hb.2)

theorem jsonKey_eq_some_iff {json : List UInt8} {t : JsmnTok} {k : JsonKey} :
    jsonKey json t = some k ↔ k.isTag json t = true := by
  refine find?_eq_some_iff_of_unique (fun a => by cases a <;> decide) fun a b ha hb => ?_
  simp only [JsonKey.isTag, decide_eq_true_eq] at ha hb
  exact JsonKey.tag_injective a b (ha.2.symm.trans hb.2)

namespace JsonDoc

variable {json : List UInt8}

/-- There is room for the tokens, the last key of the object is found for every field of a login, and
the first one for every member of `json_param`. -/
def FieldsCondition (doc : JsonDoc json) : Prop :=
  (doc.tokens.length ≤ 128 ∧
    LastIsFound (named (authKey json) doc.tokens) doc.keys (doc.tokens.length - 1)) ∧
  doc.tokens.length ≤ getNumOfTags json json.length ∧
    FirstIsFound (named (jsonKey json) doc.tokens) doc.keys (doc.tokens.length - 1)

theorem authKey_iff (doc : JsonDoc json) : ∀ m ∈ doc.members.places 1, ∀ k,
    authKey json m.1 = some k ↔ tokText json m.1 = k.tag := by
  intro m hm k
  have htype := doc.keyIsString m hm
  rw [authKey_eq_some_iff, jsonEq, decide_eq_true_eq, and_iff_right htype]

theorem jsonKey_iff (doc : JsonDoc json) : ∀ m ∈ doc.members.places 1, ∀ k,
    jsonKey json m.1 = some k ↔ tokText json m.1 = k.tag := by
  intro m hm k
  obtain ⟨i, -, -, hget, -⟩ := doc.of_mem_places hm
  have hrange := doc.inText m.1 (List.mem_of_getElem? hget)
  rw [jsonKey_eq_some_iff, JsonKey.isTag, decide_eq_true_eq]
  refine and_iff_right_of_imp fun htext => ?_
  rw [← htext, tokText, List.length_take, List.length_drop]
  omega

end JsonDoc

/-- **The fields**: for an object, `parseAuthPayload` and `json_parse` find the members of the object
and look at no token behind the last exactly under `FieldsCondition`. -/
theorem jsonFields_iff {env : JsonEnv} {data : List UInt8}
    (doc : JsonDoc (CString.ofBuf data).bytes) (h : doc.Tokenises env) :
    doc.FieldsFound AuthKey.tag (parseAuthPlaces env data) ∧
        doc.FieldsFound JsonKey.tag (jsonPlaces env data) ↔ doc.FieldsCondition := by
  have hkeys := doc.keys_spec
  refine and_congr ?_ ?_
  · refine (JsonDoc.fieldsFound_parse h doc.authKey_iff .again 128).trans ?_
    rw [exact_scan_iff fun j hj => ⟨(hkeys j hj).1, (hkeys j hj).2.1⟩]
  · refine (JsonDoc.fieldsFound_parse h doc.jsonKey_iff .once _).trans ?_
    rw [exact_scan_once_iff hkeys]

/-- An object with the one member `userId`. -/
def userText : List UInt8 := ascii "\x7b\"userId\":\"a\"\x7d"

/-- Its tokens. -/
def userDoc : JsonDoc (CString.ofBuf userText).bytes where
  root := ⟨.object, 0, 14⟩
  members := .cons ⟨.string, 2, 8⟩ (.leaf ⟨.string, 11, 12⟩) .nil
  isObject := rfl
  keyIsString := by decide
  inText := by decide

/-- An object of which the value of the one member is the text `userId`. -/
def keyLikeText : List UInt8 := ascii "\x7b\"x\":\"userId\"\x7d"

/-- Its tokens. -/
def keyLikeDoc : JsonDoc (CString.ofBuf keyLikeText).bytes where
  root := ⟨.object, 0, 14⟩
  members := .cons ⟨.string, 2, 3⟩ (.leaf ⟨.string, 6, 12⟩) .nil
  isObject := rfl
  keyIsString := by decide
  inText := by decide

/-- A tokenizer that knows one object. -/
def JsonDoc.env {json : List UInt8} (doc : JsonDoc json) : JsonEnv where
  jsmnParse text room := if text = json ∧ doc.tokens.length ≤ room then some doc.tokens else none
  staleTok := ⟨.other, 0, 0⟩

theorem JsonDoc.tokenises_env {json : List UInt8} (doc : JsonDoc json) : doc.Tokenises doc.env :=
  fun room => by simp [env]

/-- The member `userId` is found. -/
theorem jsonFields_iff_user :
    userDoc.FieldsFound AuthKey.tag (parseAuthPlaces userDoc.env userText) ∧
      userDoc.FieldsFound JsonKey.tag (jsonPlaces userDoc.env userText) := by
  have hplace : ∀ i ≤ 2, i ≠ 0 → i = 1 ∨ i = 2 := by omega
  have hkey : 1 ∈ userDoc.keys := by decide
  refine (jsonFields_iff userDoc userDoc.tokenises_env).mpr ⟨⟨by decide, ?_, ?_⟩, by decide, ?_⟩
  · intro i hi f hpos hf heven
    rcases hplace i hi hpos with rfl | rfl
    · exact ⟨1, hkey, Nat.le_refl 1, hf, heven⟩
    · cases hf
  · intro i hi f hf
    obtain rfl : i = 1 := List.mem_singleton.mp hi
    exact ⟨1, hkey, hf, by decide⟩
  · intro i hi hpos f hf
    rcases hplace i hi hpos with rfl | rfl
    · exact .inl ⟨1, hkey, Nat.le_refl 1, hf⟩
    · cases hf

/-- A value with the text of a key is taken for one, and the token behind it is looked at. -/
theorem not_jsonFields :
    ¬ ∀ (env : JsonEnv) (data : List UInt8) (doc : JsonDoc (CString.ofBuf data).bytes),
      doc.Tokenises env → doc.FieldsFound AuthKey.tag (parseAuthPlaces env data) ∧
        doc.FieldsFound JsonKey.tag (jsonPlaces env data) := by
  intro h
  have hbeyond : (parseAuthPlaces keyLikeDoc.env keyLikeText).map Prod.snd = some true := by decide
  obtain ⟨⟨places, hfound, -⟩, -⟩ :=
    h keyLikeDoc.env keyLikeText keyLikeDoc keyLikeDoc.tokenises_env
  rw [hfound] at hbeyond
  cases hbeyond

/-! ### The texts -/

/-- A field of a login is set. -/
def AuthData.set (a : AuthData) (k : AuthKey) (text : List UInt8) : AuthData :=
  match k with
  | .userId => { a with name := some text }
  | .sign => { a with sign := some text }
  | .timestamp => { a with validUntil := some text }

/-- The texts at the places of the values. -/
def authTexts (json : List UInt8) (tokens : List JsmnTok) (stale : JsmnTok)
    (places : AuthKey → Option ℕ) : AuthData where
  name := (places .userId).map fun p => tokText json (tokens.getD p stale)
  sign := (places .sign).map fun p => tokText json (tokens.getD p stale)
  validUntil := (places .timestamp).map fun p => tokText json (tokens.getD p stale)

theorem authField_eq (json : List UInt8) (t v : JsmnTok) (a : AuthData) :
    authField json t v a =
      match authKey json t with
      | none => (a, false)
      | some k => (a.set k (tokText json v), true) := by
  unfold authField authKey
  rw [List.find?_cons, List.find?_cons, List.find?_cons]
  simp only [AuthKey.tag]
  cases jsonEq json t userIdKey <;> cases jsonEq json t signKey <;>
    cases jsonEq json t timestampKey <;> rfl

theorem authTexts_update (json : List UInt8) (tokens : List JsmnTok) (stale : JsmnTok)
    (places : AuthKey → Option ℕ) (k : AuthKey) (p : ℕ) :
    authTexts json tokens stale (Function.update places k (some p)) =
      (authTexts json tokens stale places).set k (tokText json (tokens.getD p stale)) := by
  cases k <;> rfl

/-- The loop of `parseAuthPayload` returns the texts at the places that it takes. -/
theorem authFields_eq (json : List UInt8) (tokens : List JsmnTok) (stale : JsmnTok) (n : ℕ) :
    ∀ (i : ℕ) (places : AuthKey → Option ℕ), i + n = tokens.length →
      authFields json stale (tokens.drop i) (authTexts json tokens stale places) =
        authTexts json tokens stale (scan .again (named (authKey json) tokens) i n places).1 := by
  induction n using Nat.strongRecOn with
  | _ n ih =>
    intro i places hn
    match n with
    | 0 =>
      rw [List.drop_of_length_le (by omega)]
      rfl
    | n + 1 =>
      have hi : i < tokens.length := by omega
      have hkey : keyAt .again (named (authKey json) tokens) places i = authKey json tokens[i] := by
        rw [keyAt, named, List.getElem?_eq_getElem hi, Option.bind_some]
        cases authKey json tokens[i] <;> rfl
      rw [List.drop_eq_getElem_cons hi, scan, hkey]
      cases n with
      | zero =>
        have hstale : tokens.getD (i + 1) stale = stale := by
          rw [List.getD_eq_getElem?_getD, List.getElem?_eq_none (by omega), Option.getD_none]
        rw [List.drop_of_length_le (by omega), authFields, authField_eq]
        cases hk : authKey json tokens[i] with
        | none => rfl
        | some k =>
          dsimp only
          rw [authTexts_update, hstale]
      | succ n =>
        have hi' : i + 1 < tokens.length := by omega
        have hnext : tokens.getD (i + 1) stale = tokens[i + 1] := by
          rw [List.getD_eq_getElem?_getD, List.getElem?_eq_getElem hi', Option.getD_some]
        rw [List.drop_eq_getElem_cons hi', authFields, authField_eq]
        cases hk : authKey json tokens[i] with
        | none =>
          have hrest := ih (n + 1) (by omega) (i + 1) places (by omega)
          rw [List.drop_eq_getElem_cons hi'] at hrest
          exact hrest
        | some k =>
          have hrest := ih n (by omega) (i + 2) (Function.update places k (some (i + 1))) (by omega)
          rw [authTexts_update, hnext] at hrest
          exact hrest

/-- `parseAuthPayload` returns the texts at the places that it takes. -/
theorem parseAuthPayload_eq {env : L0AuthEnv} {jenv : JsonEnv}
    (h : ∀ json, env.jsmnParse json = jenv.jsmnParse json 128) (payload : List UInt8) :
    parseAuthPayload env payload =
      let json := (CString.ofBuf payload).bytes
      (jenv.object json 128).bind fun tokens =>
        match authTexts json tokens env.staleTok
          (scan .again (named (authKey json) tokens) 1 (tokens.length - 1) fun _ => none).1 with
        | ⟨some name, some sign, some validUntil⟩ => some (name, sign, validUntil)
        | _ => none := by
  unfold parseAuthPayload JsonEnv.object
  dsimp only
  rw [h]
  cases hparse : jenv.jsmnParse (CString.ofBuf payload).bytes 128 with
  | none => rfl
  | some tokens =>
    cases tokens with
    | nil => rfl
    | cons t rest =>
      dsimp only
      split_ifs with htype
      · have hfields := authFields_eq (CString.ofBuf payload).bytes (t :: rest) env.staleTok
          rest.length 1 (fun _ => none) (by rw [List.length_cons, Nat.add_comm])
        rw [Option.bind_some, List.length_cons, Nat.add_sub_cancel, ← hfields]
        rfl
      · rfl

/-- The texts at the places of the values. -/
def jsonTexts (json : List UInt8) (t : ℕ → JsmnTok) (places : JsonKey → Option ℕ) : JsonParam :=
  fun k => (places k).map fun p => tokDup json (t p)

theorem jsonTexts_update (json : List UInt8) (t : ℕ → JsmnTok) (places : JsonKey → Option ℕ)
    (k : JsonKey) (p : ℕ) :
    jsonTexts json t (Function.update places k (some p)) =
      Function.update (jsonTexts json t places) k (some (tokDup json (t p))) := by
  funext k'
  by_cases hk : k' = k
  · subst hk
    rw [jsonTexts, Function.update_self, Function.update_self]
    rfl
  · rw [jsonTexts, Function.update_of_ne hk, Function.update_of_ne hk]
    rfl

/-- The key that `json_parse` still looks for. -/
theorem find_eq_filter (json : List UInt8) (tok : JsmnTok) (jp : JsonParam) :
    (JsonKey.all.find? fun k => (jp k).isNone && k.isTag json tok) =
      (jsonKey json tok).filter fun k => (jp k).isNone := by
  refine Option.ext fun k => ?_
  rw [Option.filter_eq_some_iff, jsonKey_eq_some_iff, find?_eq_some_iff_of_unique]
  · rw [Bool.and_eq_true, and_comm]
  · exact fun a => by cases a <;> decide
  · intro a b ha hb
    have ha' := jsonKey_eq_some_iff.mpr (Bool.and_eq_true_iff.mp ha).2
    have hb' := jsonKey_eq_some_iff.mpr (Bool.and_eq_true_iff.mp hb).2
    exact Option.some.inj (ha'.symm.trans hb')

/-- The loop of `json_parse` returns the texts at the places that it takes. -/
theorem jsonTokenLoop_eq (json : List UInt8) (tokens : List JsmnTok) (stale : JsmnTok) {i n : ℕ}
    (places : JsonKey → Option ℕ) (hn : i + n = tokens.length) :
    tokenLoop json (tokens.getD · stale) (fun jp => JsonKey.all.all fun k => (jp k).isSome)
        (fun jp tok value =>
          (JsonKey.all.find? fun k => (jp k).isNone && k.isTag json tok).map fun k =>
            Function.update jp k (some value))
        i n (jsonTexts json (tokens.getD · stale) places) =
      jsonTexts json (tokens.getD · stale) (scan .once (named (jsonKey json) tokens) i n places).1 := by
  refine tokenLoop_eq_scan (jsonTexts json (tokens.getD · stale)) tokens.length
    (fun places hall k => ?_) (fun places k _ hk => ?_) n i places hn
  · have hk := List.all_eq_true.mp hall k (by cases k <;> decide)
    simpa [jsonTexts, Look.once] using hk
  · have htok : tokens.getD k stale = tokens[k] := by
      rw [List.getD_eq_getElem?_getD, List.getElem?_eq_getElem hk, Option.getD_some]
    have hlook : keyAt .once (named (jsonKey json) tokens) places k =
        JsonKey.all.find? fun f =>
          (jsonTexts json (tokens.getD · stale) places f).isNone && f.isTag json tokens[k] := by
      rw [find_eq_filter, keyAt, named, List.getElem?_eq_getElem hk, Option.bind_some]
      simp [jsonTexts, Look.once]
    rw [htok, hlook]
    simp only [jsonTexts_update]

/-- `json_parse` returns the texts at the places that it takes. -/
theorem jsonParse_eq (env : JsonEnv) (data : List UInt8) :
    jsonParse env data =
      let json := (CString.ofBuf data).bytes
      (env.object json (getNumOfTags json json.length)).map fun tokens =>
        jsonTexts json (tokens.getD · env.staleTok)
          (scan .once (named (jsonKey json) tokens) 1 (tokens.length - 1) fun _ => none).1 := by
  unfold jsonParse JsonEnv.object
  dsimp only
  cases env.jsmnParse (CString.ofBuf data).bytes _ with
  | none => rfl
  | some tokens =>
    cases tokens with
    | nil => rfl
    | cons t rest =>
      dsimp only
      split_ifs
      · refine congrArg some ?_
        exact jsonTokenLoop_eq _ (t :: rest) env.staleTok (fun _ => none)
          (by rw [List.length_cons]; omega)
      · rfl

end Teonet
