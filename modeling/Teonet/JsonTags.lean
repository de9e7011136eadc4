import Teonet.Lib.JsonText
import Teonet.TeoDbJson

/-! # Room for the tokens of an object (`utils.c`)

`get_num_of_tags` reserves four tokens for every colon of a text and four more.  `json_parse` of the
L0 server and of the key-value store and `teoWSprocessMsg` give the tokenizer as much room, and take a
text whose tokens do not fit for one that is no JSON.  The elements of arrays need tokens without
colons.

`tagsSuffice_iff` says for which objects there is room. -/

namespace Teonet

open JsonText

/-- The type of a token. -/
def kindType : Kind → JsmnType
  | .object => .object
  | .string => .string
  | .array => .other
  | .primitive => .other

/-- The tokenizer gives the tokens of the text, or fails if there is no room for them. -/
def TokenisesText (doc : ObjectText) (env : JsonEnv) : Prop :=
  ∀ room, if doc.kinds.length ≤ room then
      ∃ tokens, env.jsmnParse doc.text room = some tokens ∧
        tokens.map JsmnTok.type = doc.kinds.map kindType
    else env.jsmnParse doc.text room = none

/-- So does the one of the websocket module, with a negative number for a failure. -/
def TokenisesMsg (doc : ObjectText) (env : WsEnv) : Prop :=
  ∀ room, if doc.kinds.length ≤ room then
      (env.jsmnParse doc.text room).1 = doc.kinds.length ∧
        ((env.jsmnParse doc.text room).2 0).type = .object
    else (env.jsmnParse doc.text room).1 < 0

/-- There are as many tags as tokens, and none of the three parsers rejects the text. -/
def TagsSuffice (doc : ObjectText) (env : DbJsonEnv) (ws : WsEnv) : Prop :=
  doc.kinds.length ≤ getNumOfTags doc.text doc.text.length ∧
    (jsonParse env.jsmn (doc.text ++ [0])).isSome ∧ (env.object doc.text).isSome ∧
      0 ≤ (ws.jsmnParse doc.text (getNumOfTags doc.text doc.text.length)).1

/-- Four tags for each colon are enough when the elements of the arrays do not need more than the
members and the strings leave. -/
theorem length_kinds_le_iff (doc : ObjectText) :
    doc.kinds.length ≤ getNumOfTags doc.text doc.text.length ↔
      doc.value.elements ≤ 2 * doc.value.members + 4 * doc.value.colons + 3 := by
  rw [getNumOfTags, List.take_length, doc.count_colon, doc.length_kinds]
  omega

/-- The tokens are those of an object. -/
theorem object_isSome_iff {doc : ObjectText} {env : JsonEnv} (h : TokenisesText doc env) (room : ℕ) :
    (env.object doc.text room).isSome ↔ doc.kinds.length ≤ room := by
  have hroom := h room
  by_cases hfits : doc.kinds.length ≤ room
  · rw [if_pos hfits] at hroom
    obtain ⟨tokens, hparse, htypes⟩ := hroom
    have hkinds : doc.kinds = .object :: doc.members.tree.tokens := rfl
    refine iff_of_true ?_ hfits
    rw [hkinds, List.map_cons] at htypes
    obtain ⟨tok, rest, rfl, htok, -⟩ := List.map_eq_cons_iff.mp htypes
    have hobject : tok.type = .object := htok
    rw [JsonEnv.object, hparse]
    dsimp only
    rw [if_pos hobject]
    rfl
  · rw [if_neg hfits] at hroom
    refine iff_of_false ?_ hfits
    rw [JsonEnv.object, hroom]
    exact Bool.false_ne_true

/-- **Room for tokens.**  There are enough tags for the tokens of an object, and none of the parsers
rejects it, exactly when its arrays do not have more elements than three, two for each member, and four
for each colon in a string. -/
theorem tagsSuffice_iff {doc : ObjectText} {env : DbJsonEnv} {ws : WsEnv}
    (h : TokenisesText doc env.jsmn) (hws : TokenisesMsg doc ws) :
    TagsSuffice doc env ws ↔
      doc.value.elements ≤ 2 * doc.value.members + 4 * doc.value.colons + 3 := by
  have htext : (CString.ofBuf (doc.text ++ [0])).bytes = doc.text :=
    CString.bytes_ofBuf_append_zero doc.nul_not_mem_text
  have hl0 : (jsonParse env.jsmn (doc.text ++ [0])).isSome ↔
      doc.kinds.length ≤ getNumOfTags doc.text doc.text.length := by
    rw [jsonParse, htext, Option.isSome_map, object_isSome_iff h]
  have hdb : (env.object doc.text).isSome ↔
      doc.kinds.length ≤ getNumOfTags doc.text doc.text.length := object_isSome_iff h _
  have hmsg : 0 ≤ (ws.jsmnParse doc.text (getNumOfTags doc.text doc.text.length)).1 ↔
      doc.kinds.length ≤ getNumOfTags doc.text doc.text.length := by
    have hroom := hws (getNumOfTags doc.text doc.text.length)
    split_ifs at hroom with hfits
    · exact iff_of_true (by omega) hfits
    · exact iff_of_false (by omega) hfits
  rw [TagsSuffice, hl0, hdb, hmsg, and_self_iff, and_self_iff, and_self_iff, length_kinds_le_iff]

/-! ### Arrays of ones -/

/-- `1`. -/
def oneText : Json :=
  .prim (.number {
    neg := false
    digits := [49]
    fraction := none
    exponent := none
    isDecimal := by decide
    noLeadingZero := by decide
    isFraction := fun _ h => by cases h })

/-- `1,1,..`. -/
def onesText : ℕ → Items
  | 0 => .nil
  | n + 1 => .cons {} oneText {} (onesText n)

/-- `a` in quotes. -/
def nameText : Str := ⟨[.plain 97 (by decide)]⟩

/-- The object whose only member is an array of `n` ones. -/
def onesDoc (n : ℕ) : ObjectText where
  before := {}
  inner := {}
  members := .cons {} nameText {} {} (.arr {} (onesText n)) {} .nil
  after := {}

/-- The tokens of the object with one of them. -/
def oneTokens : List JsmnTok := [⟨.object, 0, 9⟩, ⟨.string, 2, 3⟩, ⟨.other, 5, 8⟩, ⟨.other, 6, 7⟩]

/-- A tokenizer that knows this object. -/
def oneEnv : DbJsonEnv where
  jsmn :=
    { jsmnParse := fun text room =>
        if text = (onesDoc 1).text ∧ 4 ≤ room then some oneTokens else none
      staleTok := ⟨.other, 0, 0⟩ }
  inText := by
    intro json room tokens h
    dsimp only at h
    split_ifs at h with hjson
    obtain rfl := Option.some.inj h
    rw [hjson.1]
    decide

/-- The same for the websocket module. -/
def oneMsgEnv : WsEnv where
  jsmnParse text room :=
    if text = (onesDoc 1).text ∧ 4 ≤ room then parsed oneTokens
    else (-1, fun _ => ⟨.other, 0, 0⟩)
  behind _ := []
  add _ := true
  send _ _ _ := 0
  authServerUrl := CString.empty

theorem tagsSuffice_iff_one : TagsSuffice (onesDoc 1) oneEnv oneMsgEnv := by
  have hlen : (onesDoc 1).kinds.length = 4 := rfl
  refine (tagsSuffice_iff (fun room => ?_) fun room => ?_).mpr (by decide)
  · split_ifs with hroom
    · exact ⟨oneTokens, if_pos ⟨rfl, hlen ▸ hroom⟩, by decide⟩
    · exact if_neg fun h => hroom (hlen ▸ h.2)
  · have hparse : oneMsgEnv.jsmnParse (onesDoc 1).text room =
        if 4 ≤ room then parsed oneTokens else (-1, fun _ => ⟨.other, 0, 0⟩) := by
      simp [oneMsgEnv]
    rw [hparse, hlen]
    split_ifs with hroom
    · exact ⟨rfl, rfl⟩
    · decide

/-- There are eight tags for the eleven tokens of the object with eight of them. -/
theorem not_length_kinds_le :
    ¬(onesDoc 8).kinds.length ≤ getNumOfTags (onesDoc 8).text (onesDoc 8).text.length := by
  decide +kernel

end Teonet
