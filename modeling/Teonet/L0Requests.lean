import Teonet.L0Json
import Teonet.L0Server

/-! # Requests of the authentication application (`l0-server.c`)

`cmd_l0_check_cb` confirms the login of a client, and `cmd_l0_kick_client` disconnects one.  Both take
the client from the member `userId` of a JSON object, which `json_parse` finds for them, and neither
looks at the result of `json_parse`: if it fails, they read the fields that it has not set.  Such a
read has no result here.

`requestsSafe_iff` says for which requests they only do what the request says. -/

namespace Teonet

open TokenScan

variable {Ctx : Type}

/-! ### The two functions -/

/-- What the functions do with the connection of a client. -/
inductive L0Call (Ctx : Type)
  | confirmAuth (fd : ℤ) (kld : KsnLNullData Ctx)
  | sendReset (fd : ℤ)
  | disconnect (fd : ℤ)

/-- The connection. -/
def L0Call.fd : L0Call Ctx → ℤ
  | confirmAuth fd _ => fd
  | sendReset fd => fd
  | disconnect fd => fd

/-- The text that `json_parse` reads at `rd->data`. -/
def requestText (rd : KsnCorePacketData) : List UInt8 := (CString.ofBuf (rd.data ++ rd.after)).bytes

/-- The condition of both functions: the connection of the client in `jp.userId`. -/
def requestFd (kl : KsnLNullClass Ctx) (jp : JsonParam) : Option ℤ :=
  (jp .userId).bind fun userId =>
    let fd := ksnLNullClientIsConnected kl userId
    if fd ≠ 0 then some fd else none

/-- `cmd_l0_check_cb`.  There is no result if `jp` is read without having been set. -/
def cmdL0CheckCb (jenv : JsonEnv) (kl : KsnLNullClass Ctx) (rd : KsnCorePacketData) :
    Option (List (L0Call Ctx)) :=
  (jsonParse jenv (rd.data ++ rd.after)).map fun jp =>
    match requestFd kl jp with
    | some fd =>
      match kl.map.get fd with
      | some kld => [.confirmAuth fd kld]
      | none => []
    | none => []

/-- `cmd_l0_kick_client`. -/
def cmdL0KickClientCb (jenv : JsonEnv) (kl : KsnLNullClass Ctx) (rd : KsnCorePacketData) :
    Option (List (L0Call Ctx)) :=
  (jsonParse jenv (rd.data ++ rd.after)).map fun jp =>
    match requestFd kl jp with
    | some fd => .sendReset fd :: if (kl.map.get fd).isSome then [.disconnect fd] else []
    | none => []

/-! ### What they do to the server -/

/-- A call; the record of a client that is found by its name has one. -/
def L0Call.run (env : L0Env Ctx) (kl : KsnLNullClass Ctx) :
    L0Call Ctx → KsnLNullClass Ctx × List L0Effect
  | confirmAuth fd kld =>
    match kld.name with
    | some name => Teonet.confirmAuth env kl fd name
    | none => (kl, [])
  | sendReset fd => ksnLNullSend env kl fd cmdL0ClientReset [50, 0]
  | disconnect fd => ksnLNullClientDisconnect env kl fd 2

/-- The calls in turn. -/
def runCalls (env : L0Env Ctx) (kl : KsnLNullClass Ctx) :
    List (L0Call Ctx) → KsnLNullClass Ctx × List L0Effect
  | [] => (kl, [])
  | c :: l =>
    let done := c.run env kl
    let rest := runCalls env done.1 l
    (rest.1, done.2 ++ rest.2)

theorem ksnLNullSend_get_eq_none (env : L0Env Ctx) {kl : KsnLNullClass Ctx} (fd : ℤ) (cmd : UInt8)
    (data : List UInt8) {fd' : ℤ} (h : kl.map.get fd' = none) :
    (ksnLNullSend env kl fd cmd data).1.map.get fd' = none := by
  have hquiet := (ksnLNullPacketSend_quiet env kl fd
    (env.cli.packetCreate cmd env.hostName data)).1
  have hmember := congrFun (congrArg Directory.member hquiet) fd'
  have habsent : kl.directory.member fd' = none := KsnLNullClass.directory_absent h
  exact Option.map_eq_none_iff.mp (hmember.trans habsent)

/-- The calls of `cmd_l0_kick_client` are what `cmdL0KickClient` does for the user id. -/
theorem runCalls_kick (env : L0Env Ctx) (jenv : JsonEnv) (kl : KsnLNullClass Ctx)
    (rd : KsnCorePacketData) :
    (cmdL0KickClientCb jenv kl rd).map (runCalls env kl) =
      (jsonParse jenv (rd.data ++ rd.after)).map fun jp => cmdL0KickClient env kl (jp .userId) := by
  unfold cmdL0KickClientCb
  rw [Option.map_map]
  refine congrArg (Option.map · _) (funext fun jp => ?_)
  unfold cmdL0KickClient requestFd
  dsimp only [Function.comp_apply]
  cases jp .userId with
  | none => rfl
  | some userId =>
    rw [Option.bind_some]
    dsimp only
    split_ifs with hfd
    · dsimp only
      cases hget : kl.map.get (ksnLNullClientIsConnected kl userId) with
      | none =>
        have hgone := ksnLNullSend_get_eq_none env (ksnLNullClientIsConnected kl userId)
          cmdL0ClientReset [50, 0] hget
        rw [ksnLNullClientDisconnect, hgone]
        rfl
      | some kld =>
        dsimp only [Option.isSome_some, runCalls, L0Call.run]
        rw [if_pos rfl]
        dsimp only [runCalls, L0Call.run]
        rw [List.append_nil]
    · rfl

/-! ### What a request says -/

/-- The names of the client in an object: the values of its members `userId`. -/
def JsonDoc.userIds {json : List UInt8} (doc : JsonDoc json) : List CString :=
  ((doc.members.places 1).filter fun m => tokText json m.1 = JsonKey.userId.tag).map fun m =>
    tokDup json m.2.1.root

/-- The names of the client in a request, of which there are none unless it is an object. -/
def requestUserIds {json : List UInt8} : Option (JsonDoc json) → List CString
  | some doc => doc.userIds
  | none => []

/-- No field is read that has not been set, and what is done is done to a client that the request
names. -/
def CallsSafe (kl : KsnLNullClass Ctx) (userIds : List CString)
    (calls : Option (List (L0Call Ctx))) : Prop :=
  ∃ l, calls = some l ∧ ∀ c ∈ l, ∃ userId ∈ userIds, ksnLNullClientIsConnected kl userId = c.fd

/-- Where a token is taken as the key `userId` that is the key of no member, the token behind it is the
name of no connected client, or of one that the request names. -/
def UserIdIsNamed (jenv : JsonEnv) (kl : KsnLNullClass Ctx) (json : List UInt8)
    (tokens : List JsmnTok) (keys : List ℕ) (userIds : List CString) : Prop :=
  ∀ i ∉ keys, Taken .once (named (jsonKey json) tokens) i →
    named (jsonKey json) tokens i = some .userId →
    let fd := ksnLNullClientIsConnected kl (tokDup json (tokens.getD (i + 1) jenv.staleTok))
    fd ≠ 0 → ∃ userId ∈ userIds, ksnLNullClientIsConnected kl userId = fd

/-- The request is an object for which there is room, and what is no member of it names no other
connected client.  Anything else must be taken for an object too, and may not name a connected
client. -/
def RequestCondition (jenv : JsonEnv) (kl : KsnLNullClass Ctx) {json : List UInt8} :
    Option (JsonDoc json) → Prop
  | some doc =>
    doc.tokens.length ≤ getNumOfTags json json.length ∧
      UserIdIsNamed jenv kl json doc.tokens doc.keys doc.userIds
  | none =>
    ∃ tokens, jenv.object json (getNumOfTags json json.length) = some tokens ∧
      UserIdIsNamed jenv kl json tokens [] []

/-! ### What is read -/

/-- The user id is the text behind the token that is taken as its key. -/
theorem userId_eq_some_iff (json : List UInt8) (tokens : List JsmnTok) (t : ℕ → JsmnTok)
    (userId : CString) :
    jsonTexts json t
        (scan .once (named (jsonKey json) tokens) 1 (tokens.length - 1) fun _ => none).1 .userId =
        some userId ↔
      ∃ i, Taken .once (named (jsonKey json) tokens) i ∧
        named (jsonKey json) tokens i = some .userId ∧ tokDup json (t (i + 1)) = userId := by
  rw [scan_start, jsonTexts, Option.map_eq_some_iff]
  constructor
  · rintro ⟨p, hp, rfl⟩
    obtain ⟨i, rfl, -, ht, hf, -⟩ := values_eq_some_iff.mp hp
    exact ⟨i, ht, hf, rfl⟩
  · rintro ⟨i, ht, hf, rfl⟩
    refine ⟨i + 1, values_eq_some_iff.mpr ⟨i, rfl, ?_, ht, hf, fun k _ hkt hkf => ?_⟩, rfl⟩
    · obtain ⟨tok, htok, -⟩ := Option.bind_eq_some_iff.mp hf
      have hlt := (List.getElem?_eq_some_iff.mp htok).1
      omega
    · exact Nat.le_of_eq (eq_of_taken hkt ht hkf hf)

theorem requestFd_eq_some_iff {kl : KsnLNullClass Ctx} {jp : JsonParam} {fd : ℤ} :
    requestFd kl jp = some fd ↔
      ∃ userId, jp .userId = some userId ∧ ksnLNullClientIsConnected kl userId = fd ∧ fd ≠ 0 := by
  unfold requestFd
  rw [Option.bind_eq_some_iff]
  refine exists_congr fun userId => and_congr_right fun _ => ?_
  dsimp only
  split_ifs with h
  · constructor
    · rintro he
      obtain rfl := Option.some.inj he
      exact ⟨rfl, h⟩
    · rintro ⟨rfl, -⟩
      rfl
  · refine iff_of_false (fun he => by cases he) ?_
    rintro ⟨rfl, hfd⟩
    exact h hfd

/-- Both functions are safe if `json_parse` succeeds and they find a client that the request names. -/
theorem callsSafe_iff (jenv : JsonEnv) (kl : KsnLNullClass Ctx) (rd : KsnCorePacketData)
    (userIds : List CString) :
    CallsSafe kl userIds (cmdL0CheckCb jenv kl rd) ∧
        CallsSafe kl userIds (cmdL0KickClientCb jenv kl rd) ↔
      ∃ jp, jsonParse jenv (rd.data ++ rd.after) = some jp ∧ ∀ fd, requestFd kl jp = some fd →
        ∃ userId ∈ userIds, ksnLNullClientIsConnected kl userId = fd := by
  unfold cmdL0CheckCb cmdL0KickClientCb
  cases jsonParse jenv (rd.data ++ rd.after) with
  | none =>
    refine iff_of_false ?_ ?_
    · rintro ⟨⟨l, hl, -⟩, -⟩
      cases hl
    · rintro ⟨jp, hjp, -⟩
      cases hjp
  | some jp =>
    constructor
    · rintro ⟨-, l, hl, hsafe⟩
      refine ⟨jp, rfl, fun fd hfd => ?_⟩
      obtain rfl := Option.some.inj hl
      simp only [hfd] at hsafe
      exact hsafe (.sendReset fd) List.mem_cons_self
    · rintro ⟨jp', hjp, h⟩
      obtain rfl := Option.some.inj hjp
      refine ⟨⟨_, rfl, fun c hc => ?_⟩, ⟨_, rfl, fun c hc => ?_⟩⟩
      · cases hfd : requestFd kl jp with
        | none =>
          simp only [hfd] at hc
          cases hc
        | some fd =>
          simp only [hfd] at hc
          split at hc
          · obtain rfl := List.mem_singleton.mp hc
            exact h fd hfd
          · cases hc
      · cases hfd : requestFd kl jp with
        | none =>
          simp only [hfd] at hc
          cases hc
        | some fd =>
          simp only [hfd] at hc
          rcases List.mem_cons.mp hc with rfl | hc
          · exact h fd hfd
          · split at hc
            · obtain rfl := List.mem_singleton.mp hc
              exact h fd hfd
            · cases hc

/-- What `json_parse` finds, in the tokens of an object. -/
theorem callsSafe_object_iff (jenv : JsonEnv) (kl : KsnLNullClass Ctx) (rd : KsnCorePacketData)
    (userIds : List CString) :
    CallsSafe kl userIds (cmdL0CheckCb jenv kl rd) ∧
        CallsSafe kl userIds (cmdL0KickClientCb jenv kl rd) ↔
      ∃ tokens,
        jenv.object (requestText rd) (getNumOfTags (requestText rd) (requestText rd).length) =
          some tokens ∧ UserIdIsNamed jenv kl (requestText rd) tokens [] userIds := by
  rw [callsSafe_iff, jsonParse_eq]
  constructor
  · rintro ⟨jp, hjp, h⟩
    obtain ⟨tokens, htokens, rfl⟩ := Option.map_eq_some_iff.mp hjp
    refine ⟨tokens, htokens, fun i _ ht hf => fun hfd => ?_⟩
    refine h _ (requestFd_eq_some_iff.mpr ⟨_, ?_, rfl, hfd⟩)
    exact (userId_eq_some_iff _ tokens _ _).mpr ⟨i, ht, hf, rfl⟩
  · rintro ⟨tokens, htokens, h⟩
    refine ⟨_, Option.map_eq_some_iff.mpr ⟨tokens, htokens, rfl⟩, fun fd hfd => ?_⟩
    obtain ⟨userId, huser, rfl, hne⟩ := requestFd_eq_some_iff.mp hfd
    obtain ⟨i, ht, hf, rfl⟩ := (userId_eq_some_iff _ tokens _ _).mp huser
    exact h i List.not_mem_nil ht hf hne

/-- The value of the member `userId` is a name of the client. -/
theorem JsonDoc.mem_userIds {json : List UInt8} (doc : JsonDoc json) (jenv : JsonEnv) {i : ℕ}
    (hkey : i ∈ doc.keys) (hf : named (jsonKey json) doc.tokens i = some .userId) :
    tokDup json (doc.tokens.getD (i + 1) jenv.staleTok) ∈ doc.userIds := by
  obtain ⟨m, hm, hp⟩ := doc.mem_keys.mp hkey
  obtain ⟨j, hj, -, -, hroot⟩ := doc.of_mem_places hm
  have htext := (doc.jsonKey_iff m hm .userId).mp ((doc.named_of_mem_places hm hp).symm.trans hf)
  have hvalue : doc.tokens.getD (i + 1) jenv.staleTok = m.2.1.root := by
    rw [List.getD_eq_getElem?_getD, show i + 1 = j + 2 by omega, hroot, Option.getD_some]
  rw [hvalue]
  exact List.mem_map.mpr ⟨m, List.mem_filter.mpr ⟨hm, decide_eq_true htext⟩, rfl⟩

/-- The members of the object need not be asked for. -/
theorem userIdIsNamed_keys_iff {json : List UInt8} (doc : JsonDoc json) (jenv : JsonEnv)
    (kl : KsnLNullClass Ctx) :
    UserIdIsNamed jenv kl json doc.tokens [] doc.userIds ↔
      UserIdIsNamed jenv kl json doc.tokens doc.keys doc.userIds := by
  constructor
  · intro h i _
    exact h i List.not_mem_nil
  · intro h i _ ht hf
    by_cases hkey : i ∈ doc.keys
    · exact fun _ => ⟨_, doc.mem_userIds jenv hkey hf, rfl⟩
    · exact h i hkey ht hf

/-- If the first key of the object is found first for every member of `json_param`, the client that
is taken is one that the object names. -/
theorem userIdIsNamed_of_firstIsFound {json : List UInt8} (doc : JsonDoc json) (jenv : JsonEnv)
    (kl : KsnLNullClass Ctx)
    (h : FirstIsFound (named (jsonKey json) doc.tokens) doc.keys (doc.tokens.length - 1)) :
    UserIdIsNamed jenv kl json doc.tokens doc.keys doc.userIds := by
  intro i hkey ht hf
  have hi : i ≤ doc.tokens.length - 1 := by
    obtain ⟨tok, htok, -⟩ := Option.bind_eq_some_iff.mp hf
    have hlt := (List.getElem?_eq_some_iff.mp htok).1
    omega
  exact absurd ((taken_iff_isFirst doc.keys_spec h i hi).mp ht).1 hkey

/-- **The requests** are answered safely exactly under `RequestCondition`. -/
theorem requestsSafe_iff {jenv : JsonEnv} (kl : KsnLNullClass Ctx) {rd : KsnCorePacketData}
    (doc : Option (JsonDoc (requestText rd))) (h : ∀ d, doc = some d → d.Tokenises jenv) :
    CallsSafe kl (requestUserIds doc) (cmdL0CheckCb jenv kl rd) ∧
        CallsSafe kl (requestUserIds doc) (cmdL0KickClientCb jenv kl rd) ↔
      RequestCondition jenv kl doc := by
  rw [callsSafe_object_iff]
  cases doc with
  | none => rfl
  | some doc =>
    rw [(h doc rfl).object]
    constructor
    · rintro ⟨tokens, htokens, hnamed⟩
      split_ifs at htokens with hroom
      obtain rfl := Option.some.inj htokens
      exact ⟨hroom, (userIdIsNamed_keys_iff doc jenv kl).mp hnamed⟩
    · rintro ⟨hroom, hnamed⟩
      exact ⟨doc.tokens, if_pos hroom, (userIdIsNamed_keys_iff doc jenv kl).mpr hnamed⟩

/-- The request is an object with the member `userId`. -/
def userRequest : KsnCorePacketData where
  addr := CString.empty
  port := 0
  data := userText

/-- Its tokens. -/
def userRequestDoc : JsonDoc (requestText userRequest) where
  root := userDoc.root
  members := userDoc.members
  isObject := rfl
  keyIsString := userDoc.keyIsString
  inText := by decide

/-- A server where the client `a` is connected. -/
def userServer : KsnLNullClass Unit where
  map := FinMap.empty.add 5 { name := some (CString.ofBuf [97]) }
  mapN := FinMap.empty.add (CString.ofBuf [97]) 5
  fdTrudp := 0

/-- The client `a` may be confirmed and disconnected. -/
theorem requestsSafe_iff_user :
    CallsSafe userServer userRequestDoc.userIds
        (cmdL0CheckCb userRequestDoc.env userServer userRequest) ∧
      CallsSafe userServer userRequestDoc.userIds
        (cmdL0KickClientCb userRequestDoc.env userServer userRequest) := by
  have htokenises : ∀ d, some userRequestDoc = some d → d.Tokenises userRequestDoc.env :=
    fun d hd => Option.some.inj hd ▸ userRequestDoc.tokenises_env
  refine (requestsSafe_iff userServer (some userRequestDoc) htokenises).mpr
    ⟨by decide, userIdIsNamed_of_firstIsFound _ _ _ fun i hi hpos f hf => ?_⟩
  have hplace : ∀ i ≤ 2, i ≠ 0 → i = 1 ∨ i = 2 := by omega
  rcases hplace i hi hpos with rfl | rfl
  · exact .inl ⟨1, by decide, Nat.le_refl 1, hf⟩
  · cases hf

/-- The array `[]` is no object, and fields are read that have not been set. -/
theorem not_requestsSafe :
    ¬ ∀ (jenv : JsonEnv) (kl : KsnLNullClass Unit) (rd : KsnCorePacketData)
      (doc : Option (JsonDoc (requestText rd))), (∀ d, doc = some d → d.Tokenises jenv) →
        CallsSafe kl (requestUserIds doc) (cmdL0CheckCb jenv kl rd) ∧
          CallsSafe kl (requestUserIds doc) (cmdL0KickClientCb jenv kl rd) := by
  intro h
  obtain ⟨⟨l, hl, -⟩, -⟩ := h
    ⟨fun json room => if json = ascii "[]" ∧ 1 ≤ room then some [⟨.other, 0, 2⟩] else none,
      ⟨.other, 0, 0⟩⟩
    userServer ⟨CString.empty, 0, CString.empty, 0, 0, ascii "[]", [], [], false⟩ none
    fun _ hd => by cases hd
  cases hl

end Teonet
