import Teonet.Lib.Parties
import Teonet.TeoDbKeyList
import Teonet.TeoDbRequests

/-! # A database for many hosts

Hosts that run `app/teodb.c`, each with a key file of its own, over the links of `Lib/Parties`.  Any
host sends requests to any other one, as blocks or as texts, well formed or not; a request is served
when it arrives, and answered to the host that it came from.

A request asks for one call of the store (`dbAsk`).  `teoDbNet_linearizes` says that a database is what
it looks like: there is one order of all requests to it, in which those of each host are as it has
sent them, such that each answer, each note to the subscribers and the contents at the end are those
of a map to which these calls are made one after the other. -/

namespace Teonet

open Block Bytes Multimap Parties Runs

variable {ι φ : Type}

/-! ### Requests to a store -/

theorem length_take_two_pow_lt {α : Type} (l : List α) : (l.take (2 ^ 31 - 1)).length < 2 ^ 31 := by
  rw [List.length_take]
  omega

/-- The functions of the store for the handler, on the open key file; no messages are made.  (A list
of keys has no more than an `int` counts; the keys can be read where they are listed.) -/
def storeEnv (env : TdbEnv φ) (json : DbJsonEnv) (stack : ℕ → UInt8) (kf : KsnTDBClass φ) :
    TeoDbEnv where
  toDbJsonEnv := json
  debug := false
  ksnTDBset key data := (ksnTDBset kf (some key) (some data)).2
  ksnTDBdelete key := ((ksnTDBdelete env kf (some key)).map Prod.snd).getD (-1)
  ksnTDBget key := (ksnTDBget env kf (some key)).2
  ksnTDBkeyList key := ((ksnTDBkeyList stack kf key).getD []).take (2 ^ 31 - 1)
  keyList_lt _ := length_take_two_pow_lt _

/-- The call of the store that an action is. -/
def DbAction.call : DbAction → Option TdbCall
  | .set key data => some (.set (some key) (some data))
  | .delete key => some (.delete (some key))
  | .get key => some (.get (some key))
  | _ => none

/-- A call, on the open key file. -/
def tdbCall (env : TdbEnv φ) (kf : KsnTDBClass φ) : TdbCall → KsnTDBClass φ
  | .get key => (ksnTDBget env kf key).1
  | .set key data => (ksnTDBset kf key data).1
  | .delete key => ((ksnTDBdelete env kf key).map Prod.fst).getD kf

/-- `CMD_D_SET` or `CMD_D_GET` in `event_cb`: the key file after it, and what has been done. -/
def teoDbServe (env : TdbEnv φ) (json : DbJsonEnv) (stack : ℕ → UInt8) (kf : KsnTDBClass φ)
    (cmd : DbCmd) (data : List UInt8) : Option (KsnTDBClass φ × List DbAction) :=
  (dbRequest (storeEnv env json stack kf) cmd data).map fun actions =>
    ((actions.filterMap DbAction.call).foldl (tdbCall env) kf, actions)

/-! ### What a request asks -/

/-- What others learn of a request. -/
inductive DbReply
  /-- `EV_D_SET`, for the subscribers -/
  | told (key : List UInt8)
  /-- `CMD_D_GET_ANSWER` -/
  | value (data : List UInt8)
deriving DecidableEq

/-- An action that others learn of. -/
def DbAction.reply : DbAction → Option DbReply
  | .subscribers key => some (.told key)
  | .answer cmd data => if cmd = cmdDGetAnswer then some (.value data) else none
  | _ => none

/-- A call of the store, and what its result makes the database say. -/
structure DbAsk where
  call : TdbCall
  reply : TdbResult → List DbReply

/-- A key gets a value; without one it is removed. -/
def DbAsk.put (key value : List UInt8) : DbAsk where
  call := if value ≠ [] then .set (some key) (some value) else .delete (some key)
  reply r := if r = .code 0 then [.told key] else []

/-- The value of a key is asked for. -/
def DbAsk.look (key : List UInt8) (answer : Option (List UInt8) → List UInt8) : DbAsk where
  call := .get (some key)
  reply
    | .data value => [.value (answer value)]
    | _ => []

/-- The value of a request with a text. -/
def jsonValue (jp : DbParam) : List UInt8 :=
  match jp .data with
  | some value => if value.bytes = [] then [] else value.toBuf
  | none => []

/-- The text of an answer. -/
def jsonAnswer (jp : DbParam) (key : CString) (value : Option (List UInt8)) : List UInt8 :=
  (TextBuffer.concat [lit "\x7b \"key\":\"", key, lit "\", \"data\":\"",
    (value.map CString.ofBuf).getD .empty, lit "\", \"id\":\"", (jp .id).getD .empty,
    lit "\" \x7d"]).toBuf

/-- What a request asks, if it is a request to set or get a value. -/
def dbAsk (json : DbJsonEnv) (cmd : DbCmd) (data : List UInt8) : Option DbAsk :=
  match cmd with
  | .set =>
    if isJson data then
      (dbJsonParse json (dataToJsonStr data)).bind fun jp => (jp .key).bind fun key =>
        if key.bytes = [] then none else some (.put key.toBuf (jsonValue jp))
    else if PassesCheck data then some (.put (keyOf data) (valueOf data)) else none
  | .get =>
    if isJson data then
      (dbJsonParse json (dataToJsonStr data)).bind fun jp => (jp .key).map fun key =>
        .look key.toBuf (jsonAnswer jp key)
    else if PassesCheck data then
      some (.look (keyOf data) fun value =>
        prepareRequestData (keyOf data) (value.getD []) (getLe 4 ((data.drop 5).take 4)))
    else none
  | .list _ => none

/-- A database that is a map. -/
def dbServe (values : PblKey → Option (List UInt8)) (ask : DbAsk) :
    (PblKey → Option (List UInt8)) × List DbReply :=
  ((ask.call.spec values).1, ask.reply (ask.call.spec values).2)

/-! ### A request is served -/

/-- The values in the open key file. -/
def KsnTDBClass.values (kf : KsnTDBClass φ) (key : PblKey) : Option (List UInt8) :=
  lastValue key ((kf.k.map PblKeyFile.records).getD [])

/-- What a call returns. -/
def tdbResult (env : TdbEnv φ) (kf : KsnTDBClass φ) : TdbCall → TdbResult
  | .get key => .data (ksnTDBget env kf key).2
  | .set key data => .code (ksnTDBset kf key data).2
  | .delete key => .code (((ksnTDBdelete env kf key).map Prod.snd).getD (-1))

variable {env : TdbEnv φ} {json : DbJsonEnv} {stack : ℕ → UInt8} {kf : KsnTDBClass φ}
  {data : List UInt8}

/-- A call on the open key file is a call of a map. -/
theorem tdbCall_spec (env : TdbEnv φ) (hopen : kf.k.isSome) (c : TdbCall) :
    (tdbCall env kf c).k.isSome ∧
      ((tdbCall env kf c).values, tdbResult env kf c) = c.spec kf.values := by
  obtain ⟨k, hk⟩ := Option.isSome_iff_exists.mp hopen
  have hspec : c.spec kf.values =
      (fun key => lastValue key (c.change k.records), c.result (some k.records)) := by
    unfold KsnTDBClass.values
    rw [hk]
    exact c.spec_eq k.records
  have hop : ∀ {α : Type} {op : KsnTDBClass φ → Option (KsnTDBClass φ × α)} {result},
      OpSpec op c.change result → ∃ kf', op kf = some (kf', result (some k.records)) ∧
        kf'.k.isSome ∧ kf'.values = fun key => lastValue key (c.change k.records) := by
    intro α op result h
    obtain ⟨kf', hop, -, -, hrecords⟩ := h kf
    rw [hk, Option.map_some, Option.map_some] at hrecords
    obtain ⟨k', hk', hrec⟩ := Option.map_eq_some_iff.mp hrecords
    refine ⟨kf', by rw [hop, hk]; rfl, Option.isSome_iff_exists.mpr ⟨k', hk'⟩, funext fun key => ?_⟩
    rw [KsnTDBClass.values, hrecords]
    rfl
  rw [hspec]
  cases c with
  | get key =>
    obtain ⟨kf', hop, hopen', hvalues⟩ := hop (opSpec_get env key)
    have hget : ksnTDBget env kf key = (kf', valueAt key (some k.records)) := Option.some.inj hop
    rw [tdbCall, tdbResult, hget]
    exact ⟨hopen', Prod.ext hvalues rfl⟩
  | set key data =>
    obtain ⟨kf', hop, hopen', hvalues⟩ := hop (opSpec_set key data)
    have hset : ksnTDBset kf key data = (kf', setResult key data (some k.records)) :=
      Option.some.inj hop
    rw [tdbCall, tdbResult, hset]
    exact ⟨hopen', Prod.ext hvalues rfl⟩
  | delete key =>
    obtain ⟨kf', hop, hopen', hvalues⟩ := hop (opSpec_delete env key)
    rw [tdbCall, tdbResult, hop]
    exact ⟨hopen', Prod.ext hvalues rfl⟩

/-- What is done to put a value, or to remove a key. -/
def putActions (env : TeoDbEnv) (key value : List UInt8) : List DbAction :=
  let (rv, action) := setOrDelete env key value
  if rv = 0 then [action, .subscribers key] else [action]

/-- What is done to look a key up. -/
def lookActions (env : TeoDbEnv) (key : List UInt8) (answer : Option (List UInt8) → List UInt8) :
    List DbAction :=
  [.get key, .answer cmdDGetAnswer (answer (env.ksnTDBget key))]

/-- The actions make the call that is asked for, and say what its result makes the database say. -/
def DoesAsk (env : TdbEnv φ) (kf : KsnTDBClass φ) (ask : DbAsk) (actions : List DbAction) : Prop :=
  actions.filterMap DbAction.call = [ask.call] ∧
    actions.filterMap DbAction.reply = ask.reply (tdbResult env kf ask.call)

theorem filterMap_told {action : DbAction} {c : TdbCall} (hcall : action.call = some c)
    (hreply : action.reply = none) (rv : ℤ) (key : List UInt8) :
    (if rv = 0 then [action, .subscribers key] else [action]).filterMap DbAction.call = [c] ∧
      (if rv = 0 then [action, .subscribers key] else [action]).filterMap DbAction.reply =
        if TdbResult.code rv = .code 0 then [.told key] else [] := by
  have hiff : TdbResult.code rv = .code 0 ↔ rv = 0 := ⟨TdbResult.code.inj, congrArg _⟩
  by_cases hrv : rv = 0
  · rw [if_pos hrv, if_pos (hiff.mpr hrv), List.filterMap_cons_some hcall,
      List.filterMap_cons_none hreply]
    exact ⟨rfl, rfl⟩
  · rw [if_neg hrv, if_neg fun h => hrv (hiff.mp h), List.filterMap_cons_some hcall,
      List.filterMap_cons_none hreply]
    exact ⟨rfl, rfl⟩

theorem doesAsk_put (key value : List UInt8) :
    DoesAsk env kf (.put key value) (putActions (storeEnv env json stack kf) key value) := by
  unfold DoesAsk putActions setOrDelete DbAsk.put
  by_cases hvalue : value ≠ []
  · rw [if_pos hvalue, if_pos hvalue]
    exact filterMap_told rfl rfl _ key
  · rw [if_neg hvalue, if_neg hvalue]
    exact filterMap_told rfl rfl _ key

theorem doesAsk_look (key : List UInt8) (answer : Option (List UInt8) → List UInt8) :
    DoesAsk env kf (.look key answer) (lookActions (storeEnv env json stack kf) key answer) :=
  ⟨rfl, rfl⟩

/-! ### The five handlers -/

theorem printed_eq {env : TeoDbEnv} (hdebug : env.debug = false) (i : ℕ) :
    printed env data i = some () := by
  rw [printed, hdebug]
  rfl

theorem setBinary_eq {env : TeoDbEnv} (hdebug : env.debug = false) (hsafe : SetSafe env data) :
    setBinary env data =
      some (if PassesCheck data then putActions env (keyOf data) (valueOf data) else []) := by
  obtain ⟨hhas, hfills⟩ := hsafe
  unfold setBinary
  rw [checkSize_eq, if_pos hhas, Option.bind_eq_bind, Option.bind_some]
  by_cases hcheck : PassesCheck data
  · have hfill := (hfills hcheck).1
    have hvalue : bytesAt data (teoDbDataSize + keyLengthOf data) (dataLengthOf data) =
        some (valueOf data) := by
      refine bytesAt_eq ?_
      unfold FillsBlock at hfill
      omega
    rw [if_pos hcheck, if_pos hcheck]
    dsimp only
    rw [bytesAt_key hcheck, if_pos hfill]
    simp only [hvalue, printed_eq hdebug, Option.bind_eq_bind, Option.bind_some, putActions]
    split_ifs <;> rfl
  · rw [if_neg hcheck, if_neg hcheck]

theorem getBinary_eq {env : TeoDbEnv} (hdebug : env.debug = false) (hsafe : GetSafe env data) :
    getBinary env data = some (if PassesCheck data then
      lookActions env (keyOf data) fun value =>
        prepareRequestData (keyOf data) (value.getD []) (getLe 4 ((data.drop 5).take 4))
      else []) := by
  obtain ⟨hhas, hfills⟩ := hsafe
  unfold getBinary
  rw [checkSize_eq, if_pos hhas, Option.bind_eq_bind, Option.bind_some]
  by_cases hcheck : PassesCheck data
  · have hfill := (hfills hcheck).1
    have hid : requestId data = some (getLe 4 ((data.drop 5).take 4)) := by
      rw [requestId, bytesAt_eq]
      · rfl
      · unfold FillsBlock teoDbDataSize at hfill
        omega
    rw [if_pos hcheck, if_pos hcheck]
    dsimp only
    rw [bytesAt_key hcheck, if_pos hfill]
    simp only [hid, printed_eq hdebug, Option.bind_eq_bind, Option.bind_some]
    rfl
  · rw [if_neg hcheck, if_neg hcheck]

theorem setJson_eq {env : TeoDbEnv} {jp : DbParam}
    (hjp : dbJsonParse env.toDbJsonEnv (dataToJsonStr data) = some jp) :
    setJson env data = some (match jp .key with
      | none => []
      | some key => if key.bytes = [] then [] else putActions env key.toBuf (jsonValue jp)) := by
  unfold setJson
  rw [hjp, Option.bind_eq_bind, Option.bind_some]
  cases jp .key with
  | none => rfl
  | some key =>
    dsimp only
    by_cases hempty : key.bytes = []
    · rw [if_pos hempty, if_pos hempty]
    · rw [if_neg hempty, if_neg hempty]
      unfold putActions jsonValue
      rfl

theorem getJson_eq {env : TeoDbEnv} {jp : DbParam} {key : CString}
    (hjp : dbJsonParse env.toDbJsonEnv (dataToJsonStr data) = some jp) (hkey : jp .key = some key) :
    getJson env data = some (lookActions env key.toBuf (jsonAnswer jp key)) := by
  unfold getJson
  rw [hjp, Option.bind_eq_bind, Option.bind_some, hkey]
  rfl

/-- **What is asked is done**, and nothing where nothing is asked. -/
theorem dbRequest_asks {cmd : DbCmd} (hcmd : ∀ c, cmd ≠ .list c)
    (hsafe : RequestSafe (storeEnv env json stack kf) cmd data) :
    ∃ actions, dbRequest (storeEnv env json stack kf) cmd data = some actions ∧
      match dbAsk json cmd data with
      | some ask => DoesAsk env kf ask actions
      | none => actions = [] := by
  unfold RequestSafe at hsafe
  cases cmd with
  | list c => exact absurd rfl (hcmd c)
  | set =>
    dsimp only [dbRequest, dbAsk]
    split_ifs at hsafe ⊢ with hjson
    · obtain ⟨jp, hjp⟩ := Option.isSome_iff_exists.mp ((dbJsonParse_isSome_iff _ _).mpr hsafe.1)
      refine ⟨_, setJson_eq hjp, ?_⟩
      have hjp' : dbJsonParse json (dataToJsonStr data) = some jp := hjp
      rw [hjp', Option.bind_some]
      cases hkey : jp .key with
      | none => rfl
      | some key =>
        rw [Option.bind_some]
        dsimp only
        by_cases hempty : key.bytes = []
        · rw [if_pos hempty, if_pos hempty]
        · rw [if_neg hempty, if_neg hempty]
          exact doesAsk_put _ _
    · refine ⟨_, setBinary_eq rfl hsafe, ?_⟩
      rw [if_pos ‹_›]
      exact doesAsk_put _ _
    · refine ⟨_, setBinary_eq rfl hsafe, ?_⟩
      rw [if_neg ‹_›]
  | get =>
    dsimp only [dbRequest, dbAsk]
    split_ifs at hsafe ⊢ with hjson
    · obtain ⟨jp, hjp⟩ := Option.isSome_iff_exists.mp ((dbJsonParse_isSome_iff _ _).mpr hsafe.1)
      obtain ⟨key, hkey⟩ := Option.isSome_iff_exists.mp
        ((isSome_key_iff hjp .key).mpr (hsafe.2 rfl))
      refine ⟨_, getJson_eq hjp hkey, ?_⟩
      have hjp' : dbJsonParse json (dataToJsonStr data) = some jp := hjp
      rw [hjp', Option.bind_some, hkey, Option.map_some]
      exact doesAsk_look _ _
    · refine ⟨_, getBinary_eq rfl hsafe, ?_⟩
      rw [if_pos ‹_›]
      exact doesAsk_look _ _
    · refine ⟨_, getBinary_eq rfl hsafe, ?_⟩
      rw [if_neg ‹_›]

/-! ### The hosts -/

/-- The hosts: where each one keeps its key files, its tokenizer, and what has been on its stack. -/
structure TeoDbNet (ι φ : Type) where
  env : ι → TdbEnv φ
  json : ι → DbJsonEnv
  stack : ι → ℕ → UInt8

/-- The packets between the hosts. -/
inductive DbMessage
  | request (cmd : DbCmd) (data : List UInt8)
  | answer (cmd : ℕ) (data : List UInt8)

/-- An application sends a request. -/
inductive DbHappens (ι : Type)
  | request (server : ι) (cmd : DbCmd) (data : List UInt8)

/-- What a host does besides sending to others. -/
inductive DbOut (ι : Type)
  /-- `teoSScrSend` with `EV_D_SET` -/
  | told (key : List UInt8)
  /-- `EV_K_RECEIVED` for the application that has asked -/
  | received (server : ι) (cmd : ℕ) (data : List UInt8)

/-- `send_answer`. -/
def DbAction.message (k : ι) : DbAction → Option (ι × DbMessage)
  | .answer cmd data => some (k, .answer cmd data)
  | _ => none

/-- `teoSScrSend`. -/
def DbAction.out : DbAction → Option (DbOut ι)
  | .subscribers key => some (.told key)
  | _ => none

/-- A request that can be read, as a text or a block; requests for keys are left out. -/
def DbSafe (json : DbJsonEnv) (cmd : DbCmd) (data : List UInt8) : Prop :=
  (∀ c, cmd ≠ .list c) ∧
    if isJson data then
      ¬LastIsName json (dataToJsonStr data) ∧
        (cmd = .get → IsNamed json (dataToJsonStr data) .key)
    else HasLengths data ∧ (PassesCheck data → FillsBlock data)

theorem DbSafe.requestSafe {cmd : DbCmd} (h : DbSafe json cmd data) (env : TdbEnv φ)
    (stack : ℕ → UInt8) (kf : KsnTDBClass φ) :
    RequestSafe (storeEnv env json stack kf) cmd data := by
  obtain ⟨hcmd, hsafe⟩ := h
  unfold RequestSafe
  split_ifs at hsafe ⊢
  · exact hsafe
  · cases cmd with
    | list c => exact absurd rfl (hcmd c)
    | set => exact ⟨hsafe.1, fun hcheck => ⟨hsafe.2 hcheck, fun _ hdebug => by cases hdebug⟩⟩
    | get => exact ⟨hsafe.1, fun hcheck => ⟨hsafe.2 hcheck, fun hdebug => by cases hdebug⟩⟩

/-- A request that has arrived, and the host that it came from. -/
abbrev DbRequest (ι : Type) : Type := ι × DbCmd × List UInt8

/-- The requests among messages, -/
def dbRequests (ms : List DbMessage) : List (DbCmd × List UInt8) :=
  ms.filterMap fun
    | .request cmd data => some (cmd, data)
    | .answer _ _ => none

/-- and the answers with a value. -/
def dbValues (ms : List DbMessage) : List (List UInt8) :=
  ms.filterMap fun
    | .request _ _ => none
    | .answer cmd data => if cmd = cmdDGetAnswer then some data else none

/-- The request that a host is given. -/
def requestIn : Input ι DbMessage (DbHappens ι) → Option (DbRequest ι)
  | .receives k (.request cmd data) => some (k, cmd, data)
  | _ => none

/-- The requests that a host has served, in order. -/
def dbServed (xs : List (Input ι DbMessage (DbHappens ι))) : List (DbRequest ι) :=
  xs.filterMap requestIn

namespace TeoDbNet

variable (net : TeoDbNet ι φ)

/-- What a host does. -/
def handle : Handler ι (KsnTDBClass φ) DbMessage (DbHappens ι) (DbOut ι)
  | _, kf, .happens (.request k cmd data) => (kf, [(k, .request cmd data)], [])
  | i, kf, .receives k (.request cmd data) =>
    match teoDbServe (net.env i) (net.json i) (net.stack i) kf cmd data with
    | some (kf', actions) =>
      (kf', actions.filterMap (DbAction.message k), actions.filterMap DbAction.out)
    | none => (kf, [], [])
  | _, kf, .receives k (.answer cmd data) => (kf, [], [.received k cmd data])

/-- Requests can be read by the host that they go to. -/
def Fair : DbHappens ι → Prop
  | .request k cmd data => DbSafe (net.json k) cmd data

/-- A map that serves a request. -/
def serves (k : ι) (values : PblKey → Option (List UInt8)) (r : DbRequest ι) :
    (PblKey → Option (List UInt8)) × List (ι × DbReply) :=
  match dbAsk (net.json k) r.2.1 r.2.2 with
  | some ask => ((dbServe values ask).1, (dbServe values ask).2.map fun reply => (r.1, reply))
  | none => (values, [])

/-- What a map says that serves some requests, one after the other, with the host that has asked, -/
def replies (k : ι) : (PblKey → Option (List UInt8)) → List (DbRequest ι) → List (ι × DbReply) :=
  outputs (net.serves k)

/-- and what it has then. -/
def valuesAfter (k : ι) (values : PblKey → Option (List UInt8)) (rs : List (DbRequest ι)) :
    PblKey → Option (List UInt8) :=
  rs.foldl (fun values r => (net.serves k values r).1) values

end TeoDbNet

/-- The values for one of the hosts that have asked, -/
def valuesFor [DecidableEq ι] (i : ι) (rs : List (ι × DbReply)) : List (List UInt8) :=
  rs.filterMap fun
    | (j, .value data) => if j = i then some data else none
    | (_, .told _) => none

/-- and the keys that the subscribers are told. -/
def keysTold (rs : List (ι × DbReply)) : List (List UInt8) :=
  rs.filterMap fun
    | (_, .value _) => none
    | (_, .told key) => some key

/-- The requests that applications send to a host. -/
def requestsTo [DecidableEq ι] (k : ι) (hs : List (DbHappens ι)) : List (DbCmd × List UInt8) :=
  hs.filterMap fun
    | .request server cmd data => if server = k then some (cmd, data) else none

/-- The values that an application has received from a host, -/
def valuesReceived [DecidableEq ι] (k : ι) (os : List (DbOut ι)) : List (List UInt8) :=
  os.filterMap fun
    | .told _ => none
    | .received server cmd data =>
      if server = k ∧ cmd = cmdDGetAnswer then some data else none

/-- and the keys of which a host has told its subscribers. -/
def subscribersTold (os : List (DbOut ι)) : List (List UInt8) :=
  os.filterMap fun
    | .told key => some key
    | .received _ _ _ => none

/-- The requests of a host among requests. -/
def servedFor [DecidableEq ι] (i : ι) (rs : List (DbRequest ι)) : List (DbCmd × List UInt8) :=
  rs.filterMap fun r => if r.1 = i then some r.2 else none

/-! ### One input -/

section
variable {net : TeoDbNet ι φ} {i k : ι} {cmd : DbCmd}

/-- A request is served as the map would. -/
theorem serve_spec (env : TdbEnv φ) (stack : ℕ → UInt8) (hopen : kf.k.isSome)
    (hsafe : DbSafe json cmd data) :
    ∃ kf' actions, teoDbServe env json stack kf cmd data = some (kf', actions) ∧ kf'.k.isSome ∧
      (kf'.values, actions.filterMap DbAction.reply) =
        match dbAsk json cmd data with
        | some ask => dbServe kf.values ask
        | none => (kf.values, []) := by
  obtain ⟨actions, hrequest, hasks⟩ :=
    dbRequest_asks hsafe.1 (hsafe.requestSafe env stack kf)
  refine ⟨_, actions, by rw [teoDbServe, hrequest]; rfl, ?_⟩
  cases hask : dbAsk json cmd data with
  | none =>
    rw [hask] at hasks
    obtain rfl : actions = [] := hasks
    exact ⟨hopen, rfl⟩
  | some ask =>
    rw [hask] at hasks
    obtain ⟨hcall, hreply⟩ := hasks
    obtain ⟨hopen', hspec⟩ := tdbCall_spec env hopen ask.call
    rw [hcall, hreply]
    dsimp only
    rw [dbServe, ← hspec]
    exact ⟨hopen', rfl⟩

/-- A message that may be sent to a host: a request that it can read, or an answer. -/
def TeoDbNet.Ok (net : TeoDbNet ι φ) (_ receiver : ι) : DbMessage → Prop
  | .request cmd data => DbSafe (net.json receiver) cmd data
  | .answer _ _ => True

variable [DecidableEq ι] {x : Input ι DbMessage (DbHappens ι)}

/-- The answers of the actions are what the actions say, -/
theorem dbValues_actions (actions : List DbAction) (j : ι) :
    dbValues (messagesTo j (actions.filterMap (DbAction.message k))) =
      valuesFor j ((actions.filterMap DbAction.reply).map fun reply => (k, reply)) := by
  unfold dbValues messagesTo valuesFor
  simp only [List.filterMap_filterMap, List.filterMap_map]
  apply List.filterMap_congr
  intro action _
  cases action with
  | answer cmd value =>
    by_cases hcmd : cmd = cmdDGetAnswer
    · by_cases hk : k = j
      · simp [DbAction.message, DbAction.reply, hcmd, hk]
      · simp [DbAction.message, DbAction.reply, hcmd, hk]
    · by_cases hk : k = j
      · simp [DbAction.message, DbAction.reply, hcmd, hk]
      · simp [DbAction.message, DbAction.reply, hcmd, hk]
  | subscribers key => rfl
  | set key value => rfl
  | delete key => rfl
  | get key => rfl
  | list key => rfl

omit [DecidableEq ι] in
/-- and so are the notes. -/
theorem subscribersTold_actions (actions : List DbAction) :
    subscribersTold (actions.filterMap (DbAction.out (ι := ι))) =
      keysTold ((actions.filterMap DbAction.reply).map fun reply => (k, reply)) := by
  unfold subscribersTold keysTold
  simp only [List.filterMap_filterMap, List.filterMap_map]
  apply List.filterMap_congr
  intro action _
  cases action with
  | answer cmd value =>
    by_cases hcmd : cmd = cmdDGetAnswer
    · simp [DbAction.out, DbAction.reply, hcmd]
    · simp [DbAction.out, DbAction.reply, hcmd]
  | subscribers key => rfl
  | set key value => rfl
  | delete key => rfl
  | get key => rfl
  | list key => rfl

/-- A map is given the request in an input. -/
def TeoDbNet.servesInput (net : TeoDbNet ι φ) (k : ι) (values : PblKey → Option (List UInt8))
    (x : Input ι DbMessage (DbHappens ι)) :
    (PblKey → Option (List UInt8)) × List (ι × DbReply) :=
  match requestIn x with
  | some r => net.serves k values r
  | none => (values, [])

omit [DecidableEq ι] in
theorem servesInput_of_some {values : PblKey → Option (List UInt8)} {r : DbRequest ι}
    (h : requestIn x = some r) : net.servesInput k values x = net.serves k values r := by
  rw [TeoDbNet.servesInput, h]

omit [DecidableEq ι] in
theorem servesInput_of_none {values : PblKey → Option (List UInt8)} (h : requestIn x = none) :
    net.servesInput k values x = (values, []) := by
  rw [TeoDbNet.servesInput, h]

/-- What a host does with an input is what the map does. -/
structure ServesAs (net : TeoDbNet ι φ) (k : ι) (kf : KsnTDBClass φ)
    (x : Input ι DbMessage (DbHappens ι)) : Prop where
  isOpen : (net.handle k kf x).1.k.isSome
  values : (net.handle k kf x).1.values = (net.servesInput k kf.values x).1
  answers : ∀ i, dbValues (messagesTo i (net.handle k kf x).2.1) =
    valuesFor i (net.servesInput k kf.values x).2
  told : subscribersTold (net.handle k kf x).2.2 = keysTold (net.servesInput k kf.values x).2
  sends : ∀ p ∈ (net.handle k kf x).2.1, net.Ok k p.1 p.2

theorem servesAs (hopen : kf.k.isSome) (hx : x.Ok (fun _ _ => net.Fair) net.Ok k kf) :
    ServesAs net k kf x := by
  match x, hx with
  | .happens (.request server cmd data), hfair =>
    refine ⟨hopen, rfl, fun i => ?_, rfl, fun p hp => ?_⟩
    · show dbValues (messagesTo i [(server, .request cmd data)]) = []
      by_cases hi : server = i
      · simp [messagesTo, dbValues, hi]
      · simp [messagesTo, dbValues, hi]
    · obtain rfl := List.mem_singleton.mp hp
      exact hfair
  | .receives j (.answer cmd data), _ =>
    exact ⟨hopen, rfl, fun _ => rfl, rfl, fun p hp => absurd hp List.not_mem_nil⟩
  | .receives j (.request cmd data), hsafe =>
    obtain ⟨kf', actions, hserve, hopen', hspec⟩ :=
      serve_spec (net.env k) (net.stack k) hopen hsafe
    have hserves : net.servesInput k kf.values (.receives j (.request cmd data)) =
        (kf'.values, (actions.filterMap DbAction.reply).map fun reply => (j, reply)) := by
      unfold TeoDbNet.servesInput requestIn TeoDbNet.serves
      dsimp only
      cases hask : dbAsk (net.json k) cmd data with
      | none =>
        rw [hask] at hspec
        obtain ⟨hvalues, hreplies⟩ := Prod.mk.inj hspec
        rw [hvalues, hreplies]
        rfl
      | some ask =>
        rw [hask] at hspec
        dsimp only at hspec ⊢
        rw [← hspec]
    have hhandle : net.handle k kf (.receives j (.request cmd data)) =
        (kf', actions.filterMap (DbAction.message j), actions.filterMap DbAction.out) := by
      rw [TeoDbNet.handle, hserve]
    refine ⟨by rw [hhandle]; exact hopen', by rw [hhandle, hserves], fun i => ?_, ?_, ?_⟩
    · rw [hhandle, hserves]
      exact dbValues_actions actions i
    · rw [hhandle, hserves]
      exact subscribersTold_actions actions
    · rw [hhandle]
      intro p hp
      obtain ⟨action, -, haction⟩ := List.mem_filterMap.mp hp
      cases action with
      | answer cmd data =>
        obtain rfl := Option.some.inj haction
        exact trivial
      | _ => cases haction

/-! ### Requests on their way -/

omit [DecidableEq ι] in
theorem dbRequests_append (ms ms' : List DbMessage) :
    dbRequests (ms ++ ms') = dbRequests ms ++ dbRequests ms' :=
  List.filterMap_append

omit [DecidableEq ι] in
theorem dbValues_append (ms ms' : List DbMessage) :
    dbValues (ms ++ ms') = dbValues ms ++ dbValues ms' :=
  List.filterMap_append

theorem requestsTo_append (hs hs' : List (DbHappens ι)) :
    requestsTo k (hs ++ hs') = requestsTo k hs ++ requestsTo k hs' :=
  List.filterMap_append

omit [DecidableEq ι] in
theorem handle_request (net : TeoDbNet ι φ) (i j : ι) (kf : KsnTDBClass φ) (cmd : DbCmd)
    (data : List UInt8) : ∃ kf' : KsnTDBClass φ, ∃ actions : List DbAction,
      net.handle i kf (.receives j (.request cmd data)) =
        (kf', actions.filterMap (DbAction.message j), actions.filterMap DbAction.out) := by
  rw [TeoDbNet.handle]
  cases teoDbServe (net.env i) (net.json i) (net.stack i) kf cmd data with
  | none => exact ⟨kf, [], rfl⟩
  | some r => exact ⟨r.1, r.2, rfl⟩

/-- The requests that a host sends are those of its application. -/
theorem requests_handle (net : TeoDbNet ι φ) (i : ι) (kf : KsnTDBClass φ)
    (x : Input ι DbMessage (DbHappens ι)) :
    dbRequests (messagesTo k (net.handle i kf x).2.1) = requestsTo k (happened [x]) := by
  match x with
  | .happens (.request server cmd data) =>
    show dbRequests (messagesTo k [(server, .request cmd data)]) = _
    by_cases hk : server = k
    · simp [messagesTo, dbRequests, requestsTo, happened, hk]
    · simp [messagesTo, dbRequests, requestsTo, happened, hk]
  | .receives j (.answer cmd data) => rfl
  | .receives j (.request cmd data) =>
    obtain ⟨kf', actions, hhandle⟩ := handle_request net i j kf cmd data
    rw [hhandle]
    apply List.filterMap_eq_nil_iff.mpr
    intro m hm
    obtain ⟨action, -, haction⟩ := List.mem_filterMap.mp (mem_messagesTo.mp hm)
    cases action with
    | answer cmd data =>
      obtain ⟨-, rfl⟩ := Prod.mk.inj (Option.some.inj haction)
      rfl
    | _ => cases haction

/-- An application receives the answers that arrive. -/
theorem received_handle (net : TeoDbNet ι φ) (i : ι) (kf : KsnTDBClass φ)
    (x : Input ι DbMessage (DbHappens ι)) :
    valuesReceived k (net.handle i kf x).2.2 = dbValues (receivedFrom k [x]) := by
  match x with
  | .happens (.request server cmd data) => rfl
  | .receives j (.answer cmd data) =>
    rw [receivedFrom_receives]
    show valuesReceived k [.received j cmd data] = _
    by_cases hj : j = k
    · by_cases hcmd : cmd = cmdDGetAnswer
      · simp [valuesReceived, dbValues, hj, hcmd]
      · simp [valuesReceived, dbValues, hj, hcmd]
    · simp [valuesReceived, dbValues, hj]
  | .receives j (.request cmd data) =>
    obtain ⟨kf', actions, hhandle⟩ := handle_request net i j kf cmd data
    have hnil : valuesReceived k (actions.filterMap (DbAction.out (ι := ι))) = [] := by
      apply List.filterMap_eq_nil_iff.mpr
      intro o ho
      obtain ⟨action, -, haction⟩ := List.mem_filterMap.mp ho
      cases action with
      | subscribers key =>
        obtain rfl := Option.some.inj haction
        rfl
      | _ => cases haction
    rw [hhandle, hnil, receivedFrom_receives]
    split_ifs
    · rfl
    · rfl

/-- The requests of a host that another one has served are those that it has received. -/
theorem servedFor_dbServed (xs : List (Input ι DbMessage (DbHappens ι))) :
    servedFor i (dbServed xs) = dbRequests (receivedFrom i xs) := by
  unfold servedFor dbServed dbRequests receivedFrom
  simp only [List.filterMap_filterMap]
  apply List.filterMap_congr
  intro x _
  match x with
  | .happens e => rfl
  | .receives j (.answer cmd data) =>
    by_cases hj : j = i
    · simp [requestIn, hj]
    · simp [requestIn, hj]
  | .receives j (.request cmd data) =>
    by_cases hj : j = i
    · simp [requestIn, hj]
    · simp [requestIn, hj]

/-! ### Runs -/

variable {xs : List (Input ι DbMessage (DbHappens ι))}

/-- What a host makes of its inputs, seen as replies, is what the map replies, and the values are those
of the map. -/
theorem replies_run {ο υ : Type} (out : KsnTDBClass φ → Input ι DbMessage (DbHappens ι) → List ο)
    (view : List ο → List υ) (view' : List (ι × DbReply) → List υ) (hnil : view [] = view' [])
    (happend : ∀ l l', view (l ++ l') = view l ++ view l')
    (happend' : ∀ l l', view' (l ++ l') = view' l ++ view' l')
    (hout : ∀ kf x, ServesAs net k kf x → view (out kf x) = view' (net.servesInput k kf.values x).2)
    (hopen : kf.k.isSome)
    (hxs : ∀ x ∈ xs, ∀ kf : KsnTDBClass φ, x.Ok (fun _ _ => net.Fair) net.Ok k kf) :
    view (outputs (fun kf x => (alone net.handle k kf x, out kf x)) kf xs) =
        view' (net.replies k kf.values (dbServed xs)) ∧
      (xs.foldl (alone net.handle k) kf).values = net.valuesAfter k kf.values (dbServed xs) := by
  have hstep : ∀ (kf : KsnTDBClass φ) (x : Input ι DbMessage (DbHappens ι)), kf.k.isSome →
      (∀ kf : KsnTDBClass φ, x.Ok (fun _ _ => net.Fair) net.Ok k kf) →
      (alone net.handle k kf x).k.isSome ∧
        (alone net.handle k kf x).values = (net.servesInput k kf.values x).1 ∧
        view (out kf x) = view' (net.servesInput k kf.values x).2 := by
    intro kf x hopen hx
    have hserves := servesAs hopen (hx kf)
    exact ⟨hserves.isOpen, hserves.values, hout kf x hserves⟩
  obtain ⟨hview, hvalues⟩ := outputs_abs (f := fun kf x => (alone net.handle k kf x, out kf x))
    (g := net.servesInput k) KsnTDBClass.values view view' (fun kf => kf.k.isSome) hnil happend
    happend' hstep hopen ((always_const_iff kf xs).mpr hxs)
  obtain ⟨hreplies, hafter⟩ := outputs_filterMap requestIn (f := net.servesInput k)
    (fun _ _ _ hr => servesInput_of_some hr) (fun _ _ hr => servesInput_of_none hr) kf.values xs
  rw [hview, hvalues, hreplies, hafter]
  exact ⟨rfl, rfl⟩

theorem requests_run (net : TeoDbNet ι φ) (i : ι) (kf : KsnTDBClass φ) :
    dbRequests (messagesTo k (sends net.handle i kf xs)) = requestsTo k (happened xs) := by
  apply outputs_eq_events_of_forall (fun l => dbRequests (messagesTo k l))
    (fun xs => requestsTo k (happened xs)) rfl
  · intro l l'
    rw [messagesTo_append, dbRequests_append]
  · intro xs ys
    rw [happened_append, requestsTo_append]
  · exact requests_handle net i

theorem received_run (net : TeoDbNet ι φ) (i : ι) (kf : KsnTDBClass φ) :
    valuesReceived k (givesOut net.handle i kf xs) = dbValues (receivedFrom k xs) := by
  apply outputs_eq_events_of_forall (valuesReceived k) (fun xs => dbValues (receivedFrom k xs)) rfl
  · exact fun l l' => List.filterMap_append
  · intro xs ys
    rw [receivedFrom_append, dbValues_append]
  · exact received_handle net i

/-- The database of `k` is a map after the run: the requests served are those that hosts have sent, in
their order, but for those on their way, and the answers, the notes and the contents are those of
the map. -/
structure Linearized (net : TeoDbNet ι φ) (s : Net ι (KsnTDBClass φ) DbMessage)
    (es : List (Event ι (DbHappens ι))) (k : ι) (served : List (DbRequest ι)) : Prop where
  requests : ∀ i, servedFor i served ++ dbRequests ((es.foldl (next net.handle) s).link i k) =
    requestsTo k (happenings i es)
  answers : ∀ i, valuesReceived k (givenOutBy i (outputs (step net.handle) s es)) ++
      dbValues ((es.foldl (next net.handle) s).link k i) =
    valuesFor i (net.replies k (s.party k).values served)
  told : subscribersTold (givenOutBy k (outputs (step net.handle) s es)) =
    keysTold (net.replies k (s.party k).values served)
  values : ((es.foldl (next net.handle) s).party k).values =
    net.valuesAfter k (s.party k).values served

variable {s : Net ι (KsnTDBClass φ) DbMessage}

theorem teoDbNet_keeps (net : TeoDbNet ι φ) :
    Keeps net.handle (fun _ kf => kf.k.isSome) (fun _ _ => net.Fair) net.Ok := by
  intro i kf x hopen hx
  have hserves := servesAs hopen hx
  exact ⟨hserves.isOpen, hserves.sends⟩

theorem linearized (hlinks : ∀ i j, s.link i j = []) (hopen : ∀ i, (s.party i).k.isSome)
    {es : List (Event ι (DbHappens ι))} (hfair : ∀ i e, .happens i e ∈ es → net.Fair e) (k : ι) :
    Linearized net s es k (dbServed (inputs net.handle k s es)) := by
  have hall : AllOk (fun _ kf => kf.k.isSome) net.Ok s :=
    ⟨hopen, fun i j m hm => by rw [hlinks] at hm; cases hm⟩
  have hinputs := ((teoDbNet_keeps net).run_of_forall hall hfair).2 k
  refine ⟨fun i => ?_, fun i => ?_, ?_, ?_⟩
  · have hlink := link_run net.handle s es i k
    rw [hlinks, List.nil_append] at hlink
    rw [servedFor_dbServed, ← dbRequests_append, ← hlink, requests_run, happened_inputs]
  · have hlink := link_run net.handle s es k i
    rw [hlinks, List.nil_append] at hlink
    have hreplies := replies_run (fun kf x => (net.handle k kf x).2.1)
      (fun l => dbValues (messagesTo i l)) (valuesFor i) rfl
      (fun l l' => by rw [messagesTo_append, dbValues_append]) (fun l l' => List.filterMap_append)
      (fun kf x h => h.answers i) (hopen k) hinputs
    rw [outputs_run, received_run, ← dbValues_append, ← hlink]
    exact hreplies.1
  · have hreplies := replies_run (fun kf x => (net.handle k kf x).2.2) subscribersTold keysTold rfl
      (fun l l' => List.filterMap_append) (fun l l' => List.filterMap_append)
      (fun kf x h => h.told) (hopen k) hinputs
    rw [outputs_run]
    exact hreplies.1
  · rw [party_run]
    exact (replies_run (fun kf x => (net.handle k kf x).2.2) subscribersTold keysTold rfl
      (fun l l' => List.filterMap_append) (fun l l' => List.filterMap_append)
      (fun kf x h => h.told) (hopen k) hinputs).2

/-- **A database for many hosts**: the requests to it are served in one order that only grows, in which
those of each host are as it has sent them, and in every run of the hosts all answers, all notes to the
subscribers and the values are those of a map that serves the requests in this order. -/
theorem teoDbNet_linearizes (net : TeoDbNet ι φ) (hlinks : ∀ i j, s.link i j = [])
    (hopen : ∀ i, (s.party i).k.isSome) (k : ι) :
    ∃ order : List (Event ι (DbHappens ι)) → List (DbRequest ι),
      (∀ es es', order es <+: order (es ++ es')) ∧
        ∀ es, (∀ i e, .happens i e ∈ es → net.Fair e) → Linearized net s es k (order es) := by
  refine ⟨fun es => dbServed (inputs net.handle k s es), fun es es' => ?_, fun es hfair => ?_⟩
  · have happend : inputs net.handle k s (es ++ es') = inputs net.handle k s es ++
        inputs net.handle k (es.foldl (next net.handle) s) es' := outputs_append _ s es es'
    dsimp only
    unfold dbServed
    rw [happend, List.filterMap_append]
    exact List.prefix_append _ _
  · exact linearized hlinks hopen hfair k
end

/-! ### Two hosts -/

/-- Two hosts that know no texts. -/
def twoDbs : TeoDbNet Bool (List (List UInt8)) where
  env _ := dotEnv
  json _ := emptyStore.toDbJsonEnv
  stack _ _ := 0

/-- Their key files are empty. -/
def twoDbsStart : Net Bool (KsnTDBClass (List (List UInt8))) DbMessage where
  party _ := { k := some ⟨[], [], none⟩ }

/-- A host sets a key of the other one, which both ask for; its own question comes first. -/
def twoDbsEvents : List (Event Bool (DbHappens Bool)) :=
  [.happens false (.request true .set (prepareRequestData [107] [5] 0)),
    .happens true (.request true .get (prepareRequestData [107] [] 1)),
    .happens false (.request true .get (prepareRequestData [107] [] 2)),
    .deliver true true, .deliver false true, .deliver false true, .deliver true false,
    .deliver true true]

theorem dbSafe_of_block {json : DbJsonEnv} {cmd : DbCmd} {data : List UInt8}
    (hcmd : ∀ c, cmd ≠ .list c) (hjson : isJson data = false) (hhas : HasLengths data)
    (hfills : FillsBlock data) : DbSafe json cmd data := by
  refine ⟨hcmd, ?_⟩
  rw [hjson]
  exact ⟨hhas, fun _ => hfills⟩

theorem teoDbNet_linearizes_two :
    ∃ order : List (Event Bool (DbHappens Bool)) → List (DbRequest Bool),
      (∀ es es', order es <+: order (es ++ es')) ∧
        Linearized twoDbs twoDbsStart twoDbsEvents true (order twoDbsEvents) ∧
        valuesReceived true (givenOutBy true
          (outputs (step twoDbs.handle) twoDbsStart twoDbsEvents)) =
            [prepareRequestData [107] [] 1] ∧
        valuesReceived true (givenOutBy false
          (outputs (step twoDbs.handle) twoDbsStart twoDbsEvents)) =
            [prepareRequestData [107] [5] 2] := by
  obtain ⟨order, hgrows, hall⟩ :=
    teoDbNet_linearizes (s := twoDbsStart) twoDbs (fun _ _ => rfl) (fun _ => rfl) true
  refine ⟨order, hgrows, hall _ ?_, by decide, by decide⟩
  intro i e he
  simp only [twoDbsEvents, List.mem_cons, Event.happens.injEq, reduceCtorEq, List.not_mem_nil,
    or_false] at he
  rcases he with ⟨-, rfl⟩ | ⟨-, rfl⟩ | ⟨-, rfl⟩
  · exact dbSafe_of_block (by simp) (by decide) (by decide) (by decide)
  · exact dbSafe_of_block (by simp) (by decide) (by decide) (by decide)
  · exact dbSafe_of_block (by simp) (by decide) (by decide) (by decide)

end Teonet
