import Teonet.CommandData
import Teonet.L0Auth
import Teonet.Lib.TokenScan

/-! # Authentication over a websocket (`teo_ws.c`, `teo_auth.c`)

`teoWSprocessMsg` reads a JSON message from a websocket; for an authentication command it collects
the members of the data object and hands them to `teoAuthProcessCommand`, which copies them for the
thread that runs `teoAuthProccess`, which sends the HTTP request.  The JSON parser is a parameter:
it gives tokens, which are ranges of the text, and both loops of `teoWSprocessMsg` walk over the
tokens without regard to the objects they lie in.

`wsMessage` puts the three functions together.  `authSafe_iff` says for which messages a request is
sent only as it should be, with the members of the data object: the test for all members is a constant,
and so is the test of the URL. -/

namespace Teonet

open TokenScan

/-! ### Tokens -/

/-- `get_num_of_tags` of the first `length` bytes. -/
def getNumOfTags (data : List UInt8) (length : ℕ) : ℕ := ((data.take length).count 58 + 1) * 4

/-- `jsoneq`: the token is the string `s`. -/
def jsoneq (json : List UInt8) (tok : JsmnTok) (s : String) : Bool :=
  tok.type = .string ∧ (ascii s).length = tok.stop - tok.start ∧ tokText json tok = ascii s

/-- `strndup` of the text of a token. -/
def tokDup (json : List UInt8) (tok : JsmnTok) : CString := CString.ofBuf (tokText json tok)

/-! ### The authentication module -/

/-- `teoAuthData`. -/
structure TeoAuthData where
  method : CString
  url : CString
  data : CString
  headers : CString

/-- What `send_request` is called with. -/
structure AuthRequest where
  fullUrl : List UInt8
  data : CString
  header : CString

/-- `teoAuthProcessCommand`; a null pointer is copied nowhere. -/
def teoAuthProcessCommand (list : List TeoAuthData) (method url data headers : Option CString) :
    Option (List TeoAuthData) := do
  let method ← method
  let url ← url
  let data ← data
  let headers ← headers
  some (list ++ [{ method := method, url := url, data := data, headers := headers }])

/-- `strcmp` with a literal: whether the texts differ. -/
def strcmp (s : CString) (t : String) : Bool := s.bytes ≠ ascii t

/-- `teoAuthProccess`: the request that it sends. -/
def teoAuthProccess (authServerUrl : CString) (e : TeoAuthData) : Option AuthRequest :=
  let validUrl :=
    if strcmp e.url "register-client" then true
    else if strcmp e.url "register" then true
    else if strcmp e.url "login" then true
    else if strcmp e.url "refresh" then true
    else if strcmp e.url "restore" then true
    else if strcmp e.url "change-password" then true
    else if strcmp e.url "me" then true
    else false
  if validUrl then
    some {
      fullUrl := (authServerUrl.bytes ++ e.url.bytes).take (256 - 1)
      data := e.data
      header := e.headers }
  else none

/-- `auth_thread` processes what is in the list. -/
def authThread (authServerUrl : CString) (list : List TeoAuthData) : List AuthRequest :=
  list.filterMap (teoAuthProccess authServerUrl)

/-! ### The websocket module -/

/-- A loop over the tokens from `i` on, of which there are `n`, until `all` keys have been found.
`key` looks at a token and at the text of the next one, which is skipped if the token is a key. -/
def tokenLoop {σ : Type} (json : List UInt8) (t : ℕ → JsmnTok) (all : σ → Bool)
    (key : σ → JsmnTok → CString → Option σ) (i : ℕ) : ℕ → σ → σ
  | 0, k => k
  | n + 1, k =>
    if all k then k
    else
      match key k (t i) (tokDup json (t (i + 1))) with
      | none => tokenLoop json t all key (i + 1) n k
      | some k =>
        match n with
        | 0 => k
        | n + 1 => tokenLoop json t all key (i + 2) n k

/-- **The loop** gives what stands at the places that `scan` takes.  `view` is the state of the loop for
some places of values, of which `key` sets one. -/
theorem tokenLoop_eq_scan {σ F : Type} [DecidableEq F] {json : List UInt8} {t : ℕ → JsmnTok}
    {all : σ → Bool} {key : σ → JsmnTok → CString → Option σ} {look : Look F}
    {names : ℕ → Option F} (view : (F → Option ℕ) → σ) (last : ℕ)
    (hall : ∀ s, all (view s) = true → ∀ f, look.wants (fun g => (s g).isSome) f = false)
    (hkey : ∀ s i, all (view s) = false → i < last →
      key (view s) (t i) (tokDup json (t (i + 1))) =
        (keyAt look names s i).map fun f => view (Function.update s f (some (i + 1)))) (n : ℕ) :
    ∀ i s, i + n = last →
      tokenLoop json t all key i n (view s) = view (scan look names i n s).1 := by
  induction n using Nat.strongRecOn with
  | _ n ih =>
    intro i s hn
    match n with
    | 0 => rfl
    | n + 1 =>
      rw [tokenLoop]
      by_cases hdone : all (view s) = true
      · rw [if_pos hdone, scan_of_done (hall s hdone)]
      · rw [if_neg hdone, hkey s i (by simpa using hdone) (by omega), scan]
        cases keyAt look names s i with
        | none => exact ih n (by omega) (i + 1) s (by omega)
        | some f =>
          cases n with
          | zero => rfl
          | succ n => exact ih n (by omega) (i + 2) _ (by omega)

/-- The keys of a message that have been found. -/
structure WsKeys where
  cmd : Option ℤ := none
  toPeer : Option CString := none
  cmdData : Option CString := none

/-- The loop over the tokens of a message. -/
def wsKeys (json : List UInt8) (r : ℕ) (t : ℕ → JsmnTok) : WsKeys :=
  tokenLoop json t (fun k => k.cmd.isSome ∧ k.toPeer.isSome ∧ k.cmdData.isSome)
    (fun k tok value =>
      if jsoneq json tok "cmd" then some { k with cmd := some (atoi value) }
      else if jsoneq json tok "to" then some { k with toPeer := some value }
      else if jsoneq json tok "data" then some { k with cmdData := some value }
      else none)
    1 (r - 1) {}

/-- The members of the data object that have been found. -/
structure AuthMembers where
  method : Option CString := none
  url : Option CString := none
  data : Option CString := none
  headers : Option CString := none

/-- The loop over the tokens of the data of an authentication command. -/
def authMembers (json : List UInt8) (r : ℕ) (t : ℕ → JsmnTok) : AuthMembers :=
  tokenLoop json t (fun m => m.method.isSome ∧ m.url.isSome ∧ m.data.isSome ∧ m.headers.isSome)
    (fun m tok value =>
      if jsoneq json tok "method" then some { m with method := some value }
      else if jsoneq json tok "url" then some { m with url := some value }
      else if m.data = none ∧ jsoneq json tok "data" then some { m with data := some value }
      else if jsoneq json tok "headers" then some { m with headers := some value }
      else none)
    1 (r - 1) {}

/-- What `teoWSprocessMsg` does with a message. -/
inductive WsAction
  | add (name : CString)
  | send (cmd : ℤ) (toPeer : CString) (data : List UInt8)
  | auth (m : AuthMembers)

/-- The world of the module: the parser with the tokens that it leaves, what lies behind a copied
string on the heap, the results of `kws->add` and `kws->send`, and the server. -/
structure WsEnv where
  jsmnParse : List UInt8 → ℕ → ℤ × (ℕ → JsmnTok)
  behind : CString → List UInt8
  add : CString → Bool
  send : ℤ → CString → List UInt8 → ℤ
  authServerUrl : CString

/-- The first part of `teoWSprocessMsg`: the command, the peer and the data of a message. -/
def wsFields (env : WsEnv) (data : List UInt8) : Option (ℤ × CString × CString) :=
  let numOfTags := getNumOfTags data data.length
  if numOfTags = 0 then none
  else
    let (r, t) := env.jsmnParse data numOfTags
    if r < 0 then none
    else if r < 1 ∨ (t 0).type ≠ .object then none
    else
      let k := wsKeys data r.toNat t
      match k.cmd, k.toPeer, k.cmdData with
      | some cmd, some toPeer, some cmdData => some (cmd, toPeer, cmdData)
      | _, _, _ => none

/-- The tokens of the data of an authentication command in a message of `length` bytes. -/
def authTokens (env : WsEnv) (length : ℕ) (cmdData : CString) : ℤ × (ℕ → JsmnTok) :=
  env.jsmnParse cmdData.bytes (getNumOfTags (cmdData.toBuf ++ env.behind cmdData) length)

/-- `CMD_L_ECHO`. -/
def cmdLEcho : ℤ := 65

/-- `CMD_L_PEERS`. -/
def cmdLPeers : ℤ := 72

/-- `CMD_L_AUTH`. -/
def cmdLAuth : ℤ := 77

/-- `teoWSprocessMsg`: what it does, and whether the message has been processed. -/
def teoWSprocessMsg (env : WsEnv) (data : List UInt8) : List WsAction × Bool :=
  match wsFields env data with
  | none => ([], false)
  | some (cmd, toPeer, cmdData) =>
    if cmd = 0 ∧ toPeer.bytes = [] ∧ cmdData.bytes ≠ [] then ([.add cmdData], env.add cmdData)
    else if cmd = cmdLPeers ∧ toPeer.bytes ≠ [] ∧ cmdData.bytes = [] then
      ([.send cmd toPeer []], env.send cmd toPeer [] ≠ -1)
    else if cmd = cmdLEcho ∧ toPeer.bytes ≠ [] ∧ cmdData.bytes ≠ [] then
      ([.send cmd toPeer cmdData.toBuf], env.send cmd toPeer cmdData.toBuf ≠ -1)
    else if cmd = cmdLAuth ∧ cmdData.bytes ≠ [] then
      let numOfTags := getNumOfTags (cmdData.toBuf ++ env.behind cmdData) data.length
      if numOfTags ≠ 0 then
        let (r, t) := authTokens env data.length cmdData
        if ¬ r < 1 then
          -- `if(ALL_KEYS)` holds whatever has been found
          ([.auth (authMembers cmdData.bytes r.toNat t)], true)
        else ([], true)
      else ([], true)
    else if toPeer.bytes ≠ [] then
      ([.send cmd toPeer cmdData.toBuf], env.send cmd toPeer cmdData.toBuf ≠ -1)
    else ([], false)

/-- The list of the authentication thread after an action. -/
def WsAction.queue (list : List TeoAuthData) : WsAction → Option (List TeoAuthData)
  | .auth m => teoAuthProcessCommand list m.method m.url m.data m.headers
  | _ => some list

/-- The requests that are sent for a message.  There is no result if a member that is missing is
dereferenced. -/
def wsMessage (env : WsEnv) (data : List UInt8) : Option (List AuthRequest) :=
  ((teoWSprocessMsg env data).1.foldlM WsAction.queue []).map (authThread env.authServerUrl)

/-! ### What a message contains -/

/-- The range of one token lies in that of another. -/
def JsmnTok.Inside (a b : JsmnTok) : Prop := b.start ≤ a.start ∧ a.stop ≤ b.stop

instance (a b : JsmnTok) : Decidable (a.Inside b) := by
  unfold JsmnTok.Inside
  infer_instance

/-- The token `i` is a child of the token `p`: it lies in it, and in none between. -/
def IsChild (t : ℕ → JsmnTok) (p i : ℕ) : Bool :=
  p < i ∧ (t i).Inside (t p) ∧ ∀ j ∈ List.range i, p < j → ¬ (t i).Inside (t j)

/-- The members of an object: its children are keys and values in turn. -/
def pairs : List ℕ → List (ℕ × ℕ)
  | k :: v :: l => (k, v) :: pairs l
  | _ => []

/-- The places of the values of a member of an object. -/
def memberValues (json : List UInt8) (r : ℕ) (t : ℕ → JsmnTok) (p : ℕ) (name : String) : List ℕ :=
  if (t p).type = .object then
    ((pairs ((List.range r).filter (IsChild t p))).filter fun m => jsoneq json (t m.1) name).map
      Prod.snd
  else []

/-- The values of a member of the data object of a message. -/
def dataMember (env : WsEnv) (data : List UInt8) (name : String) : List (List UInt8) :=
  let (r, t) := env.jsmnParse data (getNumOfTags data data.length)
  ((memberValues data r.toNat t 0 "data").flatMap fun v => memberValues data r.toNat t v name).map
    fun v => tokText data (t v)

/-- The URLs of the authentication server. -/
def authUrls : List (List UInt8) :=
  [ascii "register-client", ascii "register", ascii "login", ascii "refresh", ascii "restore",
    ascii "change-password", ascii "me"]

/-- The data object contains all four members, and the URL is one of those of the server. -/
def MayAuth (env : WsEnv) (data : List UInt8) : Prop :=
  (∀ name ∈ ["method", "url", "data", "headers"], dataMember env data name ≠ []) ∧
    ∀ url ∈ dataMember env data "url", url ∈ authUrls

instance (env : WsEnv) (data : List UInt8) : Decidable (MayAuth env data) := by
  unfold MayAuth
  infer_instance

/-- The command has the members of the data object. -/
def CommandOf (env : WsEnv) (data : List UInt8) (e : TeoAuthData) : Prop :=
  e.method.bytes ∈ dataMember env data "method" ∧ e.url.bytes ∈ dataMember env data "url" ∧
    e.data.bytes ∈ dataMember env data "data" ∧ e.headers.bytes ∈ dataMember env data "headers"

/-! ### The members that are found -/

/-- The names of the members. -/
inductive AuthName
  | method
  | url
  | data
  | headers
deriving DecidableEq

def AuthName.tag : AuthName → String
  | method => "method"
  | url => "url"
  | data => "data"
  | headers => "headers"

/-- The names in the order in which they are looked for. -/
def AuthName.all : List AuthName := [method, url, data, headers]

/-- The name that a token is taken for. -/
def authName (json : List UInt8) (tok : JsmnTok) : Option AuthName :=
  AuthName.all.find? fun f => jsoneq json tok f.tag

/-- The loop looks until it has all four members, and for `data` only once. -/
def authLook : Look AuthName where
  wants found f := !AuthName.all.all found && !(f = .data && found .data)

/-- For each name a token is taken last, and the text behind it is the value of a member of the data
object with this name. -/
def MembersTaken (env : WsEnv) (data json : List UInt8) (r : ℕ) (t : ℕ → JsmnTok) : Prop :=
  ∀ f : AuthName, ∃ i < r, Taken authLook (fun i => authName json (t i)) i ∧
    authName json (t i) = some f ∧
    (∀ j < r, Taken authLook (fun i => authName json (t i)) j → authName json (t j) = some f →
      j ≤ i) ∧
    (tokDup json (t (i + 1))).bytes ∈ dataMember env data f.tag

/-- The members at some places. -/
def authMemberTexts (json : List UInt8) (t : ℕ → JsmnTok) (places : AuthName → Option ℕ) :
    AuthMembers where
  method := (places .method).map fun p => tokDup json (t p)
  url := (places .url).map fun p => tokDup json (t p)
  data := (places .data).map fun p => tokDup json (t p)
  headers := (places .headers).map fun p => tokDup json (t p)

/-- The loop finds the members at the places that it takes. -/
theorem authMembers_eq (json : List UInt8) (r : ℕ) (t : ℕ → JsmnTok) :
    authMembers json r t = authMemberTexts json t
      (scan authLook (fun i => authName json (t i)) 1 (r - 1) fun _ => none).1 := by
  refine tokenLoop_eq_scan (authMemberTexts json t) (1 + (r - 1))
    (fun s hall f => ?_) (fun s i hall _ => ?_) (r - 1) 1 (fun _ => none) rfl
  · simp only [authMemberTexts, Option.isSome_map, decide_eq_true_eq] at hall
    simp [authLook, AuthName.all, hall]
  · simp only [authMemberTexts, Option.isSome_map, decide_eq_false_iff_not] at hall
    have hwants : ∀ f, authLook.wants (fun g => (s g).isSome) f =
        !(f = .data && (s .data).isSome) := by
      intro f
      have hsome : (AuthName.all.all fun g => (s g).isSome) = false := by
        simpa [AuthName.all] using hall
      simp [authLook, hsome]
    have hother : jsoneq json (t i) "data" = true → jsoneq json (t i) "headers" = false := by
      intro hd
      simp only [jsoneq, decide_eq_true_eq] at hd
      refine decide_eq_false fun hh => ?_
      exact absurd (hd.2.2.symm.trans hh.2.2) (by decide)
    revert hother
    rw [keyAt, authName]
    simp only [hwants, AuthName.all, List.find?_cons, AuthName.tag, List.find?_nil]
    cases jsoneq json (t i) "method" <;> cases jsoneq json (t i) "url" <;>
      cases jsoneq json (t i) "data" <;> cases jsoneq json (t i) "headers" <;>
      cases hdata : s .data <;> simp [authMemberTexts, hdata, Option.filter_some]

/-! ### What is sent -/

/-- The test of the URL holds for every URL. -/
theorem teoAuthProccess_isSome (authServerUrl : CString) (e : TeoAuthData) :
    (teoAuthProccess authServerUrl e).isSome := by
  have hvalid : strcmp e.url "register-client" = true ∨ strcmp e.url "register" = true := by
    by_cases hurl : e.url.bytes = ascii "register-client"
    · right
      rw [strcmp, hurl]
      decide
    · left
      exact decide_eq_true hurl
  unfold teoAuthProccess
  rcases hvalid with h | h <;> simp [h]

/-- The commands that a message puts into the list of the authentication thread. -/
def wsCommands (env : WsEnv) (data : List UInt8) : Option (List TeoAuthData) :=
  (teoWSprocessMsg env data).1.foldlM WsAction.queue []

theorem wsMessage_eq (env : WsEnv) (data : List UInt8) :
    wsMessage env data = (wsCommands env data).map (authThread env.authServerUrl) := rfl

/-- The message is an authentication command with this data, in which the parser finds a token. -/
def ReachesAuth (env : WsEnv) (data : List UInt8) (cmdData : CString) : Prop :=
  (∃ toPeer, wsFields env data = some (cmdLAuth, toPeer, cmdData)) ∧ cmdData.bytes ≠ [] ∧
    1 ≤ (authTokens env data.length cmdData).1

/-- Such a message is handed to the authentication module, with the members found or without. -/
theorem wsCommands_of_reaches {env : WsEnv} {data : List UInt8} {cmdData : CString}
    (h : ReachesAuth env data cmdData) :
    wsCommands env data =
      let m := authMembers cmdData.bytes (authTokens env data.length cmdData).1.toNat
        (authTokens env data.length cmdData).2
      teoAuthProcessCommand [] m.method m.url m.data m.headers := by
  obtain ⟨⟨toPeer, hfields⟩, hdata, hparse⟩ := h
  have htags : getNumOfTags (cmdData.toBuf ++ env.behind cmdData) data.length ≠ 0 :=
    Nat.mul_ne_zero (Nat.succ_ne_zero _) (by decide)
  unfold wsCommands teoWSprocessMsg
  rw [hfields]
  dsimp only
  rw [if_neg fun h => absurd h.1 (by decide), if_neg fun h => absurd h.1 (by decide),
    if_neg fun h => absurd h.1 (by decide), if_pos ⟨rfl, hdata⟩, if_pos htags,
    if_pos (Int.not_lt.mpr hparse), List.foldlM_cons, WsAction.queue]
  exact bind_pure _

/-- Any other message is not. -/
theorem wsCommands_of_not_reaches {env : WsEnv} {data : List UInt8}
    (h : ∀ cmdData, ¬ ReachesAuth env data cmdData) : wsCommands env data = some [] := by
  unfold wsCommands teoWSprocessMsg
  cases hfields : wsFields env data with
  | none => rfl
  | some f =>
    obtain ⟨cmd, toPeer, cmdData⟩ := f
    dsimp only
    split_ifs with h1 h2 h3 hauth htags hparse hto
    · rfl
    · rfl
    · rfl
    · rfl
    · obtain ⟨rfl, hdata⟩ := hauth
      exact absurd ⟨⟨toPeer, hfields⟩, hdata, Int.not_lt.mp hparse⟩ (h cmdData)
    · rfl
    · rfl
    · rfl

theorem teoAuthProcessCommand_eq_some_iff {method url data headers : Option CString}
    {commands : List TeoAuthData} :
    teoAuthProcessCommand [] method url data headers = some commands ↔
      ∃ e, method = some e.method ∧ url = some e.url ∧ data = some e.data ∧
        headers = some e.headers ∧ commands = [e] := by
  constructor
  · intro h
    obtain ⟨m, rfl, h⟩ := Option.bind_eq_some_iff.mp h
    obtain ⟨u, rfl, h⟩ := Option.bind_eq_some_iff.mp h
    obtain ⟨d, rfl, h⟩ := Option.bind_eq_some_iff.mp h
    obtain ⟨hd, rfl, h⟩ := Option.bind_eq_some_iff.mp h
    exact ⟨⟨m, u, d, hd⟩, rfl, rfl, rfl, rfl, (Option.some.inj h).symm⟩
  · rintro ⟨e, rfl, rfl, rfl, rfl, rfl⟩
    rfl

/-- No member that is missing is dereferenced, and a request is sent only if the data object contains
all four members with a URL of the server, and with these members. -/
def AuthSafe (env : WsEnv) (data : List UInt8) : Prop :=
  ∃ commands, wsCommands env data = some commands ∧
    ∀ e ∈ commands, (teoAuthProccess env.authServerUrl e).isSome →
      MayAuth env data ∧ CommandOf env data e

/-- For a message that may send no request none is sent. -/
theorem AuthSafe.wsMessage_eq_nil {env : WsEnv} {data : List UInt8} (h : AuthSafe env data)
    (hmay : ¬ MayAuth env data) : wsMessage env data = some [] := by
  obtain ⟨commands, hcommands, hsafe⟩ := h
  rw [wsMessage_eq, hcommands, Option.map_some, Option.some.injEq, authThread,
    List.filterMap_eq_nil_iff]
  exact fun e he => Option.not_isSome_iff_eq_none.mp fun hsent => hmay (hsafe e he hsent).1

/-- What is taken for a member is a value of the data object. -/
theorem members_taken_iff {env : WsEnv} {data json : List UInt8} {r : ℕ} {t : ℕ → JsmnTok}
    (hr : 1 ≤ r) :
    MembersTaken env data json r t ↔ ∀ f : AuthName, ∃ p,
      (scan authLook (fun i => authName json (t i)) 1 (r - 1) fun _ => none).1 f = some p ∧
        (tokDup json (t p)).bytes ∈ dataMember env data f.tag := by
  rw [scan_start, Nat.sub_add_cancel hr]
  refine forall_congr' fun f => ?_
  simp only [values_eq_some_iff]
  constructor
  · rintro ⟨i, hi, ht, hf, hlast, hmem⟩
    exact ⟨i + 1, ⟨i, rfl, hi, ht, hf, hlast⟩, hmem⟩
  · rintro ⟨_, ⟨i, rfl, hi, ht, hf, hlast⟩, hmem⟩
    exact ⟨i, hi, ht, hf, hlast, hmem⟩

section
variable {env : WsEnv} {data : List UInt8} {cmdData : CString}

theorem one_le_authTokens (h : ReachesAuth env data cmdData) :
    1 ≤ (authTokens env data.length cmdData).1.toNat := by
  have := h.2.2
  omega

/-- What is sent of a safe command are the values of its members. -/
theorem membersTaken_of_authSafe (hreaches : ReachesAuth env data cmdData)
    (h : AuthSafe env data) :
    MayAuth env data ∧ MembersTaken env data cmdData.bytes
      (authTokens env data.length cmdData).1.toNat (authTokens env data.length cmdData).2 := by
  obtain ⟨commands, hcommands, hsafe⟩ := h
  rw [wsCommands_of_reaches hreaches, authMembers_eq] at hcommands
  obtain ⟨e, hmethod, hurl, hdata, hheaders, rfl⟩ :=
    teoAuthProcessCommand_eq_some_iff.mp hcommands
  obtain ⟨hmay, hof⟩ := hsafe e (List.mem_singleton_self e)
    (teoAuthProccess_isSome env.authServerUrl e)
  refine ⟨hmay, (members_taken_iff (one_le_authTokens hreaches)).mpr fun f => ?_⟩
  obtain ⟨hofMethod, hofUrl, hofData, hofHeaders⟩ := hof
  cases f with
  | method =>
    obtain ⟨p, hp, he⟩ := Option.map_eq_some_iff.mp hmethod
    exact ⟨p, hp, he ▸ hofMethod⟩
  | url =>
    obtain ⟨p, hp, he⟩ := Option.map_eq_some_iff.mp hurl
    exact ⟨p, hp, he ▸ hofUrl⟩
  | data =>
    obtain ⟨p, hp, he⟩ := Option.map_eq_some_iff.mp hdata
    exact ⟨p, hp, he ▸ hofData⟩
  | headers =>
    obtain ⟨p, hp, he⟩ := Option.map_eq_some_iff.mp hheaders
    exact ⟨p, hp, he ▸ hofHeaders⟩

/-- A command of which all members are taken is sent as it should be. -/
theorem authSafe_of_membersTaken (hreaches : ReachesAuth env data cmdData)
    (hmay : MayAuth env data) (htaken : MembersTaken env data cmdData.bytes
      (authTokens env data.length cmdData).1.toNat (authTokens env data.length cmdData).2) :
    AuthSafe env data := by
  rw [members_taken_iff (one_le_authTokens hreaches)] at htaken
  obtain ⟨pm, hpm, hofMethod⟩ := htaken .method
  obtain ⟨pu, hpu, hofUrl⟩ := htaken .url
  obtain ⟨pd, hpd, hofData⟩ := htaken .data
  obtain ⟨ph, hph, hofHeaders⟩ := htaken .headers
  set t := (authTokens env data.length cmdData).2
  let e : TeoAuthData :=
    { method := tokDup cmdData.bytes (t pm), url := tokDup cmdData.bytes (t pu),
      data := tokDup cmdData.bytes (t pd), headers := tokDup cmdData.bytes (t ph) }
  have hcommands : wsCommands env data = some [e] := by
    rw [wsCommands_of_reaches hreaches, authMembers_eq]
    exact teoAuthProcessCommand_eq_some_iff.mpr ⟨e, by rw [authMemberTexts, hpm]; rfl,
      by rw [authMemberTexts, hpu]; rfl, by rw [authMemberTexts, hpd]; rfl,
      by rw [authMemberTexts, hph]; rfl, rfl⟩
  refine ⟨[e], hcommands, fun e' he _ => ⟨hmay, ?_⟩⟩
  obtain rfl := List.mem_singleton.mp he
  exact ⟨hofMethod, hofUrl, hofData, hofHeaders⟩

end

/-- **Authentication requests**: for every message, they are sent as they should be exactly if the
message is no authentication command that reaches the module, or its data object has all four
members, a URL of the server, and the tokens that are taken for the members last. -/
theorem authSafe_iff (env : WsEnv) (data : List UInt8) :
    AuthSafe env data ↔ ∀ cmdData, ReachesAuth env data cmdData →
      MayAuth env data ∧ MembersTaken env data cmdData.bytes
        (authTokens env data.length cmdData).1.toNat (authTokens env data.length cmdData).2 := by
  constructor
  · intro h cmdData hreaches
    exact membersTaken_of_authSafe hreaches h
  · intro hcond
    by_cases hreaches : ∃ cmdData, ReachesAuth env data cmdData
    · obtain ⟨cmdData, hreaches⟩ := hreaches
      obtain ⟨hmay, htaken⟩ := hcond cmdData hreaches
      exact authSafe_of_membersTaken hreaches hmay htaken
    · exact ⟨[], wsCommands_of_not_reaches fun cmdData h => hreaches ⟨cmdData, h⟩,
        fun e he => absurd he List.not_mem_nil⟩

/-- What the parser returns that has found these tokens. -/
def parsed (l : List JsmnTok) : ℤ × (ℕ → JsmnTok) :=
  (l.length, fun i => l.getD i { type := .other, start := 0, stop := 0 })

/-- A message without the members. -/
def emptyAuth : List UInt8 := ascii "\x7b\"cmd\":77,\"to\":\"\",\"data\":\x7b\x7d\x7d"

/-- The data of a message with a URL that the server does not have. -/
def otherUrl : List UInt8 :=
  ascii "\x7b\"method\":\"\",\"url\":\"x\",\"data\":\"\",\"headers\":\"\"\x7d"

/-- The message with this data. -/
def otherUrlAuth : List UInt8 :=
  ascii "\x7b\"cmd\":77,\"to\":\"\",\"data\":" ++ otherUrl ++ ascii "\x7d"

/-- The data of a message with a second URL in its data. -/
def nestedUrl : List UInt8 :=
  ascii "\x7b\"method\":\"\",\"url\":\"me\",\"data\":\x7b\"url\":\"/evil\"\x7d,\"headers\":\"\"\x7d"

/-- The message with this data. -/
def nestedUrlAuth : List UInt8 :=
  ascii "\x7b\"cmd\":77,\"to\":\"\",\"data\":" ++ nestedUrl ++ ascii "\x7d"

/-- The parser on the three messages and their data. -/
def authEnv : WsEnv where
  jsmnParse text _ :=
    if text = emptyAuth then
      parsed [⟨.object, 0, 28⟩, ⟨.string, 2, 5⟩, ⟨.other, 7, 9⟩, ⟨.string, 11, 13⟩,
        ⟨.string, 16, 16⟩, ⟨.string, 19, 23⟩, ⟨.object, 25, 27⟩]
    else if text = otherUrlAuth then
      parsed [⟨.object, 0, 72⟩, ⟨.string, 2, 5⟩, ⟨.other, 7, 9⟩, ⟨.string, 11, 13⟩,
        ⟨.string, 16, 16⟩, ⟨.string, 19, 23⟩, ⟨.object, 25, 71⟩, ⟨.string, 27, 33⟩,
        ⟨.string, 36, 36⟩, ⟨.string, 39, 42⟩, ⟨.string, 45, 46⟩, ⟨.string, 49, 53⟩,
        ⟨.string, 56, 56⟩, ⟨.string, 59, 66⟩, ⟨.string, 69, 69⟩]
    else if text = otherUrl then
      parsed [⟨.object, 0, 46⟩, ⟨.string, 2, 8⟩, ⟨.string, 11, 11⟩, ⟨.string, 14, 17⟩,
        ⟨.string, 20, 21⟩, ⟨.string, 24, 28⟩, ⟨.string, 31, 31⟩, ⟨.string, 34, 41⟩,
        ⟨.string, 44, 44⟩]
    else if text = nestedUrlAuth then
      parsed [⟨.object, 0, 86⟩, ⟨.string, 2, 5⟩, ⟨.other, 7, 9⟩, ⟨.string, 11, 13⟩,
        ⟨.string, 16, 16⟩, ⟨.string, 19, 23⟩, ⟨.object, 25, 85⟩, ⟨.string, 27, 33⟩,
        ⟨.string, 36, 36⟩, ⟨.string, 39, 42⟩, ⟨.string, 45, 47⟩, ⟨.string, 50, 54⟩,
        ⟨.object, 56, 71⟩, ⟨.string, 58, 61⟩, ⟨.string, 64, 69⟩, ⟨.string, 73, 80⟩,
        ⟨.string, 83, 83⟩]
    else if text = nestedUrl then
      parsed [⟨.object, 0, 60⟩, ⟨.string, 2, 8⟩, ⟨.string, 11, 11⟩, ⟨.string, 14, 17⟩,
        ⟨.string, 20, 22⟩, ⟨.string, 25, 29⟩, ⟨.object, 31, 46⟩, ⟨.string, 33, 36⟩,
        ⟨.string, 39, 44⟩, ⟨.string, 48, 55⟩, ⟨.string, 58, 58⟩]
    else parsed [⟨.object, 0, 2⟩]
  behind _ := []
  add _ := true
  send _ _ _ := 0
  authServerUrl := CString.ofBuf (ascii "http://localhost/")

example : dataMember authEnv otherUrlAuth "url" = [ascii "x"] := by decide

/-- Without the members null pointers are copied, with a URL that the server does not have a request is
sent, and so it is with a URL from inside of the data. -/
theorem not_authSafe :
    ¬ AuthSafe authEnv emptyAuth ∧ ¬ AuthSafe authEnv otherUrlAuth ∧
      ¬ AuthSafe authEnv nestedUrlAuth := by
  refine ⟨?_, ?_, ?_⟩
  · rintro ⟨commands, hcommands, -⟩
    have hnull : wsCommands authEnv emptyAuth = none := rfl
    rw [hnull] at hcommands
    cases hcommands
  · intro h
    have hmay : ¬ MayAuth authEnv otherUrlAuth := by decide
    have hsent : (wsMessage authEnv otherUrlAuth).map List.length = some 1 := rfl
    rw [h.wsMessage_eq_nil hmay] at hsent
    exact absurd hsent (by decide)
  · rintro ⟨commands, hcommands, hsafe⟩
    have hurl : (wsCommands authEnv nestedUrlAuth).map (List.map fun e => e.url.bytes) =
        some [ascii "/evil"] := rfl
    rw [hcommands, Option.map_some, Option.some.injEq] at hurl
    obtain ⟨e, rfl, hevil⟩ := List.map_eq_singleton_iff.mp hurl
    have hof := (hsafe e (List.mem_singleton_self e) (teoAuthProccess_isSome _ e)).2.2.1
    rw [hevil] at hof
    exact absurd hof (by decide)

end Teonet
