import Mathlib.Algebra.Order.Floor.Ring
import Mathlib.Data.Rat.Floor
import Teonet.L0Packet
import Teonet.Lib.Decimal

/-! # Login of an L0 client

The data of a login packet is a JSON object with a user id, a time until which it is valid, and a
signature: the MD5 sum of user id, secret and time.  This file translates `parseAuthPayload` and
`checkAuthData` of `l0-server.c` and the tests around them, which together decide whether a login
is accepted and under which name (`loginName`).  The JSON tokenizer and MD5 are parameters. -/

namespace Teonet

/-! ### JSON tokens -/

/-- The types of a token that the server tells apart. -/
inductive JsmnType
  | object
  | string
  | other
deriving DecidableEq

/-- `jsmntok_t`: the type and the range in the text. -/
structure JsmnTok where
  type : JsmnType
  start : ℕ
  stop : ℕ
deriving DecidableEq

/-- What the login checks take from outside: the tokenizer (`jsmn_parse` with room for 128 tokens;
`none` is a negative result), what the token array holds behind its tokens, MD5, the secret of the
configuration, and the `int` that a `double` out of its range is converted to, which C leaves
open. -/
structure L0AuthEnv where
  jsmnParse : List UInt8 → Option (List JsmnTok)
  staleTok : JsmnTok
  md5 : List UInt8 → List UInt8
  authSecret : CString
  intOverflow : ℤ := -2 ^ 31

/-- The text of a token. -/
def tokText (json : List UInt8) (t : JsmnTok) : List UInt8 :=
  (json.drop t.start).take (t.stop - t.start)

/-- `json_eq`. -/
def jsonEq (json : List UInt8) (t : JsmnTok) (s : List UInt8) : Bool :=
  t.type = .string ∧ tokText json t = s

/-- The keys `userId`, `sign` and `timestamp`. -/
def userIdKey : List UInt8 := [117, 115, 101, 114, 73, 100]
def signKey : List UInt8 := [115, 105, 103, 110]
def timestampKey : List UInt8 := [116, 105, 109, 101, 115, 116, 97, 109, 112]

/-- The three fields of a login. -/
structure AuthData where
  name : Option (List UInt8) := none
  sign : Option (List UInt8) := none
  validUntil : Option (List UInt8) := none

/-- One turn of the loop of `parseAuthPayload`: the fields after the token `t`, with `v` the next
token, and whether `t` was a key. -/
def authField (json : List UInt8) (t v : JsmnTok) (a : AuthData) : AuthData × Bool :=
  if jsonEq json t userIdKey then ({ a with name := some (tokText json v) }, true)
  else if jsonEq json t signKey then ({ a with sign := some (tokText json v) }, true)
  else if jsonEq json t timestampKey then ({ a with validUntil := some (tokText json v) }, true)
  else (a, false)

/-- The loop of `parseAuthPayload`.  Behind the last token the array holds `stale`. -/
def authFields (json : List UInt8) (stale : JsmnTok) : List JsmnTok → AuthData → AuthData
  | [], a => a
  | [t], a => (authField json t stale a).1
  | t :: v :: rest, a =>
    let (a, isKey) := authField json t v a
    if isKey then authFields json stale rest a else authFields json stale (v :: rest) a

/-- `parseAuthPayload`: the user id, the signature and the time, if all three are there. -/
def parseAuthPayload (env : L0AuthEnv) (payload : List UInt8) :
    Option (List UInt8 × List UInt8 × List UInt8) :=
  let json := (CString.ofBuf payload).bytes
  match env.jsmnParse json with
  | some (t :: rest) =>
    if t.type = .object then
      match authFields json env.staleTok rest {} with
      | ⟨some name, some sign, some validUntil⟩ => some (name, sign, validUntil)
      | _ => none
    else none
  | _ => none

/-! ### Signature -/

/-- A digit of a lower case hexadecimal number. -/
def hexDigit (n : ℕ) : UInt8 := UInt8.ofNat (if n < 10 then 48 + n else 87 + n)

/-- `%02x` for each byte. -/
def hexBytes (l : List UInt8) : List UInt8 :=
  l.flatMap fun b => [hexDigit (b.toNat / 16), hexDigit (b.toNat % 16)]

/-- `int current_time = ksnetEvMgrGetTime(..)`: the fraction is cut off. -/
def currentTime (intOverflow : ℤ) (now : ℚ) : ℤ :=
  if -2 ^ 31 - 1 < now ∧ now < 2 ^ 31 then (if 0 ≤ now then ⌊now⌋ else ⌈now⌉) else intOverflow

/-- `%d` of the time in whole seconds. -/
def timeString (intOverflow : ℤ) (now : ℚ) : List UInt8 :=
  Decimal.ofInt (currentTime intOverflow now)

/-- `strncmp(a, b, n) < 0` for texts of `n` characters. -/
def strLess : List UInt8 → List UInt8 → Bool
  | a :: l, b :: m => if a = b then strLess l m else a < b
  | [], _ :: _ => true
  | _, [] => false

/-- The expiry test of `checkAuthData`: the time has passed. -/
def outdated (intOverflow : ℤ) (now : ℚ) (validUntil : List UInt8) : Bool :=
  let current := timeString intOverflow now
  validUntil.length < current.length ∨
    (current.length = validUntil.length ∧ strLess validUntil current)

/-- `checkAuthData`; `MD5_DIGEST_LENGTH` is 16. -/
def checkAuthData (env : L0AuthEnv) (now : ℚ) (name validUntil sign : List UInt8) : Bool :=
  sign.length = 32 ∧ outdated env.intOverflow now validUntil = false ∧
    hexBytes (env.md5 (name ++ (env.authSecret.bytes ++ validUntil))) = sign

/-! ### The decision -/

/-- `WG001`. -/
def wg001 : List UInt8 := [119, 103, 48, 48, 49, 45]

/-- The name that `updateClientName` builds from a user id. -/
def clientName (userId : List UInt8) : CString := CString.ofBuf (wg001 ++ userId)

/-- The tests of `ksnLNullClientAuthCheck`: the name for an accepted login, and nothing when the
client is to be disconnected. -/
def loginName (env : L0AuthEnv) (now : ℚ) (payload : List UInt8) : Option CString :=
  if env.authSecret = CString.empty then none
  else
    match parseAuthPayload env payload with
    | some (name, sign, validUntil) =>
      if checkAuthData env now name validUntil sign then some (clientName name) else none
    | none => none

end Teonet
