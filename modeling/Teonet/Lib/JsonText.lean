import Mathlib.Algebra.Group.Nat.Defs
import Mathlib.Data.List.Basic
import Mathlib.Tactic.Common
import Mathlib.Tactic.Ring
import Teonet.Lib.Decimal
import Teonet.Lib.TokenTree

/-! # JSON texts

A JSON text is given by its syntax: what `text` prints is what the grammar of JSON accepts, with any
white space, escapes and numbers, and nothing else can be written down.  `tree` is the document of
tokens of a text, one for every object, array, string and other value.

`weigh` adds up weights of the members of objects, of the elements of arrays and of the strings.  The
number of tokens and the number of colons are such sums (`length_tokens`, `count_colon_text`). -/

namespace JsonText

/-! ### Syntax -/

/-- White space. -/
structure Space where
  bytes : List UInt8 := []
  isSpace : ∀ c ∈ bytes, c = 32 ∨ c = 9 ∨ c = 10 ∨ c = 13 := by simp

/-- A hexadecimal digit. -/
def IsHex (c : UInt8) : Prop := Decimal.IsDigit c ∨ (65 ≤ c ∧ c ≤ 70) ∨ (97 ≤ c ∧ c ≤ 102)

/-- A character of a string: a byte, an escaped one, or an escaped number of four digits. -/
inductive Character
  | plain (c : UInt8) (h : 32 ≤ c ∧ c ≠ 34 ∧ c ≠ 92)
  | escape (c : UInt8) (h : c ∈ [34, 92, 47, 98, 102, 110, 114, 116])
  | unicode (digits : List UInt8) (hlength : digits.length = 4) (h : ∀ c ∈ digits, IsHex c)

def Character.text : Character → List UInt8
  | plain c _ => [c]
  | escape c _ => [92, c]
  | unicode digits _ _ => 92 :: 117 :: digits

/-- A string. -/
structure Str where
  characters : List Character

def Str.text (s : Str) : List UInt8 := 34 :: (s.characters.flatMap Character.text ++ [34])

/-- The exponent of a number: `e` or `E`, a sign, and digits. -/
structure Exponent where
  letter : UInt8
  sign : List UInt8
  digits : List UInt8
  isLetter : letter = 101 ∨ letter = 69
  isSign : sign = [] ∨ sign = [43] ∨ sign = [45]
  isDecimal : Decimal.IsDecimal digits

def Exponent.text (e : Exponent) : List UInt8 := e.letter :: (e.sign ++ e.digits)

/-- A number: the digits before the point have no leading zero. -/
structure Number where
  neg : Bool
  digits : List UInt8
  fraction : Option (List UInt8)
  exponent : Option Exponent
  isDecimal : Decimal.IsDecimal digits
  noLeadingZero : digits.head? = some 48 → digits = [48]
  isFraction : ∀ f ∈ fraction, Decimal.IsDecimal f

def Number.text (n : Number) : List UInt8 :=
  (if n.neg then [45] else []) ++ n.digits ++ (n.fraction.elim [] fun f => 46 :: f) ++
    n.exponent.elim [] Exponent.text

/-- A value that is no string, object or array. -/
inductive Primitive
  | true
  | false
  | null
  | number (n : Number)

def Primitive.text : Primitive → List UInt8
  | true => [116, 114, 117, 101]
  | false => [102, 97, 108, 115, 101]
  | null => [110, 117, 108, 108]
  | number n => n.text

mutual

/-- A value; `inner` is the white space behind an opening bracket. -/
inductive Json
  | prim (p : Primitive)
  | str (s : Str)
  | arr (inner : Space) (items : Items)
  | obj (inner : Space) (members : Members)

/-- The elements of an array. -/
inductive Items
  | nil
  | cons (before : Space) (value : Json) (after : Space) (rest : Items)

/-- The members of an object. -/
inductive Members
  | nil
  | cons (before : Space) (key : Str) (beforeColon afterColon : Space) (value : Json)
    (after : Space) (rest : Members)

end

/-- The comma before further elements. -/
def Items.comma : Items → List UInt8
  | nil => []
  | cons .. => [44]

/-- The comma before further members. -/
def Members.comma : Members → List UInt8
  | nil => []
  | cons .. => [44]

mutual

def Json.text : Json → List UInt8
  | .prim p => p.text
  | .str s => s.text
  | .arr inner items => 91 :: (inner.bytes ++ items.text ++ [93])
  | .obj inner members => 123 :: (inner.bytes ++ members.text ++ [125])

def Items.text : Items → List UInt8
  | .nil => []
  | .cons before value after rest =>
    before.bytes ++ value.text ++ after.bytes ++ rest.comma ++ rest.text

def Members.text : Members → List UInt8
  | .nil => []
  | .cons before key beforeColon afterColon value after rest =>
    before.bytes ++ key.text ++ beforeColon.bytes ++ 58 :: (afterColon.bytes ++ value.text ++
      after.bytes ++ rest.comma ++ rest.text)

end

/-- The kinds of tokens. -/
inductive Kind
  | object
  | array
  | string
  | primitive
deriving DecidableEq

mutual

/-- The tokens of a value. -/
def Json.tree : Json → TokenTree.Value Kind
  | .prim _ => .leaf .primitive
  | .str _ => .leaf .string
  | .arr _ items => .arr .array items.tree
  | .obj _ members => .obj .object members.tree

def Items.tree : Items → TokenTree.Items Kind
  | .nil => .nil
  | .cons _ value _ rest => .cons value.tree rest.tree

def Members.tree : Members → TokenTree.Members Kind
  | .nil => .nil
  | .cons _ _ _ _ value _ rest => .cons .string value.tree rest.tree

end

/-! ### Weights -/

mutual

/-- The weight of a value: `m` for every member, `e` for every element, and `s` for every string. -/
def Json.weigh (m e : ℕ) (s : Str → ℕ) : Json → ℕ
  | .prim _ => 0
  | .str t => s t
  | .arr _ items => items.weigh m e s
  | .obj _ members => members.weigh m e s

def Items.weigh (m e : ℕ) (s : Str → ℕ) : Items → ℕ
  | .nil => 0
  | .cons _ value _ rest => e + value.weigh m e s + rest.weigh m e s

def Members.weigh (m e : ℕ) (s : Str → ℕ) : Members → ℕ
  | .nil => 0
  | .cons _ key _ _ value _ rest => m + s key + value.weigh m e s + rest.weigh m e s

end

/-- The number of members of all objects in a value. -/
def Json.members (j : Json) : ℕ := j.weigh 1 0 fun _ => 0

/-- The number of elements of all arrays in a value. -/
def Json.elements (j : Json) : ℕ := j.weigh 0 1 fun _ => 0

/-- The number of colons in all strings in a value. -/
def Json.colons (j : Json) : ℕ := j.weigh 0 0 fun s => s.text.count 58

mutual

theorem Json.weigh_eq (m e : ℕ) (s : Str → ℕ) : ∀ j : Json,
    j.weigh m e s = m * (j.weigh 1 0 fun _ => 0) + e * (j.weigh 0 1 fun _ => 0) + j.weigh 0 0 s
  | .prim _ => by simp [Json.weigh]
  | .str _ => by simp [Json.weigh]
  | .arr _ items => by
      simp only [Json.weigh]
      exact items.weigh_eq m e s
  | .obj _ members => by
      simp only [Json.weigh]
      exact members.weigh_eq m e s

theorem Items.weigh_eq (m e : ℕ) (s : Str → ℕ) : ∀ items : Items,
    items.weigh m e s = m * (items.weigh 1 0 fun _ => 0) + e * (items.weigh 0 1 fun _ => 0) +
      items.weigh 0 0 s
  | .nil => by simp [Items.weigh]
  | .cons _ value _ rest => by
      simp only [Items.weigh]
      rw [value.weigh_eq m e s, rest.weigh_eq m e s]
      ring

theorem Members.weigh_eq (m e : ℕ) (s : Str → ℕ) : ∀ members : Members,
    members.weigh m e s = m * (members.weigh 1 0 fun _ => 0) +
      e * (members.weigh 0 1 fun _ => 0) + members.weigh 0 0 s
  | .nil => by simp [Members.weigh]
  | .cons _ key _ _ value _ rest => by
      simp only [Members.weigh]
      rw [value.weigh_eq m e s, rest.weigh_eq m e s]
      ring

end

mutual

/-- There is a token for the value, one for each element, and two for each member. -/
theorem Json.length_tokens : ∀ j : Json, j.tree.tokens.length = 1 + j.weigh 2 1 fun _ => 0
  | .prim _ => by simp [Json.tree, Json.weigh, TokenTree.Value.tokens]
  | .str _ => by simp [Json.tree, Json.weigh, TokenTree.Value.tokens]
  | .arr _ items => by
      rw [Json.tree, Json.weigh, TokenTree.Value.tokens, List.length_cons, items.length_tokens,
        Nat.add_comm]
  | .obj _ members => by
      rw [Json.tree, Json.weigh, TokenTree.Value.tokens, List.length_cons,
        members.length_tokens, Nat.add_comm]

theorem Items.length_tokens : ∀ items : Items,
    items.tree.tokens.length = items.weigh 2 1 fun _ => 0
  | .nil => rfl
  | .cons _ value _ rest => by
      rw [Items.tree, Items.weigh, TokenTree.Items.tokens, List.length_append,
        value.length_tokens, rest.length_tokens]

theorem Members.length_tokens : ∀ members : Members,
    members.tree.tokens.length = members.weigh 2 1 fun _ => 0
  | .nil => rfl
  | .cons _ key _ _ value _ rest => by
      rw [Members.tree, Members.weigh, TokenTree.Members.tokens, List.length_cons,
        List.length_append, value.length_tokens, rest.length_tokens]
      omega

end

/-! ### Bytes -/

/-- Bytes that are neither zero nor a colon. -/
def Inert (l : List UInt8) : Prop := ∀ c ∈ l, c ≠ 0 ∧ c ≠ 58

theorem Inert.append {l l' : List UInt8} (h : Inert l) (h' : Inert l') : Inert (l ++ l') := by
  intro c hc
  exact (List.mem_append.mp hc).elim (h c) (h' c)

theorem inert_space (s : Space) : Inert s.bytes := by
  intro c hc
  rcases s.isSpace c hc with rfl | rfl | rfl | rfl <;> decide

theorem inert_of_isDecimal {l : List UInt8} (h : Decimal.IsDecimal l) : Inert l := by
  intro c hc
  have hdigit := h.2 c hc
  constructor
  · rintro rfl
    exact absurd hdigit (by decide)
  · rintro rfl
    exact absurd hdigit (by decide)

theorem inert_exponent (e : Exponent) : Inert e.text := by
  have hletter : Inert [e.letter] := by
    rcases e.isLetter with h | h <;> rw [h] <;> simp [Inert]
  have hsign : Inert e.sign := by
    rcases e.isSign with h | h | h <;> rw [h] <;> simp [Inert]
  exact hletter.append (hsign.append (inert_of_isDecimal e.isDecimal))

theorem inert_number (n : Number) : Inert n.text := by
  have hneg : Inert (if n.neg then [45] else []) := by
    split <;> simp [Inert]
  have hfraction : Inert (n.fraction.elim [] fun f => 46 :: f) := by
    cases hf : n.fraction with
    | none => simp [Inert]
    | some f =>
      have hpoint : Inert [46] := by simp [Inert]
      exact hpoint.append (inert_of_isDecimal (n.isFraction f hf))
  have hexponent : Inert (n.exponent.elim [] Exponent.text) := by
    cases n.exponent with
    | none => simp [Inert]
    | some e => exact inert_exponent e
  exact ((hneg.append (inert_of_isDecimal n.isDecimal)).append hfraction).append hexponent

theorem inert_primitive (p : Primitive) : Inert p.text := by
  cases p with
  | true => simp [Inert, Primitive.text]
  | false => simp [Inert, Primitive.text]
  | null => simp [Inert, Primitive.text]
  | number n => exact inert_number n

theorem Inert.count_eq {l : List UInt8} (h : Inert l) : l.count 58 = 0 :=
  List.count_eq_zero.mpr fun hc => (h 58 hc).2 rfl

theorem Inert.nul_not_mem {l : List UInt8} (h : Inert l) : 0 ∉ l := fun hc => (h 0 hc).1 rfl

theorem count_comma_items (items : Items) : items.comma.count 58 = 0 := by
  cases items <;> rfl

theorem count_comma_members (members : Members) : members.comma.count 58 = 0 := by
  cases members <;> rfl

mutual

/-- A colon is that of a member, or lies in a string. -/
theorem Json.count_colon_text : ∀ j : Json,
    j.text.count 58 = j.weigh 1 0 fun s => s.text.count 58
  | .prim p => (inert_primitive p).count_eq
  | .str _ => rfl
  | .arr inner items => by
      simp [Json.text, Json.weigh, (inert_space inner).count_eq, items.count_colon_text]
  | .obj inner members => by
      simp [Json.text, Json.weigh, (inert_space inner).count_eq, members.count_colon_text]

theorem Items.count_colon_text : ∀ items : Items,
    items.text.count 58 = items.weigh 1 0 fun s => s.text.count 58
  | .nil => rfl
  | .cons before value after rest => by
      simp [Items.text, Items.weigh, (inert_space before).count_eq, (inert_space after).count_eq,
        count_comma_items, value.count_colon_text, rest.count_colon_text]

theorem Members.count_colon_text : ∀ members : Members,
    members.text.count 58 = members.weigh 1 0 fun s => s.text.count 58
  | .nil => rfl
  | .cons before key beforeColon afterColon value after rest => by
      simp [Members.text, Members.weigh, (inert_space before).count_eq,
        (inert_space beforeColon).count_eq, (inert_space afterColon).count_eq,
        (inert_space after).count_eq, count_comma_members, value.count_colon_text,
        rest.count_colon_text]
      omega

end

theorem nul_not_mem_character (c : Character) : 0 ∉ c.text := by
  cases c with
  | plain c h =>
    rw [Character.text, List.mem_singleton]
    rintro rfl
    exact absurd h.1 (by decide)
  | escape c h =>
    rw [Character.text, List.mem_cons, List.mem_singleton]
    rintro (hc | rfl)
    · exact absurd hc (by decide)
    · exact absurd h (by decide)
  | unicode digits hlength h =>
    rw [Character.text, List.mem_cons, List.mem_cons]
    rintro (hc | hc | hc)
    · exact absurd hc (by decide)
    · exact absurd hc (by decide)
    · rcases h 0 hc with hx | hx | hx <;> exact absurd hx (by decide)

theorem nul_not_mem_str (s : Str) : 0 ∉ s.text := by
  rw [Str.text, List.mem_cons, List.mem_append, List.mem_flatMap, List.mem_singleton]
  rintro (h | ⟨c, -, h⟩ | h)
  · exact absurd h (by decide)
  · exact nul_not_mem_character c h
  · exact absurd h (by decide)

theorem nul_not_mem_comma_items (items : Items) : 0 ∉ items.comma := by
  cases items <;> simp [Items.comma]

theorem nul_not_mem_comma_members (members : Members) : 0 ∉ members.comma := by
  cases members <;> simp [Members.comma]

mutual

/-- A text is a string of C. -/
theorem Json.nul_not_mem_text : ∀ j : Json, 0 ∉ j.text
  | .prim p => (inert_primitive p).nul_not_mem
  | .str s => nul_not_mem_str s
  | .arr inner items => by
      simp [Json.text, (inert_space inner).nul_not_mem, items.nul_not_mem_text]
  | .obj inner members => by
      simp [Json.text, (inert_space inner).nul_not_mem, members.nul_not_mem_text]

theorem Items.nul_not_mem_text : ∀ items : Items, 0 ∉ items.text
  | .nil => by simp [Items.text]
  | .cons before value after rest => by
      simp [Items.text, (inert_space before).nul_not_mem, (inert_space after).nul_not_mem,
        nul_not_mem_comma_items, value.nul_not_mem_text, rest.nul_not_mem_text]

theorem Members.nul_not_mem_text : ∀ members : Members, 0 ∉ members.text
  | .nil => by simp [Members.text]
  | .cons before key beforeColon afterColon value after rest => by
      simp [Members.text, (inert_space before).nul_not_mem,
        (inert_space beforeColon).nul_not_mem, (inert_space afterColon).nul_not_mem,
        (inert_space after).nul_not_mem, nul_not_mem_comma_members, nul_not_mem_str,
        value.nul_not_mem_text, rest.nul_not_mem_text]

end

/-! ### Documents -/

/-- The text of an object with white space around it. -/
structure ObjectText where
  before : Space
  inner : Space
  members : Members
  after : Space

namespace ObjectText

variable (doc : ObjectText)

/-- The object. -/
def value : Json := .obj doc.inner doc.members

def text : List UInt8 := doc.before.bytes ++ doc.value.text ++ doc.after.bytes

/-- The kinds of its tokens. -/
def kinds : List Kind := doc.value.tree.tokens

theorem nul_not_mem_text : 0 ∉ doc.text := by
  simp [text, (inert_space doc.before).nul_not_mem, (inert_space doc.after).nul_not_mem,
    doc.value.nul_not_mem_text]

/-- A token for the object, two for each member, and one for each element. -/
theorem length_kinds : doc.kinds.length = 1 + 2 * doc.value.members + doc.value.elements := by
  have hzero : (doc.value.weigh 0 0 fun _ => 0) = 0 := by
    have hsum := doc.value.weigh_eq 1 0 fun _ => 0
    omega
  rw [kinds, doc.value.length_tokens, doc.value.weigh_eq, hzero, Json.members, Json.elements]
  omega

/-- A colon for each member, and those in strings. -/
theorem count_colon : doc.text.count 58 = doc.value.members + doc.value.colons := by
  have hcount := doc.value.count_colon_text
  rw [doc.value.weigh_eq] at hcount
  rw [text, List.count_append, List.count_append, (inert_space doc.before).count_eq,
    (inert_space doc.after).count_eq, hcount, Json.members, Json.colons]
  omega

end ObjectText

end JsonText
