import Teonet.L0Auth

/-! # The time until which a login is valid

`checkAuthData` compares the timestamp of a login with the current time as texts: the longer one is
later, and of equally long ones the one that `strncmp` finds greater.  For decimal numbers without
leading zeros this is the order of the numbers.

`expiryExact_iff` says for which times and timestamps the test comes out as it would for the
numbers. -/

namespace Teonet

open Decimal

/-- A timestamp is taken as not expired exactly if it is a decimal number that is not smaller than
the current time in whole seconds, whatever a time that is no `int` is converted to. -/
def ExpiryExact (now : ℚ) (validUntil : List UInt8) : Prop :=
  ∀ intOverflow : ℤ, -2 ^ 31 ≤ intOverflow → intOverflow < 2 ^ 31 →
    (outdated intOverflow now validUntil = false ↔
      IsDecimal validUntil ∧ ⌊now⌋ ≤ (value validUntil : ℤ))

/-- While the time is an `int`, a decimal number is not longer than the time, or not smaller; and
what is no decimal number is shorter than the time, or as long and before it in the order of the
bytes.  From then on a decimal number has at least 11 digits and is not smaller than the time; and
what is no decimal number is empty, or one byte before the digits. -/
def ExpiryCondition (now : ℚ) (validUntil : List UInt8) : Prop :=
  if now < 2 ^ 31 then
    if IsDecimal validUntil then
      validUntil.length ≤ (ofNat ⌊now⌋.toNat).length ∨ ⌊now⌋ ≤ (value validUntil : ℤ)
    else
      validUntil.length < (ofNat ⌊now⌋.toNat).length ∨
        validUntil.length = (ofNat ⌊now⌋.toNat).length ∧ validUntil < ofNat ⌊now⌋.toNat
  else if IsDecimal validUntil then 11 ≤ validUntil.length ∧ ⌊now⌋ ≤ (value validUntil : ℤ)
  else validUntil = [] ∨ ∃ c < 48, validUntil = [c]

/-! ### Texts -/

/-- `strncmp` is the lexicographic order. -/
theorem strLess_iff : ∀ a b : List UInt8, strLess a b = true ↔ a < b
  | [], [] => by simp [strLess]
  | [], _ :: _ => by simp [strLess]
  | _ :: _, [] => by simp [strLess]
  | a :: l, b :: m => by
      rw [strLess, List.cons_lt_cons_iff, ← strLess_iff l m]
      by_cases hab : a = b
      · subst hab
        simp
      · simp [hab]

/-- The test that `checkAuthData` makes. -/
theorem outdated_eq_false_iff (intOverflow : ℤ) (now : ℚ) (s : List UInt8) :
    outdated intOverflow now s = false ↔
      (timeString intOverflow now).length < s.length ∨
        (timeString intOverflow now).length = s.length ∧ ¬ s < timeString intOverflow now := by
  rw [outdated, ← strLess_iff]
  simp only [decide_eq_false_iff_not, not_or, not_and, Bool.not_eq_true]
  constructor
  · rintro ⟨hle, heq⟩
    rcases Nat.lt_or_ge (timeString intOverflow now).length s.length with hlt | hge
    · exact .inl hlt
    · have hlen : (timeString intOverflow now).length = s.length := by omega
      exact .inr ⟨hlen, heq hlen⟩
  · rintro (hlt | ⟨hlen, hless⟩)
    · exact ⟨by omega, fun hlen => absurd hlen (by omega)⟩
    · exact ⟨by omega, fun _ => hless⟩

/-- The text of an `int`: at most 11 characters, with a sign if there are 11, and a digit if there is
only one. -/
theorem length_ofInt {i : ℤ} (hlow : -2 ^ 31 ≤ i) (hhigh : i < 2 ^ 31) :
    1 ≤ (ofInt i).length ∧ (ofInt i).length ≤ 11 ∧
      ((ofInt i).length = 11 → ∃ rest, ofInt i = 45 :: rest) ∧
      ((ofInt i).length = 1 → ∃ d, 48 ≤ d ∧ ofInt i = [d]) := by
  cases i with
  | ofNat n =>
    have hn : n < 2 ^ 31 := by simpa using hhigh
    have hpos := length_ofNat_pos n
    have hten := (length_ofNat_le_iff (by decide)).mpr (show n < 10 ^ 10 by omega)
    refine ⟨hpos, hten.trans (by decide), fun h => absurd hten ?_, fun h => ?_⟩
    · change ¬ (ofInt (.ofNat n)).length ≤ 10
      omega
    · obtain ⟨d, hd⟩ := List.length_eq_one_iff.mp h
      have hmem : d ∈ ofNat n := by
        change ofNat n = [d] at hd
        rw [hd]
        exact List.mem_singleton_self d
      exact ⟨d, (isDigit_of_mem_ofNat n d hmem).1, hd⟩
  | negSucc n =>
    have hn : n + 1 ≤ 2 ^ 31 := by
      rw [Int.negSucc_eq] at hlow
      omega
    have hpos := length_ofNat_pos (n + 1)
    have hten := (length_ofNat_le_iff (by decide)).mpr (show n + 1 < 10 ^ 10 by omega)
    have hlen : (ofInt (.negSucc n)).length = (ofNat (n + 1)).length + 1 := List.length_cons
    refine ⟨by omega, by omega, fun _ => ⟨_, rfl⟩, fun h => ?_⟩
    omega

/-! ### While the time is an `int` -/

theorem timeString_of_lt {now : ℚ} (hnow : 0 ≤ now) (hlt : now < 2 ^ 31) (intOverflow : ℤ) :
    timeString intOverflow now = ofNat ⌊now⌋.toNat := by
  have hlow : (-2 ^ 31 - 1 : ℚ) < now := lt_of_lt_of_le (by norm_num) hnow
  rw [timeString, currentTime, if_pos ⟨hlow, hlt⟩, if_pos hnow]
  obtain ⟨n, hn⟩ := Int.eq_ofNat_of_zero_le (Int.floor_nonneg.mpr hnow)
  rw [hn]
  rfl

/-- A decimal number that is not longer than a printed one is compared correctly. -/
theorem accepted_iff_of_length_le {s : List UInt8} (hs : IsDecimal s) {n : ℕ}
    (hle : s.length ≤ (ofNat n).length) :
    (ofNat n).length < s.length ∨ (ofNat n).length = s.length ∧ ¬ s < ofNat n ↔ n ≤ value s := by
  rcases Nat.lt_or_ge s.length (ofNat n).length with hlt | hge
  · have hpow := pow_le_of_lt_length (List.length_pos_iff.mpr hs.1) hlt
    have hval := value_lt hs.2
    exact iff_of_false (by omega) (by omega)
  · have hlen : s.length = (ofNat n).length := by omega
    rw [lt_iff_value_lt hs.2 (isDigit_of_mem_ofNat n) hlen, value_ofNat]
    omega

theorem expiryExact_iff_of_lt {now : ℚ} (hnow : 0 ≤ now) (hlt : now < 2 ^ 31) (s : List UInt8) :
    ExpiryExact now s ↔
      ((ofNat ⌊now⌋.toNat).length < s.length ∨
        (ofNat ⌊now⌋.toNat).length = s.length ∧ ¬ s < ofNat ⌊now⌋.toNat ↔
      IsDecimal s ∧ ⌊now⌋ ≤ (value s : ℤ)) := by
  unfold ExpiryExact
  simp only [outdated_eq_false_iff, timeString_of_lt hnow hlt]
  exact ⟨fun h => h 0 (by decide) (by decide), fun h _ _ _ => h⟩

/-! ### When it no longer is -/

theorem timeString_of_le {now : ℚ} (hle : 2 ^ 31 ≤ now) (intOverflow : ℤ) :
    timeString intOverflow now = ofInt intOverflow := by
  rw [timeString, currentTime, if_neg fun h => absurd h.2 (not_lt.mpr hle)]

/-- A decimal number comes behind what has a sign. -/
theorem not_lt_of_sign {s : List UInt8} (hs : IsDecimal s) (rest : List UInt8) :
    ¬ s < 45 :: rest := by
  obtain ⟨c, s', rfl⟩ := List.exists_cons_of_ne_nil hs.1
  have hc := hs.2 c List.mem_cons_self
  have hsign : ¬ c < 45 := UInt8.not_lt.mpr (UInt8.le_trans (by decide) hc.1)
  have hne : c ≠ 45 := fun he => absurd (he ▸ hc.1) (by decide)
  rw [List.cons_lt_cons_iff]
  simp [hsign, hne]

/-- A decimal number comes at or behind zero. -/
theorem not_lt_zero_of_isDecimal {s : List UInt8} (hs : IsDecimal s) (hlen : s.length = 1) :
    ¬ s < [48] := by
  rw [lt_iff_value_lt (t := [48]) hs.2 (List.forall_mem_singleton.mpr (by decide)) hlen]
  exact Nat.not_lt_zero _

/-- Only with 11 digits a number is accepted whatever the time is converted to. -/
theorem expiryExact_iff_of_isDecimal {now : ℚ} (hle : 2 ^ 31 ≤ now) {s : List UInt8}
    (hs : IsDecimal s) : ExpiryExact now s ↔ 11 ≤ s.length ∧ ⌊now⌋ ≤ (value s : ℤ) := by
  have hzero : ofInt 0 = [48] := rfl
  have hmin : (ofInt (-2 ^ 31)).length = 11 := by decide
  have hpos : 0 < s.length := List.length_pos_iff.mpr hs.1
  unfold ExpiryExact
  simp only [outdated_eq_false_iff, timeString_of_le hle]
  constructor
  · intro h
    have haccepted := h 0 (by decide) (by decide)
    rw [hzero, List.length_singleton] at haccepted
    have hvalue := (haccepted.mp (by
      rcases Nat.lt_or_ge 1 s.length with hlt | hge
      · exact .inl hlt
      · have hlen : s.length = 1 := by omega
        exact .inr ⟨hlen.symm, not_lt_zero_of_isDecimal hs hlen⟩)).2
    have hlong := (h (-2 ^ 31) le_rfl (by decide)).mpr ⟨hs, hvalue⟩
    rw [hmin] at hlong
    exact ⟨by omega, hvalue⟩
  · rintro ⟨hlen, hvalue⟩ o hlow hhigh
    refine iff_of_true ?_ ⟨hs, hvalue⟩
    obtain ⟨-, hmax, hsign, -⟩ := length_ofInt hlow hhigh
    rcases Nat.lt_or_ge (ofInt o).length s.length with hlt | hge
    · exact .inl hlt
    · obtain ⟨rest, hrest⟩ := hsign (by omega)
      refine .inr ⟨by omega, ?_⟩
      rw [hrest]
      exact not_lt_of_sign hs rest

/-- What is no decimal number has to be rejected whatever the time is converted to. -/
theorem expiryExact_iff_of_not_isDecimal {now : ℚ} (hle : 2 ^ 31 ≤ now) {s : List UInt8}
    (hs : ¬ IsDecimal s) : ExpiryExact now s ↔ s = [] ∨ ∃ c < 48, s = [c] := by
  have hzero : ofInt 0 = [48] := rfl
  have hnot : ∀ p : Prop, (p ↔ IsDecimal s ∧ ⌊now⌋ ≤ (value s : ℤ)) ↔ ¬ p := fun p =>
    ⟨fun h hp => hs (h.mp hp).1, fun hp => iff_of_false hp fun h => hs h.1⟩
  unfold ExpiryExact
  simp only [outdated_eq_false_iff, timeString_of_le hle, hnot]
  constructor
  · intro h
    have hrejected := h 0 (by decide) (by decide)
    rw [hzero, List.length_singleton] at hrejected
    cases s with
    | nil => exact .inl rfl
    | cons c s =>
      cases s with
      | nil =>
        have hless : [c] < [48] := by
          by_contra hnot
          exact hrejected (.inr ⟨rfl, hnot⟩)
        rw [List.cons_lt_cons_iff] at hless
        simp only [List.lt_irrefl, and_false, or_false] at hless
        exact .inr ⟨c, hless, rfl⟩
      | cons d s => exact absurd (.inl (by simp)) hrejected
  · intro h o hlow hhigh
    obtain ⟨hmin, -, -, hdigit⟩ := length_ofInt hlow hhigh
    rcases h with rfl | ⟨c, hc, rfl⟩
    · rintro (hlt | ⟨hlen, -⟩)
      · cases hlt
      · rw [hlen] at hmin
        cases hmin
    · rintro (hlt | ⟨hlen, hless⟩)
      · rw [List.length_singleton] at hlt
        omega
      · obtain ⟨d, hd, he⟩ := hdigit hlen
        rw [he, List.cons_lt_cons_iff] at hless
        exact hless (.inl (UInt8.lt_of_lt_of_le hc hd))

theorem expiryExact_iff_of_le {now : ℚ} (hle : 2 ^ 31 ≤ now) (s : List UInt8) :
    ExpiryExact now s ↔
      if IsDecimal s then 11 ≤ s.length ∧ ⌊now⌋ ≤ (value s : ℤ) else s = [] ∨ ∃ c < 48, s = [c] := by
  split_ifs with hs
  · exact expiryExact_iff_of_isDecimal hle hs
  · exact expiryExact_iff_of_not_isDecimal hle hs

/-- **The expiry test** is the one for the numbers exactly under `ExpiryCondition`;
`ksnetEvMgrGetTime` is never negative. -/
theorem expiryExact_iff {now : ℚ} (hnow : 0 ≤ now) (validUntil : List UInt8) :
    ExpiryExact now validUntil ↔ ExpiryCondition now validUntil := by
  unfold ExpiryCondition
  by_cases hlt : now < 2 ^ 31
  · obtain ⟨n, hn⟩ := Int.eq_ofNat_of_zero_le (Int.floor_nonneg.mpr hnow)
    rw [expiryExact_iff_of_lt hnow hlt, if_pos hlt, hn, Int.toNat_natCast, Nat.cast_le]
    split_ifs with hs
    · simp only [hs, true_and]
      rcases Nat.lt_or_ge (ofNat n).length validUntil.length with hlong | hshort
      · simp only [hlong, true_or, true_iff, Nat.not_le.mpr hlong, false_or]
      · simp only [hshort, true_or, iff_true]
        exact accepted_iff_of_length_le hs hshort
    · simp only [hs, false_and, iff_false, not_or, not_and, not_not]
      constructor
      · rintro ⟨hle, heq⟩
        rcases Nat.lt_or_ge validUntil.length (ofNat n).length with hlt | hge
        · exact .inl hlt
        · exact .inr ⟨by omega, heq (by omega)⟩
      · rintro (hlt | ⟨hlen, hless⟩)
        · exact ⟨by omega, fun h => absurd h (by omega)⟩
        · exact ⟨by omega, fun _ => hless⟩
  · rw [expiryExact_iff_of_le (not_lt.mp hlt), if_neg hlt]

/-- The timestamp 9 at the time 5. -/
theorem expiryExact_iff_nine : ExpiryExact 5 [57] :=
  (expiryExact_iff (by decide +kernel) [57]).mpr (by
    unfold ExpiryCondition
    rw [if_pos (by decide +kernel), if_pos (by decide)]
    exact .inl (by decide +kernel))

/-- The timestamp `01` is not expired at the time 5. -/
theorem not_expiryExact :
    ¬ ∀ (now : ℚ) (validUntil : List UInt8), 0 ≤ now → ExpiryExact now validUntil := by
  intro h
  have hexact := (h 5 [48, 49] (by decide +kernel) 0 (by decide) (by decide)).mp (by decide +kernel)
  exact absurd hexact.2 (by decide +kernel)

end Teonet
