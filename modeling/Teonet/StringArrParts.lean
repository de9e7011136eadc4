import Teonet.StringArr

/-! # The parts of a split string (`string_arr.c`)

Without empty parts `ksnet_stringArrSplit` has to skip what lies between two separators, and with a
limit its last part has to be what is left of the string.  Its test for an empty part is true of every
part, and the limit is looked at only after the first byte.

`partsOk_iff` says for which strings the parts are right. -/

namespace Teonet

open QuoteMask Pieces

/-- The parts are some that were split off, less than the limit, and the rest of the string behind
them; an empty rest is a part only with empty parts. -/
def UnsplitRest (string : List UInt8) (withEmpty : Bool) (maxParts : ℤ)
    (parts : List (List UInt8)) : Prop :=
  ∃ done rest, parts = done ++ (if withEmpty ∨ rest ≠ [] then [rest] else []) ∧
    (done.length : ℤ) < maxParts ∧ behind done ≤ string.length ∧ rest = string.drop (behind done)

/-- No part is empty without empty parts, and with a limit there are no more parts and the last one is
the rest of the string. -/
def PartsOk (conv : IntConv) (string separators : CString) (withEmpty : Bool) (maxParts : ℤ) :
    Prop :=
  let parts := (ksnetStringArrSplit conv string separators withEmpty maxParts).map fun r =>
    r.2.map CString.bytes
  (withEmpty = false → ∃ l, parts = some l ∧ [] ∉ l) ∧
    (0 < maxParts → ∃ l, parts = some l ∧ (string.bytes ≠ [] →
      (l.length : ℤ) ≤ maxParts ∧ UnsplitRest string.bytes withEmpty maxParts l))

/-- The lengths of a string that is not empty and of its parts fit the `int`s of the code. -/
def PartsFit (string : CString) (separators : List UInt8) (withEmpty : Bool) (maxParts : ℤ) : Prop :=
  let parts := cutParts separators withEmpty (cutLimit maxParts (maskedText string))
    (maskedText string)
  string.length < 2 ^ 31 ∧ -2 ^ 31 < maxParts ∧ parts.length < 2 ^ 31 - 1024 ∧
    ∀ part ∈ parts, part.length + 1 < 2 ^ 31

/-- The rest is right if it is the string behind the pieces, and the loop has seen the whole
string. -/
theorem unsplitRest_iff {string text rest rest' : List UInt8} {done : List (List UInt8)}
    {withEmpty : Bool} {maxParts : ℤ}
    (hlen : text.length = string.length ∨ text.length + 2 ≤ string.length)
    (hbehind : behind done ≤ text.length) (hrest : rest = text.drop (behind done))
    (hrest' : rest'.length = rest.length) (hlt : (done.length : ℤ) < maxParts) :
    UnsplitRest string withEmpty maxParts
        (done ++ if withEmpty ∨ rest ≠ [] then [rest'] else []) ↔
      text.length = string.length ∧ rest' = string.drop (behind done) := by
  have hnil : rest ≠ [] ↔ rest' ≠ [] := by
    rw [← List.length_pos_iff, ← List.length_pos_iff, hrest']
  have hrestlen : rest'.length = text.length - behind done := by
    rw [hrest', hrest, List.length_drop]
  constructor
  · rintro ⟨done₀, rest₀, hparts, -, hle, hrest₀⟩
    have hrestlen₀ : rest₀.length = string.length - behind done₀ := by
      rw [hrest₀, List.length_drop]
    by_cases hr : withEmpty = true ∨ rest ≠ []
    · rw [if_pos hr] at hparts
      by_cases hr₀ : withEmpty = true ∨ rest₀ ≠ []
      · rw [if_pos hr₀] at hparts
        obtain ⟨rfl, heq⟩ := List.append_inj' hparts rfl
        obtain rfl := List.singleton_inj.mp heq
        exact ⟨by omega, hrest₀⟩
      · -- the place behind all parts is behind the text
        rw [if_neg hr₀, List.append_nil] at hparts
        have hnil₀ : rest₀.length = 0 := by
          simp only [not_or, not_not] at hr₀
          rw [hr₀.2, List.length_nil]
        rw [← hparts, behind_append, behind_singleton] at hrestlen₀ hle
        omega
    · rw [if_neg hr, List.append_nil] at hparts
      have hnil' : rest'.length = 0 := by
        simp only [not_or, not_not] at hr
        rw [hrest', hr.2, List.length_nil]
      by_cases hr₀ : withEmpty = true ∨ rest₀ ≠ []
      · rw [if_pos hr₀] at hparts
        rw [hparts, behind_append, behind_singleton] at hrestlen hbehind
        omega
      · rw [if_neg hr₀, List.append_nil] at hparts
        subst hparts
        have hnil₀ : rest₀ = [] := by
          simp only [not_or, not_not] at hr₀
          exact hr₀.2
        rw [hnil₀, List.length_nil] at hrestlen₀
        refine ⟨by omega, ?_⟩
        rw [← hrest₀, hnil₀]
        exact List.length_eq_zero_iff.mp hnil'
  · rintro ⟨htext, hrest⟩
    refine ⟨done, rest', ?_, hlt, htext ▸ hbehind, hrest⟩
    simp only [hnil]

variable {string : CString}

/-- With a cut at the first byte the first part is empty. -/
theorem splitLoop_of_startCut {text separators : List UInt8} (withEmpty : Bool) {maxParts : ℤ}
    (h : StartCut separators maxParts text) :
    splitLoop text separators withEmpty maxParts text 0 0 0 = ([[]], 1) := by
  obtain ⟨hzero, hone, c, hc, hsep⟩ := h
  cases text with
  | nil => cases hc
  | cons d rest =>
    obtain rfl := Option.some.inj hc
    rw [splitLoop, if_pos ⟨hsep, .inr (Nat.le_refl 0)⟩]
    dsimp only
    rw [if_pos ⟨by omega, hzero⟩]
    rfl

theorem nil_mem_map_mask {q f t : UInt8} {parts : List (List UInt8)} :
    [] ∈ parts.map (mask q f t 0) ↔ [] ∈ parts := by
  constructor
  · intro h
    obtain ⟨part, hpart, heq⟩ := List.mem_map.mp h
    have hlen := length_mask q f t 0 part
    rw [heq] at hlen
    rwa [← List.length_eq_zero_iff.mp hlen.symm]
  · exact fun h => List.mem_map.mpr ⟨[], h, rfl⟩

/-- The rest with its blanks put back is what the string has there. -/
theorem restored_eq_drop_iff (h : ¬Truncated string) {rest : List UInt8} {k : ℕ}
    (hrest : rest = (maskedText string).drop k) :
    mask 34 (findReplaceToChar string) 32 0 rest = string.bytes.drop k ↔
      AllQuoted 34 (findReplaceToChar string) 0 rest := by
  obtain ⟨habs, -, hblank⟩ := findReplaceToChar_spec string
  have hbytes : string.bytes.drop k =
      rest.map fun c => if c = findReplaceToChar string then 32 else c := by
    rw [hrest, maskedText_of_not_truncated h, List.map_drop, map_mask 0 habs]
  rw [hbytes, mask_eq_map_iff hblank]

theorem length_maskedText (h : ¬Truncated string) :
    (maskedText string).length = string.bytes.length := by
  rw [maskedText_of_not_truncated h, length_mask]

/-- The text that the loop sees has the length of the string, or lacks two bytes at least. -/
theorem length_maskedText_cases (string : CString) :
    (maskedText string).length = string.bytes.length ∨
      (maskedText string).length + 2 ≤ string.bytes.length := by
  by_cases htrunc : Truncated string
  · exact .inr (length_maskedText_of_truncated htrunc)
  · exact .inl (length_maskedText htrunc)

/-- No part is empty when the separators come right behind bytes that are none. -/
theorem nil_not_mem_cutParts {separators : List UInt8} {n : ℕ} {text : List UInt8} :
    [] ∉ cutParts separators false n text ↔ Spaced (· ∈ separators) n [] text := by
  rw [← nil_not_mem_pieces_iff (by simp), cutParts]
  by_cases hnil : (pieces (· ∈ separators) [] n text).2 = []
  · simp [hnil]
  · simp [hnil, Ne.symm hnil]

/-- With a limit the parts are right when the blanks can be put back in the rest. -/
theorem unsplitRest_cutParts_iff {separators : List UInt8} {withEmpty : Bool} {maxParts : ℤ}
    (hpos : 0 < maxParts) :
    ((((cutParts separators withEmpty (cutLimit maxParts (maskedText string))
          (maskedText string)).map (mask 34 (findReplaceToChar string) 32 0)).length : ℤ) ≤ maxParts ∧
        UnsplitRest string.bytes withEmpty maxParts
          ((cutParts separators withEmpty (cutLimit maxParts (maskedText string))
            (maskedText string)).map (mask 34 (findReplaceToChar string) 32 0))) ↔
      ¬Truncated string ∧ AllQuoted 34 (findReplaceToChar string) 0
        (pieces (· ∈ separators) [] (cutLimit maxParts (maskedText string))
          (maskedText string)).2 := by
  set n := cutLimit maxParts (maskedText string) with hn
  set r := pieces (· ∈ separators) [] n (maskedText string) with hr
  have hlen (part : List UInt8) := length_mask 34 (findReplaceToChar string) 32 0 part
  have hmap : (cutParts separators withEmpty n (maskedText string)).map
      (mask 34 (findReplaceToChar string) 32 0) =
        r.1.map (mask 34 (findReplaceToChar string) 32 0) ++
          if withEmpty ∨ r.2 ≠ [] then [mask 34 (findReplaceToChar string) 32 0 r.2] else [] := by
    rw [cutParts, ← hr, List.map_append]
    split_ifs <;> rfl
  obtain ⟨hbehind, hrest⟩ := pieces_rest (p := (· ∈ separators)) [] n (maskedText string)
  rw [List.nil_append, ← hr] at hbehind hrest
  have hbehind' := behind_map hlen r.1
  have hlt : (r.1.length : ℤ) < maxParts := by
    have hle := length_pieces (p := (· ∈ separators)) [] n (maskedText string)
    rw [← hr, hn, cutLimit, if_neg (by omega)] at hle
    omega
  have hcount : ((r.1.map (mask 34 (findReplaceToChar string) 32 0) ++
      if withEmpty ∨ r.2 ≠ [] then [mask 34 (findReplaceToChar string) 32 0 r.2]
      else []).length : ℤ) ≤ maxParts := by
    rw [List.length_append, List.length_map]
    split_ifs <;> simp <;> omega
  rw [hmap, and_iff_right hcount, unsplitRest_iff (length_maskedText_cases string)
    (by rw [hbehind']; exact hbehind) (by rw [hbehind']; exact hrest) (hlen r.2)
    (by rw [List.length_map]; exact hlt), hbehind']
  constructor
  · rintro ⟨hsame, hback⟩
    have htrunc : ¬Truncated string := fun h => by
      have hshort := length_maskedText_of_truncated h
      omega
    exact ⟨htrunc, (restored_eq_drop_iff htrunc hrest).mp hback⟩
  · rintro ⟨htrunc, hall⟩
    exact ⟨length_maskedText htrunc, (restored_eq_drop_iff htrunc hrest).mpr hall⟩

/-- The array that is returned if its lengths fit. -/
theorem ksnetStringArrSplit_map (conv : IntConv) (string separators : CString) (withEmpty : Bool)
    (maxParts : ℤ) :
    (ksnetStringArrSplit conv string separators withEmpty maxParts).map
        (fun r => r.2.map CString.bytes) =
      let arr := (splitString string (seenSeparators conv separators) withEmpty maxParts).2
      if SplitInts string maxParts arr then some (arr.map CString.bytes) else none := by
  unfold ksnetStringArrSplit
  dsimp only
  split_ifs <;> rfl

/-- The array of a string without a cut at the first byte. -/
theorem split_cutParts (hne : string.bytes ≠ []) {separators : List UInt8} {withEmpty : Bool}
    {maxParts : ℤ} (h : ¬StartCut separators maxParts (maskedText string)) :
    (splitString string separators withEmpty maxParts).2.map CString.bytes =
      (cutParts separators withEmpty (cutLimit maxParts (maskedText string))
        (maskedText string)).map (mask 34 (findReplaceToChar string) 32 0) := by
  have hparts := split_parts hne separators withEmpty maxParts
  dsimp only at hparts
  rwa [splitLoop_parts withEmpty h] at hparts

/-- Putting the blanks back changes no length. -/
theorem splitInts_iff (hne : string.bytes ≠ []) {separators : List UInt8} {withEmpty : Bool}
    {maxParts : ℤ} (h : ¬StartCut separators maxParts (maskedText string)) :
    SplitInts string maxParts (splitString string separators withEmpty maxParts).2 ↔
      PartsFit string separators withEmpty maxParts := by
  have hparts : (splitString string separators withEmpty maxParts).2.map CString.bytes = _ :=
    split_cutParts hne h
  have hmap := congrArg (List.map List.length) hparts
  rw [List.map_map, List.map_map] at hmap
  have hlengths : (splitString string separators withEmpty maxParts).2.map CString.length =
      (cutParts separators withEmpty (cutLimit maxParts (maskedText string))
        (maskedText string)).map List.length :=
    hmap.trans (List.map_congr_left fun part _ => length_mask 34 (findReplaceToChar string) 32 0 part)
  have hcount := congrArg List.length hlengths
  rw [List.length_map, List.length_map] at hcount
  have hsizes : (∀ part ∈ (splitString string separators withEmpty maxParts).2,
      part.length + 1 < 2 ^ 31) ↔
        ∀ part ∈ cutParts separators withEmpty (cutLimit maxParts (maskedText string))
          (maskedText string), part.length + 1 < 2 ^ 31 := by
    rw [← List.forall_mem_map (f := CString.length) (P := fun n => n + 1 < 2 ^ 31), hlengths,
      List.forall_mem_map]
  rw [SplitInts, PartsFit, or_iff_right hne, hcount, hsizes]

/-- The parts without a cut at the first byte. -/
theorem partsOk_of_not_startCut (conv : IntConv) (hne : string.bytes ≠ []) {separators : CString}
    {withEmpty : Bool} {maxParts : ℤ}
    (h : ¬StartCut (seenSeparators conv separators) maxParts (maskedText string)) :
    PartsOk conv string separators withEmpty maxParts ↔
      (withEmpty = false ∨ 0 < maxParts →
        PartsFit string (seenSeparators conv separators) withEmpty maxParts) ∧
      (withEmpty = false → Spaced (· ∈ seenSeparators conv separators)
        (cutLimit maxParts (maskedText string)) [] (maskedText string)) ∧
      (0 < maxParts → ¬Truncated string ∧ AllQuoted 34 (findReplaceToChar string) 0
        (pieces (· ∈ seenSeparators conv separators) [] (cutLimit maxParts (maskedText string))
          (maskedText string)).2) := by
  unfold PartsOk
  rw [ksnetStringArrSplit_map]
  dsimp only
  rw [split_cutParts hne h]
  by_cases hfit : PartsFit string (seenSeparators conv separators) withEmpty maxParts
  · simp only [if_pos ((splitInts_iff hne h).mpr hfit), hfit, Option.some.injEq, exists_eq_left', nil_mem_map_mask,
      imp_iff_right hne, implies_true, true_and]
    refine and_congr (forall_congr' ?_) (forall_congr' fun hpos => unsplitRest_cutParts_iff hpos)
    rintro rfl
    exact nil_not_mem_cutParts
  · simp only [if_neg fun hints => hfit ((splitInts_iff hne h).mp hints)]
    constructor
    · rintro ⟨hempty, hlimit⟩
      refine ⟨fun hclaim => ?_, fun hwe => ?_, fun hpos => ?_⟩
      · rcases hclaim with hwe | hpos
        · obtain ⟨l, hl, -⟩ := hempty hwe
          cases hl
        · obtain ⟨l, hl, -⟩ := hlimit hpos
          cases hl
      · obtain ⟨l, hl, -⟩ := hempty hwe
        cases hl
      · obtain ⟨l, hl, -⟩ := hlimit hpos
        cases hl
    · rintro ⟨hclaim, -, -⟩
      exact ⟨fun hwe => absurd (hclaim (.inl hwe)) hfit, fun hpos => absurd (hclaim (.inr hpos)) hfit⟩

/-- With a cut at the first byte for a limit of one the parts are never right. -/
theorem not_partsOk_of_startCut (conv : IntConv) (hne : string.bytes ≠ []) {separators : CString}
    {withEmpty : Bool} {maxParts : ℤ}
    (h : StartCut (seenSeparators conv separators) maxParts (maskedText string))
    (hclaim : withEmpty = false ∨ 0 < maxParts) :
    ¬PartsOk conv string separators withEmpty maxParts := by
  have hparts := split_parts hne (seenSeparators conv separators) withEmpty maxParts
  dsimp only at hparts
  rw [splitLoop_of_startCut withEmpty h] at hparts
  have hreturned : ∀ {l : List (List UInt8)}, (ksnetStringArrSplit conv string separators withEmpty
      maxParts).map (fun r => r.2.map CString.bytes) = some l →
        l = (splitString string (seenSeparators conv separators) withEmpty maxParts).2.map
          CString.bytes := by
    intro l hl
    rw [ksnetStringArrSplit_map] at hl
    dsimp only at hl
    split_ifs at hl
    exact (Option.some.inj hl).symm
  rintro ⟨hempty, hlimit⟩
  cases withEmpty with
  | false =>
    obtain ⟨l, hl, hnil⟩ := hempty rfl
    rw [hreturned hl, hparts, nil_mem_map_mask] at hnil
    exact hnil (by simp)
  | true =>
    have hpos : 0 < maxParts := hclaim.resolve_left Bool.true_eq_false.mp
    obtain ⟨l, hl, hrest⟩ := hlimit hpos
    have htwo := (hrest hne).1
    have hone := h.2.1
    rw [hreturned hl, hparts, List.length_map] at htwo
    simp at htwo
    omega

/-- **Parts.**  No part is empty without empty parts, and the last one is the unsplit rest with a
limit, exactly when the string is empty, or the lengths fit an `int`, no cut is made at the first byte
for a limit of one, the separators that are cut at come right behind a byte that is none, and the
blanks between quotes can be put back in the rest. -/
theorem partsOk_iff (conv : IntConv) (string separators : CString) (withEmpty : Bool)
    (maxParts : ℤ) :
    PartsOk conv string separators withEmpty maxParts ↔ string.bytes = [] ∨
      (withEmpty = false ∨ 0 < maxParts →
        ¬StartCut (seenSeparators conv separators) maxParts (maskedText string) ∧
          PartsFit string (seenSeparators conv separators) withEmpty maxParts) ∧
      (withEmpty = false → Spaced (· ∈ seenSeparators conv separators)
        (cutLimit maxParts (maskedText string)) [] (maskedText string)) ∧
      (0 < maxParts → ¬Truncated string ∧ AllQuoted 34 (findReplaceToChar string) 0
        (pieces (· ∈ seenSeparators conv separators) [] (cutLimit maxParts (maskedText string))
          (maskedText string)).2) := by
  by_cases hne : string.bytes = []
  · refine iff_of_true ?_ (.inl hne)
    have harr : (splitString string (seenSeparators conv separators) withEmpty maxParts).2 = [] := by
      rw [splitString, if_pos hne]
    unfold PartsOk
    rw [ksnetStringArrSplit_map]
    dsimp only
    rw [harr, if_pos (.inl hne)]
    exact ⟨fun _ => ⟨[], rfl, List.not_mem_nil⟩, fun _ => ⟨[], rfl, fun h => absurd hne h⟩⟩
  rw [or_iff_right hne]
  by_cases hstart : StartCut (seenSeparators conv separators) maxParts (maskedText string)
  · by_cases hclaim : withEmpty = false ∨ 0 < maxParts
    · exact iff_of_false (not_partsOk_of_startCut conv hne hstart hclaim) fun h =>
        (h.1 hclaim).1 hstart
    · obtain ⟨hwe, hpos⟩ := not_or.mp hclaim
      exact iff_of_true ⟨fun h => absurd h hwe, fun h => absurd h hpos⟩ ⟨fun h => absurd h hclaim,
        fun h => absurd h hwe, fun h => absurd h hpos⟩
  · rw [partsOk_of_not_startCut conv hne hstart]
    refine and_congr_left fun _ => forall_congr' fun _ => ?_
    exact (and_iff_right hstart).symm

/-- Without empty parts `,a` still has an empty part, and with a limit of one it has two parts. -/
theorem not_partsOk :
    ¬PartsOk .lowBits (CString.ofBuf [44, 97]) (CString.ofBuf [44]) false 0 ∧
      ¬PartsOk .lowBits (CString.ofBuf [44, 97]) (CString.ofBuf [44]) true 1 := by
  have hfirst : (ksnetStringArrSplit .lowBits (CString.ofBuf [44, 97]) (CString.ofBuf [44]) false
      0).map (fun r => r.2.map CString.bytes) = some [[], [97]] := by
    decide +kernel
  have hlimit : (ksnetStringArrSplit .lowBits (CString.ofBuf [44, 97]) (CString.ofBuf [44]) true
      1).map (fun r => r.2.map CString.bytes) = some [[], [97]] := by
    decide +kernel
  unfold PartsOk
  rw [hfirst, hlimit]
  refine ⟨fun h => ?_, fun h => ?_⟩
  · obtain ⟨l, hl, hnil⟩ := h.1 rfl
    obtain rfl := Option.some.inj hl
    exact hnil (by decide)
  · obtain ⟨l, hl, hrest⟩ := h.2 (by decide)
    obtain rfl := Option.some.inj hl
    have hle := (hrest (by decide)).1
    simp at hle

end Teonet
