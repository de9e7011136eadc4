import Mathlib.Tactic.Common

/-! # Streams of frames

A receiver reads a stream in pieces and keeps what is not yet a whole frame.  `Format` says what
stands in front of a list of items; `Format.parse` takes frame after frame from it and keeps the
rest, and `Format.feed` is one read of a receiver.  A frame is a list that the format recognises
whatever follows it, and none of whose beginnings it takes for a frame (`Format.IsFrame`).

`foldl_feed_frames` is the main result: however a stream of frames is divided into reads, a receiver
gets these frames and keeps nothing.  `Format.Fits` bounds what a receiver has to hold. -/

namespace Framing

/-- What stands in front of a list of items. -/
inductive Front
  /-- the beginning of a frame -/
  | part
  /-- no frame -/
  | reject
  /-- a frame of `n` items that fails its check -/
  | broken (n : ℕ)
  /-- a frame of `n` items -/
  | frame (n : ℕ)
deriving DecidableEq, Repr

/-- A format: a frame is not empty and stands in front of the list. -/
structure Format (β : Type) where
  front : List β → Front
  front_nil : front [] = .part
  frame_pos : ∀ {w : List β} {n : ℕ}, front w = .frame n → 0 < n
  frame_le : ∀ {w : List β} {n : ℕ}, front w = .frame n → n ≤ w.length

/-- The frames that were taken, what is left, and whether an error ended the parse. -/
structure Parsed (β : Type) where
  frames : List (List β) := []
  rest : List β := []
  failed : Bool := false

/-- A receiver: its frames so far, what it keeps, and whether it reads no more. -/
structure Receiver (β : Type) where
  frames : List (List β) := []
  rest : List β := []
  stopped : Bool := false

variable {β : Type}

namespace Format

variable (F : Format β)

/-- Takes frame after frame.  An error ends it: what follows a broken frame is kept, and nothing is
kept of what is no frame. -/
def parse (w : List β) : Parsed β :=
  match _h : F.front w with
  | .part => { rest := w }
  | .reject => { failed := true }
  | .broken n => { rest := w.drop n, failed := true }
  | .frame n => { parse (w.drop n) with frames := w.take n :: (parse (w.drop n)).frames }
termination_by w.length
decreasing_by
  all_goals
    have hpos := F.frame_pos _h
    have hle := F.frame_le _h
    rw [List.length_drop]
    omega

/-- One read; `stop` says whether an error is the end of the stream. -/
def feed (stop : Bool) (r : Receiver β) (d : List β) : Receiver β :=
  if r.stopped = true then r
  else
    let p := F.parse (r.rest ++ d)
    { frames := r.frames ++ p.frames, rest := p.rest, stopped := p.failed && stop }

/-- At each read what is kept and what is read are at most `cap` items. -/
def Fits (stop : Bool) (cap : ℕ) : Receiver β → List (List β) → Prop
  | _, [] => True
  | r, d :: ds =>
    (r.stopped = false → r.rest.length + d.length ≤ cap) ∧ Fits stop cap (F.feed stop r d) ds

variable {F} {w f : List β} {n : ℕ}

theorem parse_part (h : F.front w = .part) : F.parse w = { rest := w } := by
  rw [parse]
  split <;> simp_all

theorem parse_reject (h : F.front w = .reject) : F.parse w = { failed := true } := by
  rw [parse]
  split <;> simp_all

theorem parse_broken (h : F.front w = .broken n) :
    F.parse w = { rest := w.drop n, failed := true } := by
  rw [parse]
  split <;> simp_all

theorem parse_frame (h : F.front w = .frame n) :
    F.parse w = { F.parse (w.drop n) with frames := w.take n :: (F.parse (w.drop n)).frames } := by
  rw [parse]
  split <;> simp_all

/-! ### What a receiver keeps -/

theorem Fits.append_left {stop : Bool} {cap : ℕ} {past future : List (List β)} {r : Receiver β}
    (h : F.Fits stop cap r (past ++ future)) : F.Fits stop cap r past := by
  induction past generalizing r with
  | nil => trivial
  | cons d ds ih => exact ⟨h.1, ih h.2⟩

/-- What is kept is the end of what was there. -/
theorem rest_suffix (w : List β) : (F.parse w).rest <:+ w := by
  fun_induction F.parse w with
  | case1 w h => exact List.suffix_refl w
  | case2 w h => exact List.nil_suffix
  | case3 w n h => exact List.drop_suffix n w
  | case4 w n h _ ih => exact ih.trans (List.drop_suffix n w)

/-- Without an error, what is kept is the beginning of a frame. -/
theorem front_rest {w : List β} (h : (F.parse w).failed = false) :
    F.front (F.parse w).rest = .part := by
  fun_induction F.parse w with
  | case1 w hw => exact hw
  | case2 w hw => cases h
  | case3 w n hw => cases h
  | case4 w n hw _ ih => exact ih h

/-- **Parsing in two parts**: where what follows a frame does not matter, what follows later is
parsed behind what was kept. -/
theorem parse_append_rest (hstable : ∀ {w : List β} {n : ℕ} (x : List β), F.front w = .frame n →
      F.front (w ++ x) = .frame n) {w : List β} (h : (F.parse w).failed = false) (x : List β) :
    F.parse (w ++ x) = { F.parse ((F.parse w).rest ++ x) with
      frames := (F.parse w).frames ++ (F.parse ((F.parse w).rest ++ x)).frames } := by
  fun_induction F.parse w with
  | case1 w hw => rfl
  | case2 w hw => cases h
  | case3 w n hw => cases h
  | case4 w n hw _ ih =>
    have hle := F.frame_le hw
    rw [parse_frame (hstable x hw), List.take_append_of_le_length hle,
      List.drop_append_of_le_length hle, ih h]
    rfl

/-- An error stays an error, where what follows does not change what stands in front. -/
theorem failed_append (hstable : ∀ {w : List β} (x : List β), F.front w ≠ .part →
      F.front (w ++ x) = F.front w) {w : List β} (h : (F.parse w).failed = true) (x : List β) :
    (F.parse (w ++ x)).failed = true := by
  have hfront : ∀ {v : List β} {r : Front}, F.front v = r → r ≠ .part →
      F.front (v ++ x) = r := fun hv hr => (hstable x (hv ▸ hr)).trans hv
  fun_induction F.parse w with
  | case1 w hw => cases h
  | case2 w hw => rw [parse_reject (hfront hw (by simp))]
  | case3 w n hw => rw [parse_broken (hfront hw (by simp))]
  | case4 w n hw _ ih =>
    rw [parse_frame (hfront hw (by simp)), List.drop_append_of_le_length (F.frame_le hw)]
    exact ih h

theorem feed_of_stopped {stop : Bool} {r : Receiver β} (h : r.stopped = true) (d : List β) :
    F.feed stop r d = r :=
  if_pos h

theorem fits_of_stopped {stop : Bool} {cap : ℕ} (reads : List (List β)) {r : Receiver β}
    (h : r.stopped = true) : F.Fits stop cap r reads := by
  induction reads with
  | nil => trivial
  | cons d ds ih =>
    refine ⟨fun hrun => ?_, ?_⟩
    · rw [h] at hrun
      cases hrun
    · rw [feed_of_stopped h]
      exact ih

/-- Reads fit where every beginning of a frame in the stream is short: at most `k` items, behind
which there is room for a read of `m`. -/
theorem fits_of_part_le {cap k m : ℕ} (hcap : k + m ≤ cap) {s : List β} (past : List β)
    (hpart : ∀ w, w <:+: s → F.front w = .part → w.length ≤ k) {reads : List (List β)}
    (hreads : ∀ d ∈ reads, d.length ≤ m) {r : Receiver β} (hs : s = past ++ reads.flatten)
    (hrest : r.rest <:+ past) (hfront : F.front r.rest = .part) (hrun : r.stopped = false) :
    F.Fits true cap r reads := by
  induction reads generalizing r past with
  | nil => trivial
  | cons d ds ih =>
    rw [List.flatten_cons, ← List.append_assoc] at hs
    refine ⟨fun _ => ?_, ?_⟩
    · have hinfix : r.rest <:+: s :=
        hrest.isInfix.trans (hs ▸ ⟨[], d ++ ds.flatten, by simp⟩)
      have hk := hpart r.rest hinfix hfront
      have hm := hreads d (by simp)
      omega
    · cases hfailed : (F.parse (r.rest ++ d)).failed with
      | true => exact fits_of_stopped ds (by simp [feed, hrun, hfailed])
      | false =>
        obtain ⟨front, hfront'⟩ := hrest
        have hfeed : (F.feed true r d).rest = (F.parse (r.rest ++ d)).rest := by
          simp [feed, hrun]
        refine ih (past ++ d) (fun e he => hreads e (by simp [he])) hs ?_ ?_ ?_
        · rw [hfeed]
          exact (rest_suffix _).trans ⟨front, by rw [← hfront', List.append_assoc]⟩
        · rw [hfeed]
          exact front_rest hfailed
        · simp [feed, hrun, hfailed]

/-! ### Streams of frames -/

variable (F) in
/-- `f` is a frame, and is recognised once it is complete. -/
structure IsFrame (f : List β) : Prop where
  whole : ∀ x, F.front (f ++ x) = .frame f.length
  part : ∀ w, w <+: f → w.length < f.length → F.front w = .part

/-- A whole frame is taken first. -/
theorem parse_append (hf : F.IsFrame f) (x : List β) :
    F.parse (f ++ x) = { F.parse x with frames := f :: (F.parse x).frames } := by
  rw [parse_frame (hf.whole x), List.drop_left, List.take_left]

/-- All whole frames are taken, and the incomplete one is kept. -/
theorem parse_flatten {fs : List (List β)} (hfs : ∀ f ∈ fs, F.IsFrame f)
    (hw : F.front w = .part) : F.parse (fs.flatten ++ w) = { frames := fs, rest := w } := by
  induction fs with
  | nil => exact parse_part hw
  | cons f fs ih =>
    rw [List.flatten_cons, List.append_assoc, parse_append (hfs f (by simp)),
      ih (fun g hg => hfs g (by simp [hg]))]

/-- A beginning of a stream of frames is some of them and an incomplete one. -/
theorem exists_of_prefix {fs : List (List β)} (hfs : ∀ f ∈ fs, F.IsFrame f)
    (hw : w <+: fs.flatten) : ∃ done todo r, fs = done ++ todo ∧ w = done.flatten ++ r ∧
      F.front r = .part := by
  induction fs generalizing w with
  | nil =>
    obtain rfl := List.prefix_nil.mp hw
    exact ⟨[], [], [], rfl, rfl, F.front_nil⟩
  | cons f fs ih =>
    rw [List.flatten_cons] at hw
    rcases Nat.lt_or_ge w.length f.length with hlt | hge
    · have hpre : w <+: f := List.prefix_of_prefix_length_le hw (List.prefix_append _ _) (by omega)
      exact ⟨[], f :: fs, w, rfl, rfl, (hfs f (by simp)).part w hpre hlt⟩
    · obtain ⟨x, rfl⟩ : f <+: w :=
        List.prefix_of_prefix_length_le (List.prefix_append _ _) hw hge
      obtain ⟨done, todo, r, rfl, rfl, hr⟩ :=
        ih (fun g hg => hfs g (by simp [hg])) ((List.prefix_append_right_inj f).mp hw)
      exact ⟨f :: done, todo, r, rfl, by simp, hr⟩

/-- What is left of a stream of frames, when it is incomplete, is nothing. -/
theorem eq_nil_of_part {fs : List (List β)} (hfs : ∀ f ∈ fs, F.IsFrame f)
    (h : F.front fs.flatten = .part) : fs = [] := by
  cases fs with
  | nil => rfl
  | cons f fs =>
    rw [List.flatten_cons, (hfs f (by simp)).whole] at h
    cases h

/-- **Any division into reads**: a receiver of a stream of frames gets these frames, and keeps
nothing. -/
theorem foldl_feed_frames (stop : Bool) {reads : List (List β)} {fs : List (List β)}
    {r : Receiver β} (hfs : ∀ f ∈ fs, F.IsFrame f) (hr : r.stopped = false)
    (hpart : F.front r.rest = .part) (hstream : r.rest ++ reads.flatten = fs.flatten) :
    reads.foldl (F.feed stop) r = { frames := r.frames ++ fs } := by
  induction reads generalizing r fs with
  | nil =>
    rw [List.flatten_nil, List.append_nil] at hstream
    rw [hstream] at hpart
    obtain rfl := eq_nil_of_part hfs hpart
    obtain ⟨frames, rest, stopped⟩ := r
    obtain rfl : stopped = false := hr
    obtain rfl : rest = [] := hstream
    rw [List.append_nil]
    rfl
  | cons d ds ih =>
    rw [List.flatten_cons, ← List.append_assoc] at hstream
    obtain ⟨done, todo, x, rfl, hx, hxpart⟩ :=
      exists_of_prefix hfs (hstream ▸ List.prefix_append _ _)
    have hparse : F.parse (r.rest ++ d) = { frames := done, rest := x } :=
      hx ▸ parse_flatten (fun f hf => hfs f (by simp [hf])) hxpart
    have hfeed : F.feed stop r d = { frames := r.frames ++ done, rest := x } := by
      simp [feed, hr, hparse]
    rw [List.foldl_cons, hfeed]
    rw [hx, List.append_assoc, List.flatten_append, List.append_cancel_left_eq] at hstream
    rw [ih (fun f hf => hfs f (by simp [hf])) rfl hxpart hstream, List.append_assoc]

end Format

end Framing
