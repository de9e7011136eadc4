import Teonet.L0Commands

/-! # Nested calls of `ksnCommandCheck`

`ksnCommandCheck` is called from two of the callbacks that it calls itself: `cmd_split_cb` calls it
with the packet that was combined, and `cmd_l0_cb` with the command of a client.  A packet may be
combined of packets that were combined, and it may be longer than the payload that completed it, so
it is not the packet that becomes shorter: it is the packet and the map together (`splitBytes`).
A client cannot give either of the two commands.

`callRank` counts what is left, `ksnCommandCheck` recurses on it, and `ksnCommandCheck_ends` bounds
the nested calls. -/

namespace Teonet

open Runs

/-- A packet in `ksnCommandCheck` and the one in the call nested in it, with the class at each of the
calls; `now` is the time of the first. -/
inductive CommandCall :
    KsnSplitClass × KsnCorePacketData → ℚ → KsnSplitClass × KsnCorePacketData → Prop
  /-- `cmd_split_cb` -/
  | split {now : ℚ} {ks ks' : KsnSplitClass} {rd rds : KsnCorePacketData} :
      rd.cmd = cmdSplit → ksnSplitCombine now ks rd = .ok (ks', some rds) →
      CommandCall (ks, rd) now (ks', rds)
  /-- `cmd_l0_cb` -/
  | l0 {now : ℚ} {ks : KsnSplitClass} {rd rds : KsnCorePacketData} :
      rd.cmd = cmdL0 → cmdL0Cb rd = some rds → CommandCall (ks, rd) now (ks, rds)

/-- What is left for nested calls. -/
def callRank (ks : KsnSplitClass) (rd : KsnCorePacketData) : ℕ :=
  if rd.cmd = cmdSplit then splitBytes ks rd + 2 else if rd.cmd = cmdL0 then 1 else 0

/-! ### What a nested call has left -/

theorem clientCommand_ne {cmd : UInt8} (h : clientCommand cmd = true) :
    cmd ≠ cmdL0 ∧ cmd ≠ cmdSplit := by
  constructor
  · rintro rfl
    exact absurd h (by decide)
  · rintro rfl
    exact absurd h (by decide)

/-- **A client cannot give the commands that nest**. -/
theorem cmdL0Cb_cmd {rd rds : KsnCorePacketData} (h : cmdL0Cb rd = some rds) :
    rds.cmd ≠ cmdL0 ∧ rds.cmd ≠ cmdSplit := by
  unfold cmdL0Cb at h
  dsimp only at h
  split_ifs at h with hcmd
  obtain rfl := Option.some.inj h
  exact clientCommand_ne hcmd

theorem callRank_l0_lt {ks : KsnSplitClass} {rd rds : KsnCorePacketData} (hcmd : rd.cmd = cmdL0)
    (h : cmdL0Cb rd = some rds) : callRank ks rds < callRank ks rd := by
  have hne : cmdL0 ≠ cmdSplit := by decide
  obtain ⟨hl0, hsplit⟩ := cmdL0Cb_cmd h
  simp [callRank, hl0, hsplit, hcmd, hne]

theorem callRank_split_lt {now : ℚ} {ks ks' : KsnSplitClass} {rd rds : KsnCorePacketData}
    (hcmd : rd.cmd = cmdSplit) (h : ksnSplitCombine now ks rd = .ok (ks', some rds)) :
    callRank ks' rds < callRank ks rd := by
  have hlt := splitBytes_lt h
  unfold callRank
  rw [if_pos hcmd]
  split_ifs <;> omega

theorem CommandCall.callRank_lt {now : ℚ} {s t : KsnSplitClass × KsnCorePacketData}
    (h : CommandCall s now t) : callRank t.1 t.2 < callRank s.1 s.2 := by
  cases h with
  | split hcmd hcombine => exact callRank_split_lt hcmd hcombine
  | l0 hcmd hclient => exact callRank_l0_lt hcmd hclient

/-! ### The function -/

/-- What becomes of a packet: the class, the packets of the nested calls from the outermost on, and
the value that is returned.  After a fault the call does not return. -/
structure CheckResult where
  ks : KsnSplitClass
  calls : List KsnCorePacketData := []
  processed : ℤ := 0
  fault : Option SplitFault := none

/-- `ksnCommandCheck` with `cmd_split_cb` and `cmd_l0_cb`; `other` is what the other callbacks
return, none of which touches the map. -/
def ksnCommandCheck (other : KsnCorePacketData → ℤ) (now : ℚ) (ks : KsnSplitClass)
    (rd : KsnCorePacketData) : CheckResult :=
  if _hsplit : rd.cmd = cmdSplit then
    match _h : ksnSplitCombine now ks rd with
    | .error e => { ks := ks, fault := some e }
    | .ok (ks', none) => { ks := ks', processed := 1 }
    | .ok (ks', some rds) =>
      let r := ksnCommandCheck other now ks' rds
      { r with
        calls := rds :: r.calls
        processed := if r.processed = 0 then 2 else r.processed }
  else if _hl0 : rd.cmd = cmdL0 then
    match _h : cmdL0Cb rd with
    | none => { ks := ks, processed := 1 }
    | some rds =>
      let r := ksnCommandCheck other now ks rds
      { r with calls := rds :: r.calls }
  else { ks := ks, processed := other rd }
termination_by callRank ks rd
decreasing_by
  · exact callRank_split_lt _hsplit _h
  · exact callRank_l0_lt _hl0 _h

/-- The calls of the function are nested calls. -/
theorem ksnCommandCheck_run (other : KsnCorePacketData → ℤ) (now : ℚ) (ks : KsnSplitClass)
    (rd : KsnCorePacketData) :
    ∃ t, Run CommandCall (ks, rd)
      (List.replicate (ksnCommandCheck other now ks rd).calls.length now) t := by
  fun_induction ksnCommandCheck other now ks rd with
  | case1 ks rd hsplit e h => exact ⟨_, .nil _⟩
  | case2 ks rd hsplit ks' h => exact ⟨_, .nil _⟩
  | case3 ks rd hsplit ks' rds h r ih =>
    obtain ⟨t, ht⟩ := ih
    exact ⟨t, .cons (.split hsplit h) ht⟩
  | case4 ks rd hsplit hl0 h => exact ⟨_, .nil _⟩
  | case5 ks rd hsplit hl0 rds h r ih =>
    obtain ⟨t, ht⟩ := ih
    exact ⟨t, .cons (.l0 hl0 h) ht⟩
  | case6 ks rd hsplit hl0 => exact ⟨_, .nil _⟩

/-! ### The nesting ends -/

theorem CommandCall.run_length_le {es : List ℚ} {s t : KsnSplitClass × KsnCorePacketData}
    (h : Run CommandCall s es t) : es.length ≤ callRank s.1 s.2 := by
  have hall : ∀ now ∈ es, (fun _ : ℚ => True) now := fun _ _ => trivial
  have hle := h.length_add_le (fun s => callRank s.1 s.2)
    (fun _ _ _ hcall _ => hcall.callRank_lt) hall
  omega

/-- **The nesting ends**: whatever the packet, the class and the times are, the nested calls are no
more than the bytes in the map and the packet, and two; a call nested by `cmd_split_cb` has fewer
bytes; and in a call nested by `cmd_l0_cb` neither callback is called. -/
theorem ksnCommandCheck_ends (other : KsnCorePacketData → ℤ) (now : ℚ) (ks : KsnSplitClass)
    (rd : KsnCorePacketData) :
    (∀ es t, Run CommandCall (ks, rd) es t → es.length ≤ splitBytes ks rd + 2) ∧
    (ksnCommandCheck other now ks rd).calls.length ≤ splitBytes ks rd + 2 ∧
    (∀ now' ks' rds, ksnSplitCombine now' ks rd = .ok (ks', some rds) →
      splitBytes ks' rds < splitBytes ks rd) ∧
    (∀ rds, cmdL0Cb rd = some rds → rds.cmd ≠ cmdL0 ∧ rds.cmd ≠ cmdSplit) := by
  have hrank : callRank ks rd ≤ splitBytes ks rd + 2 := by
    unfold callRank
    split_ifs <;> omega
  refine ⟨fun es t h => ?_, ?_, fun now' ks' rds h => splitBytes_lt h, fun rds h => cmdL0Cb_cmd h⟩
  · exact (CommandCall.run_length_le h).trans hrank
  · obtain ⟨t, ht⟩ := ksnCommandCheck_run other now ks rd
    have hle := CommandCall.run_length_le ht
    rw [List.length_replicate] at hle
    exact hle.trans hrank

end Teonet
