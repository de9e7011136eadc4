import Teonet.Lib.CString
import Teonet.Lib.FinMap
import Teonet.Lib.Runs
import Mathlib.Algebra.Group.Int.Defs
import Mathlib.Algebra.Group.Nat.Defs
import Mathlib.Tactic.Common

/-! # Several networks in one process

`net_multi.c`: `km->list` maps network names to event managers.  `km->net_count` and a copy of it in
every event manager say how many there are, and `km->last_net_idx` is the index that was given last;
`teoMultiAddNet` and `teoMultiRun` start from the network with this index.

`Consistent` says that these agree.  `MultiGuard` is the condition under which adding and removing a
network keep it, and `consistent_iff` says that a run keeps it throughout exactly when all its steps
meet the condition: what breaks it is the removal of the network that was added last. -/

namespace Teonet

open Runs

/-! ### Integers -/

/-- A `size_t` converted to `int`. -/
def intOfSize (n : ℕ) : ℤ := Int.bmod n (2 ^ 32)

/-- An `int` converted to `size_t`. -/
def sizeOfInt (i : ℤ) : ℕ := (i % 2 ^ 64).toNat

theorem sizeOfInt_intOfSize_iff {n : ℕ} (h : n < 2 ^ 32) :
    sizeOfInt (intOfSize n) = n ↔ n < 2 ^ 31 := by
  unfold sizeOfInt intOfSize Int.bmod
  dsimp only
  split_ifs <;> omega

/-- Conversion does not lower a number. -/
theorem le_sizeOfInt_intOfSize {n : ℕ} (h : n < 2 ^ 32) : n ≤ sizeOfInt (intOfSize n) := by
  unfold sizeOfInt intOfSize Int.bmod
  dsimp only
  split_ifs <;> omega

/-! ### The module -/

/-- `KSN_BUFFER_SM_SIZE/2`. -/
def networkSize : ℕ := 128

/-- The fields of `ksnetEvMgrClass` that the module uses; `freed` marks the memory of an event
manager that did not start. -/
structure NetEvMgr where
  netIdx : ℕ
  netCount : ℕ
  freed : Bool := false
deriving DecidableEq, Repr

/-- `ksnMultiClass`. -/
structure KsnMultiClass where
  list : FinMap CString NetEvMgr := FinMap.empty
  netCount : ℕ
  lastNetIdx : ℕ

/-- What a function of the module may do wrong. -/
inductive MultiFault
  /-- a null pointer is used -/
  | null
  /-- an event manager is used that has been freed -/
  | freed
  /-- the index of a loop overflows -/
  | overflow
deriving DecidableEq, Repr

/-- `strncpy(teo_cfg.network, src, n)`, when `teo_cfg.network` holds `old`, a name that the defaults
or the command line have set. -/
def strncpyNetwork (old src : CString) (n : ℕ) : CString :=
  CString.ofBuf ((src.bytes ++ List.replicate (n - src.length) 0).take n ++ old.toBuf.drop n)

/-- `teoMultiGetByNumber` over the networks in the order of the iterator. -/
def getByNumber (number : ℤ) : List (CString × NetEvMgr) → Except MultiFault (Option NetEvMgr)
  | [] => .ok none
  | (_, ke) :: rest =>
    if ke.freed then .error .freed
    else if ke.netIdx = sizeOfInt number then .ok (some ke)
    else getByNumber number rest

/-- `teoMultiGetByNumber`. -/
def teoMultiGetByNumber (km : KsnMultiClass) (number : ℤ) : Except MultiFault (Option NetEvMgr) :=
  getByNumber number km.list.toPairs

/-- `ksnMultiUpdateCountNetworks`. -/
def ksnMultiUpdateCountNetworks (km : KsnMultiClass) (num : ℤ) : Except MultiFault KsnMultiClass :=
  if km.list.toPairs.any fun p => p.2.freed then .error .freed
  else .ok { km with
    netCount := sizeOfInt num
    list := km.list.mapValues fun ke => { ke with netCount := sizeOfInt num } }

/-- A network of `ksnMultiData`: its name, and whether `ksnetEvMgrRun` starts it. -/
structure NetworkStart where
  name : CString
  started : Bool
deriving DecidableEq

/-- The name under which `ksnMultiInit` stores a network. -/
def initName (cfgNetwork : CString) (net : NetworkStart) : CString :=
  strncpyNetwork cfgNetwork net.name (networkSize - cfgNetwork.length)

/-- The name under which `teoMultiAddNet` stores a network. -/
def addName (cfgNetwork : CString) (net : NetworkStart) : CString :=
  strncpyNetwork cfgNetwork net.name (networkSize - 1)

/-- The loop of `ksnMultiInit`, from network `i` on. -/
def addNetworks (cfgNetwork : CString) (num : ℕ) :
    FinMap CString NetEvMgr → ℕ → List NetworkStart → FinMap CString NetEvMgr
  | list, _, [] => list
  | list, i, net :: nets =>
    addNetworks cfgNetwork num
      (list.add (initName cfgNetwork net)
        { netIdx := i, netCount := num, freed := !net.started }) (i + 1) nets

/-- `ksnMultiInit`; `md` is `none` for a null pointer, and `cfgNetwork` is the configured network. -/
def ksnMultiInit (cfgNetwork : CString) (md : Option (List NetworkStart)) :
    Except MultiFault KsnMultiClass :=
  match md with
  | none => .error .null
  | some nets =>
    if nets.length > 2 ^ 31 then .error .overflow
    else .ok {
      netCount := nets.length
      lastNetIdx := sizeOfInt ((nets.length : ℤ) - 1)
      list := addNetworks cfgNetwork nets.length FinMap.empty 0 nets }

/-- `teoMultiAddNet`. -/
def teoMultiAddNet (cfgNetwork : CString) (km : KsnMultiClass) (net : NetworkStart) :
    Except MultiFault KsnMultiClass := do
  let keLast ← teoMultiGetByNumber km (intOfSize km.lastNetIdx)
  let km ← ksnMultiUpdateCountNetworks km (intOfSize (km.netCount + 1))
  let lastNetIdx := (km.lastNetIdx + 1) % 2 ^ 64
  match keLast with
  | none => .error .null
  | some _ => .ok { km with
      lastNetIdx := lastNetIdx
      list := km.list.add (addName cfgNetwork net)
        { netIdx := lastNetIdx, netCount := km.netCount, freed := !net.started } }

/-- `teoMultiRun`; the result is the event manager whose loop it runs. -/
def teoMultiRun (km : KsnMultiClass) : Except MultiFault NetEvMgr := do
  match ← teoMultiGetByNumber km (intOfSize km.lastNetIdx) with
  | none => .error .null
  | some keLast => .ok keLast

/-- `teoMultiRemoveNet`. -/
def teoMultiRemoveNet (km : KsnMultiClass) (network : CString) : Except MultiFault KsnMultiClass :=
  match km.list.get network with
  | none => .ok km
  | some ke =>
    if ke.freed then .error .freed
    else ksnMultiUpdateCountNetworks { km with list := km.list.remove network }
      (intOfSize (km.netCount - 1))

/-- The calls after `ksnMultiInit`. -/
inductive MultiEvent
  | addNet (net : NetworkStart)
  | removeNet (network : CString)
deriving DecidableEq

/-- One call. -/
def multiStep (cfgNetwork : CString) (km : KsnMultiClass) :
    MultiEvent → Except MultiFault KsnMultiClass
  | .addNet net => teoMultiAddNet cfgNetwork km net
  | .removeNet network => teoMultiRemoveNet km network

/-! ### Count, copies and indices -/

/-- The counter and its copies, the indices, and the network of `last_net_idx`, which
`teoMultiAddNet` and `teoMultiRun` look up. -/
structure Consistent (km : KsnMultiClass) : Prop where
  count : km.netCount = km.list.size
  copies : ∀ n ke, km.list.get n = some ke → ke.freed = false ∧ ke.netCount = km.netCount
  distinct : ∀ n n' ke ke', km.list.get n = some ke → km.list.get n' = some ke' →
    ke.netIdx = ke'.netIdx → n = n'
  last : km.list.size ≠ 0 → ∃ n ke, km.list.get n = some ke ∧ ke.netIdx = km.lastNetIdx ∧
    teoMultiGetByNumber km (intOfSize km.lastNetIdx) = .ok (some ke) ∧ teoMultiRun km = .ok ke

/-- `Consistent`, and no index was given after the last one; the numbers are in the range of
`int`. -/
structure MultiInv (km : KsnMultiClass) : Prop where
  consistent : Consistent km
  le_last : ∀ n ke, km.list.get n = some ke → ke.netIdx ≤ km.lastNetIdx
  last_lt : km.list.size ≠ 0 → km.lastNetIdx < 2 ^ 31
  count_le : km.netCount ≤ 2 ^ 31

/-- The condition on a call.  A network is added to others, under a name that is not in the list as
it is stored, starts, and the numbers stay in the range of `int`.  The network that was added last is
removed only when it is the only one. -/
def MultiGuard (cfgNetwork : CString) (km : KsnMultiClass) : MultiEvent → Prop
  | .addNet net => km.list.size ≠ 0 ∧
      km.list.get (addName cfgNetwork net) = none ∧
      net.started = true ∧ km.lastNetIdx + 1 < 2 ^ 31 ∧ km.netCount + 1 < 2 ^ 31
  | .removeNet network => ∀ ke, km.list.get network = some ke →
      ke.netIdx ≠ km.lastNetIdx ∨ km.list.size = 1

/-- The condition on `ksnMultiInit`. -/
def InitGuard (cfgNetwork : CString) (md : Option (List NetworkStart)) : Prop :=
  ∃ nets, md = some nets ∧ nets.length ≤ 2 ^ 31 ∧ (∀ net ∈ nets, net.started = true) ∧
    (nets.map (initName cfgNetwork)).Nodup

variable {cfgNetwork : CString} {km km' : KsnMultiClass}

/-- Where no network of the list is freed, the search ends with a network of the index, if there is
one. -/
theorem getByNumber_eq (number : ℤ) {l : List (CString × NetEvMgr)}
    (hlive : ∀ p ∈ l, p.2.freed = false) :
    (∃ p ∈ l, p.2.netIdx = sizeOfInt number ∧ getByNumber number l = .ok (some p.2)) ∨
      ((∀ p ∈ l, p.2.netIdx ≠ sizeOfInt number) ∧ getByNumber number l = .ok none) := by
  induction l with
  | nil => exact .inr ⟨fun p hp => absurd hp List.not_mem_nil, rfl⟩
  | cons p l ih =>
    obtain ⟨n, ke⟩ := p
    have hke : ke.freed = false := hlive (n, ke) List.mem_cons_self
    rw [getByNumber, hke, if_neg (by decide)]
    by_cases hidx : ke.netIdx = sizeOfInt number
    · rw [if_pos hidx]
      exact .inl ⟨(n, ke), List.mem_cons_self, hidx, rfl⟩
    · rw [if_neg hidx]
      rcases ih fun q hq => hlive q (List.mem_cons_of_mem _ hq) with ⟨q, hq, hfound⟩ | ⟨hnot, hnone⟩
      · exact .inl ⟨q, List.mem_cons_of_mem _ hq, hfound⟩
      · refine .inr ⟨fun q hq => ?_, hnone⟩
        rcases List.mem_cons.mp hq with rfl | hq
        · exact hidx
        · exact hnot q hq

/-- The network that is found has the index that was asked for. -/
theorem netIdx_of_get_by_number {number : ℤ} {ke : NetEvMgr}
    (h : teoMultiGetByNumber km number = .ok (some ke)) : ke.netIdx = sizeOfInt number := by
  unfold teoMultiGetByNumber at h
  generalize km.list.toPairs = l at h
  induction l with
  | nil => cases h
  | cons p l ih =>
    obtain ⟨n, ke'⟩ := p
    rw [getByNumber] at h
    split_ifs at h with hfreed hidx
    · obtain rfl := Option.some.inj (Except.ok.inj h)
      exact hidx
    · exact ih h

/-- A network that is found is in the list. -/
theorem size_ne_zero_of_get_by_number {number : ℤ} {ke : NetEvMgr}
    (h : teoMultiGetByNumber km number = .ok (some ke)) : km.list.size ≠ 0 := by
  intro hsize
  have hnil : km.list.toPairs = [] := by
    rw [FinMap.toPairs, List.length_eq_zero_iff.mp hsize]
    rfl
  rw [teoMultiGetByNumber, hnil] at h
  cases h

/-- In a list of live networks with different indices, the search finds the network of an index. -/
theorem getByNumber_of_get (hlive : ∀ n ke, km.list.get n = some ke → ke.freed = false)
    (hdist : ∀ n n' ke ke', km.list.get n = some ke → km.list.get n' = some ke' →
      ke.netIdx = ke'.netIdx → n = n')
    {n : CString} {ke : NetEvMgr} (hget : km.list.get n = some ke) {number : ℤ}
    (hidx : ke.netIdx = sizeOfInt number) : teoMultiGetByNumber km number = .ok (some ke) := by
  have hmem := (km.list.mem_toPairs n ke).mpr hget
  rcases getByNumber_eq number (l := km.list.toPairs)
      fun p hp => hlive p.1 p.2 ((km.list.mem_toPairs p.1 p.2).mp hp) with
    ⟨p, hp, hpidx, hfound⟩ | ⟨hnot, -⟩
  · have hpget := (km.list.mem_toPairs p.1 p.2).mp hp
    obtain rfl := hdist _ _ _ _ hpget hget (hpidx.trans hidx.symm)
    obtain rfl := Option.some.inj (hpget.symm.trans hget)
    exact hfound
  · exact absurd hidx (hnot _ hmem)

theorem run_of_get_by_number {ke : NetEvMgr}
    (h : teoMultiGetByNumber km (intOfSize km.lastNetIdx) = .ok (some ke)) :
    teoMultiRun km = .ok ke := by
  rw [teoMultiRun, h]
  rfl

/-- With different indices, a network that has the last one is the network that is found. -/
theorem MultiInv.of_last (hcount : km.netCount = km.list.size)
    (hcopies : ∀ n ke, km.list.get n = some ke → ke.freed = false ∧ ke.netCount = km.netCount)
    (hdist : ∀ n n' ke ke', km.list.get n = some ke → km.list.get n' = some ke' →
      ke.netIdx = ke'.netIdx → n = n')
    (hlast : km.list.size ≠ 0 → ∃ n ke, km.list.get n = some ke ∧ ke.netIdx = km.lastNetIdx)
    (hle : ∀ n ke, km.list.get n = some ke → ke.netIdx ≤ km.lastNetIdx)
    (hlt : km.list.size ≠ 0 → km.lastNetIdx < 2 ^ 31) (hcountle : km.netCount ≤ 2 ^ 31) :
    MultiInv km := by
  refine ⟨⟨hcount, hcopies, hdist, fun hne => ?_⟩, hle, hlt, hcountle⟩
  obtain ⟨n, ke, hget, hidx⟩ := hlast hne
  have hrange := hlt hne
  have hnumber : sizeOfInt (intOfSize km.lastNetIdx) = km.lastNetIdx := by
    apply (sizeOfInt_intOfSize_iff _).mpr hrange
    omega
  have hfound : teoMultiGetByNumber km (intOfSize km.lastNetIdx) = .ok (some ke) :=
    getByNumber_of_get (fun n ke hget => (hcopies n ke hget).1) hdist hget
      (hidx.trans hnumber.symm)
  exact ⟨n, ke, hget, hidx, hfound, run_of_get_by_number hfound⟩

/-- Where all networks are live, their counts can be changed. -/
theorem updateCount_eq (hlive : ∀ n ke, km.list.get n = some ke → ke.freed = false) (num : ℤ) :
    ksnMultiUpdateCountNetworks km num = .ok { km with
      netCount := sizeOfInt num
      list := km.list.mapValues fun ke => { ke with netCount := sizeOfInt num } } := by
  rw [ksnMultiUpdateCountNetworks, if_neg]
  intro hany
  obtain ⟨p, hp, hfreed⟩ := List.any_eq_true.mp hany
  rw [hlive p.1 p.2 ((km.list.mem_toPairs p.1 p.2).mp hp)] at hfreed
  cases hfreed

/-- What a network is after its count has changed. -/
theorem get_mapValues_netCount {list : FinMap CString NetEvMgr} {num : ℕ} {n : CString}
    {ke : NetEvMgr}
    (h : (list.mapValues fun ke => { ke with netCount := num }).get n = some ke) :
    ∃ old, list.get n = some old ∧ ke.netIdx = old.netIdx ∧ ke.freed = old.freed ∧
      ke.netCount = num := by
  rw [FinMap.get_mapValues] at h
  obtain ⟨old, hold, rfl⟩ := Option.map_eq_some_iff.mp h
  exact ⟨old, hold, rfl, rfl, rfl⟩

/-! ### One call -/

/-- What adding a network does to a list whose last network is found. -/
theorem teoMultiAddNet_eq (hlive : ∀ n ke, km.list.get n = some ke → ke.freed = false)
    {ke : NetEvMgr} (hlast : teoMultiGetByNumber km (intOfSize km.lastNetIdx) = .ok (some ke))
    (net : NetworkStart) :
    teoMultiAddNet cfgNetwork km net = .ok {
      netCount := sizeOfInt (intOfSize (km.netCount + 1))
      lastNetIdx := (km.lastNetIdx + 1) % 2 ^ 64
      list := (km.list.mapValues fun ke =>
          { ke with netCount := sizeOfInt (intOfSize (km.netCount + 1)) }).add
        (addName cfgNetwork net)
        { netIdx := (km.lastNetIdx + 1) % 2 ^ 64,
          netCount := sizeOfInt (intOfSize (km.netCount + 1)), freed := !net.started } } := by
  rw [teoMultiAddNet, hlast, updateCount_eq hlive]
  simp only [bind, Except.bind]

/-- What removing a network of the list does. -/
theorem teoMultiRemoveNet_eq (hlive : ∀ n ke, km.list.get n = some ke → ke.freed = false)
    {network : CString} {ke : NetEvMgr} (hget : km.list.get network = some ke) :
    teoMultiRemoveNet km network = .ok { km with
      netCount := sizeOfInt (intOfSize (km.netCount - 1))
      list := (km.list.remove network).mapValues fun ke =>
        { ke with netCount := sizeOfInt (intOfSize (km.netCount - 1)) } } := by
  have hrest : ∀ n ke, (km.list.remove network).get n = some ke → ke.freed = false := by
    intro n ke hn
    rw [FinMap.get_remove] at hn
    split_ifs at hn
    exact hlive n ke hn
  rw [teoMultiRemoveNet, hget]
  dsimp only
  rw [if_neg (by rw [hlive network ke hget]; decide), updateCount_eq hrest]

/-- A consistent result of adding a network shows that the condition was met. -/
theorem guard_of_addNet (h : MultiInv km) {net : NetworkStart}
    (hstep : teoMultiAddNet cfgNetwork km net = .ok km') (hgood : Consistent km') :
    MultiGuard cfgNetwork km (.addNet net) := by
  have hlive := fun n ke hget => (h.consistent.copies n ke hget).1
  have hsize : km.list.size ≠ 0 := by
    obtain ⟨keLast, hlast, hrest⟩ := bind_eq_ok hstep
    cases keLast with
    | none =>
      rw [updateCount_eq hlive] at hrest
      cases hrest
    | some ke => exact size_ne_zero_of_get_by_number hlast
  obtain ⟨_, _, -, -, hlast, -⟩ := h.consistent.last hsize
  rw [teoMultiAddNet_eq hlive hlast] at hstep
  obtain rfl := Except.ok.inj hstep
  have hcount := hgood.count
  have hle := h.count_le
  have hsame := h.consistent.count
  have hlt := h.last_lt hsize
  have hgrow := le_sizeOfInt_intOfSize (n := km.netCount + 1) (by omega)
  have habsent : km.list.get (addName cfgNetwork net) = none := by
    by_contra hpresent
    obtain ⟨old, hold⟩ := Option.ne_none_iff_exists'.mp hpresent
    dsimp only at hcount
    rw [FinMap.size_add_of_present _ (by rw [FinMap.get_mapValues, hold]; rfl),
      FinMap.size_mapValues] at hcount
    omega
  refine ⟨hsize, habsent, ?_, ?_, ?_⟩
  · have hnew := (hgood.copies _ _ (FinMap.get_add_self _ _ _)).1
    simpa using hnew
  · obtain ⟨n, ke, hget, hidx, hfound, -⟩ := hgood.last (by rw [FinMap.size_add]; omega)
    have hfidx := netIdx_of_get_by_number hfound
    dsimp only at hidx hfidx
    rw [hidx, Nat.mod_eq_of_lt (by omega)] at hfidx
    exact (sizeOfInt_intOfSize_iff (by omega)).mp hfidx.symm
  · dsimp only at hcount
    rw [FinMap.size_add_of_absent _ (by rw [FinMap.get_mapValues, habsent]; rfl),
      FinMap.size_mapValues, ← hsame] at hcount
    exact (sizeOfInt_intOfSize_iff (by omega)).mp hcount

/-- Adding a network on the condition. -/
theorem inv_of_addNet (h : MultiInv km) {net : NetworkStart}
    (hguard : MultiGuard cfgNetwork km (.addNet net)) :
    ∃ km', teoMultiAddNet cfgNetwork km net = .ok km' ∧ MultiInv km' := by
  obtain ⟨hsize, habsent, hstarted, hidxlt, hcountlt⟩ := hguard
  have hlive := fun n ke hget => (h.consistent.copies n ke hget).1
  obtain ⟨_, _, -, -, hlast, -⟩ := h.consistent.last hsize
  have hnum : sizeOfInt (intOfSize (km.netCount + 1)) = km.netCount + 1 :=
    (sizeOfInt_intOfSize_iff (by omega)).mpr hcountlt
  refine ⟨_, teoMultiAddNet_eq hlive hlast net, ?_⟩
  rw [hnum, Nat.mod_eq_of_lt (show km.lastNetIdx + 1 < 2 ^ 64 by omega), hstarted]
  set name := addName cfgNetwork net
  set new : NetEvMgr := { netIdx := km.lastNetIdx + 1, netCount := km.netCount + 1, freed := !true }
  set list := (km.list.mapValues fun ke => { ke with netCount := km.netCount + 1 }).add name new
  -- a network of the new list is the new one, or an old one with the new count
  have hcases : ∀ n ke, list.get n = some ke → (n = name ∧ ke = new) ∨
      ∃ old, km.list.get n = some old ∧ ke.netIdx = old.netIdx ∧ ke.freed = old.freed ∧
        ke.netCount = km.netCount + 1 := by
    intro n ke hget
    rw [FinMap.get_add] at hget
    split_ifs at hget with hname
    · exact .inl ⟨hname, (Option.some.inj hget).symm⟩
    · exact .inr (get_mapValues_netCount hget)
  have hle : ∀ n ke, list.get n = some ke → ke.netIdx ≤ km.lastNetIdx + 1 := by
    intro n ke hget
    rcases hcases n ke hget with ⟨-, rfl⟩ | ⟨old, hold, hidx, -, -⟩
    · exact le_rfl
    · have := h.le_last n old hold
      omega
  have hcopies : ∀ n ke, list.get n = some ke →
      ke.freed = false ∧ ke.netCount = km.netCount + 1 := by
    intro n ke hget
    rcases hcases n ke hget with ⟨-, rfl⟩ | ⟨old, hold, -, hfreed, hcount⟩
    · exact ⟨rfl, rfl⟩
    · exact ⟨hfreed.trans (hlive n old hold), hcount⟩
  have hdist : ∀ n n' ke ke', list.get n = some ke → list.get n' = some ke' →
      ke.netIdx = ke'.netIdx → n = n' := by
    intro n n' ke ke' hget hget' heq
    rcases hcases n ke hget with ⟨hn, rfl⟩ | ⟨old, hold, hidx, -, -⟩ <;>
      rcases hcases n' ke' hget' with ⟨hn', rfl⟩ | ⟨old', hold', hidx', -, -⟩
    · exact hn.trans hn'.symm
    · have hold := h.le_last n' old' hold'
      have hnew : new.netIdx = km.lastNetIdx + 1 := rfl
      omega
    · have hold := h.le_last n old hold
      have hnew : new.netIdx = km.lastNetIdx + 1 := rfl
      omega
    · exact h.consistent.distinct n n' old old' hold hold' (hidx.symm.trans (heq.trans hidx'))
  have hnewsize : list.size = km.list.size + 1 := by
    rw [FinMap.size_add_of_absent _ (by rw [FinMap.get_mapValues, habsent]; rfl),
      FinMap.size_mapValues]
  have hsame := h.consistent.count
  apply MultiInv.of_last
  · dsimp only
    omega
  · exact hcopies
  · exact hdist
  · exact fun _ => ⟨name, new, FinMap.get_add_self _ _ _, rfl⟩
  · exact hle
  · exact fun _ => hidxlt
  · dsimp only
    omega

/-- A consistent result of removing a network shows that the condition was met. -/
theorem guard_of_removeNet (h : MultiInv km) {network : CString}
    (hstep : teoMultiRemoveNet km network = .ok km') (hgood : Consistent km') :
    MultiGuard cfgNetwork km (.removeNet network) := by
  intro ke hget
  have hlive := fun n ke hget => (h.consistent.copies n ke hget).1
  rw [teoMultiRemoveNet_eq hlive hget] at hstep
  obtain rfl := Except.ok.inj hstep
  by_contra hnot
  obtain ⟨hidx, hsize⟩ := not_or.mp hnot
  have hsmaller := km.list.size_remove hget
  obtain ⟨n, ke', hget', hidx', -⟩ := hgood.last (by rw [FinMap.size_mapValues]; omega)
  obtain ⟨old, hold, hidxold, -, -⟩ := get_mapValues_netCount hget'
  rw [FinMap.get_remove] at hold
  split_ifs at hold with hn
  exact hn (h.consistent.distinct n network old ke hold hget
    (hidxold.symm.trans (hidx'.trans (not_not.mp hidx).symm)))

/-- Removing a network on the condition. -/
theorem inv_of_removeNet (h : MultiInv km) {network : CString}
    (hguard : MultiGuard cfgNetwork km (.removeNet network)) :
    ∃ km', teoMultiRemoveNet km network = .ok km' ∧ MultiInv km' := by
  cases hget : km.list.get network with
  | none => exact ⟨km, by rw [teoMultiRemoveNet, hget], h⟩
  | some ke =>
    have hlive := fun n ke hget => (h.consistent.copies n ke hget).1
    have hsmaller := km.list.size_remove hget
    have hcount := h.consistent.count
    have hle := h.count_le
    have hnum : sizeOfInt (intOfSize (km.netCount - 1)) = km.netCount - 1 :=
      (sizeOfInt_intOfSize_iff (by omega)).mpr (by omega)
    refine ⟨_, teoMultiRemoveNet_eq hlive hget, ?_⟩
    rw [hnum]
    set list := (km.list.remove network).mapValues fun ke =>
      { ke with netCount := km.netCount - 1 }
    have hsize : list.size + 1 = km.list.size := by rw [FinMap.size_mapValues, hsmaller]
    -- a network that is left is an old one with the new count
    have hcases : ∀ n ke, list.get n = some ke → n ≠ network ∧
        ∃ old, km.list.get n = some old ∧ ke.netIdx = old.netIdx ∧ ke.freed = old.freed ∧
          ke.netCount = km.netCount - 1 := by
      intro n ke hn
      obtain ⟨old, hold, hrest⟩ := get_mapValues_netCount hn
      rw [FinMap.get_remove] at hold
      split_ifs at hold with hne
      exact ⟨hne, old, hold, hrest⟩
    have hcopies : ∀ n ke, list.get n = some ke →
        ke.freed = false ∧ ke.netCount = km.netCount - 1 := by
      intro n ke hn
      obtain ⟨-, old, hold, -, hfreed, hnum⟩ := hcases n ke hn
      exact ⟨hfreed.trans (hlive n old hold), hnum⟩
    have hdist : ∀ n n' ke ke', list.get n = some ke → list.get n' = some ke' →
        ke.netIdx = ke'.netIdx → n = n' := by
      intro n n' ke ke' hn hn' heq
      obtain ⟨-, old, hold, hidx, -, -⟩ := hcases n ke hn
      obtain ⟨-, old', hold', hidx', -, -⟩ := hcases n' ke' hn'
      exact h.consistent.distinct n n' old old' hold hold' (hidx.symm.trans (heq.trans hidx'))
    apply MultiInv.of_last
    · dsimp only
      omega
    · exact hcopies
    · exact hdist
    · intro hne
      obtain ⟨n, old, hold, hidx, -⟩ := h.consistent.last (by omega)
      have hother : n ≠ network := by
        rintro rfl
        obtain rfl := Option.some.inj (hold.symm.trans hget)
        rcases hguard old hget with hidx' | hone
        · exact hidx' hidx
        · exact hne (by dsimp only; omega)
      have hnew : list.get n = some { old with netCount := km.netCount - 1 } := by
        rw [FinMap.get_mapValues, FinMap.get_remove_of_ne _ hother, hold]
        rfl
      exact ⟨n, _, hnew, hidx⟩
    · intro n ke hn
      obtain ⟨-, old, hold, hidx, -, -⟩ := hcases n ke hn
      exact hidx ▸ h.le_last n old hold
    · exact fun _ => h.last_lt (by omega)
    · dsimp only
      omega

/-! ### The start -/

/-- The list after the first `i` networks of `ksnMultiInit`. -/
structure Numbered (num i : ℕ) (list : FinMap CString NetEvMgr) : Prop where
  netCount : ∀ n ke, list.get n = some ke → ke.netCount = num
  lt : ∀ n ke, list.get n = some ke → ke.netIdx < i
  distinct : ∀ n n' ke ke', list.get n = some ke → list.get n' = some ke' →
    ke.netIdx = ke'.netIdx → n = n'
  last : i ≠ 0 → ∃ n ke, list.get n = some ke ∧ ke.netIdx + 1 = i

theorem numbered_empty (num : ℕ) : Numbered num 0 FinMap.empty := by
  have hnone : ∀ n ke, (FinMap.empty : FinMap CString NetEvMgr).get n ≠ some ke := by
    intro n ke
    rw [FinMap.get_empty]
    exact (Option.some_ne_none ke).symm
  exact ⟨fun n ke h => absurd h (hnone n ke), fun n ke h => absurd h (hnone n ke),
    fun n _ ke _ h => absurd h (hnone n ke), fun h => absurd rfl h⟩

theorem Numbered.add {num i : ℕ} {list : FinMap CString NetEvMgr} (h : Numbered num i list)
    (name : CString) (freed : Bool) :
    Numbered num (i + 1) (list.add name { netIdx := i, netCount := num, freed := freed }) := by
  have hcases : ∀ n ke,
      (list.add name { netIdx := i, netCount := num, freed := freed }).get n = some ke →
        (n = name ∧ ke = { netIdx := i, netCount := num, freed := freed }) ∨
          list.get n = some ke := by
    intro n ke hn
    rw [FinMap.get_add] at hn
    split_ifs at hn with hname
    · exact .inl ⟨hname, (Option.some.inj hn).symm⟩
    · exact .inr hn
  refine ⟨fun n ke hn => ?_, fun n ke hn => ?_, fun n n' ke ke' hn hn' heq => ?_,
    fun _ => ⟨name, _, FinMap.get_add_self _ _ _, rfl⟩⟩
  · rcases hcases n ke hn with ⟨-, rfl⟩ | hold
    · rfl
    · exact h.netCount n ke hold
  · rcases hcases n ke hn with ⟨-, rfl⟩ | hold
    · exact Nat.lt_succ_self i
    · exact Nat.lt_succ_of_lt (h.lt n ke hold)
  · rcases hcases n ke hn with ⟨hname, rfl⟩ | hold <;>
      rcases hcases n' ke' hn' with ⟨hname', rfl⟩ | hold'
    · exact hname.trans hname'.symm
    · exact absurd heq (h.lt n' ke' hold').ne'
    · exact absurd heq (h.lt n ke hold).ne
    · exact h.distinct n n' ke ke' hold hold' heq

/-- The loop numbers the networks. -/
theorem numbered_addNetworks (cfgNetwork : CString) (nets : List NetworkStart) {num i : ℕ}
    {list : FinMap CString NetEvMgr} (h : Numbered num i list) :
    Numbered num (i + nets.length) (addNetworks cfgNetwork num list i nets) := by
  induction nets generalizing list i with
  | nil => exact h
  | cons net nets ih =>
    have hrest := ih (h.add (initName cfgNetwork net) (!net.started))
    rw [List.length_cons, Nat.add_comm nets.length, ← Nat.add_assoc]
    exact hrest

/-- The list has a network for each name exactly when the names are new and different. -/
theorem size_addNetworks (num : ℕ) (nets : List NetworkStart) (i : ℕ)
    (list : FinMap CString NetEvMgr) :
    (addNetworks cfgNetwork num list i nets).size ≤ list.size + nets.length ∧
      ((addNetworks cfgNetwork num list i nets).size = list.size + nets.length ↔
        (∀ net ∈ nets, list.get (initName cfgNetwork net) = none) ∧
          (nets.map (initName cfgNetwork)).Nodup) := by
  induction nets generalizing list i with
  | nil => exact ⟨le_rfl, by simp [addNetworks]⟩
  | cons net nets ih =>
    obtain ⟨hle, hiff⟩ := ih (i + 1) (list.add (initName cfgNetwork net)
      { netIdx := i, netCount := num, freed := !net.started })
    rw [addNetworks, List.length_cons]
    cases hold : list.get (initName cfgNetwork net) with
    | some old =>
      rw [FinMap.size_add_of_present _ hold] at hle
      refine ⟨by omega, fun heq => by omega, fun hnew => ?_⟩
      have hnone := hnew.1 net List.mem_cons_self
      rw [hold] at hnone
      cases hnone
    | none =>
      rw [FinMap.size_add_of_absent _ hold] at hle hiff
      refine ⟨by omega, ?_⟩
      rw [show list.size + (nets.length + 1) = list.size + 1 + nets.length by omega, hiff,
        List.forall_mem_cons, List.map_cons, List.nodup_cons, List.mem_map]
      constructor
      · rintro ⟨hnone, hnodup⟩
        refine ⟨⟨hold, fun net' hnet' => ?_⟩, ?_, hnodup⟩
        · have hnet := hnone net' hnet'
          rw [FinMap.get_add] at hnet
          split_ifs at hnet
          exact hnet
        · rintro ⟨net', hnet', hname⟩
          have hnet := hnone net' hnet'
          rw [hname, FinMap.get_add_self] at hnet
          cases hnet
      · rintro ⟨⟨-, hnone⟩, hnot, hnodup⟩
        refine ⟨fun net' hnet' => ?_, hnodup⟩
        rw [FinMap.get_add_of_ne _ fun hname => hnot ⟨net', hnet', hname⟩]
        exact hnone net' hnet'

/-- Where the names are different, the networks of the list live exactly when all start. -/
theorem live_addNetworks_iff (num : ℕ) {nets : List NetworkStart}
    (hnodup : (nets.map (initName cfgNetwork)).Nodup) {i : ℕ} {list : FinMap CString NetEvMgr}
    (hnew : ∀ net ∈ nets, list.get (initName cfgNetwork net) = none) :
    (∀ n ke, (addNetworks cfgNetwork num list i nets).get n = some ke → ke.freed = false) ↔
      (∀ n ke, list.get n = some ke → ke.freed = false) ∧ ∀ net ∈ nets, net.started = true := by
  induction nets generalizing list i with
  | nil => simp [addNetworks]
  | cons net nets ih =>
    rw [List.map_cons, List.nodup_cons, List.mem_map] at hnodup
    have hother : ∀ net' ∈ nets, initName cfgNetwork net' ≠ initName cfgNetwork net :=
      fun net' hnet' hname => hnodup.1 ⟨net', hnet', hname⟩
    rw [addNetworks, ih hnodup.2 fun net' hnet' => by
      rw [FinMap.get_add_of_ne _ (hother net' hnet')]
      exact hnew net' (List.mem_cons_of_mem _ hnet'), List.forall_mem_cons]
    constructor
    · rintro ⟨hlive, hstarted⟩
      refine ⟨fun n ke hn => hlive n ke ?_, ?_, hstarted⟩
      · rw [FinMap.get_add_of_ne _ ?_, hn]
        rintro rfl
        rw [hnew net List.mem_cons_self] at hn
        cases hn
      · simpa using hlive _ _ (FinMap.get_add_self _ _ _)
    · rintro ⟨hlive, hfirst, hstarted⟩
      refine ⟨fun n ke hn => ?_, hstarted⟩
      rw [FinMap.get_add] at hn
      split_ifs at hn
      · rw [← Option.some.inj hn, hfirst]
        rfl
      · exact hlive n ke hn

theorem sizeOfInt_pred {n : ℕ} (h : n ≤ 2 ^ 31) (hn : n ≠ 0) :
    sizeOfInt ((n : ℤ) - 1) = n - 1 := by
  unfold sizeOfInt
  omega

/-- After `ksnMultiInit` the invariant holds on its condition. -/
theorem inv_of_init {md : Option (List NetworkStart)} (h : InitGuard cfgNetwork md) :
    ∃ km, ksnMultiInit cfgNetwork md = .ok km ∧ MultiInv km := by
  obtain ⟨nets, rfl, hlen, hstarted, hnodup⟩ := h
  have habsent : ∀ net ∈ nets,
      (FinMap.empty : FinMap CString NetEvMgr).get (initName cfgNetwork net) = none :=
    fun _ _ => FinMap.get_empty _
  have hsize := (size_addNetworks nets.length nets 0 FinMap.empty).2.mpr ⟨habsent, hnodup⟩
  rw [show (FinMap.empty : FinMap CString NetEvMgr).size = 0 from rfl, Nat.zero_add] at hsize
  have hlive := (live_addNetworks_iff nets.length (i := 0) hnodup habsent).mpr
    ⟨fun n ke hn => absurd hn (by rw [FinMap.get_empty]; exact (Option.some_ne_none ke).symm),
      hstarted⟩
  have hnum := numbered_addNetworks cfgNetwork nets (numbered_empty nets.length)
  rw [Nat.zero_add] at hnum
  refine ⟨_, by rw [ksnMultiInit, if_neg (by omega)], ?_⟩
  set list := addNetworks cfgNetwork nets.length FinMap.empty 0 nets
  have hlastidx : list.size ≠ 0 → sizeOfInt ((nets.length : ℤ) - 1) = nets.length - 1 :=
    fun hne => sizeOfInt_pred hlen (hsize ▸ hne)
  apply MultiInv.of_last
  · exact hsize.symm
  · exact fun n ke hn => ⟨hlive n ke hn, hnum.netCount n ke hn⟩
  · exact hnum.distinct
  · intro hne
    obtain ⟨n, ke, hn, hidx⟩ := hnum.last (hsize ▸ hne)
    refine ⟨n, ke, hn, ?_⟩
    dsimp only
    rw [hlastidx hne]
    omega
  · intro n ke hn
    have hlt := hnum.lt n ke hn
    dsimp only
    rw [hlastidx (by omega)]
    omega
  · intro hne
    dsimp only
    rw [hlastidx hne]
    omega
  · exact hlen

/-- A consistent result of `ksnMultiInit` shows that its condition was met. -/
theorem guard_of_init {md : Option (List NetworkStart)}
    (hinit : ksnMultiInit cfgNetwork md = .ok km) (hgood : Consistent km) :
    InitGuard cfgNetwork md := by
  cases md with
  | none => cases hinit
  | some nets =>
    rw [ksnMultiInit] at hinit
    split_ifs at hinit with hlen
    obtain rfl := Except.ok.inj hinit
    have hcount := hgood.count
    have habsent : ∀ net ∈ nets,
        (FinMap.empty : FinMap CString NetEvMgr).get (initName cfgNetwork net) = none :=
      fun _ _ => FinMap.get_empty _
    have hnodup := ((size_addNetworks nets.length nets 0 FinMap.empty).2.mp (by
      rw [← hcount, show (FinMap.empty : FinMap CString NetEvMgr).size = 0 from rfl,
        Nat.zero_add])).2
    have hlive := (live_addNetworks_iff nets.length (i := 0) hnodup habsent).mp
      fun n ke hn => (hgood.copies n ke hn).1
    exact ⟨nets, rfl, by omega, hlive.2, hnodup⟩

/-! ### Runs -/

/-- **Main result.**  After `ksnMultiInit` and after every further call the count, its copies, the
indices and the last index agree exactly when each call meets its condition. -/
theorem consistent_iff (cfgNetwork : CString) (md : Option (List NetworkStart))
    (es : List MultiEvent) :
    (∀ past, past <+: es → ∃ km,
        (ksnMultiInit cfgNetwork md >>= past.foldlM (multiStep cfgNetwork)) = .ok km ∧
          Consistent km) ↔
      InitGuard cfgNetwork md ∧ ∀ km, ksnMultiInit cfgNetwork md = .ok km →
        Meets (MultiGuard cfgNetwork) (multiStep cfgNetwork) km es := by
  have hruns : ∀ km, MultiInv km →
      ((∀ past, past <+: es → ∃ km', past.foldlM (multiStep cfgNetwork) km = .ok km' ∧
          Consistent km') ↔ Meets (MultiGuard cfgNetwork) (multiStep cfgNetwork) km es) := by
    intro km hinv
    refine good_iff_meets (fun _ h => h.consistent) ?_ ?_ hinv es
    · intro s e t hs hstep hgood
      cases e with
      | addNet net => exact guard_of_addNet hs hstep hgood
      | removeNet network => exact guard_of_removeNet hs hstep hgood
    · intro s e hs hguard
      cases e with
      | addNet net => exact inv_of_addNet hs hguard
      | removeNet network => exact inv_of_removeNet hs hguard
  constructor
  · intro hall
    obtain ⟨km, hrun, hgood⟩ := hall [] List.nil_prefix
    obtain ⟨km₀, hinit, hnil⟩ := bind_eq_ok hrun
    obtain rfl := Except.ok.inj hnil
    have hguard := guard_of_init hinit hgood
    refine ⟨hguard, fun km hinit => ?_⟩
    obtain ⟨km', hinit', hinv⟩ := inv_of_init hguard
    obtain rfl := Except.ok.inj (hinit.symm.trans hinit')
    refine (hruns km hinv).mp fun past hpast => ?_
    have hpart := hall past hpast
    rwa [hinit] at hpart
  · rintro ⟨hguard, hmeets⟩ past hpast
    obtain ⟨km, hinit, hinv⟩ := inv_of_init hguard
    rw [hinit]
    exact (hruns km hinv).mpr (hmeets km hinit) past hpast

/-- The network that a call adds. -/
def MultiEvent.added : MultiEvent → Option NetworkStart
  | .addNet net => some net
  | .removeNet _ => none

/-- A network that starts, by the one byte of its name. -/
def oneByteNetwork (b : UInt8) (h : b ≠ 0) : NetworkStart :=
  ⟨⟨[b], by simpa using h.symm⟩, true⟩

/-- `local`. -/
def localNetwork : CString := ⟨[108, 111, 99, 97, 108], by decide⟩

/-- Different names are not enough: of the networks `a` and `b` the second is removed, and then `c`
is added. -/
theorem not_consistent_of_distinct :
    ¬∀ (cfgNetwork : CString) (nets : List NetworkStart) (es : List MultiEvent),
      ((nets ++ es.filterMap MultiEvent.added).map (·.name)).Nodup →
      (∀ net ∈ nets ++ es.filterMap MultiEvent.added, net.started = true) →
      ∀ past, past <+: es → ∃ km,
        (ksnMultiInit cfgNetwork (some nets) >>= past.foldlM (multiStep cfgNetwork)) = .ok km ∧
          Consistent km := by
  intro hall
  obtain ⟨km, hrun, -⟩ := hall localNetwork
    [oneByteNetwork 97 (by decide), oneByteNetwork 98 (by decide)]
    [.removeNet ⟨[98], by decide⟩, .addNet (oneByteNetwork 99 (by decide))]
    (by decide) (by decide) _ List.prefix_rfl
  have hfault : Except.error MultiFault.null = Except.ok km := hrun
  cases hfault

end Teonet
