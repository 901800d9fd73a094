import Dmos.Fs.Files

/-!
# Open devices

`dev_open` finds the slot in which a pair of a driver and a minor number is open already, or
opens it in a free one; `dev_close` counts down and clears the slot at zero.  Beside the table a
run keeps a ledger: which handles the opens of each pair have returned since it was last closed
completely, and how often they have been closed.  The table says the same as the ledger
(`openCounts_of_reachable`).
-/

open TransitionSystem

namespace Dmos

theorem toNat_lt_devTableSize {devId : Int} (h : 0 ≤ devId ∧ devId < 128) :
  devId.toNat < devTableSize
  := by
  unfold devTableSize
  omega

/-- The place of a handle in `dev_tb`. -/
def devIndex (devId : Int) : Option (Fin devTableSize) :=
  if h : 0 ≤ devId ∧ devId < 128 then some ⟨devId.toNat, toNat_lt_devTableSize h⟩ else none

def isDevidBad (devTb : Fin devTableSize → Device) (devId : Int) : Bool :=
  match devIndex devId with
  | some i => (devTb i).desc.isNone
  | none => true

/-- A slot after `k_memset`. -/
def Device.zero : Device :=
  ⟨none, 0, 0, 0⟩

/-- The `close` of a terminal does nothing. -/
def devClose (devTb : Fin devTableSize → Device) (devId : Int) : Fin devTableSize → Device :=
  match devIndex devId with
  | none => devTb
  | some i =>
      if (devTb i).desc.isNone then devTb
      else
        let dev := { devTb i with openCount := (devTb i).openCount - 1 }
        if dev.openCount = 0 then Function.update devTb i .zero else Function.update devTb i dev

/-- The driver whose `open` is called by `devOpen`, and the slot it is called with. -/
def devOpen.routine (devTb : Fin devTableSize → Device) (major minor : Int) (data : Nat) :
    Option (DevDesc × Device) :=
  match devOpen.find devTb major minor (List.finRange devTableSize) none with
  | (some _, _) => none
  | (none, freeDev) =>
      match devDescTb.find? fun d => d.major = major, freeDev with
      | some desc, some i =>
          some (desc, { devTb i with minor := minor, data := data, desc := some desc })
      | _, _ => none

/-- The pair for which a slot is open. -/
def Device.pair (dev : Device) : Option (Int × Int) :=
  if 0 < dev.openCount then dev.desc.map fun desc => (desc.major, dev.minor) else none

theorem devIndex_coe (i : Fin devTableSize) :
  devIndex i = some i
  := by
  have hi : (i : Nat) < 128 := i.isLt
  rw [devIndex, dif_pos (by omega)]
  rfl

theorem devIndex_eq {devId : Int} {i : Fin devTableSize} (h : devIndex devId = some i) :
  devId = i
  := by
  rw [devIndex] at h
  split_ifs at h with hrange
  obtain rfl := Option.some.inj h
  change devId = (devId.toNat : Int)
  omega

/-! ### The slots that are found -/

variable {devTb : Fin devTableSize → Device} {major minor : Int} {data : Nat}

/-- A slot that is open and belongs to the pair, or else a free one if there is one. -/
theorem devOpen_find (devTb : Fin devTableSize → Device) (major minor : Int)
    (is : List (Fin devTableSize)) (freeDev : Option (Fin devTableSize))
    (hfree : ∀ i, freeDev = some i → (devTb i).openCount = 0) :
  (∃ i f, devOpen.find devTb major minor is freeDev = (some i, f) ∧ (devTb i).openCount ≠ 0
      ∧ (devTb i).desc.map DevDesc.major = some major ∧ (devTb i).minor = minor)
    ∨ ∃ f, devOpen.find devTb major minor is freeDev = (none, f)
      ∧ (∀ i ∈ is, (devTb i).openCount ≠ 0 →
        ¬ ((devTb i).desc.map DevDesc.major = some major ∧ (devTb i).minor = minor))
      ∧ (∀ i, f = some i → (devTb i).openCount = 0)
      ∧ (f = none → ∀ i ∈ is, (devTb i).openCount ≠ 0)
      ∧ (freeDev ≠ none → f ≠ none)
  := by
  induction is generalizing freeDev with
  | nil =>
      right
      exact ⟨freeDev, rfl, nofun, hfree, nofun, fun h => h⟩
  | cons i is ih =>
      rw [devOpen.find]
      by_cases hcount : (devTb i).openCount = 0
      · rw [if_pos hcount]
        rcases ih (some i) (by rintro _ ⟨⟩; exact hcount) with
          hfound | ⟨f, heq, hnone, hzero, hfull, hkeep⟩
        · left
          exact hfound
        · right
          have hsome := hkeep nofun
          refine ⟨f, heq, ?_, hzero, fun h => absurd h hsome, fun _ => hsome⟩
          intro j hj hopen
          rcases List.mem_cons.mp hj with rfl | hj
          · cases hopen hcount
          · apply hnone j hj hopen
      · rw [if_neg hcount]
        split_ifs with hpair
        · left
          exact ⟨i, freeDev, rfl, hcount, hpair⟩
        · rcases ih freeDev hfree with hfound | ⟨f, heq, hnone, hzero, hfull, hkeep⟩
          · left
            exact hfound
          · right
            refine ⟨f, heq, ?_, hzero, ?_, hkeep⟩
            · intro j hj hopen
              rcases List.mem_cons.mp hj with rfl | hj
              · exact hpair
              · apply hnone j hj hopen
            · intro hf j hj
              rcases List.mem_cons.mp hj with rfl | hj
              · exact hcount
              · apply hfull hf j hj

theorem pair_eq_some_iff {dev : Device} :
  dev.pair = some (major, minor)
    ↔ 0 < dev.openCount ∧ dev.desc.map DevDesc.major = some major ∧ dev.minor = minor
  := by
  rw [Device.pair]
  split_ifs with hpos
  · cases dev.desc with
    | none => simp
    | some desc => simp [hpos]
  · simp [hpos]

/-- What `dev_open` can do. -/
inductive OpenOutcome (devTb : Fin devTableSize → Device) (major minor : Int) (data : Nat) : Prop
  /-- The pair is open. -/
  | shared {i : Fin devTableSize} : (devTb i).pair = some (major, minor) →
      devOpen.routine devTb major minor data = none →
      devOpen devTb major minor data = (((i : Nat) : Int),
        Function.update devTb i { devTb i with openCount := (devTb i).openCount + 1 }) →
      OpenOutcome devTb major minor data
  /-- It is opened in a free slot, if its driver does not refuse. -/
  | tried {i : Fin devTableSize} {desc : DevDesc} {dev : Device} :
      (∀ j, (devTb j).pair ≠ some (major, minor)) → (devTb i).openCount = 0 →
      desc ∈ devDescTb → desc.major = major →
      dev = { devTb i with minor := minor, data := data, desc := some desc } →
      devOpen.routine devTb major minor data = some (desc, dev) →
      devOpen devTb major minor data
        = (if desc.open dev = 0 then
            (((i : Nat) : Int), Function.update devTb i { dev with openCount := 1 })
          else (-1, Function.update devTb i dev)) →
      OpenOutcome devTb major minor data
  /-- There is no driver or no free slot. -/
  | none : (∀ j, (devTb j).pair ≠ some (major, minor)) →
      ((∀ desc ∈ devDescTb, desc.major ≠ major) ∨ ∀ i, (devTb i).openCount ≠ 0) →
      devOpen.routine devTb major minor data = none →
      devOpen devTb major minor data = (-1, devTb) →
      OpenOutcome devTb major minor data

theorem devOpen_outcome (hnonneg : ∀ i, 0 ≤ (devTb i).openCount) (major minor : Int) (data : Nat) :
  OpenOutcome devTb major minor data
  := by
  rcases devOpen_find devTb major minor (List.finRange devTableSize) none nofun with
    ⟨i, f, hfind, hopen, hpair⟩ | ⟨f, hfind, hnot, hzero, hfull, -⟩
  · have hpos := hnonneg i
    apply OpenOutcome.shared (i := i)
    · exact pair_eq_some_iff.mpr ⟨by omega, hpair⟩
    · rw [devOpen.routine, hfind]
    · rw [devOpen, hfind]
  · have hclosed : ∀ j, (devTb j).pair ≠ some (major, minor) := by
      intro j hj
      obtain ⟨hpos, hpair⟩ := pair_eq_some_iff.mp hj
      exact hnot j (List.mem_finRange j) (by omega) hpair
    cases hdesc : devDescTb.find? fun d => d.major = major with
    | none =>
        rw [List.find?_eq_none] at hdesc
        apply OpenOutcome.none hclosed
        · left
          intro desc hmem hmajor
          cases hdesc desc hmem (by simpa using hmajor)
        · rw [devOpen.routine, hfind, List.find?_eq_none.mpr hdesc]
        · rw [devOpen, hfind, List.find?_eq_none.mpr hdesc]
    | some desc =>
        cases f with
        | none =>
            apply OpenOutcome.none hclosed
            · right
              intro i
              apply hfull rfl i (List.mem_finRange i)
            · rw [devOpen.routine, hfind, hdesc]
            · rw [devOpen, hfind, hdesc]
        | some i =>
            have hmajor : desc.major = major := by simpa using List.find?_some hdesc
            apply OpenOutcome.tried hclosed (hzero i rfl) (List.mem_of_find?_eq_some hdesc) hmajor rfl
            · rw [devOpen.routine, hfind, hdesc]
            · rw [devOpen, hfind, hdesc]

theorem isDevidBad_coe (devTb : Fin devTableSize → Device) (i : Fin devTableSize) :
  isDevidBad devTb (i : Nat) = (devTb i).desc.isNone
  := by rw [isDevidBad, devIndex_coe]

/-- A slot keeps its driver, and a handle that is returned has one. -/
theorem devOpen_desc (devTb : Fin devTableSize → Device) (major minor : Int) (data : Nat) :
  (∀ k, (devTb k).desc.isNone = false → ((devOpen devTb major minor data).2 k).desc.isNone = false)
    ∧ (0 ≤ (devOpen devTb major minor data).1 →
      isDevidBad (devOpen devTb major minor data).2 (devOpen devTb major minor data).1 = false)
  := by
  have hkept (i : Fin devTableSize) (dev : Device) (hdev : dev.desc.isNone = false) :
      (∀ k, (devTb k).desc.isNone = false → (Function.update devTb i dev k).desc.isNone = false)
        ∧ isDevidBad (Function.update devTb i dev) (i : Nat) = false := by
    constructor
    · intro k hk
      by_cases hki : k = i
      · rw [hki, Function.update_self]
        exact hdev
      · rwa [Function.update_of_ne hki]
    · rw [isDevidBad_coe, Function.update_self]
      exact hdev
  have hfail : ¬ (0 : Int) ≤ -1 := by decide
  rw [devOpen]
  rcases devOpen_find devTb major minor (List.finRange devTableSize) none nofun with
    ⟨i, f, hfind, -, hdesc, -⟩ | ⟨f, hfind, -⟩
  · rw [hfind]
    have hsome : (devTb i).desc.isNone = false := by
      cases hnone : (devTb i).desc with
      | none =>
          rw [hnone] at hdesc
          cases hdesc
      | some desc => rfl
    obtain ⟨hdescs, hgood⟩ := hkept i
      { devTb i with openCount := (devTb i).openCount + 1 } hsome
    exact ⟨hdescs, fun _ => hgood⟩
  · rw [hfind]
    cases devDescTb.find? fun d => d.major = major with
    | none => exact ⟨fun _ hk => hk, fun hle => absurd hle hfail⟩
    | some desc =>
        cases f with
        | none => exact ⟨fun _ hk => hk, fun hle => absurd hle hfail⟩
        | some i =>
            dsimp only
            split_ifs
            · obtain ⟨hdescs, hgood⟩ := hkept i ⟨some desc, minor, data, 1⟩ rfl
              exact ⟨hdescs, fun _ => hgood⟩
            · obtain ⟨hdescs, -⟩ := hkept i ⟨some desc, minor, data, (devTb i).openCount⟩ rfl
              exact ⟨hdescs, fun hle => absurd hle hfail⟩

/-! ### The ledger -/

/-- What has happened to a pair since it was last closed completely: the handles that its opens
have returned, and how often it has been closed. -/
structure Period where
  opens : List Int
  closes : Nat

namespace Period

def empty : Period :=
  ⟨[], 0⟩

def «open» (x : Period) (devId : Int) : Period :=
  { x with opens := x.opens ++ [devId] }

def close (x : Period) : Period :=
  if x.closes + 1 = x.opens.length then empty else { x with closes := x.closes + 1 }

end Period

/-- The table with its ledger: the opens and the closes of each handle so far, and the period of
each pair. -/
structure DevRun where
  devTb : Fin devTableSize → Device
  opened : Int → Nat
  closed : Int → Nat
  period : Int × Int → Period

inductive DevEvent where
  | open (major minor : Int) (data : Nat)
  | close (devId : Int)

namespace DevRun

def record (s : DevRun) (p : Int × Int) (devId : Int) (devTb : Fin devTableSize → Device) :
    DevRun where
  devTb := devTb
  opened := Function.update s.opened devId (s.opened devId + 1)
  closed := s.closed
  period := Function.update s.period p ((s.period p).open devId)

def opens (s : DevRun) (major minor : Int) (data : Nat) : DevRun :=
  match devOpen s.devTb major minor data with
  | (devId, devTb) =>
      if devId < 0 then { s with devTb := devTb } else s.record (major, minor) devId devTb

def closes (s : DevRun) (devId : Int) : DevRun where
  devTb := devClose s.devTb devId
  opened := s.opened
  closed := Function.update s.closed devId (s.closed devId + 1)
  period p := if devId ∈ (s.period p).opens then (s.period p).close else s.period p

/-- The calls.  A handle is closed when it has been opened more often. -/
inductive Step : DevRun → DevEvent → DevRun → Prop
  | open {s : DevRun} (major minor : Int) (data : Nat) :
      Step s (.open major minor data) (s.opens major minor data)
  | close {s : DevRun} {devId : Int} : s.closed devId < s.opened devId →
      Step s (.close devId) (s.closes devId)

/-- The table says the same as the ledger: a slot is free, or open for a pair for which no other
slot is open, and it counts the opens of the pair that have not been closed.  These have all
returned the slot. -/
structure OpenCounts (s : DevRun) : Prop where
  slot : ∀ i, (s.devTb i).openCount = 0 ∨ ∃ p, (s.devTb i).pair = some p
  unique : ∀ p i j, (s.devTb i).pair = some p → (s.devTb j).pair = some p → i = j
  count : ∀ p i, (s.devTb i).pair = some p →
    (s.devTb i).openCount = (s.period p).opens.length - (s.period p).closes
  handle : ∀ p, ∀ devId ∈ (s.period p).opens,
    ∃ i : Fin devTableSize, devId = ((i : Nat) : Int) ∧ (s.devTb i).pair = some p
  idle : ∀ p, (∀ i, (s.devTb i).pair ≠ some p) → s.period p = .empty

/-- An open of the pair makes its count one, which has been zero. -/
def FirstOpen (s : DevRun) (major minor : Int) (data : Nat) : Prop :=
  (∀ i, (s.devTb i).pair ≠ some (major, minor))
    ∧ ∃ i, ((devOpen s.devTb major minor data).2 i).pair = some (major, minor)
      ∧ ((devOpen s.devTb major minor data).2 i).openCount = 1

end DevRun

/-- The calls on devices, from the table as it is at boot on. -/
def devCalls : TransitionSystem DevRun DevEvent where
  init s := (∀ i, s.devTb i = .zero) ∧ (∀ devId, s.opened devId = 0) ∧ (∀ devId, s.closed devId = 0)
    ∧ ∀ p, s.period p = .empty
  step := DevRun.Step

namespace DevRun

variable {s s' : DevRun}

/-- The table agrees with the ledger, and with the opens and closes of each handle. -/
structure Keeps (s : DevRun) : Prop extends OpenCounts s where
  total : ∀ i : Fin devTableSize,
    (s.opened (i : Nat) : Int) = s.closed (i : Nat) + (s.devTb i).openCount
  others : ∀ devId, devIndex devId = none → s.opened devId = 0

theorem closes_devTb (s : DevRun) (devId : Int) :
  (s.closes devId).devTb = devClose s.devTb devId
  := rfl

theorem closes_opened (s : DevRun) (devId : Int) :
  (s.closes devId).opened = s.opened
  := rfl

theorem closes_closed (s : DevRun) (devId : Int) :
  (s.closes devId).closed = Function.update s.closed devId (s.closed devId + 1)
  := rfl

theorem OpenCounts.nonneg (h : s.OpenCounts) (i : Fin devTableSize) :
  0 ≤ (s.devTb i).openCount
  := by
  rcases h.slot i with hzero | ⟨⟨major, minor⟩, hpair⟩
  · rw [hzero]
  · have hpos := (pair_eq_some_iff.mp hpair).1
    omega

theorem pair_of_zero {dev : Device} (h : dev.openCount = 0) :
  dev.pair = none
  := by
  rw [Device.pair, if_neg]
  omega

theorem keeps_init (h : devCalls.init s) :
  s.Keeps
  := by
  obtain ⟨htb, hopened, hclosed, hperiod⟩ := h
  have hpair (i : Fin devTableSize) : (s.devTb i).pair = none := by
    rw [htb]
    rfl
  constructor
  · constructor
    · intro i
      left
      rw [htb]
      rfl
    · intro p i j hi
      rw [hpair] at hi
      cases hi
    · intro p i hi
      rw [hpair] at hi
      cases hi
    · intro p devId hmem
      rw [hperiod] at hmem
      cases hmem
    · intro p _
      apply hperiod
  · intro i
    rw [hopened, hclosed, htb]
    rfl
  · intro devId _
    apply hopened

/-- A slot that was open for no pair but `p` counts one more open of `p`. -/
theorem Keeps.record {p : Int × Int} {i : Fin devTableSize} {dev : Device} (h : s.Keeps)
    (hdev : dev.pair = some p) (hcount : dev.openCount = (s.devTb i).openCount + 1)
    (hother : ∀ j, (s.devTb j).pair = some p → j = i)
    (hself : (s.devTb i).pair = some p ∨ (s.devTb i).openCount = 0) :
  (s.record p (i : Nat) (Function.update s.devTb i dev)).Keeps
  := by
  have hbefore : (s.devTb i).openCount = (s.period p).opens.length - (s.period p).closes := by
    rcases hself with hpair | hzero
    · apply h.count p i hpair
    · rw [hzero, h.idle p]
      · rfl
      · intro j hj
        rw [hother j hj, pair_of_zero hzero] at hj
        cases hj
  have hnot (q : Int × Int) (hq : q ≠ p) : (s.devTb i).pair ≠ some q := by
    rcases hself with hpair | hzero
    · rw [hpair, Option.some_inj.ne]
      exact hq.symm
    · rw [pair_of_zero hzero]
      nofun
  -- the pairs of the slots
  have hpairs (q : Int × Int) (j : Fin devTableSize) :
      (Function.update s.devTb i dev j).pair = some q
        ↔ if q = p then j = i else (s.devTb j).pair = some q := by
    by_cases hj : j = i
    · subst hj
      rw [Function.update_self, hdev, Option.some_inj]
      split_ifs with hq
      · exact iff_of_true hq.symm rfl
      · exact iff_of_false (Ne.symm hq) (hnot q hq)
    · rw [Function.update_of_ne hj]
      split_ifs with hq
      · rw [hq]
        exact iff_of_false (fun hpair => hj (hother j hpair)) hj
      · exact Iff.rfl
  constructor
  · constructor
    · intro j
      change (Function.update s.devTb i dev j).openCount = 0 ∨ ∃ q, (Function.update s.devTb i dev j).pair = some q
      by_cases hj : j = i
      · subst hj
        rw [Function.update_self]
        right
        exact ⟨p, hdev⟩
      · rw [Function.update_of_ne hj]
        apply h.slot
    · intro q j k hj hk
      rw [DevRun.record] at hj hk
      dsimp only at hj hk
      rw [hpairs] at hj hk
      split_ifs at hj hk with hq
      · rw [hj, hk]
      · apply h.unique q j k hj hk
    · intro q j hj
      change (Function.update s.devTb i dev j).pair = some q at hj
      change (Function.update s.devTb i dev j).openCount
        = ((Function.update s.period p _ q).opens.length : Int) - (Function.update s.period p _ q).closes
      rw [hpairs] at hj
      split_ifs at hj with hq
      · rw [hj, hq, Function.update_self, Function.update_self, hcount, hbefore, Period.open,
          List.length_append, List.length_singleton]
        dsimp only
        omega
      · have hne : j ≠ i := by
          rintro rfl
          apply hnot q hq hj
        rw [Function.update_of_ne hne, Function.update_of_ne hq]
        apply h.count q j hj
    · intro q devId hmem
      change devId ∈ (Function.update s.period p _ q).opens at hmem
      change ∃ j : Fin devTableSize, _ ∧ (Function.update s.devTb i dev j).pair = some q
      by_cases hq : q = p
      · rw [hq, Function.update_self, Period.open, List.mem_append, List.mem_singleton] at hmem
        use i
        rw [hpairs, if_pos hq]
        rcases hmem with hmem | rfl
        · obtain ⟨j, rfl, hj⟩ := h.handle p devId hmem
          rw [hother j hj]
          exact ⟨rfl, rfl⟩
        · exact ⟨rfl, rfl⟩
      · rw [Function.update_of_ne hq] at hmem
        obtain ⟨j, hdevId, hj⟩ := h.handle q devId hmem
        use j, hdevId
        rw [hpairs, if_neg hq]
        exact hj
    · intro q hq
      change ∀ j, (Function.update s.devTb i dev j).pair ≠ some q at hq
      change Function.update s.period p _ q = _
      have hne : q ≠ p := by
        rintro rfl
        apply hq i
        rw [Function.update_self, hdev]
      rw [Function.update_of_ne hne]
      apply h.idle
      intro j hj
      apply hq j
      rw [hpairs, if_neg hne]
      exact hj
  · intro j
    change (Function.update s.opened _ _ _ : Int) = s.closed _ + (Function.update s.devTb i dev j).openCount
    have htotal := h.total j
    by_cases hj : j = i
    · rw [hj] at htotal ⊢
      rw [Function.update_self, Function.update_self, hcount]
      omega
    · have hne : ((j : Nat) : Int) ≠ ((i : Nat) : Int) := by
        intro heq
        apply hj
        apply Fin.ext
        omega
      rw [Function.update_of_ne hne, Function.update_of_ne hj, htotal]
  · intro devId hnone
    change Function.update s.opened _ _ _ = 0
    rw [Function.update_of_ne]
    · apply h.others devId hnone
    · rintro rfl
      rw [devIndex_coe] at hnone
      cases hnone

/-- A slot that is open for no pair may change, as long as it is not opened. -/
theorem Keeps.setFree {i : Fin devTableSize} {dev : Device} (h : s.Keeps)
    (hzero : (s.devTb i).openCount = 0) (hdev : dev.openCount = 0) :
  Keeps { s with devTb := Function.update s.devTb i dev }
  := by
  have hcount (j : Fin devTableSize) :
      (Function.update s.devTb i dev j).openCount = (s.devTb j).openCount := by
    by_cases hj : j = i
    · rw [hj, Function.update_self, hdev, hzero]
    · rw [Function.update_of_ne hj]
  have hpair (j : Fin devTableSize) : (Function.update s.devTb i dev j).pair = (s.devTb j).pair := by
    by_cases hj : j = i
    · rw [hj, Function.update_self, pair_of_zero hdev, pair_of_zero hzero]
    · rw [Function.update_of_ne hj]
  constructor
  · constructor
    · intro j
      dsimp only
      rw [hcount, hpair]
      apply h.slot
    · intro p j k
      dsimp only
      rw [hpair, hpair]
      apply h.unique
    · intro p j
      dsimp only
      rw [hpair, hcount]
      apply h.count
    · intro p devId hmem
      obtain ⟨j, hj⟩ := h.handle p devId hmem
      use j
      dsimp only
      rwa [hpair]
    · intro p hp
      apply h.idle
      intro j
      rw [← hpair]
      apply hp
  · intro j
    dsimp only
    rw [hcount]
    apply h.total
  · exact h.others

theorem Keeps.opens (h : s.Keeps) (major minor : Int) (data : Nat) :
  (s.opens major minor data).Keeps
  := by
  rw [DevRun.opens]
  cases devOpen_outcome h.nonneg major minor data with
  | @shared i hpair _ heq =>
      rw [heq]
      dsimp only
      rw [if_neg (by omega)]
      obtain ⟨hpos, hsame⟩ := pair_eq_some_iff.mp hpair
      apply h.record _ rfl
      · intro j hj
        apply h.unique _ j i hj hpair
      · left
        exact hpair
      · apply pair_eq_some_iff.mpr
        exact ⟨by dsimp only; omega, hsame⟩
  | @tried i desc dev hnone hzero _ hmajor hdev _ heq =>
      rw [heq, hdev]
      split_ifs with haccept
      · dsimp only
        rw [if_neg (by omega)]
        apply h.record
        · apply pair_eq_some_iff.mpr
          exact ⟨Int.one_pos, congrArg some hmajor, rfl⟩
        · rw [hzero]
          rfl
        · intro j hj
          cases hnone j hj
        · right
          exact hzero
      · dsimp only
        rw [if_pos (by decide)]
        apply h.setFree hzero
        exact hzero
  | none _ _ _ heq =>
      rw [heq]
      dsimp only
      rw [if_pos (by decide)]
      exact h

/-- The slot of a handle that has been opened more often than closed. -/
theorem Keeps.slot_of_lt {devId : Int} (h : s.Keeps) (hlt : s.closed devId < s.opened devId) :
  ∃ (i : Fin devTableSize) (p : Int × Int), devId = ((i : Nat) : Int) ∧ (s.devTb i).pair = some p
  := by
  cases hindex : devIndex devId with
  | none =>
      rw [h.others devId hindex] at hlt
      cases hlt
  | some i =>
      obtain rfl := devIndex_eq hindex
      have htotal := h.total i
      rcases h.slot i with hzero | ⟨p, hp⟩
      · omega
      · exact ⟨i, p, rfl, hp⟩

/-- The handle of a slot belongs to the period of its pair, and to no other. -/
theorem OpenCounts.mem_opens_iff {i : Fin devTableSize} {p q : Int × Int} (h : s.OpenCounts)
    (hi : (s.devTb i).pair = some p) :
  ((i : Nat) : Int) ∈ (s.period q).opens ↔ q = p
  := by
  constructor
  · intro hmem
    obtain ⟨j, hj, hq⟩ := h.handle q _ hmem
    have heq : i = j := by
      apply Fin.ext
      omega
    rw [← heq, hi, Option.some_inj] at hq
    exact hq.symm
  · rintro rfl
    have hcount := h.count q i hi
    have hpos := (pair_eq_some_iff.mp (show (s.devTb i).pair = some (q.1, q.2) from hi)).1
    rcases hopens : (s.period q).opens with _ | ⟨devId, rest⟩
    · rw [hopens, List.length_nil] at hcount
      omega
    · obtain ⟨j, rfl, hj⟩ := h.handle q devId (by rw [hopens]; exact List.mem_cons_self)
      rw [h.unique q i j hi hj]
      exact List.mem_cons_self

theorem Keeps.closes {devId : Int} (h : s.Keeps) (hlt : s.closed devId < s.opened devId) :
  (s.closes devId).Keeps
  := by
  obtain ⟨i, p, rfl, hi⟩ := h.slot_of_lt hlt
  obtain ⟨hpos, hmajor, hminor⟩ :=
    pair_eq_some_iff.mp (show (s.devTb i).pair = some (p.1, p.2) from hi)
  have hcount := h.count p i hi
  obtain ⟨dev, hdev, hdevCount, hdevPair⟩ : ∃ dev, devClose s.devTb (i : Nat)
      = Function.update s.devTb i dev ∧ dev.openCount = (s.devTb i).openCount - 1
      ∧ dev.pair = if (s.devTb i).openCount = 1 then none else some p := by
    have hdesc : (s.devTb i).desc.isNone = false := by
      cases hdesc : (s.devTb i).desc with
      | none =>
          rw [hdesc] at hmajor
          cases hmajor
      | some desc => rfl
    rw [devClose, devIndex_coe]
    dsimp only
    rw [hdesc, if_neg nofun]
    by_cases hone : (s.devTb i).openCount = 1
    · rw [if_pos (by omega), if_pos hone]
      exact ⟨_, rfl, by rw [hone]; rfl, rfl⟩
    · rw [if_neg (by omega), if_neg hone]
      refine ⟨_, rfl, rfl, ?_⟩
      apply pair_eq_some_iff.mpr
      exact ⟨by dsimp only; omega, hmajor, hminor⟩
  have hperiod (q : Int × Int) :
      (s.closes (i : Nat)).period q = if q = p then (s.period p).close else s.period q := by
    rw [DevRun.closes]
    dsimp only
    rw [if_congr (h.mem_opens_iff hi) rfl rfl]
    split_ifs with hq
    · rw [hq]
    · rfl
  have hpairs (q : Int × Int) (j : Fin devTableSize) : ((s.closes (i : Nat)).devTb j).pair = some q
      ↔ (s.devTb j).pair = some q ∧ ¬ (j = i ∧ (s.devTb i).openCount = 1) := by
    rw [closes_devTb, hdev]
    by_cases hj : j = i
    · rw [hj, Function.update_self, hdevPair, hi]
      split_ifs with hone
      · exact iff_of_false nofun (fun hand => hand.2 ⟨rfl, hone⟩)
      · exact (and_iff_left (fun hand => hone hand.2)).symm
    · rw [Function.update_of_ne hj]
      exact (and_iff_left (fun hand => hj hand.1)).symm
  have hcounts (j : Fin devTableSize) : ((s.closes (i : Nat)).devTb j).openCount
      = if j = i then (s.devTb i).openCount - 1 else (s.devTb j).openCount := by
    rw [closes_devTb, hdev]
    split_ifs with hj
    · rw [hj, Function.update_self, hdevCount]
    · rw [Function.update_of_ne hj]
  -- the last close of the pair is the one that makes the count zero
  have hlast : (s.period p).closes + 1 = (s.period p).opens.length ↔ (s.devTb i).openCount = 1 := by
    omega
  constructor
  · constructor
    · intro j
      rw [hcounts]
      split_ifs with hj
      · by_cases hone : (s.devTb i).openCount = 1
        · left
          omega
        · right
          use p
          rw [hpairs, hj]
          exact ⟨hi, fun hand => hone hand.2⟩
      · rcases h.slot j with hzero | ⟨q, hq⟩
        · left
          exact hzero
        · right
          use q
          rw [hpairs]
          exact ⟨hq, fun hand => hj hand.1⟩
    · intro q j k hj hk
      rw [hpairs] at hj hk
      apply h.unique q j k hj.1 hk.1
    · intro q j hj
      rw [hpairs] at hj
      rw [hcounts, hperiod]
      split_ifs with hji hq hq
      · have hone : (s.devTb i).openCount ≠ 1 := fun hone => hj.2 ⟨hji, hone⟩
        rw [Period.close, if_neg (hlast.not.mpr hone)]
        dsimp only
        omega
      · rw [hji, hi, Option.some_inj] at hj
        cases hq hj.1.symm
      · rw [hq] at hj
        cases hji (h.unique p j i hj.1 hi)
      · apply h.count q j hj.1
    · intro q devId hmem
      rw [hperiod] at hmem
      split_ifs at hmem with hq
      · rw [Period.close] at hmem
        split_ifs at hmem with hend
        · cases hmem
        · obtain ⟨j, hdevId, hj⟩ := h.handle p devId hmem
          use j, hdevId
          rw [hpairs, hq]
          exact ⟨hj, fun hand => hend (hlast.mpr hand.2)⟩
      · obtain ⟨j, hdevId, hj⟩ := h.handle q devId hmem
        use j, hdevId
        rw [hpairs]
        use hj
        rintro ⟨rfl, -⟩
        rw [hi, Option.some_inj] at hj
        exact hq hj.symm
    · intro q hnone
      rw [hperiod]
      split_ifs with hq
      · by_cases hone : (s.devTb i).openCount = 1
        · rw [Period.close, if_pos (hlast.mpr hone)]
        · cases hnone i ((hpairs q i).mpr ⟨by rw [hi, hq], fun hand => hone hand.2⟩)
      · apply h.idle
        intro j hj
        apply hnone j
        rw [hpairs]
        use hj
        rintro ⟨rfl, -⟩
        rw [hi, Option.some_inj] at hj
        exact hq hj.symm
  · intro j
    have htotal := h.total j
    rw [hcounts, closes_opened, closes_closed]
    split_ifs with hj
    · rw [hj] at htotal ⊢
      rw [Function.update_self]
      omega
    · have hne : ((j : Nat) : Int) ≠ ((i : Nat) : Int) := by
        intro heq
        apply hj
        apply Fin.ext
        omega
      rw [Function.update_of_ne hne, htotal]
  · exact h.others

theorem keeps_of_reachable (h : devCalls.Reachable (fun _ => True) s) :
  s.Keeps
  := by
  apply h.invariant (I := Keeps)
  · intro s hinit
    apply keeps_init hinit
  · rintro s e s' hs - hstep
    cases hstep with
    | «open» major minor data => apply hs.opens
    | close hlt => apply hs.closes hlt

/-- The routine of a driver runs when the pair is not open and there is a slot for it. -/
theorem routine_isSome_iff (hnonneg : ∀ i, 0 ≤ (s.devTb i).openCount) (major minor : Int)
    (data : Nat) :
  (devOpen.routine s.devTb major minor data).isSome = true
    ↔ (∀ i, (s.devTb i).pair ≠ some (major, minor)) ∧ (∃ desc ∈ devDescTb, desc.major = major)
      ∧ ∃ i, (s.devTb i).openCount = 0
  := by
  cases devOpen_outcome hnonneg major minor data with
  | @shared i hpair hroutine _ =>
      rw [hroutine]
      exact iff_of_false nofun (fun hand => hand.1 i hpair)
  | @tried i desc dev hnone hzero hmem hmajor _ hroutine _ =>
      rw [hroutine]
      exact iff_of_true rfl ⟨hnone, ⟨desc, hmem, hmajor⟩, i, hzero⟩
  | none _ hfull hroutine _ =>
      rw [hroutine]
      apply iff_of_false nofun
      rintro ⟨-, ⟨desc, hmem, hmajor⟩, i, hzero⟩
      rcases hfull with hdriver | hslot
      · apply hdriver desc hmem hmajor
      · apply hslot i hzero

/-- It runs and accepts exactly when the count goes from zero to one. -/
theorem firstOpen_iff (hnonneg : ∀ i, 0 ≤ (s.devTb i).openCount) (major minor : Int) (data : Nat) :
  (∃ x ∈ devOpen.routine s.devTb major minor data, x.1.open x.2 = 0)
    ↔ s.FirstOpen major minor data
  := by
  rw [FirstOpen]
  cases devOpen_outcome hnonneg major minor data with
  | @shared i hpair hroutine _ =>
      rw [hroutine]
      apply iff_of_false
      · rintro ⟨x, hx, -⟩
        cases hx
      · rintro ⟨hnone, -⟩
        exact hnone i hpair
  | @tried i desc dev hnone hzero hmem hmajor hdev hroutine heq =>
      rw [hroutine, heq, hdev]
      split_ifs with haccept
      · apply iff_of_true ⟨_, rfl, haccept⟩
        refine ⟨hnone, i, ?_⟩
        dsimp only
        rw [Function.update_self]
        refine ⟨?_, rfl⟩
        apply pair_eq_some_iff.mpr
        exact ⟨Int.one_pos, congrArg some hmajor, rfl⟩
      · apply iff_of_false
        · rintro ⟨x, hx, hx'⟩
          cases hx
          exact haccept hx'
        · rintro ⟨-, j, hj, -⟩
          dsimp only at hj
          by_cases hji : j = i
          · rw [hji, Function.update_self, pair_of_zero (by exact hzero)] at hj
            cases hj
          · rw [Function.update_of_ne hji] at hj
            cases hnone j hj
  | none hnone _ hroutine heq =>
      rw [hroutine, heq]
      apply iff_of_false
      · rintro ⟨x, hx, -⟩
        cases hx
      · rintro ⟨-, j, hj, -⟩
        cases hnone j hj

/-- In every run the counts are those of the ledger, the opens of a pair return one handle, and
the routine of the driver runs and accepts exactly when a count goes from zero to one.  It does
not run for a pair that is open. -/
theorem openCounts_of_reachable (h : devCalls.Reachable (fun _ => True) s) :
  s.OpenCounts
    ∧ (∀ p, ∀ devId ∈ (s.period p).opens, ∀ devId' ∈ (s.period p).opens, devId = devId')
    ∧ ∀ major minor data,
      ((∃ x ∈ devOpen.routine s.devTb major minor data, x.1.open x.2 = 0)
        ↔ s.FirstOpen major minor data)
      ∧ ((devOpen.routine s.devTb major minor data).isSome = true
        ↔ (∀ i, (s.devTb i).pair ≠ some (major, minor))
          ∧ (∃ desc ∈ devDescTb, desc.major = major) ∧ ∃ i, (s.devTb i).openCount = 0)
  := by
  have hkeeps := keeps_of_reachable h
  refine ⟨hkeeps.toOpenCounts, ?_, ?_⟩
  · intro p devId hmem devId' hmem'
    obtain ⟨i, rfl, hi⟩ := hkeeps.handle p devId hmem
    obtain ⟨j, rfl, hj⟩ := hkeeps.handle p devId' hmem'
    rw [hkeeps.unique p i j hi hj]
  · intro major minor data
    exact ⟨firstOpen_iff hkeeps.nonneg major minor data,
      routine_isSome_iff hkeeps.nonneg major minor data⟩

/-- The table at boot. -/
def booted : DevRun where
  devTb _ := .zero
  opened _ := 0
  closed _ := 0
  period _ := .empty

theorem booted_reachable :
  devCalls.Reachable (fun _ => True) booted
  := Reachable.init ⟨fun _ => rfl, fun _ => rfl, fun _ => rfl, fun _ => rfl⟩

theorem openCounts_booted :
  (booted.opens 1 0 0).OpenCounts ∧ ((booted.opens 1 0 0).devTb 127).openCount = 1
    ∧ ((booted.opens 1 0 0).period (1, 0)).opens = [127]
  := by
  use (openCounts_of_reachable (booted_reachable.step trivial (Step.open 1 0 0))).1
  decide +kernel

/-- A minor number that no terminal has: the routine runs, and no count goes up. -/
theorem not_firstOpen_booted :
  devCalls.Reachable (fun _ => True) booted
    ∧ ¬ ((devOpen.routine booted.devTb 1 8 0).isSome = true ↔ booted.FirstOpen 1 8 0)
  := by
  use booted_reachable
  have hnonneg : ∀ i, 0 ≤ (booted.devTb i).openCount := fun _ => le_refl _
  have hruns : (devOpen.routine booted.devTb 1 8 0).isSome = true := by
    rw [routine_isSome_iff hnonneg]
    exact ⟨fun i => nofun, ⟨.devTtyDesc, List.mem_cons_self, rfl⟩, 0, rfl⟩
  have hrefused : ∀ x ∈ devOpen.routine booted.devTb 1 8 0, x.1.open x.2 ≠ 0 := by
    decide +kernel
  rw [← firstOpen_iff hnonneg]
  intro heq
  obtain ⟨x, hx, haccept⟩ := heq.mp hruns
  exact hrefused x hx haccept

end DevRun

end Dmos
