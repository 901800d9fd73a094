import Dmos.Fs.TempFile
import Dmos.Library.StoreLog
import Dmos.Task.Names

/-!
# Strings

`k_strncpy` and `k_strncmp` of `lib/klib.c`, with the sizes they are given.

The loop of `k_strncpy` decrements the size also when it stops, and what it leaves there is
taken for the place of the null byte.  A string is copied as the size asks for when at least two
bytes of it are left for the null byte; one byte less and the last character is overwritten, two
bytes less and the null byte falls behind the destination (`copies_iff`).

The loop of `k_strncmp` never decrements the size, and what it returns does not depend on whether
it has stopped at a difference or at the end of a string (`kStrncmp_eq_zero_iff`).
-/

open ByteMemory StoreLog

namespace Dmos.Klib

/-! ### Copies -/

/-- The loop of `k_strncpy`: the memory, where `d` points and the size when it stops. -/
def kStrncpy.loop (r : Log) (d s : Nat) : Nat → Log × Nat × Int
  | 0 => (r, d, -1)
  | size + 1 =>
      if r.byte s ≠ 0 then loop (r.store d (r.byte s)) (d + 1) (s + 1) size else (r, d, size)

def kStrncpy (r : Log) (dest src : Nat) (size : Int) : Log :=
  if dest = 0 ∨ src = 0 ∨ size = 0 then r
  else
    match kStrncpy.loop r dest src size.toNat with
    | (r, d, size) => if size = 0 then r.store (d - 1) 0 else r.store d 0

/-- The destination begins in the string, behind its first character, or on its null byte. -/
def Behind (dest src : Nat) (text : List UInt8) : Prop :=
  src < dest ∧ dest ≤ src + text.length

/-- A copy stays in the `size` bytes of its destination, and leaves there what fits of the text. -/
structure Copies (r : Log) (dest : Nat) (text : List UInt8) (size : Nat) : Prop where
  stores : ∀ p ∈ r.stores, dest ≤ p.1 ∧ p.1 < dest + size
  string : CString r.byte dest (text.take (size - 1))

section Copy

variable {m : Memory} {r : Log} {d s dest src : Nat} {text : List UInt8}

/-- The loop copies the characters that the size allows, if it does not overwrite any of them. -/
theorem loop_of_apart (hs : CString r.byte s text) (hapart : d ≤ s ∨ s + text.length < d) (n : Nat) :
  ∃ r', r.Within r' d (d + min n text.length) ∧ Text r'.byte d (text.take n)
    ∧ kStrncpy.loop r d s n
      = if text.length < n then (r', d + text.length, ((n - text.length - 1 : Nat) : Int))
        else (r', d + n, -1)
  := by
  induction n generalizing r d s text with
  | zero =>
      use r, Log.Within.refl _ _ _
      rw [List.take_zero, if_neg (Nat.not_lt_zero _)]
      exact ⟨trivial, rfl⟩
  | succ n ih =>
      rw [kStrncpy.loop]
      cases text with
      | nil =>
          rw [if_neg (not_not.mpr (cString_nil_iff.mp hs))]
          refine ⟨r, Log.Within.refl _ _ _, trivial, ?_⟩
          rw [List.length_nil, if_pos (Nat.zero_lt_succ n)]
          rfl
      | cons c cs =>
          obtain ⟨hfirst, hc, hrest⟩ := cString_cons_iff.mp hs
          rw [List.length_cons] at hapart
          rw [hfirst, if_pos hc]
          have hnext : CString (r.store d c).byte (s + 1) cs := by
            apply hrest.congr
            intro x hx hx'
            apply Log.byte_store_of_ne
            omega
          obtain ⟨r', hwithin, htext, heq⟩ := ih hnext (d := d + 1) (by omega)
          use r'
          rw [heq, List.length_cons, List.take_succ_cons]
          refine ⟨?_, ⟨?_, htext⟩, ?_⟩
          · have hstore := Log.within_store r d c
            apply (hstore.mono (le_refl _) (by omega)).trans
            apply hwithin.mono (by omega)
            omega
          · rw [hwithin.byte (by omega), Log.byte_store_self]
          · split_ifs with hlt hlt' hlt'
            · rw [show d + 1 + cs.length = d + (cs.length + 1) by omega,
                show n - cs.length - 1 = n + 1 - (cs.length + 1) - 1 by omega]
            · omega
            · omega
            · rw [show d + 1 + n = d + (n + 1) by omega]

/-- A loop that writes behind where it reads never meets a null byte. -/
theorem loop_of_behind (hbehind : s < d) (hnonzero : ∀ x, s ≤ x → x < d → r.byte x ≠ 0) (n : Nat) :
  ∃ r', kStrncpy.loop r d s n = (r', d + n, -1)
  := by
  induction n generalizing r d s with
  | zero => exact ⟨r, rfl⟩
  | succ n ih =>
      have hfirst := hnonzero s (le_refl _) hbehind
      obtain ⟨r', heq⟩ := ih (r := r.store d (r.byte s)) (d := d + 1) (s := s + 1) (by omega) (by
        intro x hx hx'
        by_cases hxd : x = d
        · rw [hxd, Log.byte_store_self]
          exact hfirst
        · rw [Log.byte_store_of_ne _ _ hxd]
          apply hnonzero x (by omega)
          omega)
      use r'
      rw [kStrncpy.loop, if_pos hfirst, heq, show d + 1 + n = d + (n + 1) by omega]

/-- What `k_strncpy` does, by where its destination is and by what is left of the size. -/
inductive CopyOutcome (m : Memory) (dest : Nat) (text : List UInt8) (size : Nat) (r : Log) : Prop
  /-- The text and a null byte behind it. -/
  | whole : text.length + 2 ≤ size → Log.Within ⟨m, []⟩ r dest (dest + text.length + 1) →
      CString r.byte dest text → CopyOutcome m dest text size r
  /-- The null byte takes the place of the last character. -/
  | short {r' : Log} : text.length + 1 = size →
      Log.Within ⟨m, []⟩ r' dest (dest + text.length) → Text r'.byte dest text →
      r = r'.store (dest + text.length - 1) 0 → CopyOutcome m dest text size r
  /-- The null byte falls behind the destination. -/
  | behind {r' : Log} : size ≤ text.length →
      Log.Within ⟨m, []⟩ r' dest (dest + size) → Text r'.byte dest (text.take size) →
      r = r'.store (dest + size) 0 → CopyOutcome m dest text size r

theorem copyOutcome {size : Nat} (hdest : dest ≠ 0) (hsrc : src ≠ 0) (hsize : 1 ≤ size)
    (htext : CString m src text) (hapart : ¬ Behind dest src text) :
  CopyOutcome m dest text size (kStrncpy ⟨m, []⟩ dest src size)
  := by
  obtain ⟨r', hwithin, hcopied, heq⟩ :=
    loop_of_apart (r := ⟨m, []⟩) (d := dest) htext (by unfold Behind at hapart; omega) size
  rw [kStrncpy, if_neg (by omega), Int.toNat_natCast, heq]
  split_ifs with hlt
  · rw [Nat.min_eq_right (by omega)] at hwithin
    rw [List.take_of_length_le (by omega)] at hcopied
    dsimp only
    by_cases hlast : text.length + 1 = size
    · rw [if_pos (by omega)]
      exact .short hlast hwithin hcopied rfl
    · rw [if_neg (by omega)]
      have hstore := Log.within_store r' (dest + text.length) 0
      apply CopyOutcome.whole (by omega)
      · apply (hwithin.mono (le_refl _) (Nat.le_succ _)).trans
        apply hstore.mono (Nat.le_add_right _ _) (le_refl _)
      · refine ⟨hcopied.congr (fun x _ hx => hstore.byte (.inl hx)), ?_, htext.nonzero⟩
        apply Log.byte_store_self
  · rw [Nat.min_eq_left (by omega)] at hwithin
    exact .behind (by omega) hwithin hcopied rfl

/-- A destination behind the source is filled past its end. -/
theorem store_of_behind {size : Nat} (hdest : dest ≠ 0) (hsrc : src ≠ 0) (hsize : 1 ≤ size)
    (htext : CString m src text) (hbehind : Behind dest src text) :
  (dest + size, 0) ∈ (kStrncpy ⟨m, []⟩ dest src size).stores
  := by
  obtain ⟨r', heq⟩ := loop_of_behind (r := ⟨m, []⟩) hbehind.1 (by
    intro x hx hx'
    obtain ⟨i, rfl⟩ := Nat.exists_eq_add_of_le hx
    have hi : i < text.length := by
      have hend := hbehind.2
      omega
    change m (src + i) ≠ 0
    rw [text_iff.mp htext.text i hi]
    apply htext.nonzero _ (List.getElem_mem hi)) size
  rw [kStrncpy, if_neg (by omega), Int.toNat_natCast, heq]
  exact List.mem_cons_self

/-- The copy is what the size asks for exactly when there is room for two more bytes and the
destination is not in the string; it stays before the end of its destination exactly when there
is room for one more. -/
theorem copies_iff {size : Nat} (hdest : dest ≠ 0) (hsrc : src ≠ 0) (hsize : 1 ≤ size)
    (htext : CString m src text) :
  (Copies (kStrncpy ⟨m, []⟩ dest src size) dest text size
      ↔ text.length + 2 ≤ size ∧ ¬ Behind dest src text)
    ∧ ((∀ p ∈ (kStrncpy ⟨m, []⟩ dest src size).stores, p.1 < dest + size)
      ↔ text.length + 1 ≤ size ∧ ¬ Behind dest src text)
  := by
  by_cases hbehind : Behind dest src text
  · have hstore := store_of_behind hdest hsrc hsize htext hbehind
    constructor
    · apply iff_of_false _ (fun h => h.2 hbehind)
      intro hcopies
      have hrange := hcopies.stores _ hstore
      dsimp only at hrange
      omega
    · apply iff_of_false _ (fun h => h.2 hbehind)
      intro hrange
      have hend := hrange _ hstore
      dsimp only at hend
      omega
  · rw [and_iff_left hbehind, and_iff_left hbehind]
    cases copyOutcome hdest hsrc hsize htext hbehind with
    | whole hroom hwithin hstring =>
        have hstores := hwithin.stores rfl
        constructor
        · apply iff_of_true _ hroom
          rw [← List.take_of_length_le (show text.length ≤ size - 1 by omega)] at hstring
          refine ⟨?_, hstring⟩
          intro p hp
          have hrange := hstores p hp
          omega
        · apply iff_of_true _ (by omega)
          intro p hp
          have hrange := hstores p hp
          omega
    | @short r' hlast hwithin hcopied heq =>
        have hstores := hwithin.stores rfl
        rw [heq]
        constructor
        · apply iff_of_false _ (by omega)
          intro hcopies
          cases text.eq_nil_or_concat with
          | inl hnil =>
              -- the null byte falls before the destination
              have hrange := hcopies.stores _ List.mem_cons_self
              rw [hnil, List.length_nil] at hrange
              dsimp only at hrange
              omega
          | inr hconcat =>
              obtain ⟨cs, c, rfl⟩ := hconcat
              have htake : (cs.concat c).take (size - 1) = cs ++ [c] := by
                rw [List.concat_eq_append] at hlast ⊢
                apply List.take_of_length_le
                omega
              have hstring := hcopies.string
              rw [htake] at hstring
              have hc := (text_append.mp hstring.text).2.1
              rw [List.length_concat, show dest + (cs.length + 1) - 1 = dest + cs.length by omega,
                Log.byte_store_self] at hc
              apply hstring.nonzero c (by simp) hc.symm
        · apply iff_of_true _ (by omega)
          intro p hp
          rcases List.mem_cons.mp hp with rfl | hp
          · dsimp only
            omega
          · have hrange := hstores p hp
            omega
    | @behind r' hbehind hwithin hcopied heq =>
        rw [heq]
        constructor
        · apply iff_of_false _ (by omega)
          intro hcopies
          have hrange := hcopies.stores _ List.mem_cons_self
          dsimp only at hrange
          omega
        · apply iff_of_false _ (by omega)
          intro hrange
          have hend := hrange _ List.mem_cons_self
          dsimp only at hend
          omega

/-- A name of 31 characters `a`, with a null byte behind it or one character more. -/
def nameMemory (length : Nat) : Memory :=
  fun x => if 8192 ≤ x ∧ x < 8192 + length then 97 else 0

theorem cString_nameMemory (length : Nat) :
  CString (nameMemory length) 8192 (List.replicate length 97)
  where
  text := by
    rw [text_iff]
    intro i hi
    rw [List.length_replicate] at hi
    rw [List.getElem_replicate, nameMemory, if_pos (by omega)]
  null := by
    rw [List.length_replicate, nameMemory, if_neg (by omega)]
  nonzero := by
    intro c hc
    rw [List.eq_of_mem_replicate hc]
    decide

/-- A name of 30 characters fits. -/
theorem copies_nameMemory :
  Copies (kStrncpy ⟨nameMemory 30, []⟩ 4096 8192 32) 4096 (List.replicate 30 97) 32
  := by
  apply (copies_iff (by decide) (by decide) (by decide) (cString_nameMemory 30)).1.mpr
  unfold Behind
  decide

/-- Of a name of 31 characters the last one is lost, and the null byte after one of 32 characters
falls on the process id. -/
theorem not_copies_nameMemory :
  ¬ Copies (kStrncpy ⟨nameMemory 31, []⟩ 4096 8192 32) 4096 (List.replicate 31 97) 32
    ∧ (4096 + 32, 0) ∈ (kStrncpy ⟨nameMemory 32, []⟩ 4096 8192 32).stores
    ∧ ¬ Copies (kStrncpy ⟨nameMemory 32, []⟩ 4096 8192 32) 4096 (List.replicate 32 97) 32
  := by
  have hlast : (kStrncpy ⟨nameMemory 31, []⟩ 4096 8192 32).byte (4096 + 30) = 0 := by decide +kernel
  have hstore : (4096 + 32, 0) ∈ (kStrncpy ⟨nameMemory 32, []⟩ 4096 8192 32).stores := by
    decide +kernel
  refine ⟨?_, hstore, ?_⟩
  · intro hcopies
    have hbyte := text_iff.mp hcopies.string.text 30 (by decide)
    rw [hlast] at hbyte
    revert hbyte
    decide
  · intro hcopies
    have hrange := hcopies.stores _ hstore
    dsimp only at hrange
    omega

/-- The string that is left in the destination is the one the names of tasks are given. -/
theorem cString_kStrncpy {size : Nat} (hdest : dest ≠ 0) (hsrc : src ≠ 0) (hsize : 2 ≤ size)
    (htext : CString m src text) (hapart : ¬ Behind dest src text) :
  CString (kStrncpy ⟨m, []⟩ dest src size).byte dest (Dmos.kStrncpy text size)
  := by
  have houtcome : CopyOutcome m dest text size _ :=
    copyOutcome hdest hsrc (by omega) htext hapart
  rw [kStrncpy_eq]
  cases houtcome with
  | whole hroom hwithin hstring =>
      rw [if_neg (by omega), List.take_of_length_le (by omega)]
      exact hstring
  | @short r' hlast hwithin hcopied heq =>
      rw [if_pos hlast, heq]
      cases text.eq_nil_or_concat with
      | inl hnil =>
          rw [hnil, List.length_nil] at hlast
          omega
      | inr hconcat =>
          obtain ⟨cs, c, rfl⟩ := hconcat
          rw [List.length_concat, List.concat_eq_append, List.dropLast_concat,
            show dest + (cs.length + 1) - 1 = dest + cs.length by omega]
          rw [List.concat_eq_append] at hcopied htext
          refine ⟨?_, Log.byte_store_self _ _ _, ?_⟩
          · apply (text_append.mp hcopied).1.congr
            intro x _ hx
            apply Log.byte_store_of_ne
            omega
          · intro c' hc'
            apply htext.nonzero c' (List.mem_append_left _ hc')
  | @behind r' hbehind hwithin hcopied heq =>
      rw [if_neg (by omega), heq]
      have hlength : (text.take size).length = size := by
        rw [List.length_take]
        omega
      refine ⟨?_, ?_, ?_⟩
      · apply hcopied.congr
        intro x _ hx
        apply Log.byte_store_of_ne
        omega
      · rw [hlength]
        apply Log.byte_store_self
      · intro c hc
        apply htext.nonzero c (List.mem_of_mem_take hc)

end Copy

/-! ### Comparisons -/

/-- The loop of `k_strncmp`: the characters at which it stops.  It tests the size, and does not
change it. -/
def kStrncmp.loop (size : Int) : List UInt8 → List UInt8 → UInt8 × UInt8
  | c :: s₁, c' :: s₂ => if c = c' ∧ size ≠ 0 then loop size s₁ s₂ else (c, c')
  | s₁, s₂ => (s₁.headD 0, s₂.headD 0)

/-- `none` is the null pointer. -/
def kStrncmp (s₁ s₂ : Option (List UInt8)) (size : Int) : Int :=
  match s₁, s₂ with
  | some s₁, some s₂ =>
      match kStrncmp.loop size s₁ s₂ with
      | (c, c') => if c = 0 ∨ c' = 0 ∨ c = c' then 0 else 1
  | _, _ => -1

/-- The length of the longest text with which both strings begin. -/
def commonLength : List UInt8 → List UInt8 → Nat
  | c :: s₁, c' :: s₂ => if c = c' then commonLength s₁ s₂ + 1 else 0
  | _, _ => 0

/-- The strings are told apart at `size`: they are the same; or one begins with the other, which
is not shorter than `size`; or they have different characters at a place before `size`. -/
def Told (s₁ s₂ : List UInt8) (size : Nat) : Prop :=
  if size = 0 then s₁ = [] ∨ s₂ = [] ∨ s₁.head? = s₂.head?
  else s₁ = s₂ ∨ (s₁ <+: s₂ ∨ s₂ <+: s₁) ∧ size ≤ commonLength s₁ s₂
    ∨ ¬ (s₁ <+: s₂ ∨ s₂ <+: s₁) ∧ commonLength s₁ s₂ < size

section Compare

variable {s₁ s₂ : List UInt8} {c c' : UInt8} {size : Nat}

theorem take_eq_take_iff :
  s₁.take size = s₂.take size ↔ s₁ = s₂ ∨ size ≤ commonLength s₁ s₂
  := by
  induction s₁ generalizing s₂ size with
  | nil =>
      cases size <;> cases s₂ <;> simp [commonLength]
  | cons c s₁ ih =>
      cases s₂ with
      | nil => cases size <;> simp [commonLength]
      | cons c' s₂ =>
          cases size with
          | zero => simp
          | succ size =>
              rw [List.take_succ_cons, List.take_succ_cons, List.cons.injEq, List.cons.injEq, ih,
                commonLength]
              split_ifs with heq
              · simp [heq]
              · simp [heq]

/-- The characters at which the loop stops make the result zero. -/
def Stops (p : UInt8 × UInt8) : Prop :=
  p.1 = 0 ∨ p.2 = 0 ∨ p.1 = p.2

theorem kStrncmp_eq_zero (size : Int) (s₁ s₂ : List UInt8) :
  kStrncmp (some s₁) (some s₂) size = 0 ↔ Stops (kStrncmp.loop size s₁ s₂)
  := by
  rw [kStrncmp, Stops]
  dsimp only
  split_ifs with h
  · exact iff_of_true rfl h
  · exact iff_of_false (by decide) h

theorem stops_of_ne (hc : 0 ≠ c) (hc' : 0 ≠ c') :
  Stops (c, c') ↔ c = c'
  := by
  rw [Stops, or_iff_right hc.symm, or_iff_right hc'.symm]

/-- With a size above zero, the loop tells whether one of the strings begins with the other. -/
theorem kStrncmp_eq_zero_iff (h₁ : 0 ∉ s₁) (h₂ : 0 ∉ s₂) (hsize : (size : Int) ≠ 0) :
  kStrncmp (some s₁) (some s₂) size = 0 ↔ s₁ <+: s₂ ∨ s₂ <+: s₁
  := by
  rw [kStrncmp_eq_zero]
  induction s₁ generalizing s₂ with
  | nil => simp [kStrncmp.loop, Stops]
  | cons c s₁ ih =>
      cases s₂ with
      | nil => simp [kStrncmp.loop, Stops]
      | cons c' s₂ =>
          rw [List.mem_cons, not_or] at h₁ h₂
          rw [kStrncmp.loop, List.cons_prefix_cons, List.cons_prefix_cons]
          by_cases heq : c = c'
          · rw [if_pos ⟨heq, hsize⟩, ih h₁.2 h₂.2]
            simp [heq]
          · rw [if_neg (fun h => heq h.1), stops_of_ne h₁.1 h₂.1]
            simp [heq, Ne.symm heq]

theorem kStrncmp_size_zero (h₁ : 0 ∉ s₁) (h₂ : 0 ∉ s₂) :
  kStrncmp (some s₁) (some s₂) (0 : Nat) = 0 ↔ s₁ = [] ∨ s₂ = [] ∨ s₁.head? = s₂.head?
  := by
  rw [kStrncmp_eq_zero]
  cases s₁ with
  | nil => simp [kStrncmp.loop, Stops]
  | cons c s₁ =>
      cases s₂ with
      | nil => simp [kStrncmp.loop, Stops]
      | cons c' s₂ =>
          rw [List.mem_cons, not_or] at h₁ h₂
          rw [kStrncmp.loop, if_neg (fun h => h.2 rfl), stops_of_ne h₁.1 h₂.1]
          simp

/-- The characters of `tty`. -/
def tty : List UInt8 :=
  [116, 116, 121]

/-- `k_strncmp` is zero for strings that agree up to the size, and not for others, exactly when
they are told apart there; so `sys_open` takes a path for a terminal's that begins with `tty`, and
only such a one, unless it is itself shorter and `tty` begins with it. -/
theorem kStrncmp_iff (h₁ : 0 ∉ s₁) (h₂ : 0 ∉ s₂) (size : Nat) :
  ((kStrncmp (some s₁) (some s₂) size = 0 ↔ s₁.take size = s₂.take size) ↔ Told s₁ s₂ size)
    ∧ ((kStrncmp (some s₁) (some tty) 3 = 0 ↔ tty <+: s₁)
      ↔ s₁ ≠ [] ∧ s₁ ≠ [116] ∧ s₁ ≠ [116, 116])
  := by
  constructor
  · rw [Told]
    split_ifs with hzero
    · rw [hzero, kStrncmp_size_zero h₁ h₂, List.take_zero, List.take_zero]
      exact iff_true_right rfl
    · rw [kStrncmp_eq_zero_iff h₁ h₂ (by omega), take_eq_take_iff]
      by_cases heq : s₁ = s₂
      · simp [heq]
      · simp only [heq, false_or, ← not_le]
        tauto
  · have htty : 0 ∉ tty := by decide
    have hthree : ((3 : Nat) : Int) ≠ 0 := by decide
    have hzero := kStrncmp_eq_zero_iff h₁ htty hthree
    change kStrncmp (some s₁) (some tty) 3 = 0 ↔ _ at hzero
    have hinits : s₁ <+: tty ↔ s₁ = [] ∨ s₁ = [116] ∨ s₁ = [116, 116] ∨ s₁ = tty := by
      rw [← List.mem_inits]
      simp [tty]
    have hself : s₁ = tty → tty <+: s₁ := by
      rintro rfl
      apply List.prefix_refl
    have hshort : s₁ = [] ∨ s₁ = [116] ∨ s₁ = [116, 116] → ¬ tty <+: s₁ := by
      rintro (rfl | rfl | rfl) <;> decide
    rw [hzero, hinits]
    by_cases hwhole : tty <+: s₁
    · refine iff_of_true (iff_of_true (.inr hwhole) hwhole) ⟨?_, ?_, ?_⟩
      · exact fun h => hshort (.inl h) hwhole
      · exact fun h => hshort (.inr (.inl h)) hwhole
      · exact fun h => hshort (.inr (.inr h)) hwhole
    · have hne : s₁ ≠ tty := fun h => hwhole (hself h)
      rw [or_iff_left hwhole, iff_false_right hwhole]
      simp only [hne, or_false, not_or, ne_eq]

/-- `tty:0` is told from `tty`, and taken for a terminal's. -/
theorem kStrncmp_iff_tty :
  (kStrncmp (some (tty ++ [58, 48])) (some tty) (3 : Nat) = 0
      ↔ (tty ++ [58, 48]).take 3 = tty.take 3)
    ∧ (kStrncmp (some (tty ++ [58, 48])) (some tty) 3 = 0 ↔ tty <+: tty ++ [58, 48])
  := by
  have hdisk : 0 ∉ tty ++ [58, 48] := by decide
  have hzero : 0 ∉ tty := by decide
  obtain ⟨htold, htty⟩ := kStrncmp_iff hdisk hzero 3
  use htold.mpr (by unfold Told; decide)
  apply htty.mpr
  decide

/-- `ttyA` and `ttyB` agree up to 3, but are not found to; and `t` is found to agree with `tty`. -/
theorem not_kStrncmp_tty :
  (kStrncmp (some (tty ++ [65])) (some (tty ++ [66])) 3 = 1
      ∧ (tty ++ [65]).take 3 = (tty ++ [66]).take 3)
    ∧ kStrncmp (some [116]) (some tty) 3 = 0 ∧ ([116] : List UInt8).take 3 ≠ tty.take 3
      ∧ ¬ tty <+: [116]
  := by decide

/-- The comparison in the model of `sys_open`, which has no size. -/
theorem kStrncmp_some (h₁ : 0 ∉ s₁) (h₂ : 0 ∉ s₂) (hsize : (size : Int) ≠ 0) :
  kStrncmp (some s₁) (some s₂) size = 0 ↔ Dmos.kStrncmp s₁ s₂ = 0
  := by
  rw [kStrncmp_eq_zero]
  induction s₁ generalizing s₂ with
  | nil => simp [kStrncmp.loop, Stops, Dmos.kStrncmp]
  | cons c s₁ ih =>
      cases s₂ with
      | nil => simp [kStrncmp.loop, Stops, Dmos.kStrncmp]
      | cons c' s₂ =>
          rw [List.mem_cons, not_or] at h₁ h₂
          rw [kStrncmp.loop, Dmos.kStrncmp]
          by_cases heq : c = c'
          · rw [if_pos ⟨heq, hsize⟩, if_pos heq, ih h₁.2 h₂.2]
          · rw [if_neg (fun h => heq h.1), if_neg heq, stops_of_ne h₁.1 h₂.1]
            simp [heq]

end Compare

end Dmos.Klib
