import Dmos.Library.ByteMemory
import Mathlib.Data.List.Basic

/-!
# Memory with a log of its stores

A log has the memory it started from and all bytes that were stored since, the latest first.
What is read is the latest byte stored at an address (`Log.byte`), so an address where nothing
was stored still has its first byte.  `Within` says where a piece of code has stored.

A text is a sequence of bytes in memory (`Text`), and a string is a text without null bytes that
ends with one (`CString`).
-/

open ByteMemory

namespace StoreLog

/-- A memory and the stores into it. -/
structure Log where
  base : Memory
  stores : List (Nat × UInt8)

namespace Log

def store (r : Log) (a : Nat) (b : UInt8) : Log :=
  { r with stores := (a, b) :: r.stores }

/-- The memory after the stores. -/
def byte (r : Log) : Memory :=
  r.stores.foldr (fun p m => store8 m p.1 p.2) r.base

variable {r r' r'' : Log} {a x lo hi lo' hi' : Nat} {b : UInt8}

theorem byte_store_self (r : Log) (a : Nat) (b : UInt8) :
  (r.store a b).byte a = b
  := store8_same _ _ _

theorem byte_store_of_ne (r : Log) (b : UInt8) (h : x ≠ a) :
  (r.store a b).byte x = r.byte x
  := store8_of_ne _ _ h

/-- The stores since `r` are to the addresses from `lo` on and below `hi`. -/
def Within (r r' : Log) (lo hi : Nat) : Prop :=
  r'.base = r.base ∧ ∃ new, r'.stores = new ++ r.stores ∧ ∀ p ∈ new, lo ≤ p.1 ∧ p.1 < hi

theorem Within.refl (r : Log) (lo hi : Nat) :
  Within r r lo hi
  := ⟨rfl, [], rfl, nofun⟩

theorem Within.trans (h : Within r r' lo hi) (h' : Within r' r'' lo hi) :
  Within r r'' lo hi
  := by
  obtain ⟨hbase, new, hnew, hall⟩ := h
  obtain ⟨hbase', new', hnew', hall'⟩ := h'
  refine ⟨hbase'.trans hbase, new' ++ new, ?_, ?_⟩
  · rw [hnew', hnew, List.append_assoc]
  · intro p hp
    rcases List.mem_append.mp hp with hp | hp
    · apply hall' p hp
    · apply hall p hp

theorem Within.mono (h : Within r r' lo hi) (hlo : lo' ≤ lo) (hhi : hi ≤ hi') :
  Within r r' lo' hi'
  := by
  obtain ⟨hbase, new, hnew, hall⟩ := h
  refine ⟨hbase, new, hnew, ?_⟩
  intro p hp
  have hrange := hall p hp
  omega

theorem within_store (r : Log) (a : Nat) (b : UInt8) :
  Within r (r.store a b) a (a + 1)
  := by
  refine ⟨rfl, [(a, b)], rfl, ?_⟩
  intro p hp
  rw [List.mem_singleton.mp hp]
  omega

/-- Nothing changes where nothing is stored. -/
theorem Within.byte (h : Within r r' lo hi) (hx : x < lo ∨ hi ≤ x) :
  r'.byte x = r.byte x
  := by
  obtain ⟨hbase, new, hnew, hall⟩ := h
  rw [Log.byte, hnew, hbase, List.foldr_append]
  change new.foldr _ r.byte x = r.byte x
  clear hnew
  induction new with
  | nil => rfl
  | cons p new ih =>
      have hp := hall p List.mem_cons_self
      rw [List.foldr_cons, store8_of_ne _ _ (by omega)]
      apply ih
      intro p hp
      apply hall p (List.mem_cons_of_mem _ hp)

/-- From an empty log on, these are all stores. -/
theorem Within.stores (h : Within r r' lo hi) (hempty : r.stores = []) :
  ∀ p ∈ r'.stores, lo ≤ p.1 ∧ p.1 < hi
  := by
  obtain ⟨-, new, hnew, hall⟩ := h
  rw [hnew, hempty, List.append_nil]
  exact hall

end Log

/-! ### Texts and strings -/

variable {m m' : Memory} {a n : Nat} {c : UInt8} {cs ds : List UInt8}

/-- The bytes `cs` are in memory, from `a` on. -/
def Text (m : Memory) : Nat → List UInt8 → Prop
  | _, [] => True
  | a, c :: cs => m a = c ∧ Text m (a + 1) cs

/-- The string `cs` is in memory, from `a` on. -/
structure CString (m : Memory) (a : Nat) (cs : List UInt8) : Prop where
  text : Text m a cs
  null : m (a + cs.length) = 0
  nonzero : ∀ c ∈ cs, c ≠ 0

theorem text_iff :
  Text m a cs ↔ ∀ i (h : i < cs.length), m (a + i) = cs[i]
  := by
  induction cs generalizing a with
  | nil => exact iff_of_true trivial nofun
  | cons c cs ih =>
      rw [Text, ih]
      constructor
      · rintro ⟨hfirst, hrest⟩ i h
        cases i with
        | zero => exact hfirst
        | succ i =>
            rw [show a + (i + 1) = a + 1 + i by omega]
            apply hrest
      · intro h
        use h 0 (Nat.zero_lt_succ _)
        intro i hi
        rw [show a + 1 + i = a + (i + 1) by omega]
        apply h (i + 1) (Nat.succ_lt_succ hi)

theorem text_append :
  Text m a (cs ++ ds) ↔ Text m a cs ∧ Text m (a + cs.length) ds
  := by
  induction cs generalizing a with
  | nil => simp [Text]
  | cons c cs ih =>
      rw [List.cons_append, Text, Text, ih, and_assoc, List.length_cons,
        show a + 1 + cs.length = a + (cs.length + 1) by omega]

/-- A text depends on its own bytes only. -/
theorem Text.congr (h : Text m a cs) (heq : ∀ x, a ≤ x → x < a + cs.length → m' x = m x) :
  Text m' a cs
  := by
  rw [text_iff] at h ⊢
  intro i hi
  rw [heq (a + i) (by omega) (by omega)]
  apply h i hi

theorem cString_nil_iff :
  CString m a [] ↔ m a = 0
  := by
  constructor
  · intro h
    exact h.null
  · intro h
    exact ⟨trivial, h, nofun⟩

theorem cString_cons_iff :
  CString m a (c :: cs) ↔ m a = c ∧ c ≠ 0 ∧ CString m (a + 1) cs
  := by
  have hend : a + (c :: cs).length = a + 1 + cs.length := by
    rw [List.length_cons]
    omega
  constructor
  · rintro ⟨⟨hfirst, hrest⟩, hnull, hnonzero⟩
    rw [hend] at hnull
    refine ⟨hfirst, hnonzero c List.mem_cons_self, hrest, hnull, ?_⟩
    intro d hd
    apply hnonzero d (List.mem_cons_of_mem _ hd)
  · rintro ⟨hfirst, hc, hrest⟩
    refine ⟨⟨hfirst, hrest.text⟩, ?_, ?_⟩
    · rw [hend]
      apply hrest.null
    · intro d hd
      rcases List.mem_cons.mp hd with rfl | hd
      · exact hc
      · apply hrest.nonzero d hd

/-- In one place there is one string. -/
theorem CString.unique (h : CString m a cs) (h' : CString m a ds) :
  cs = ds
  := by
  induction cs generalizing a ds with
  | nil =>
      cases ds with
      | nil => rfl
      | cons d ds =>
          obtain ⟨hfirst, hd, -⟩ := cString_cons_iff.mp h'
          rw [cString_nil_iff, hfirst] at h
          cases hd h
  | cons c cs ih =>
      obtain ⟨hfirst, hc, hrest⟩ := cString_cons_iff.mp h
      cases ds with
      | nil =>
          rw [cString_nil_iff, hfirst] at h'
          cases hc h'
      | cons d ds =>
          obtain ⟨hfirst', -, hrest'⟩ := cString_cons_iff.mp h'
          rw [ih hrest hrest', ← hfirst, hfirst']

/-- A string depends on its own bytes only, up to the null byte. -/
theorem CString.congr (h : CString m a cs)
    (heq : ∀ x, a ≤ x → x ≤ a + cs.length → m' x = m x) :
  CString m' a cs
  where
  text := h.text.congr (fun x hx hx' => heq x hx (le_of_lt hx'))
  null := by
    rw [heq _ (Nat.le_add_right _ _) (le_refl _)]
    apply h.null
  nonzero := h.nonzero

end StoreLog
