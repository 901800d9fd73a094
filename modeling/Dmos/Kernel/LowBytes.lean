import Dmos.Kernel.UserPages

/-!
# Bytes below the frames

What the kernel keeps below the range of the allocator, such as the buffer of a file, has no part
in mapping pages: with other bytes there the same pages are mapped to the same frames
(`memoryAllocForPageDir_withBytes`).
-/

open ByteMemory AddressSpace Loop

namespace Dmos

namespace Kernel

/-- The machine with the `n` bytes `b` at `a`. -/
def withBytes (s : Kernel) (a n : Nat) (b : Nat → UInt8) : Kernel :=
  s.setMem (put s.mem a n b)

variable {s s' : Kernel} {live : Set Nat} {d a n : Nat} (b : Nat → UInt8)

@[simp]
theorem withBytes_mem (s : Kernel) (a n : Nat) :
  (s.withBytes a n b).mem = put s.mem a n b
  := rfl

@[simp]
theorem withBytes_free (s : Kernel) (a n : Nat) :
  (s.withBytes a n b).free = s.free
  := rfl

theorem addrFreePage_withBytes (s : Kernel) (a n x k : Nat) :
  (s.withBytes a n b).addrFreePage x k = (s.addrFreePage x k).withBytes a n b
  := rfl

theorem load_withBytes {x : Nat} (h : x + 4 ≤ a ∨ a + n ≤ x) :
  (s.withBytes a n b).load x = s.load x
  := load32_put_of_disjoint _ _ h

theorem tableAt_put {m : Memory} {i : Nat} (ha : a + n ≤ d) :
  tableAt (put m a n b) d i = tableAt m d i
  := by
  unfold tableAt
  rw [load32_put_of_disjoint _ _ (by omega)]

theorem Frames.dir_ge (hf : Frames s live) (hd : d ∈ live) :
  memExtStart ≤ d
  := (hf.range.marked_bounds (hf.marked_dir hd)).2.1

theorem Frames.table_ge (hf : Frames s live) (hd : d ∈ live) {i t : Nat} (hlo : 512 ≤ i)
    (hi : i < 1024) (ht : tableAt s.mem d i = some t) :
  memExtStart ≤ t
  := (hf.range.marked_bounds (hf.marked_table hd hlo hi ht)).2.1

theorem Frames.withBytes (hf : Frames s live) (ha : a + n ≤ memExtStart)
    (hbase : a + n ≤ s.layout.gKernelPageDir ∨ s.layout.gKernelPageDir + 4096 ≤ a) :
  Frames (s.withBytes a n b) live
  := by
  have hapart : s.Apart live a n := by
    intro f hmem
    have hlow : memExtStart ≤ f := by
      rcases hmem with hfree | ⟨p, hp⟩
      · apply (hf.range.free_bounds hfree).2.1
      · apply (hf.range.marked_bounds (hf.exclusive.used_of_owns hp)).2.1
    omega
  apply hapart.frames _ hf hbase
  intro x hx
  apply put_outside
  omega

/-! ### One page -/

/-- What mapping a page comes to is determined. -/
theorem MapFresh.unique {v perm : Nat} {r r' : Option Request} {t t' : Kernel}
    (h : MapFresh s d v perm r t) (h' : MapFresh s d v perm r' t') :
  r = r' ∧ t = t'
  := by
  cases h with
  | noPage hfree =>
      cases h' <;> simp_all
  | mapped hfree htable =>
      cases h' <;> simp_all
  | noTable hfree htable =>
      cases h' <;> simp_all
  | mappedNew hfree htable =>
      cases h' <;> simp_all

theorem MapFresh.withBytes {v perm : Nat} {r : Option Request} (h : MapFresh s d v perm r s')
    (hd : a + n ≤ d) (htable : ∀ t, tableAt s.mem d (v / 1024) = some t → a + n ≤ t)
    (hfree : ∀ f ∈ s.free, a + n ≤ f) :
  MapFresh (s.withBytes a n b) d v perm r (s'.withBytes a n b)
  := by
  have hsame : tableAt (s.withBytes a n b).mem d (v / 1024) = tableAt s.mem d (v / 1024) :=
    tableAt_put b hd
  have hfree' : (s.withBytes a n b).free = s.free := rfl
  cases h with
  | noPage hnone => exact .noPage (hfree'.trans hnone)
  | @mapped f t rest hcons ht =>
      have hput := put_store32 s.mem (mapWord perm f) b
        (show t + 4 * (v % 1024) + 4 ≤ a ∨ a + n ≤ t + 4 * (v % 1024) by have := htable t ht; omega)
      have hmapped : MapFresh (s.withBytes a n b) d v perm none _ :=
        .mapped (hfree'.trans hcons) (hsame.trans ht)
      rw [withBytes_mem, ← hput] at hmapped
      exact hmapped
  | noTable hone hnone => exact .noTable (hfree'.trans hone) (hsame.trans hnone)
  | @mappedNew f t rest hcons hnone =>
      have ht : a + n ≤ t := by
        apply hfree
        rw [hcons]
        simp
      have hmapped : MapFresh (s.withBytes a n b) d v perm none _ :=
        .mappedNew (hfree'.trans hcons) (hsame.trans hnone)
      rw [withBytes_mem, Nodes.install, ← put_store32 _ _ _ (by omega),
        ← put_fill _ _ _ (by omega), ← put_store32 _ _ _ (by omega)] at hmapped
      exact hmapped

section Alloc

variable (hd : d ∈ live) (ha : a + n ≤ memExtStart)

include hd ha

theorem mapFresh_withBytes (hf : Frames s live) (perm : Nat) {cv : Nat} (hcv : cv < 2 ^ 32)
    (hlo : 512 ≤ cv / 4096 / 1024) :
  (s.withBytes a n b).mapFresh d cv perm
    = ((s.mapFresh d cv perm).1, (s.mapFresh d cv perm).2.withBytes a n b)
  := by
  have htable (t : Nat) (ht : tableAt s.mem d (cv / 4096 / 1024) = some t) : memExtStart ≤ t :=
    hf.table_ge hd hlo (by omega) ht
  have hdir := hf.dir_ge hd
  have hstep := mapFresh_cases d cv perm hf.range (by
    intro _ t ht
    have hlow := htable t ht
    unfold memExtStart at hlow
    omega)
  have hstep' := mapFresh_cases (s := s.withBytes a n b) d cv perm hf.range (by
    intro _ t ht
    rw [withBytes_mem, tableAt_put b (by omega)] at ht
    have hlow := htable t ht
    unfold memExtStart at hlow
    omega)
  have hsame := hstep.withBytes b (ha.trans hdir) (fun t ht => ha.trans (htable t ht))
    (fun f hmem => ha.trans (hf.range.free_bounds hmem).2.1)
  obtain ⟨hfst, hsnd⟩ := hstep'.unique hsame
  rw [← hsnd, ← hfst]

/-! ### A range of pages -/

theorem allocPasses_withBytes (hf : Frames s live) {perm : Nat} (hperm : perm < 4096) (base : Nat)
    {k i cv : Nat} (hcv : cv < 2 ^ 32) (hlo : ∀ v ∈ pagesFrom cv k, 512 ≤ v / 1024) :
  forLoop (memoryAllocForPageDir.pass d base perm) i k (cv, s.withBytes a n b)
    = match forLoop (memoryAllocForPageDir.pass d base perm) i k (cv, s) with
      | .ok (cv', s') => .ok (cv', s'.withBytes a n b)
      | .error (r, s') => .error (r, s'.withBytes a n b)
  := by
  induction k generalizing i cv s with
  | zero => rfl
  | succ k ih =>
      have hfirst := hlo (cv / 4096) List.mem_cons_self
      have hstep := mapFresh_cases d cv perm hf.range (by
        intro _ t ht
        have hlow := hf.table_ge hd hfirst (by omega) ht
        unfold memExtStart at hlow
        omega)
      have hbuilt := Built.of_mapFresh hstep hf.range hf.nodes hd hfirst (by omega) hperm
      have hf' := hf.built hd hbuilt
      rw [forLoop, forLoop, pass_eq, pass_eq, mapFresh_withBytes b hd ha hf perm hcv hfirst]
      generalize s.mapFresh d cv perm = p at hf'
      obtain ⟨_ | q, s₁⟩ := p
      · apply ih hf' (u32_lt _)
        intro v hv
        apply hlo v (List.mem_cons_of_mem _ hv)
      · cases q with
        | page => rfl
        | table =>
            dsimp only
            rw [addrFreePage_withBytes]

/-- With other bytes below the frames the same pages are mapped. -/
theorem memoryAllocForPageDir_withBytes (hf : Frames s live) {perm : Nat} (hperm : perm < 4096)
    {vaddr size : Nat} (hbase : memoryTaskBase ≤ vaddr) (hend : vaddr + size ≤ 2 ^ 32)
    (hlt : vaddr < 2 ^ 32) :
  (s.withBytes a n b).memoryAllocForPageDir d vaddr size perm
    = ((s.memoryAllocForPageDir d vaddr size perm).1,
        (s.memoryAllocForPageDir d vaddr size perm).2.withBytes a n b)
  := by
  have hpasses := allocPasses_withBytes b hd ha hf hperm (down2 vaddr memPageSize) (i := 0) hlt
    fun v hv => (allocPages_user hbase hend hlt hv).1
  rw [memoryAllocForPageDir, memoryAllocForPageDir, hpasses]
  rcases forLoop (memoryAllocForPageDir.pass d (down2 vaddr memPageSize) perm) 0
    (up2 size memPageSize / memPageSize) (vaddr, s) with ⟨r, s'⟩ | ⟨cv, s'⟩ <;> rfl

end Alloc

end Kernel

end Dmos
