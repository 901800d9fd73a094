import Dmos.Kernel.FreePage
import Dmos.Kernel.UserPages
import Dmos.Task.Exec

/-!
# Loading a segment

`load_phdr` takes the size of the memory it maps and the number of bytes it reads from two
fields of a header that need not agree, and reads up to a page at a time to the physical
address behind the user address it has come to.  `loadPhdr.calls` lists the calls of `sys_read`
it makes, with the states they are made in.  Their bytes go where they belong, and what is not
refused is loaded, exactly when the segment fits the pages that are mapped for it
(`loadPhdr_inside`).
-/

open ByteMemory AddressSpace

namespace Dmos

/-- A call of `sys_read` in `load_phdr`: the state it is made in, the user address whose bytes it
is for, and its arguments. -/
structure ReadCall where
  kernel : Kernel
  fs : TempFile
  vaddr : Nat
  ptr : Nat
  len : Nat

/-- Byte `j` of the call goes to the place of its user address, in a present page. -/
structure ReadCall.Inside (c : ReadCall) (pageDir j : Nat) : Prop where
  user : memoryTaskBase ≤ c.vaddr + j
  end_le : c.vaddr + j < 2 ^ 32
  present : Present (pteAt c.kernel.mem pageDir ((c.vaddr + j) / 4096))
  place : c.ptr + j = c.kernel.physAt pageDir c.vaddr j

namespace Kernel

/-- The calls made by the loop of `loadPhdr`. -/
def loadPhdr.loop.calls (s : Kernel) (f : TempFile) (tty : Tty) (file : Int)
    (pageDir vaddr size : Nat) (fuel : Nat) : List ReadCall :=
  match fuel with
  | 0 => []
  | fuel + 1 =>
      if size = 0 then []
      else
        let currSize := if memPageSize < size then memPageSize else size
        let paddr := s.memoryGetPaddr pageDir vaddr
        ⟨s, f, vaddr, paddr, currSize⟩ ::
          match s.sysRead f tty file paddr currSize with
          | .error _ => []
          | .ok (cnt, s, f) =>
              if cnt < currSize then []
              else calls s f tty file pageDir (u32 (vaddr + currSize)) (size - currSize) fuel

/-- The calls made by `loadPhdr`. -/
def loadPhdr.calls (s : Kernel) (f : TempFile) (tty : Tty) (file : Int) (phdr pageDir : Nat) :
    List ReadCall :=
  match s.memoryAllocForPageDir pageDir (s.pVaddr phdr) (s.pMemsz phdr) (pteP ||| pteU ||| pteW)
    with
  | (err, s) =>
      if asInt err < 0 then []
      else
        match sysLseek f file (s.pOffset phdr) with
        | none => []
        | some (ret, f) =>
            if ret < 0 then []
            else
              loadPhdr.loop.calls s f tty file pageDir (s.pVaddr phdr) (s.pFilesz phdr)
                (s.pFilesz phdr)

/-- What loading a segment should do: each byte that is written goes to a page of the
directory, to the place of its user address; and what cannot be loaded so is refused.
`k_memcpy` writes nothing when one of its pointers is null. -/
structure LoadsInside (s : Kernel) (f : TempFile) (tty : Tty) (file : Int) (phdr pageDir : Nat) :
    Prop where
  inside : ∀ c ∈ loadPhdr.calls s f tty file phdr pageDir, c.ptr ≠ 0 → c.fs.tempPos ≠ 0 →
    ∀ j < c.len, c.Inside pageDir j
  refused : ∀ r t f', s.loadPhdr f tty file phdr pageDir = .ok (r, t, f') → r ≠ -1 →
    ∀ j < s.pFilesz phdr, s.pVaddr phdr + j < 2 ^ 32 ∧
      Present (pteAt t.mem pageDir ((s.pVaddr phdr + j) / 4096))

/-! ### One read -/

variable {s t : Kernel} {live : Set Nat} {d : Nat} {f : TempFile} {tty : Tty}

theorem kMemcpy_loop_returns {dest src n : Nat} (hdest : dest + n ≤ memoryTaskBase)
    (hsrc : src + n ≤ memoryTaskBase) :
  (kMemcpy.loop s dest src n).1 = 0
  := by
  induction n generalizing s dest src with
  | zero => rfl
  | succ n ih =>
      rw [kMemcpy_loop_succ (by omega) (by omega)]
      apply ih (by omega) (by omega)

/-- A read to the kernel writes what it is told to, if it returns. -/
theorem sysRead_cases (s : Kernel) (f : TempFile) (tty : Tty) {ptr len : Nat} (hptr : ptr + len ≤ memoryTaskBase) :
  (∃ t, s.sysRead f tty tempFileId ptr len = .error t)
    ∨ ∃ m, s.sysRead f tty tempFileId ptr len
        = .ok (len, s.setMem m, { f with tempPos := u32 (f.tempPos + len) })
      ∧ ∀ x, ¬ (ptr ≤ x ∧ x < ptr + len) → m x = s.mem x
  := by
  rw [sysRead, if_pos rfl]
  obtain ⟨m, hm, hsame⟩ := kMemcpy_writes (s := s) f.tempPos hptr
  generalize s.kMemcpy ptr f.tempPos len = p at hm
  obtain ⟨_ | n, s'⟩ := p
  · obtain rfl : s' = s.setMem m := hm
    right
    exact ⟨m, rfl, hsame⟩
  · left
    exact ⟨s', rfl⟩

/-- It returns when it reads from the kernel. -/
theorem sysRead_returns (s : Kernel) (tty : Tty) {ptr len : Nat}
    (hptr : ptr + len ≤ memoryTaskBase) (hpos : f.tempPos + len ≤ memoryTaskBase) :
  ∃ m, s.sysRead f tty tempFileId ptr len
      = .ok (len, s.setMem m, { f with tempPos := f.tempPos + len })
    ∧ ∀ x, ¬ (ptr ≤ x ∧ x < ptr + len) → m x = s.mem x
  := by
  have hnext : u32 (f.tempPos + len) = f.tempPos + len := by
    apply u32_of_lt
    unfold memoryTaskBase at hpos
    omega
  rcases sysRead_cases s f tty hptr with ⟨t, herror⟩ | hok
  · have hreturns := kMemcpy_loop_returns (s := s) hptr hpos
    rw [sysRead, if_pos rfl, kMemcpy] at herror
    split_ifs at herror with hnull
    · generalize kMemcpy.loop s ptr f.tempPos len = p at herror hreturns
      obtain ⟨n, s'⟩ := p
      obtain rfl : n = 0 := hreturns
      cases herror
  · rwa [hnext] at hok

/-! ### The loop -/

/-- Byte `j` from `vaddr` on belongs to a present page, and its place follows that of the byte at
which the read it is in starts. -/
structure Fits (s : Kernel) (d vaddr j : Nat) : Prop where
  user : memoryTaskBase ≤ vaddr + j
  end_le : vaddr + j < 2 ^ 32
  present : Present (pteAt s.mem d ((vaddr + j) / 4096))
  follows : s.physAt d vaddr j = s.physAt d vaddr (j / 4096 * 4096) + j % 4096

theorem physAt_shift (s : Kernel) (d lo k j : Nat) :
  s.physAt d (lo + k) j = s.physAt d lo (k + j)
  := by rw [physAt, physAt, Nat.add_assoc]

theorem fits_shift_iff {vaddr k j : Nat} (hk : k % 4096 = 0) :
  s.Fits d (vaddr + k) j ↔ s.Fits d vaddr (k + j)
  := by
  have hstart : s.physAt d (vaddr + k) (j / 4096 * 4096)
      = s.physAt d vaddr ((k + j) / 4096 * 4096) := by
    rw [physAt_shift, show (k + j) / 4096 * 4096 = k + j / 4096 * 4096 by omega]
  have hoffset : (k + j) % 4096 = j % 4096 := by omega
  constructor
  · rintro ⟨huser, hend, hpresent, hfollows⟩
    rw [Nat.add_assoc] at huser hend hpresent
    rw [physAt_shift, hstart, ← hoffset] at hfollows
    exact ⟨huser, hend, hpresent, hfollows⟩
  · rintro ⟨huser, hend, hpresent, hfollows⟩
    rw [← physAt_shift, ← hstart, hoffset] at hfollows
    rw [← Nat.add_assoc] at huser hend hpresent
    exact ⟨huser, hend, hpresent, hfollows⟩

/-- The bytes of one read. -/
theorem Fits.place {vaddr j : Nat} (h : s.Fits d vaddr j) (hj : j < 4096) :
  s.physAt d vaddr 0 + j = s.physAt d vaddr j
  := by
  have hfollows := h.follows
  rw [show j / 4096 * 4096 = 0 by omega, show j % 4096 = j by omega] at hfollows
  exact hfollows.symm

section Loop

variable (hf : Frames s live) (hd : d ∈ live)

include hf hd

/-- The physical address of a present user address. -/
theorem memoryGetPaddr_of_present {a : Nat} (hlo : memoryTaskBase ≤ a) (ha : a < 2 ^ 32)
    (hpresent : Present (pteAt s.mem d (a / 4096))) :
  s.memoryGetPaddr d a = s.physAt d a 0
  := by
  have hw : Window s d a 1 := by
    apply hf.window hd hlo (by omega)
    rintro v ⟨hle, hlt⟩
    obtain rfl : v = a / 4096 := by omega
    apply hpresent
  have haddr := hw.memoryGetPaddr_eq (m := s.mem) (k := 0) (fun _ _ => rfl) (by decide)
  apply haddr

/-- The place of a present user address is in a page. -/
theorem physAt_inPages {vaddr j : Nat} (hlo : memoryTaskBase ≤ vaddr + j)
    (hlt : vaddr + j < 2 ^ 32) (hpresent : Present (pteAt s.mem d ((vaddr + j) / 4096))) :
  s.InPages d (s.physAt d vaddr j) ∧ s.physAt d vaddr j < memoryTaskBase
  := by
  have hin : s.InPages d (s.physAt d vaddr j) := by
    unfold memoryTaskBase at hlo
    refine ⟨(vaddr + j) / 4096, by omega, by omega, hpresent, ?_, ?_⟩
    · rw [physAt]
      omega
    · rw [physAt]
      omega
  use hin
  apply (hin.bounds hf hd).2

omit hf hd in
theorem pagesOnly_of_inPages {ptr len : Nat} {m : Memory} (hin : ∀ j < len, s.InPages d (ptr + j))
    (hm : ∀ x, ¬ (ptr ≤ x ∧ x < ptr + len) → m x = s.mem x) :
  s.PagesOnly d m
  := by
  intro x hx
  apply hm
  rintro ⟨hle, hlt⟩
  obtain ⟨j, rfl⟩ := Nat.exists_eq_add_of_le hle
  apply hx
  apply hin j (by omega)

/-- What is written to pages changes no place. -/
theorem fits_setMem_iff {vaddr j : Nat} {m : Memory} (hm : s.PagesOnly d m)
    (hstart : memoryTaskBase ≤ vaddr) :
  (s.setMem m).Fits d vaddr j ↔ s.Fits d vaddr j
  := by
  unfold memoryTaskBase at hstart
  by_cases hend : vaddr + j < 2 ^ 32
  · have hentry (k : Nat) (hk : k ≤ j) :
        pteAt m d ((vaddr + k) / 4096) = pteAt s.mem d ((vaddr + k) / 4096) := by
      apply hm.pteAt_eq hf hd hd <;> omega
    have hphys (k : Nat) (hk : k ≤ j) : (s.setMem m).physAt d vaddr k = s.physAt d vaddr k := by
      rw [physAt, physAt, frameAt, frameAt, setMem_mem, hentry k hk]
    have hpage := hphys _ (show j / 4096 * 4096 ≤ j by omega)
    constructor
    · rintro ⟨huser, -, hpresent, hfollows⟩
      rw [setMem_mem, hentry j (le_refl j)] at hpresent
      rw [hphys j (le_refl j), hpage] at hfollows
      exact ⟨huser, hend, hpresent, hfollows⟩
    · rintro ⟨huser, -, hpresent, hfollows⟩
      rw [← hentry j (le_refl j)] at hpresent
      rw [← hphys j (le_refl j), ← hpage] at hfollows
      exact ⟨huser, hend, hpresent, hfollows⟩
  · exact iff_of_false (fun h => hend h.end_le) (fun h => hend h.end_le)

end Loop

/-- Bytes that fit are loaded to their places, and only pages are written. -/
theorem loadPhdr_loop_inside (hf : Frames s live) (hd : d ∈ live) (f : TempFile) (tty : Tty)
    {vaddr size : Nat} (fuel : Nat)
    (hfits : ∀ j < size, s.Fits d vaddr j) :
  (∀ c ∈ loadPhdr.loop.calls s f tty tempFileId d vaddr size fuel, ∀ j < c.len, c.Inside d j)
    ∧ ∀ r t f', loadPhdr.loop s f tty tempFileId d vaddr size fuel = .ok (r, t, f') →
      ∃ m, s.PagesOnly d m ∧ t = s.setMem m
  := by
  induction fuel generalizing s f vaddr size with
  | zero =>
      constructor
      · intro c hc
        cases hc
      · rintro r t f' heq
        cases heq
        exact ⟨s.mem, .refl s d, rfl⟩
  | succ fuel ih =>
      rw [loadPhdr.loop.calls, loadPhdr.loop]
      by_cases hzero : size = 0
      · rw [if_pos hzero, if_pos hzero]
        constructor
        · intro c hc
          cases hc
        · rintro r t f' heq
          cases heq
          exact ⟨s.mem, .refl s d, rfl⟩
      · rw [if_neg hzero, if_neg hzero]
        obtain ⟨c, hc, hpos, hcn, hpage⟩ : ∃ c, (if memPageSize < size then memPageSize else size) = c
            ∧ 0 < c ∧ c ≤ size ∧ (c = 4096 ∨ c = size ∧ c ≤ 4096) := by
          refine ⟨_, rfl, ?_⟩
          unfold memPageSize
          split_ifs <;> omega
        rw [hc]
        dsimp only
        have hfirst := hfits 0 (by omega)
        have hstart : memoryTaskBase ≤ vaddr := hfirst.user
        have hlt : vaddr < 2 ^ 32 := hfirst.end_le
        have hptr : s.memoryGetPaddr d vaddr = s.physAt d vaddr 0 :=
          memoryGetPaddr_of_present hf hd hfirst.user hfirst.end_le hfirst.present
        have hplace (j : Nat) (hj : j < c) : s.physAt d vaddr 0 + j = s.physAt d vaddr j :=
          (hfits j (by omega)).place (by omega)
        have hend : s.physAt d vaddr 0 + c ≤ memoryTaskBase := by
          have hlast := hfits (c - 1) (by omega)
          have hin := (physAt_inPages hf hd hlast.user hlast.end_le hlast.present).2
          have := hplace (c - 1) (by omega)
          omega
        rw [hptr]
        have hinside (j : Nat) (hj : j < c) :
            (⟨s, f, vaddr, s.physAt d vaddr 0, c⟩ : ReadCall).Inside d j := by
          have hj' := hfits j (by omega)
          exact ⟨hj'.user, hj'.end_le, hj'.present, hplace j hj⟩
        rcases sysRead_cases s f tty hend with ⟨t, herror⟩ | ⟨m, hok, hm⟩
        · rw [herror]
          constructor
          · intro call hcall
            obtain rfl := List.mem_singleton.mp hcall
            apply hinside
          · rintro r t f' heq
            cases heq
        · rw [hok]
          dsimp only
          rw [if_neg (lt_irrefl _), if_neg (lt_irrefl _)]
          have hpages : s.PagesOnly d m := by
            apply pagesOnly_of_inPages _ hm
            intro j hj
            have hj' := hfits j (by omega)
            rw [hplace j hj]
            apply (physAt_inPages hf hd hj'.user hj'.end_le hj'.present).1
          have hrest : ∀ j < size - c, (s.setMem m).Fits d (u32 (vaddr + c)) j := by
            intro j hj
            have hj' := hfits (c + j) (by omega)
            have hend := hj'.end_le
            rw [u32_of_lt (by omega)]
            rw [fits_shift_iff (by omega), fits_setMem_iff hf hd hpages hstart]
            apply hj'
          obtain ⟨hcalls, hresult⟩ :=
            ih (hpages.frames hf hd) { f with tempPos := u32 (f.tempPos + c) } hrest
          constructor
          · intro call hcall
            rcases List.mem_cons.mp hcall with rfl | hcall
            · apply hinside
            · apply hcalls call hcall
          · rintro r t f' heq
            obtain ⟨m', hm', rfl⟩ := hresult r t f' heq
            exact ⟨m', hpages.trans hf hd hm', rfl⟩

/-- When all that is read lies in the kernel and all that is written goes where it belongs, the
loop comes to its end, and bytes of present pages fit. -/
theorem loadPhdr_loop_fits (hf : Frames s live) (hd : d ∈ live) {vaddr size fuel : Nat}
    (hpos : f.tempPos ≠ 0) (hread : f.tempPos + size ≤ memoryTaskBase) (hfuel : size ≤ fuel)
    (hcalls : ∀ c ∈ loadPhdr.loop.calls s f tty tempFileId d vaddr size fuel,
      c.ptr ≠ 0 → c.fs.tempPos ≠ 0 → ∀ j < c.len, c.Inside d j) :
  (∃ m f', s.PagesOnly d m
      ∧ loadPhdr.loop s f tty tempFileId d vaddr size fuel = .ok (0, s.setMem m, f'))
    ∧ ((∀ j < size, memoryTaskBase ≤ vaddr + j ∧ vaddr + j < 2 ^ 32
        ∧ Present (pteAt s.mem d ((vaddr + j) / 4096))) →
      ∀ j < size, s.Fits d vaddr j)
  := by
  induction fuel generalizing s f vaddr size with
  | zero =>
      obtain rfl : size = 0 := by omega
      constructor
      · exact ⟨s.mem, f, .refl s d, rfl⟩
      · intro _ j hj
        cases hj
  | succ fuel ih =>
      rw [loadPhdr.loop.calls] at hcalls
      rw [loadPhdr.loop]
      by_cases hzero : size = 0
      · rw [if_pos hzero]
        constructor
        · exact ⟨s.mem, f, .refl s d, rfl⟩
        · intro _ j hj
          omega
      · rw [if_neg hzero] at hcalls ⊢
        obtain ⟨c, hc, hcpos, hcn, hpage⟩ : ∃ c, (if memPageSize < size then memPageSize else size) = c
            ∧ 0 < c ∧ c ≤ size ∧ (c = 4096 ∨ c = size ∧ c ≤ 4096) := by
          refine ⟨_, rfl, ?_⟩
          unfold memPageSize
          split_ifs <;> omega
        rw [hc] at hcalls ⊢
        dsimp only at hcalls ⊢
        generalize hptr : s.memoryGetPaddr d vaddr = p at hcalls ⊢
        rw [List.forall_mem_cons] at hcalls
        obtain ⟨hfirst, hcalls⟩ := hcalls
        have hplace (hp : p ≠ 0) (j : Nat) (hj : j < c) :
            (⟨s, f, vaddr, p, c⟩ : ReadCall).Inside d j :=
          hfirst hp hpos j hj
        have hin (hp : p ≠ 0) (j : Nat) (hj : j < c) :
            s.InPages d (p + j) ∧ p + j < memoryTaskBase := by
          have hj' := hplace hp j hj
          have heq : p + j = s.physAt d vaddr j := hj'.place
          rw [heq]
          exact physAt_inPages hf hd hj'.user hj'.end_le hj'.present
        -- the read returns and writes pages only
        obtain ⟨m, hok, hm⟩ : ∃ m, s.sysRead f tty tempFileId p c
            = .ok (c, s.setMem m, { f with tempPos := f.tempPos + c }) ∧ s.PagesOnly d m := by
          by_cases hp : p = 0
          · refine ⟨s.mem, ?_, .refl s d⟩
            have hnext : u32 (f.tempPos + c) = f.tempPos + c := by
              apply u32_of_lt
              unfold memoryTaskBase at hread
              omega
            rw [sysRead, if_pos rfl, kMemcpy, if_pos (.inl hp), hnext]
            rfl
          · have hend : p + c ≤ memoryTaskBase := by
              have := (hin hp (c - 1) (by omega)).2
              omega
            obtain ⟨m, hok, hm⟩ := sysRead_returns s tty hend
              (show f.tempPos + c ≤ memoryTaskBase by omega)
            exact ⟨m, hok, pagesOnly_of_inPages (fun j hj => (hin hp j hj).1) hm⟩
        rw [hok] at hcalls ⊢
        dsimp only at hcalls ⊢
        rw [if_neg (lt_irrefl _)] at hcalls ⊢
        obtain ⟨⟨m', f', hm', hloop⟩, hrest⟩ := ih (f := { f with tempPos := f.tempPos + c })
          (hm.frames hf hd) (show f.tempPos + c ≠ 0 by omega)
          (show f.tempPos + c + (size - c) ≤ memoryTaskBase by omega) (by omega) hcalls
        constructor
        · exact ⟨m', f', hm.trans hf hd hm', hloop⟩
        · intro hpresent j hj
          obtain ⟨huser, hlt, hj'⟩ := hpresent j hj
          by_cases hjc : j < c
          · obtain ⟨huser₀, hlt₀, hpresent₀⟩ := hpresent 0 (by omega)
            have hstart := memoryGetPaddr_of_present hf hd huser₀ hlt₀ hpresent₀
            rw [Nat.add_zero, hptr] at hstart
            have hp : p ≠ 0 := by
              have hbounds := (physAt_inPages hf hd huser₀ hlt₀ hpresent₀).1.bounds hf hd
              rw [hstart]
              intro hzero
              rw [hzero] at hbounds
              cases hbounds.1
            have heq : p + j = s.physAt d vaddr j := (hplace hp j hjc).place
            refine ⟨huser, hlt, hj', ?_⟩
            rw [show j / 4096 * 4096 = 0 by omega, show j % 4096 = j by omega, ← hstart, heq]
          · obtain ⟨k, rfl⟩ := Nat.exists_eq_add_of_le (Nat.le_of_not_lt hjc)
            have hnext : ∀ i < size - c, memoryTaskBase ≤ u32 (vaddr + c) + i
                ∧ u32 (vaddr + c) + i < 2 ^ 32
                ∧ Present (pteAt (s.setMem m).mem d ((u32 (vaddr + c) + i) / 4096)) := by
              intro i hi
              obtain ⟨huser, hlt, hi'⟩ := hpresent (c + i) (by omega)
              unfold memoryTaskBase at huser
              rw [u32_of_lt (by omega), Nat.add_assoc, setMem_mem,
                hm.pteAt_eq hf hd hd (by omega) (by omega)]
              exact ⟨huser, hlt, hi'⟩
            have hfits := hrest hnext k (by omega)
            have hstart : memoryTaskBase ≤ vaddr := (hpresent 0 (by omega)).1
            rwa [u32_of_lt (by omega), fits_shift_iff (by omega), fits_setMem_iff hf hd hm hstart]
              at hfits

/-! ### Segments that fit -/

/-- The entries of the user pages once memory has been allocated for a segment. -/
def entryAfter (s : Kernel) (d vaddr memsz v : Nat) : Nat :=
  ((s.space 512 d).mapAll tableIndex
    (mapsWith (pteP ||| pteU ||| pteW) (allocPages vaddr memsz))).2.entry v

/-- The place of byte `j` of the segment. -/
def placeAfter (s : Kernel) (d vaddr memsz j : Nat) : Nat :=
  ptePaddr (s.entryAfter d vaddr memsz ((vaddr + j) / 4096)) + (vaddr + j) % 4096

/-- The pages that get their frames when memory is allocated for a segment are user pages.  Those
of a range that ends above the address space are counted on from page `0`, and are those of the
kernel when frames are left for them. -/
def MapsUserPages (s : Kernel) (d vaddr memsz : Nat) : Prop :=
  ∀ v, s.Reaches d (allocPages vaddr memsz) v → 512 ≤ v / 1024

theorem mapsUserPages_of_end_le {vaddr memsz : Nat} (hbase : memoryTaskBase ≤ vaddr)
    (hlt : vaddr < 2 ^ 32) (hend : vaddr + memsz ≤ 2 ^ 32) :
  s.MapsUserPages d vaddr memsz
  := by
  intro v hv
  apply (allocPages_user hbase hend hlt hv.mem).1

/-- The pages that are mapped for the memory of the segment are user pages; and if no request for
one of their tables fails, each byte that is read belongs to a page that is present then, and its
place follows that of the byte at which its read starts. -/
structure SegmentFits (s : Kernel) (d vaddr filesz memsz : Nat) : Prop where
  mapped : s.MapsUserPages d vaddr memsz
  bytes : (s.asks 512 d (allocPages vaddr memsz))[s.free.length]? ≠ some .table →
    ∀ j < filesz, vaddr + j < 2 ^ 32
      ∧ Present (s.entryAfter d vaddr memsz ((vaddr + j) / 4096))
      ∧ s.placeAfter d vaddr memsz j = s.placeAfter d vaddr memsz (j / 4096 * 4096) + j % 4096

section Load

variable {phdr : Nat} (hf : Frames s live) (hd : d ∈ live) (hphdr : s.Apart live phdr 32)
  (huser : memoryTaskBase ≤ s.pVaddr phdr)
  (hmapped : s.MapsUserPages d (s.pVaddr phdr) (s.pMemsz phdr))

include hf hd hphdr huser hmapped

/-- Memory has been allocated for a segment, up to the failed request `r`. -/
theorem memoryAllocForPageDir_segment :
  ∃ r t, s.memoryAllocForPageDir d (s.pVaddr phdr) (s.pMemsz phdr) (pteP ||| pteU ||| pteW)
      = (if r = some .table then errorWord else 0, t)
    ∧ Built 512 live s t d
      (mapsWith (pteP ||| pteU ||| pteW) (allocPages (s.pVaddr phdr) (s.pMemsz phdr))) r
    ∧ Untouched 512 s t d ∧ t.pVaddr phdr = s.pVaddr phdr ∧ t.pFilesz phdr = s.pFilesz phdr
    ∧ t.pOffset phdr = s.pOffset phdr
  := by
  have hlt : s.pVaddr phdr < 2 ^ 32 := load32_lt _ _
  obtain ⟨r, t, hb, huntouched, hresult⟩ := memoryAllocForPageDir_run 512 hf.range hf.nodes hd
    (show pteP ||| pteU ||| pteW < 4096 by decide) huser hlt hmapped
  have hword (k : Nat) (hk : k + 4 ≤ 32) : t.load (phdr + k) = s.load (phdr + k) := by
    apply load32_congr
    intro x hx hx'
    apply hphdr.built hd hb <;> omega
  exact ⟨r, t, hresult, hb, huntouched, hword 8 (by decide), hword 16 (by decide),
    hword 4 (by decide)⟩

omit hf hd hphdr hmapped in
/-- The bytes fit in the directory as it is then. -/
theorem fits_built_iff {t : Kernel} {r : Option Request} {j : Nat}
    (hb : Built 512 live s t d
      (mapsWith (pteP ||| pteU ||| pteW) (allocPages (s.pVaddr phdr) (s.pMemsz phdr))) r) :
  t.Fits d (s.pVaddr phdr) j ↔ s.pVaddr phdr + j < 2 ^ 32
    ∧ Present (s.entryAfter d (s.pVaddr phdr) (s.pMemsz phdr) ((s.pVaddr phdr + j) / 4096))
    ∧ s.placeAfter d (s.pVaddr phdr) (s.pMemsz phdr) j
      = s.placeAfter d (s.pVaddr phdr) (s.pMemsz phdr) (j / 4096 * 4096) + j % 4096
  := by
  have hbase := huser
  unfold memoryTaskBase at hbase
  by_cases hlt : s.pVaddr phdr + j < 2 ^ 32
  · have hentry (k : Nat) (hk : k ≤ j) :
        pteAt t.mem d ((s.pVaddr phdr + k) / 4096)
          = s.entryAfter d (s.pVaddr phdr) (s.pMemsz phdr) ((s.pVaddr phdr + k) / 4096) := by
      apply hb.pteAt_eq <;> omega
    have hplace (k : Nat) (hk : k ≤ j) : t.physAt d (s.pVaddr phdr) k
        = s.placeAfter d (s.pVaddr phdr) (s.pMemsz phdr) k := by
      rw [physAt, placeAfter, frameAt, hentry k hk]
    rw [← hentry j (le_refl j), ← hplace j (le_refl j), ← hplace _ (show j / 4096 * 4096 ≤ j by omega)]
    constructor
    · rintro ⟨-, hlt, hpresent, hfollows⟩
      exact ⟨hlt, hpresent, hfollows⟩
    · rintro ⟨hlt, hpresent, hfollows⟩
      exact ⟨by omega, hlt, hpresent, hfollows⟩
  · exact iff_of_false (fun h => hlt h.end_le) (fun h => hlt h.1)

/-- The segment is refused, or it is read to the pages mapped for it. -/
theorem loadPhdr_cases (f : TempFile) (tty : Tty) (file : Int) :
  ∃ r t, Built 512 live s t d
      (mapsWith (pteP ||| pteU ||| pteW) (allocPages (s.pVaddr phdr) (s.pMemsz phdr))) r
    ∧ Untouched 512 s t d
    ∧ (r = some .table ∧ loadPhdr.calls s f tty file phdr d = []
        ∧ s.loadPhdr f tty file phdr d = .ok (-1, t, f)
      ∨ r ≠ some .table ∧ file ≠ tempFileId ∧ loadPhdr.calls s f tty file phdr d = []
        ∧ s.loadPhdr f tty file phdr d = .error t
      ∨ r ≠ some .table ∧ file = tempFileId
        ∧ loadPhdr.calls s f tty file phdr d
          = loadPhdr.loop.calls t { f with tempPos := u32 (f.tempAddr + s.pOffset phdr) } tty
            tempFileId d (s.pVaddr phdr) (s.pFilesz phdr) (s.pFilesz phdr)
        ∧ s.loadPhdr f tty file phdr d
          = loadPhdr.loop t { f with tempPos := u32 (f.tempAddr + s.pOffset phdr) } tty
            tempFileId d (s.pVaddr phdr) (s.pFilesz phdr) (s.pFilesz phdr))
  := by
  obtain ⟨r, t, hresult, hb, huntouched, hvaddr, hfilesz, hoffset⟩ :=
    memoryAllocForPageDir_segment hf hd hphdr huser hmapped
  use r, t, hb, huntouched
  rw [loadPhdr.calls, loadPhdr, hresult]
  dsimp only
  by_cases hr : r = some .table
  · left
    rw [if_pos hr, if_pos (by decide), if_pos (by decide)]
    exact ⟨hr, rfl, rfl⟩
  · right
    rw [if_neg hr, if_neg (by decide), if_neg (by decide), hvaddr, hfilesz, hoffset, sysLseek]
    by_cases hfile : file = tempFileId
    · right
      rw [if_pos hfile, hfile]
      exact ⟨hr, rfl, rfl, rfl⟩
    · left
      rw [if_neg hfile]
      exact ⟨hr, hfile, rfl, rfl⟩

end Load

section Inside

variable {phdr : Nat} (hf : Frames s live) (hd : d ∈ live) (hphdr : s.Apart live phdr 32)
  (huser : memoryTaskBase ≤ s.pVaddr phdr)

include hf hd hphdr huser

theorem SegmentFits.loadsInside
    (hfits : SegmentFits s d (s.pVaddr phdr) (s.pFilesz phdr) (s.pMemsz phdr)) (file : Int) :
  LoadsInside s f tty file phdr d
  := by
  obtain ⟨r, t, hb, -, hcase⟩ := loadPhdr_cases hf hd hphdr huser hfits.mapped f tty file
  rcases hcase with ⟨-, hcalls, hload⟩ | ⟨-, -, hcalls, hload⟩ | ⟨hr, -, hcalls, hload⟩
  · constructor
    · intro c hc
      rw [hcalls] at hc
      cases hc
    · intro r t f' heq hne
      rw [hload] at heq
      cases heq
      cases hne rfl
  · constructor
    · intro c hc
      rw [hcalls] at hc
      cases hc
    · intro r t f' heq
      rw [hload] at heq
      cases heq
  · have hbytes : ∀ j < s.pFilesz phdr, t.Fits d (s.pVaddr phdr) j := by
      intro j hj
      rw [fits_built_iff huser hb]
      apply hfits.bytes _ j hj
      rw [← hb.failed_eq]
      apply hr
    have hf' := hf.built hd hb
    obtain ⟨hinside, hresult⟩ := loadPhdr_loop_inside hf' hd
      { f with tempPos := u32 (f.tempAddr + s.pOffset phdr) } tty (s.pFilesz phdr) hbytes
    constructor
    · intro c hc _ _
      rw [hcalls] at hc
      apply hinside c hc
    · intro r' t' f' heq _ j hj
      rw [hload] at heq
      obtain ⟨m, hm, rfl⟩ := hresult _ _ _ heq
      have hj' := (fits_setMem_iff hf' hd hm huser).mpr (hbytes j hj)
      exact ⟨hj'.end_le, hj'.present⟩

theorem LoadsInside.segmentFits
    (hmapped : s.MapsUserPages d (s.pVaddr phdr) (s.pMemsz phdr))
    (hread : f.tempAddr + s.pOffset phdr + s.pFilesz phdr ≤ memoryTaskBase)
    (hinside : LoadsInside s f tty tempFileId phdr d) :
  SegmentFits s d (s.pVaddr phdr) (s.pFilesz phdr) (s.pMemsz phdr)
  := by
  obtain ⟨r, t, hb, -, hcase⟩ := loadPhdr_cases hf hd hphdr huser hmapped f tty tempFileId
  use hmapped
  intro hnot j hj
  rw [← hb.failed_eq] at hnot
  rcases hcase with ⟨hr, -⟩ | ⟨-, hne, -⟩ | ⟨-, -, hcalls, hload⟩
  · cases hnot hr
  · cases hne rfl
  · have hf' := hf.built hd hb
    have hstart := f.tempAddr_pos
    have hpos : u32 (f.tempAddr + s.pOffset phdr) = f.tempAddr + s.pOffset phdr := by
      apply u32_of_lt
      unfold memoryTaskBase at hread
      omega
    have hall := hinside.inside
    rw [hcalls] at hall
    rw [hpos] at hall hload
    obtain ⟨⟨m, f', hm, hloop⟩, hfits⟩ := loadPhdr_loop_fits hf' hd
      (f := { f with tempPos := f.tempAddr + s.pOffset phdr })
      (show f.tempAddr + s.pOffset phdr ≠ 0 by omega) hread (le_refl _) hall
    rw [← fits_built_iff huser hb]
    apply hfits _ j hj
    intro i hi
    obtain ⟨hlt, hpresent⟩ := hinside.refused 0 _ _ (hload.trans hloop) (by decide) i hi
    have hbase := huser
    unfold memoryTaskBase at hbase
    rw [setMem_mem, hm.pteAt_eq hf' hd hd (by omega) (by omega)] at hpresent
    exact ⟨by omega, hlt, hpresent⟩

/-- A segment that fits is loaded inside its pages or refused, wherever its bytes are read from;
and a segment for which user pages are mapped, and whose bytes are read from the kernel, must fit
for that. -/
theorem loadPhdr_inside :
  (SegmentFits s d (s.pVaddr phdr) (s.pFilesz phdr) (s.pMemsz phdr) →
      ∀ file, LoadsInside s f tty file phdr d)
    ∧ (s.MapsUserPages d (s.pVaddr phdr) (s.pMemsz phdr) →
      f.tempAddr + s.pOffset phdr + s.pFilesz phdr ≤ memoryTaskBase →
      LoadsInside s f tty tempFileId phdr d →
      SegmentFits s d (s.pVaddr phdr) (s.pFilesz phdr) (s.pMemsz phdr))
  := by
  constructor
  · intro hfits file
    apply hfits.loadsInside hf hd hphdr huser
  · intro hmapped hread hinside
    apply hinside.segmentFits hf hd hphdr huser hmapped hread

end Inside

/-! ### Headers -/

/-- The machine with a header at `a`. -/
def withHeader (s : Kernel) (a vaddr filesz memsz : Nat) : Kernel :=
  (((s.store (a + 4) 0).store (a + 8) vaddr).store (a + 16) filesz).store (a + 20) memsz

section Header

variable (s : Kernel) (a vaddr filesz memsz : Nat)

theorem pOffset_withHeader :
  (s.withHeader a vaddr filesz memsz).pOffset a = 0
  := by
  rw [withHeader, pOffset, load, store_mem, load32_store32_of_disjoint _ _ (by omega), store_mem,
    load32_store32_of_disjoint _ _ (by omega), store_mem,
    load32_store32_of_disjoint _ _ (by omega), store_mem, load32_store32 _ _ (by decide)]

theorem pVaddr_withHeader (h : vaddr < 2 ^ 32) :
  (s.withHeader a vaddr filesz memsz).pVaddr a = vaddr
  := by
  rw [withHeader, pVaddr, load, store_mem, load32_store32_of_disjoint _ _ (by omega), store_mem,
    load32_store32_of_disjoint _ _ (by omega), store_mem, load32_store32 _ _ h]

theorem pFilesz_withHeader (h : filesz < 2 ^ 32) :
  (s.withHeader a vaddr filesz memsz).pFilesz a = filesz
  := by
  rw [withHeader, pFilesz, load, store_mem, load32_store32_of_disjoint _ _ (by omega), store_mem,
    load32_store32 _ _ h]

theorem pMemsz_withHeader (h : memsz < 2 ^ 32) :
  (s.withHeader a vaddr filesz memsz).pMemsz a = memsz
  := by
  rw [withHeader, pMemsz, load, store_mem, load32_store32 _ _ h]

theorem withHeader_mem {x : Nat} (h : ¬ (a ≤ x ∧ x < a + 32)) :
  (s.withHeader a vaddr filesz memsz).mem x = s.mem x
  := by
  rw [withHeader, store_mem, store32_of_disjoint _ _ (by omega), store_mem,
    store32_of_disjoint _ _ (by omega), store_mem, store32_of_disjoint _ _ (by omega), store_mem,
    store32_of_disjoint _ _ (by omega)]

theorem withHeader_layout :
  (s.withHeader a vaddr filesz memsz).layout = s.layout
  := rfl

theorem withHeader_free :
  (s.withHeader a vaddr filesz memsz).free = s.free
  := rfl

end Header

/-- Nothing below the range of the allocator is in a frame of it. -/
theorem Frames.low_apart (hf : Frames s live) :
  s.Apart live 0 memExtStart
  := by
  rintro g (hg | ⟨p, hp⟩)
  · have hbounds := hf.range.free_bounds hg
    omega
  · have hbounds := hf.range.marked_bounds (hf.exclusive.used_of_owns hp)
    omega

theorem Frames.header_apart (hf : Frames s live) {a : Nat} (ha : a + 32 ≤ memExtStart) :
  s.Apart live a 32
  := by
  intro f hmem
  have := hf.low_apart f hmem
  omega

/-- A header is no part of a directory. -/
theorem Frames.withHeader (hf : Frames s live) {a : Nat} (ha : a + 32 ≤ memExtStart)
    (hbase : a + 32 ≤ s.layout.gKernelPageDir ∨ s.layout.gKernelPageDir + 4096 ≤ a)
    (vaddr filesz memsz : Nat) :
  Frames (s.withHeader a vaddr filesz memsz) live
  := (hf.header_apart ha).frames (fun _ => s.withHeader_mem a vaddr filesz memsz) hf hbase

theorem Frames.pteAt_withHeader (hf : Frames s live) (hd : d ∈ live) {a : Nat}
    (ha : a + 32 ≤ memExtStart) (vaddr filesz memsz : Nat) {v : Nat} (hlo : 512 ≤ v / 1024)
    (hv : v < 2 ^ 20) :
  pteAt (s.withHeader a vaddr filesz memsz).mem d v = pteAt s.mem d v
  := (hf.header_apart ha).pteAt_eq (fun _ => s.withHeader_mem a vaddr filesz memsz) hd hlo hv

/-- The machine of `bootPage`, with a header at an address of the kernel. -/
def bootHeader (vaddr filesz memsz : Nat) : Kernel :=
  ((((bootPage 9).store (0x70000 + 4) 0).store (0x70000 + 8) vaddr).store (0x70000 + 16)
    filesz).store (0x70000 + 20) memsz

section Header

variable (vaddr filesz memsz : Nat)

theorem pOffset_bootHeader :
  (bootHeader vaddr filesz memsz).pOffset 0x70000 = 0
  := pOffset_withHeader _ _ _ _ _

theorem pVaddr_bootHeader (h : vaddr < 2 ^ 32) :
  (bootHeader vaddr filesz memsz).pVaddr 0x70000 = vaddr
  := pVaddr_withHeader _ _ _ _ _ h

theorem pFilesz_bootHeader (h : filesz < 2 ^ 32) :
  (bootHeader vaddr filesz memsz).pFilesz 0x70000 = filesz
  := pFilesz_withHeader _ _ _ _ _ h

theorem pMemsz_bootHeader (h : memsz < 2 ^ 32) :
  (bootHeader vaddr filesz memsz).pMemsz 0x70000 = memsz
  := pMemsz_withHeader _ _ _ _ _ h

theorem bootHeader_frames :
  Frames (bootHeader vaddr filesz memsz) {1024 * 1024}
    ∧ ∀ v, 512 ≤ v / 1024 → v < 2 ^ 20 →
      pteAt (bootHeader vaddr filesz memsz).mem (1024 * 1024) v
        = pteAt (bootPage 9).mem (1024 * 1024) v
  := by
  have hf := bootPage_frames (show 3 ≤ 9 by decide) (by decide)
  have hbase := bootPage_base (show 3 ≤ 9 by decide) (by decide)
  constructor
  · apply hf.withHeader (by decide)
    rw [hbase]
    decide
  · intro v hlo hv
    apply hf.pteAt_withHeader rfl (by decide) _ _ _ hlo hv

theorem bootHeader_apart :
  (bootHeader vaddr filesz memsz).Apart {1024 * 1024} 0x70000 32
  := (bootHeader_frames vaddr filesz memsz).1.header_apart (by decide)

/-- The page of `bootPage` is the only one that is present. -/
theorem bootHeader_present_iff {v : Nat} (hlo : 512 ≤ v / 1024) (hv : v < 2 ^ 20) :
  Present (pteAt (bootHeader vaddr filesz memsz).mem (1024 * 1024) v) ↔ v = 524288
  := by
  have hpages := bootPage_userPages (show 3 ≤ 9 by decide) (by decide)
  rw [(bootHeader_frames vaddr filesz memsz).2 v hlo hv]
  have hmem : v ∈ userPages (bootPage 9).mem (1024 * 1024)
      ↔ Present (pteAt (bootPage 9).mem (1024 * 1024) v) := by
    rw [mem_presentPages]
    constructor
    · intro h
      apply h.2
    · intro h
      exact ⟨⟨by omega, by omega⟩, h⟩
  rw [← hmem, hpages, List.mem_singleton]

end Header

/-- A header that asks for no memory maps nothing. -/
theorem allocPages_zero (vaddr : Nat) :
  allocPages vaddr 0 = []
  := rfl

theorem entryAfter_of_nil (s : Kernel) (d : Nat) {vaddr memsz v : Nat}
    (hnil : allocPages vaddr memsz = []) (hlo : 512 ≤ v / 1024) (hv : v < 2 ^ 20) :
  s.entryAfter d vaddr memsz v = pteAt s.mem d v
  := by
  rw [entryAfter, hnil, mapsWith, List.map_nil, AddressSpace.Space.mapAll_nil]
  exact space_entry hlo hv

theorem mapsUserPages_of_nil {vaddr memsz : Nat} (hnil : allocPages vaddr memsz = []) :
  s.MapsUserPages d vaddr memsz
  := by
  intro v hv
  have hmem := hv.mem
  rw [hnil] at hmem
  cases hmem

/-- Bytes for the page that is mapped already. -/
theorem segmentFits_bootHeader {filesz memsz : Nat} (h : filesz ≤ 4096)
    (hnil : allocPages 0x80000000 memsz = []) :
  SegmentFits (bootHeader 0x80000000 filesz memsz) (1024 * 1024) 0x80000000 filesz memsz
  := by
  constructor
  · apply mapsUserPages_of_nil hnil
  · intro _ j hj
    have hpage (k : Nat) (hk : k < 4096) : (0x80000000 + k) / 4096 = 524288 := by omega
    have hentry := entryAfter_of_nil (bootHeader 0x80000000 filesz memsz) (1024 * 1024) hnil
      (show 512 ≤ 524288 / 1024 by decide) (by decide)
    rw [placeAfter, placeAfter, hpage j (by omega), hpage _ (by omega), hentry]
    refine ⟨by omega, ?_, by omega⟩
    apply (bootHeader_present_iff _ _ _ _ _).mpr rfl <;> decide

/-- The number of pages for `0xFFFFFFFF` bytes comes to `0`, and the bytes are those of the page
that is mapped already. -/
theorem loadPhdr_inside_bootHeader :
  SegmentFits (bootHeader 0x80000000 8 0xFFFFFFFF) (1024 * 1024) 0x80000000 8 0xFFFFFFFF
    ∧ ∀ file, LoadsInside (bootHeader 0x80000000 8 0xFFFFFFFF)
      ⟨0x60000, by decide, by decide, 0x60000, fun _ => 0⟩ ⟨0, 0, []⟩ file 0x70000 (1024 * 1024)
  := by
  have hf := (bootHeader_frames 0x80000000 8 0xFFFFFFFF).1
  have hfits := segmentFits_bootHeader (show 8 ≤ 4096 by decide)
    (show allocPages 0x80000000 0xFFFFFFFF = [] by decide)
  use hfits
  have hvaddr := pVaddr_bootHeader 0x80000000 8 0xFFFFFFFF (by decide)
  have hfilesz := pFilesz_bootHeader 0x80000000 8 0xFFFFFFFF (by decide)
  have hmemsz := pMemsz_bootHeader 0x80000000 8 0xFFFFFFFF (by decide)
  apply (loadPhdr_inside hf rfl (bootHeader_apart 0x80000000 8 0xFFFFFFFF) (by rw [hvaddr])).1
  rw [hvaddr, hfilesz, hmemsz]
  exact hfits

/-- A header that asks for no memory but for bytes: those of the page are read to the address of
its offset, in the memory of the kernel. -/
theorem not_loadsInside_bootHeader :
  ¬ LoadsInside (bootHeader 0x80001010 32 0) ⟨0x60000, by decide, by decide, 0x60000, fun _ => 0⟩
    ⟨0, 0, []⟩ tempFileId 0x70000 (1024 * 1024)
  := by
  intro hinside
  have hf := (bootHeader_frames 0x80001010 32 0).1
  have hvaddr := pVaddr_bootHeader 0x80001010 32 0 (by decide)
  have hfilesz := pFilesz_bootHeader 0x80001010 32 0 (by decide)
  have hmemsz := pMemsz_bootHeader 0x80001010 32 0 (by decide)
  have hfits := hinside.segmentFits hf rfl (bootHeader_apart 0x80001010 32 0)
    (by rw [hvaddr]; decide) (by rw [hmemsz]; apply mapsUserPages_of_nil (allocPages_zero _))
    (by rw [pOffset_bootHeader, hfilesz]; decide)
  rw [hvaddr, hfilesz, hmemsz] at hfits
  have hasks : ((bootHeader 0x80001010 32 0).asks 512 (1024 * 1024) (allocPages 0x80001010 0))[
      (bootHeader 0x80001010 32 0).free.length]? ≠ some .table := by
    rw [allocPages_zero, asks, requests, List.getElem?_nil]
    exact (Option.some_ne_none _).symm
  have hpresent := (hfits.bytes hasks 0 (by decide)).2.1
  rw [entryAfter_of_nil _ _ (allocPages_zero _) (by decide) (by decide), bootHeader_present_iff _ _ _ (by decide) (by decide)]
    at hpresent
  omega

end Kernel

end Dmos
