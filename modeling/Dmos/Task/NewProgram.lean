import Dmos.Task.Args
import Dmos.Task.NewSpace

/-!
# Making a program

`sys_execve` loads a program into the new directory and copies the arguments to the top of its
stack.  With arguments at user addresses (`ArgsInside`) and a program whose segments end before the
last address (`ProgramInside`), all that is written still lies in frames that were free before, in
the kernel stack, or below the frames.
-/

open ByteMemory AddressSpace Loop

namespace Dmos

namespace Kernel

variable {s k t : Kernel} {live : Set Nat} {d stack argv dest taskArgs : Nat} {args : List Arg}
  {r : Int}

/-- The vector of arguments and their strings are at user addresses, and the block for them, with
its table in the first page of the area, ends before the last address. -/
structure ArgsInside (s : Kernel) (argv : Nat) (args : List Arg) : Prop
    extends ArgSources s argv args where
  vector : argv ≠ 0 → memoryTaskBase ≤ argv ∧ argv + 4 * (args.length + 1) ≤ 2 ^ 32
  null : argv ≠ 0 → s.readWord (argv + 4 * args.length) = some 0
  empty : argv = 0 → args = []
  user : ∀ i (h : i < args.length), memoryTaskBase ≤ args[i].addr
  table : sizeofTaskArgs + 4 * (args.length + 1) ≤ memPageSize
  span_le : memTaskStackTop - memTaskArgSize + argSpan args ≤ 2 ^ 32

namespace ArgsInside

/-- The arguments are where they were when the caller's memory is read as before. -/
theorem congr (h : ArgsInside s argv args)
    (hread : ∀ a, memoryTaskBase ≤ a → a < 2 ^ 32 → k.readByte a = s.readByte a) :
  ArgsInside k argv args
  := by
  have hword {a : Nat} (huser : memoryTaskBase ≤ a) (hend : a + 4 ≤ 2 ^ 32) :
      k.readWord a = s.readWord a := by
    apply readWord_congr _ (by omega)
    intro j hj
    rw [u32_of_lt (by omega)]
    apply hread _ (by omega) (by omega)
  refine ⟨⟨?_, h.nonnull, ?_, h.end_lt⟩, h.vector, ?_, h.empty, h.user, h.table, h.span_le⟩
  · intro i hi
    have hne : argv ≠ 0 := by
      intro hzero
      rw [h.empty hzero] at hi
      cases hi
    obtain ⟨huser, hend⟩ := h.vector hne
    have hpointer := h.pointer i hi
    rw [u32_of_lt (by omega)] at hpointer ⊢
    rw [hword (by omega) (by omega), hpointer]
  · intro i hi
    have huser := h.user i hi
    have hend := h.end_lt i hi
    apply (h.string i hi).congr
    intro j hj
    rw [u32_of_lt (by omega)]
    apply hread _ (by omega) (by omega)
  · intro hne
    obtain ⟨huser, hend⟩ := h.vector hne
    rw [hword (by omega) (by omega), h.null hne]

theorem stringsCount_loop {i fuel : Nat} (h : ArgsInside s argv args) (hne : argv ≠ 0)
    (hi : i ≤ args.length) (hfuel : args.length - i < fuel) :
  Kernel.stringsCount.loop s (argv + 4 * i) fuel = some (args.length - i)
  := by
  obtain ⟨huser, hend⟩ := h.vector hne
  induction fuel generalizing i with
  | zero => omega
  | succ fuel ih =>
      rw [stringsCount.loop]
      rcases hi.lt_or_eq with hlt | rfl
      · have hpointer := h.pointer i hlt
        rw [u32_of_lt (by omega)] at hpointer
        rw [hpointer]
        dsimp only
        rw [if_neg (h.nonnull i hlt), u32_of_lt (by omega),
          show argv + 4 * i + 4 = argv + 4 * (i + 1) by omega, ih (by omega) (by omega),
          Option.map_some]
        congr 1
        omega
      · rw [h.null hne]
        dsimp only
        rw [if_pos rfl, Nat.sub_self]

theorem stringsCount_eq (h : ArgsInside s argv args) :
  s.stringsCount argv = some args.length
  := by
  have htable := h.table
  unfold sizeofTaskArgs memPageSize at htable
  rw [Kernel.stringsCount]
  by_cases hzero : argv = 0
  · rw [if_pos hzero, h.empty hzero]
    rfl
  · rw [if_neg hzero]
    apply h.stringsCount_loop hzero (i := 0) (by omega) (by omega)

theorem kStrlen_eq {i : Nat} (h : ArgsInside s argv args) (hi : i < args.length) :
  s.kStrlen args[i].addr = some args[i].bytes.length
  := by
  have hend := h.end_lt i hi
  rw [kStrlen, if_neg (h.nonnull i hi),
    (string_eq_some_iff (by omega)).mpr ⟨by omega, h.string i hi⟩]
  rfl

end ArgsInside

theorem InPages.congr {x : Nat} (hentry : SameEntries k t d) (h : k.InPages d x) :
  t.InPages d x
  := by
  obtain ⟨v, hlo, hv, hpresent, hle, hlt⟩ := h
  refine ⟨v, hlo, hv, ?_, ?_, ?_⟩
  · rw [hentry v hlo hv]
    apply hpresent
  · rw [frameAt, hentry v hlo hv]
    apply hle
  · rw [frameAt, hentry v hlo hv]
    apply hlt

theorem Harmless.congr {x : Nat} (hentry : SameEntries k t d) (hlayout : t.layout = k.layout)
    (h : k.Harmless d stack x) :
  t.Harmless d stack x
  := by
  rcases h with hpage | hstack | hlow
  · exact .inl (hpage.congr hentry)
  · exact .inr (.inl hstack)
  · rw [← hlayout] at hlow
    exact .inr (.inr hlow)

namespace Prepares

theorem layout_eq (h : Prepares s live d stack k) (h' : Prepares s live d stack t) :
  t.layout = k.layout
  := h'.spares.layout.trans h.spares.layout.symm

/-- What lies on the kernel stack is written. -/
theorem write_stack {m : Memory} (h : Prepares s live d stack k) (hs : s.HasStack live stack)
    {a n : Nat} (ha : stack ≤ a) (ha' : a + n ≤ stack + memPageSize)
    (hm : ∀ x, ¬ (a ≤ x ∧ x < a + n) → m x = k.mem x) :
  Prepares s live d stack (k.setMem m) ∧ SameEntries k (k.setMem m) d
  := by
  unfold memPageSize at ha'
  apply h.write hs
  intro x hx
  apply hm
  rintro ⟨hle, hlt⟩
  apply hx
  exact .inr (.inl ⟨by omega, by omega⟩)

/-- A word of a block that may be written. -/
theorem writeWord {p v : Nat} (h : Prepares s live d stack k) (hs : s.HasStack live stack)
    (hp : p + 4 ≤ memoryTaskBase) (hharmless : ∀ j < 4, k.Harmless d stack (p + j))
    (hwrite : k.writeWord p v = some t) :
  Prepares s live d stack t ∧ SameEntries k t d
  := by
  rw [writeWord_identity hp] at hwrite
  cases hwrite
  apply h.write hs
  intro x hx
  rw [store32_of_disjoint]
  by_contra hin
  apply hx
  have hbyte := hharmless (x - p) (by omega)
  rwa [Nat.add_sub_cancel' (by omega)] at hbyte

/-- The passes of the loop over the arguments. -/
theorem copyArgs_loop {q i n : Nat} {p : Nat × Kernel} (h : Prepares s live d stack k)
    (hs : s.HasStack live stack) (hcr3 : s.cr3 ∈ live) (hargs : ArgsInside s argv args)
    (hdest : memoryTaskBase ≤ dest) (hend : dest + argSpan args ≤ 2 ^ 32)
    (hq : q + 4 * (args.length + 1) ≤ memoryTaskBase)
    (htable : ∀ j < 4 * (args.length + 1), k.Harmless d stack (q + j)) (hn : i + n = args.length)
    (hloop : forLoop (copyArgs.pass d argv q) i n (u32 (dest + argOffset args i), k) = .ok p) :
  Prepares s live d stack p.2 ∧ ∀ j < 4 * (args.length + 1), p.2.Harmless d stack (q + j)
  := by
  induction n generalizing i k with
  | zero =>
      cases hloop
      exact ⟨h, htable⟩
  | succ n ih =>
      have hi : i < args.length := by omega
      have hspan := argOffset_le_span hi
      have hk := hargs.congr fun a huser hlt => h.readByte_eq hs hcr3 huser hlt
      have hpass (x : Nat × Kernel)
          (hx : copyArgs.pass d argv q i (u32 (dest + argOffset args i), k) = .ok x) :
          x.1 = u32 (dest + argOffset args (i + 1)) ∧ Prepares s live d stack x.2
            ∧ ∀ j < 4 * (args.length + 1), x.2.Harmless d stack (q + j) := by
        rw [copyArgs.pass, hk.pointer i hi] at hx
        dsimp only at hx
        rw [hk.kStrlen_eq hi] at hx
        dsimp only at hx
        rw [u32_of_lt (by omega)] at hx
        split at hx
        · cases hx
        next r k₁ hcopy =>
          obtain ⟨h₁, hentries⟩ := h.copyData_loop hs (by omega) (by omega) hcopy
          split at hx
          · cases hx
          next k₂ hwrite =>
            have hword : u32 (q + 4 * i) = q + 4 * i := by
              apply u32_of_lt
              unfold memoryTaskBase at hq
              omega
            rw [hword] at hwrite
            have hlow (j : Nat) (hj : j < 4 * (args.length + 1)) : k₁.Harmless d stack (q + j) :=
              (htable j hj).congr hentries (h.layout_eq h₁)
            obtain ⟨h₂, hentries'⟩ := h₁.writeWord hs (by omega)
              (fun j hj => by rw [Nat.add_assoc]; apply hlow; omega) hwrite
            cases hx
            refine ⟨?_, h₂, fun j hj => (hlow j hj).congr hentries' (h₁.layout_eq h₂)⟩
            rw [argOffset_succ hi]
            exact congrArg u32 (by omega)
      rw [forLoop] at hloop
      split at hloop
      next x hx =>
        obtain ⟨x₁, k₁⟩ := x
        obtain ⟨rfl, h₁, htable'⟩ := hpass _ hx
        apply ih h₁ htable' (by omega) hloop
      · cases hloop

/-- Copying the arguments to the new stack. -/
theorem copyArgs (h : Prepares s live d stack k) (hs : s.HasStack live stack)
    (hcr3 : s.cr3 ∈ live) (hargs : ArgsInside s argv args) (hlocal : stack ≤ taskArgs)
    (hlocal' : taskArgs + sizeofTaskArgs ≤ stack + memPageSize)
    (hcopy : k.copyArgs taskArgs (memTaskStackTop - memTaskArgSize) d args.length argv
      = .ok (r, t)) :
  Prepares s live d stack t
  := by
  have hspan := hargs.span_le
  have htable := hargs.table
  have hblock := span_pos args
  have huser : memoryTaskBase ≤ memTaskStackTop - memTaskArgSize := by decide
  have haligned : (memTaskStackTop - memTaskArgSize) % 4096 = 0 := by decide
  generalize memTaskStackTop - memTaskArgSize = dest at hspan huser haligned hcopy
  unfold sizeofTaskArgs at htable hblock hlocal'
  unfold memPageSize at htable
  rw [Kernel.copyArgs] at hcopy
  -- the block is filled in
  obtain ⟨k₁, hk₁⟩ : ∃ k₁, (k.store (taskArgs + 4) args.length).store (taskArgs + 8)
      (u32 (dest + sizeofTaskArgs)) = k₁ := ⟨_, rfl⟩
  have h₁ : Prepares s live d stack k₁ := by
    rw [← hk₁]
    apply (h.write_stack hs hlocal hlocal' _).1
    intro x hx
    rw [store_mem, store32_of_disjoint _ _ (by omega), store32_of_disjoint _ _ (by omega)]
  rw [hk₁, u32_of_lt (show dest + sizeofTaskArgs < 2 ^ 32 by unfold sizeofTaskArgs; omega)] at hcopy
  obtain ⟨hend, -, htarget⟩ := h₁.target hs (a := dest + sizeofTaskArgs)
    (n := 4 * (args.length + 1)) (by omega) (by unfold sizeofTaskArgs; omega)
    (by unfold sizeofTaskArgs; omega)
  have hzero : argOffset args 0 = sizeofTaskArgs + 4 * (args.length + 1) := rfl
  rw [Nat.add_assoc dest, ← hzero] at hcopy
  split at hcopy
  · cases hcopy
  next x k₂ hloop =>
    obtain ⟨h₂, hlow⟩ := h₁.copyArgs_loop (p := (x, k₂)) (i := 0) hs hcr3 hargs huser hspan hend
      (fun j hj => (htarget j hj).1) (Nat.zero_add _) hloop
    have hlast {k₃ : Kernel} (h₃ : Prepares s live d stack k₃)
        (hblock : k₃.memoryCopyUvmData dest d taskArgs sizeofTaskArgs = .ok (r, t)) :
        Prepares s live d stack t :=
      (h₃.copyData_loop hs huser (by unfold sizeofTaskArgs; omega) hblock).1
    split at hcopy
    · split at hcopy
      · cases hcopy
      next k₃ hwrite =>
        have hword : u32 (k₁.memoryGetPaddr d (dest + sizeofTaskArgs) + 4 * args.length)
            = k₁.memoryGetPaddr d (dest + sizeofTaskArgs) + 4 * args.length := by
          apply u32_of_lt
          unfold memoryTaskBase at hend
          omega
        rw [hword] at hwrite
        apply hlast _ hcopy
        apply (h₂.writeWord hs (by omega) _ hwrite).1
        intro j hj
        rw [Nat.add_assoc]
        apply hlow
        omega
    · apply hlast h₂ hcopy

end Prepares

end Kernel

/-! ### Loading the program -/

/-- The local variables lie on the kernel stack. -/
structure Locals.On (l : Locals) (stack : Nat) : Prop where
  elfHdr : stack ≤ l.elfHdr
  elfHdr_end : l.elfHdr + sizeofElf32Ehdr ≤ stack + memPageSize
  elfPhdr : stack ≤ l.elfPhdr
  elfPhdr_end : l.elfPhdr + sizeofElf32Phdr ≤ stack + memPageSize
  taskArgs : stack ≤ l.taskArgs
  taskArgs_end : l.taskArgs + sizeofTaskArgs ≤ stack + memPageSize
  separate : Separate (l.elfHdr, sizeofElf32Ehdr) (l.elfPhdr, sizeofElf32Phdr)

/-- The buffer of the file is neither in the first page of memory nor in the kernel's directory. -/
structure TempFile.Placed (f : TempFile) (s : Kernel) : Prop where
  start : memPageSize ≤ f.tempAddr
  separate : Separate (f.tempAddr, Kernel.bufferSize) (s.layout.gKernelPageDir, 4096)

/-- The tasks run in the same address spaces, on the same kernel stacks. -/
structure SameSpaces (m m' : TaskManager) : Prop where
  currTask : m'.currTask = m.currTask
  tss : ∀ y, (m'.task y).tss = (m.task y).tss

theorem SameSpaces.refl (m : TaskManager) :
  SameSpaces m m
  := ⟨rfl, fun _ => rfl⟩

theorem SameSpaces.trans {m m' m'' : TaskManager} (h : SameSpaces m m') (h' : SameSpaces m' m'') :
  SameSpaces m m''
  := ⟨h'.currTask.trans h.currTask, fun y => (h'.tss y).trans (h.tss y)⟩

theorem sameSpaces_setTask {m : TaskManager} {x : TaskRef} {task : Task}
    (h : task.tss = (m.task x).tss) :
  SameSpaces m (m.setTask x task)
  := by
  refine ⟨rfl, fun y => ?_⟩
  by_cases hy : y = x
  · rw [hy, TaskManager.setTask_task_self, h]
  · simp [TaskManager.setTask, hy]

namespace Os

open Kernel

/-- The header that the loader reads each time is in memory that it does not write, and the
segment it asks for is read page by page and ends before the last address. -/
structure HeaderInside (img : Kernel) (a : Nat) : Prop where
  start : memPageSize ≤ tableAddr img a
  stop : tableAddr img a + sizeofElf32Phdr ≤ memExtStart
  segment : img.pType (tableAddr img a) = ptLoad →
    memoryTaskBase ≤ img.pVaddr (tableAddr img a) → img.SegmentInside (tableAddr img a)

variable {s : Kernel} {live : Set Nat} {d stack a : Nat} {img : Kernel} {l : Locals} {tty : Tty}
  {x : TaskRef} {o o' : Os} {file : Int} {path : List UInt8}

theorem segmentInside_congr {k : Kernel} {p q : Nat} (h : ∀ j < 32, k.mem (p + j) = img.mem (q + j))
    (hinside : img.SegmentInside q) :
  k.SegmentInside p
  := by
  obtain ⟨-, -, hvaddr, hfilesz, hmemsz⟩ := phdr_of_bytes h
  constructor
  · rw [hvaddr, hfilesz]
    apply hinside.pages
  · rw [hvaddr, hfilesz]
    apply hinside.file_end
  · rw [segmentEnd, hvaddr, hmemsz]
    apply hinside.mem_end

/-- What the loader keeps while it goes through the headers. -/
structure InLoader (s : Kernel) (live : Set Nat) (d stack a : Nat) (m : TaskManager) (o : Os) :
    Prop where
  prepares : Prepares s live d stack o.kernel
  tasks : SameSpaces m o.tasks
  temp : o.fs.tempAddr = a

theorem loadElfFile_loop_loads {m : TaskManager} {i fuel : Nat} {b : Bool}
    (h : InLoader s live d stack a m o) (hs : s.HasStack live stack) (hl : l.On stack)
    (hlow : LowKept img o.kernel) (hheader : HeaderInside img a)
    (hloop : loadElfFile.loop o l tty tempFileId x d (img.ePhoff a) i fuel = .ok (b, o')) :
  InLoader s live d stack a m o'
  := by
  have hbounds := hs.reserved.bounds hs.toFrames
  have hstart := hheader.start
  have hstop := hheader.stop
  have hphdr := hl.elfPhdr
  have hphdr' := hl.elfPhdr_end
  unfold memExtStart at hbounds hstop
  unfold memPageSize at hstart hphdr'
  unfold sizeofElf32Phdr at hstop hphdr'
  induction fuel generalizing o i with
  | zero =>
      cases hloop
      exact h
  | succ fuel ih =>
      rw [loadElfFile.loop] at hloop
      by_cases hlast : o.kernel.ePhnum l.elfHdr ≤ i
      · rw [if_pos hlast] at hloop
        cases hloop
        exact h
      · have hread : o.kernel.sysRead { o.fs with tempPos := tableAddr img a } tty tempFileId
            l.elfPhdr sizeofElf32Phdr
              = .ok (sizeofElf32Phdr,
                o.kernel.setMem (copy o.kernel.mem l.elfPhdr (tableAddr img a) sizeofElf32Phdr),
                { o.fs with tempPos := u32 (tableAddr img a + sizeofElf32Phdr) }) := by
          unfold memoryTaskBase at hbounds
          apply sysRead_identity
          · unfold memoryTaskBase sizeofElf32Phdr
            omega
          · unfold memoryTaskBase sizeofElf32Phdr
            dsimp only
            omega
          · unfold sizeofElf32Phdr
            dsimp only
            omega
          · omega
          · dsimp only
            omega
        have haddr : u32 (o.fs.tempAddr + img.ePhoff a) = tableAddr img a := by
          rw [h.temp, tableAddr]
        rw [if_neg hlast, sysLseek, if_pos rfl, haddr] at hloop
        dsimp only at hloop
        rw [if_neg (by decide), hread] at hloop
        dsimp only at hloop
        rw [if_neg (by decide)] at hloop
        have hm : ∀ y, ¬ (l.elfPhdr ≤ y ∧ y < l.elfPhdr + 32) →
            copy o.kernel.mem l.elfPhdr (tableAddr img a) sizeofElf32Phdr y = o.kernel.mem y :=
          fun y hy => copy_outside _ _ hy
        have hcopy : ∀ j < 32, (o.kernel.setMem (copy o.kernel.mem l.elfPhdr (tableAddr img a)
            sizeofElf32Phdr)).mem (l.elfPhdr + j) = img.mem (tableAddr img a + j) := by
          intro j hj
          rw [setMem_mem, copy_inside _ _ hj]
          apply hlow
          · unfold memPageSize
            omega
          · unfold memExtStart
            omega
        generalize copy o.kernel.mem l.elfPhdr (tableAddr img a) sizeofElf32Phdr = m'
          at hloop hm hcopy
        have h₁ : Prepares s live d stack (o.kernel.setMem m') :=
          (h.prepares.write_stack hs hphdr hphdr' hm).1
        have hlow₁ : LowKept img (o.kernel.setMem m') := by
          apply hlow.trans
          intro y _ hy
          apply hm
          unfold memExtStart at hy
          omega
        obtain ⟨htype, -, hvaddr, -⟩ := phdr_of_bytes hcopy
        split at hloop
        next hskip =>
          apply ih _ _ hloop
          · exact ⟨h₁, h.tasks, h.temp⟩
          · exact hlow₁
        next hload =>
          rw [not_or, not_not, not_lt, htype, hvaddr] at hload
          have hinside := segmentInside_congr hcopy (hheader.segment hload.1 hload.2)
          split at hloop
          · cases hloop
          next err k₂ f₂ hphdr₂ =>
            have huser : memoryTaskBase ≤ (o.kernel.setMem m').pVaddr l.elfPhdr := by
              rw [hvaddr]
              apply hload.2
            obtain ⟨h₂, hlow₂, htemp⟩ := h₁.loadPhdr hs hphdr
              (by unfold sizeofElf32Phdr memPageSize; omega) huser hinside hphdr₂
            have htemp₂ : f₂.tempAddr = a := htemp.trans h.temp
            split_ifs at hloop
            · cases hloop
              exact ⟨h₂, h.tasks, htemp₂⟩
            · apply ih _ _ hloop
              · refine ⟨h₂, h.tasks.trans ?_, htemp₂⟩
                exact sameSpaces_setTask rfl
              · exact hlow₁.trans hlow₂

end Os

theorem Locals.On.distinct {l : Locals} {stack : Nat} (hl : l.On stack) {k : Kernel} {f : TempFile}
    (hlow : memExtStart ≤ stack) (hhigh : stack + memPageSize ≤ memoryTaskBase)
    (hfile : f.Placed k) :
  l.Distinct k f
  := by
  obtain ⟨hstart, hend, hstart', hend', -, -, hapart⟩ := hl
  have htemp := f.tempAddr_end
  have hbase := k.layout.gKernelPageDir_end
  have hseparate := hfile.separate
  unfold memExtStart at hlow htemp hbase
  unfold Separate at hapart hseparate
  unfold Kernel.bufferSize at hseparate
  unfold sizeofElf32Ehdr at hend hapart
  unfold sizeofElf32Phdr at hend' hapart
  unfold memPageSize at hend hend' hhigh
  dsimp only at hapart hseparate
  refine ⟨by omega, by omega, ?_, ?_, ?_⟩
  · unfold sizeofElf32Ehdr
    omega
  · unfold sizeofElf32Phdr
    omega
  · simp only [objects, List.pairwise_cons, List.mem_cons, List.not_mem_nil, or_false,
      forall_eq_or_imp, forall_eq, Separate, Kernel.bufferSize, sizeofElf32Ehdr, sizeofElf32Phdr]
    unfold memPageSize
    refine ⟨⟨hapart, ?_, ?_⟩, ⟨?_, ?_⟩, hseparate, ?_, List.Pairwise.nil⟩
    · omega
    · omega
    · omega
    · omega
    · rintro - ⟨⟩

namespace Os

open Kernel

/-- The program is not an image, has no segments, or has one that may be loaded. -/
def ProgramInside (o : Os) : Prop :=
  o.image.elfIdentOk o.fs.tempAddr = false ∨ o.image.ePhnum o.fs.tempAddr = 0
    ∨ HeaderInside o.image o.fs.tempAddr

theorem image_lowKept {o o' : Os} (hfs : o'.fs = o.fs) (hlow : LowKept o.kernel o'.kernel) :
  LowKept o.image o'.image
  := by
  intro y hy hy'
  dsimp only [image, readDisk]
  rw [hfs, hlow y hy hy']

/-- The program depends on low memory only. -/
theorem ProgramInside.congr {o o' : Os} (h : o.ProgramInside) (hfs : o'.fs = o.fs)
    (hstart : memPageSize ≤ o.fs.tempAddr) (hlow : LowKept o.kernel o'.kernel) :
  o'.ProgramInside
  := by
  have himage := image_lowKept hfs hlow
  have hend := o.fs.tempAddr_end
  unfold memExtStart at hend
  have hehdr : ∀ j < 52, o'.image.mem (o'.fs.tempAddr + j) = o.image.mem (o.fs.tempAddr + j) := by
    intro j hj
    rw [hfs]
    apply himage _ (by omega)
    unfold memExtStart
    omega
  obtain ⟨hident, -, hphoff, hphnum⟩ := ehdr_of_bytes hehdr
  have haddr : tableAddr o'.image o'.fs.tempAddr = tableAddr o.image o.fs.tempAddr := by
    rw [tableAddr, tableAddr, hphoff, hfs]
  rw [ProgramInside, hident, hphnum]
  rcases h with hno | hnone | hheader
  · exact .inl hno
  · exact .inr (.inl hnone)
  · right
    right
    have hstop := hheader.stop
    unfold memExtStart sizeofElf32Phdr at hstop
    have hphdr : ∀ j < 32, o'.image.mem (tableAddr o'.image o'.fs.tempAddr + j)
        = o.image.mem (tableAddr o.image o.fs.tempAddr + j) := by
      intro j hj
      have hstart := hheader.start
      rw [haddr]
      apply himage _ (by omega)
      unfold memExtStart
      omega
    obtain ⟨htype, -, hvaddr, -⟩ := phdr_of_bytes hphdr
    constructor
    · rw [haddr]
      apply hheader.start
    · rw [haddr]
      apply hheader.stop
    · rw [htype, hvaddr]
      intro hload huser
      apply segmentInside_congr hphdr (hheader.segment hload huser)

section Program

variable {s : Kernel} {live : Set Nat} {d stack entry : Nat} {l : Locals} {tty : Tty} {x : TaskRef}
  {o o' : Os} {path : List UInt8}

/-- Loading a program. -/
theorem loadElfFile_loads (h : Prepares s live d stack o.kernel) (hs : s.HasStack live stack)
    (hl : l.On stack) (hfile : o.fs.Placed o.kernel) (hfd : tty.fd ≠ tempFileId)
    (hprogram : path.head? = some 47 → o.ProgramInside)
    (hload : o.loadElfFile l tty x path d = .ok (entry, o')) :
  InLoader s live d stack o.fs.tempAddr o.tasks o'
  := by
  have hbounds := hs.reserved.bounds hs.toFrames
  have hdistinct := hl.distinct hbounds.2.1 hbounds.2.2 hfile
  have hhdr := hl.elfHdr
  have hhdr' := hl.elfHdr_end
  by_cases htty : kStrncmp path [116, 116, 121] = 0
  · obtain ⟨htasks, hkernel, hfs, -⟩ := loadElfFile_tty hdistinct htty hfd hload
    have hprepares : Prepares s live d stack o'.kernel := by
      rcases hkernel with hkernel | hkernel
      · rw [hkernel]
        exact h
      · have hlength : (tty.bytes.take sizeofElf32Ehdr).length ≤ sizeofElf32Ehdr :=
          List.length_take_le _ _
        rw [hkernel, typed]
        apply (h.write_stack hs hhdr hhdr' _).1
        intro y hy
        apply put_outside
        omega
    exact ⟨hprepares, htasks ▸ SameSpaces.refl _, by rw [hfs]⟩
  · by_cases hpath : path.head? = some 47
    · have hseparate := hfile.separate
      unfold Separate bufferSize at hseparate
      dsimp only at hseparate
      -- the file is read into the buffer
      have h₁ : Prepares s live d stack o.image := by
        apply (h.write hs _).1
        intro y hy
        rw [if_neg]
        rintro ⟨hle, hlt⟩
        have hend := o.fs.tempAddr_end
        unfold sectorSize at hlt
        apply hy
        exact .inr (.inr ⟨by omega, by omega⟩)
      have himage : l.Distinct o.image o.fs := hdistinct.congr rfl rfl
      have hm : ∀ y, ¬ (l.elfHdr ≤ y ∧ y < l.elfHdr + 52) →
          copy o.image.mem l.elfHdr o.fs.tempAddr sizeofElf32Ehdr y = o.image.mem y :=
        fun y hy => copy_outside _ _ hy
      have hcopy : ∀ j < 52, (o.image.setMem (copy o.image.mem l.elfHdr o.fs.tempAddr
          sizeofElf32Ehdr)).mem (l.elfHdr + j) = o.image.mem (o.fs.tempAddr + j) :=
        fun j hj => copy_inside _ _ hj
      rw [loadElfFile, sysOpen_path hpath] at hload
      dsimp only at hload
      rw [if_neg (by decide), ← image, himage.readEhdr tty] at hload
      dsimp only at hload
      rw [if_neg (by decide)] at hload
      generalize copy o.image.mem l.elfHdr o.fs.tempAddr sizeofElf32Ehdr = m at hload hm hcopy
      have h₂ : Prepares s live d stack (o.image.setMem m) :=
        (h₁.write_stack hs hhdr hhdr' hm).1
      obtain ⟨hident, -, hphoff, hphnum⟩ := ehdr_of_bytes hcopy
      rw [hident, hphoff] at hload
      split_ifs at hload with hno
      · cases hload
        exact ⟨h₂, .refl _, rfl⟩
      · have hlow : LowKept o.image (o.image.setMem m) := by
          intro y _ hy
          apply hm
          have hlow := hbounds.2.1
          omega
        have hloop {b : Bool} {o₃ : Os}
            (hrun : loadElfFile.loop
              { o with kernel := o.image.setMem m
                       fs := { o.fs with tempPos := u32 (o.fs.tempAddr + sizeofElf32Ehdr) } }
              l tty tempFileId x d (o.image.ePhoff o.fs.tempAddr) 0 (2 ^ 16) = .ok (b, o₃)) :
            InLoader s live d stack o.fs.tempAddr o.tasks o₃ := by
          rcases (hprogram hpath).resolve_left hno with hnone | hheader
          · rw [show (2 ^ 16 : Nat) = (2 ^ 16 - 1) + 1 from rfl, loadElfFile.loop, hphnum, hnone,
              if_pos (le_refl _)] at hrun
            cases hrun
            exact ⟨h₂, .refl _, rfl⟩
          · apply loadElfFile_loop_loads _ hs hl _ hheader hrun
            · exact ⟨h₂, .refl _, rfl⟩
            · exact hlow
        split at hload
        · cases hload
        next hrun =>
          cases hload
          apply hloop hrun
        next hrun =>
          cases hload
          apply hloop hrun
    · rw [loadElfFile, sysOpen, if_neg htty, if_neg hpath] at hload
      cases hload
      exact ⟨h, .refl _, rfl⟩

end Program

end Os

end Dmos
