import Dmos.Entry.Gate
import Dmos.Kernel.UserCopy
import Dmos.Library.WordStack

/-!
# The processor

The registers and the instructions by which the kernel is entered and left.  The processor pushes
to the stack of the running code: at addresses of the user through the page directory, on the
stack of the kernel in physical memory.  An instruction that faults has no result.

On the stack of the kernel the instructions are those of a stack of words
(`pushAll_setStack`, `popAll_setEsp`).
-/

open ByteMemory BitFields

namespace Dmos

/-- The registers of the processor. -/
structure Registers where
  eax : Nat
  ecx : Nat
  edx : Nat
  ebx : Nat
  esp : Nat
  ebp : Nat
  esi : Nat
  edi : Nat
  eip : Nat
  eflags : Nat
  cs : Nat
  ss : Nat
  ds : Nat
  es : Nat
  fs : Nat
  gs : Nat

/-- The processor with everything else of the machine. -/
structure Cpu where
  regs : Registers
  os : Os

/-- The privilege level of a segment. -/
def segDpl (d : SegmentDesc) : Nat :=
  field (ofBytes d.bytes) 45 2

/-- Words at addresses that follow each other. -/
def Kernel.readWords (s : Kernel) (addr : Nat) : Nat → Option (List Nat)
  | 0 => some []
  | n + 1 => do
      let w ← s.readWord addr
      let ws ← s.readWords (u32 (addr + 4)) n
      some (w :: ws)

namespace Cpu

/-- Another stack pointer, and another memory. -/
def setStack (c : Cpu) (esp : Nat) (m : Memory) : Cpu :=
  { regs := { c.regs with esp := esp }, os := { c.os with kernel := c.os.kernel.setMem m } }

/-- Another stack pointer. -/
def setEsp (c : Cpu) (esp : Nat) : Cpu :=
  { c with regs := { c.regs with esp := esp } }

/-! ### Instructions -/

def push (c : Cpu) (v : Nat) : Option Cpu :=
  let esp := u32Sub c.regs.esp 4
  (c.os.kernel.writeWord esp v).map fun kernel =>
    { regs := { c.regs with esp := esp }, os := { c.os with kernel := kernel } }

def pop (c : Cpu) : Option (Nat × Cpu) :=
  (c.os.kernel.readWord c.regs.esp).map fun v =>
    (v, { c with regs := { c.regs with esp := u32 (c.regs.esp + 4) } })

/-- Several words pushed, the first one first. -/
def pushAll (c : Cpu) : List Nat → Option Cpu
  | [] => some c
  | v :: vs => (c.push v).bind fun c => c.pushAll vs

/-- Several words popped, the first one first. -/
def popAll (c : Cpu) : Nat → Option (List Nat × Cpu)
  | 0 => some ([], c)
  | n + 1 => do
      let (v, c) ← c.pop
      let (vs, c) ← c.popAll n
      some (v :: vs, c)

/-- `pusha`: the stack pointer is pushed as it was before. -/
def pusha (c : Cpu) : Option Cpu :=
  let r := c.regs
  c.pushAll [r.eax, r.ecx, r.edx, r.ebx, r.esp, r.ebp, r.esi, r.edi]

/-- `popa`: the stack pointer that was pushed is skipped. -/
def popa (c : Cpu) : Option Cpu :=
  match c.popAll 8 with
  | some ([edi, esi, ebp, _, ebx, edx, ecx, eax], c) =>
      some { c with
        regs := { c.regs with
          edi := edi
          esi := esi
          ebp := ebp
          ebx := ebx
          edx := edx
          ecx := ecx
          eax := eax } }
  | _ => none

/-- The privilege level of the running code. -/
abbrev cpl (c : Cpu) : Nat :=
  c.regs.cs % 4

/-- A far call through a gate, to code with more privileges and `next` the address behind the
call.  The processor changes to the stack in the segment of the task, and the words that the gate
tells go from the old stack to the new one. -/
def callGate (c : Cpu) (selector next : Nat) : Option Cpu :=
  let gate := gateAt c.os.gdt (selector / 8)
  let tss := (c.os.tasks.task c.os.tasks.currTask).tss
  if gate.present = 1 ∧ gate.type = 0xC ∧ c.cpl ≤ gate.dpl ∧ selector % 4 ≤ gate.dpl
      ∧ segDpl (c.os.gdt (gate.selector / 8)) < c.cpl then do
    let old := c.regs
    let params ← c.os.kernel.readWords old.esp gate.paramCount
    let c := { c with regs := { c.regs with ss := tss.ss0, esp := tss.esp0 } }
    let c ← c.pushAll ([old.ss, old.esp] ++ params.reverse ++ [old.cs, next])
    some { c with regs := { c.regs with cs := gate.selector, eip := gate.offset } }
  else none

/-- A far return that drops `n` bytes of parameters, on both stacks if it leads to code with fewer
privileges. -/
def farReturn (c : Cpu) (n : Nat) : Option Cpu := do
  let cpl := c.cpl
  let (eip, c) ← c.pop
  let (cs, c) ← c.pop
  let c := { c with regs := { c.regs with eip := eip, cs := cs, esp := u32 (c.regs.esp + n) } }
  if cpl < cs % 4 then
    let (esp, c) ← c.pop
    let (ss, c) ← c.pop
    some { c with regs := { c.regs with esp := u32 (esp + n), ss := ss } }
  else some c

/-- A return from an interrupt. -/
def iret (c : Cpu) : Option Cpu := do
  let cpl := c.cpl
  let (eip, c) ← c.pop
  let (cs, c) ← c.pop
  let (eflags, c) ← c.pop
  let c := { c with regs := { c.regs with eip := eip, cs := cs, eflags := eflags } }
  if cpl < cs % 4 then
    let (esp, c) ← c.pop
    let (ss, c) ← c.pop
    some { c with regs := { c.regs with esp := esp, ss := ss } }
  else some c

/-! ### Stacks of the kernel -/

/-- The memory of the machine. -/
abbrev mem (c : Cpu) : Memory :=
  c.os.kernel.mem

end Cpu

/-- A word read from the kernel. -/
theorem Kernel.readWord_identity (s : Kernel) {a : Nat} (h : a + 4 ≤ memoryTaskBase) :
  s.readWord a = some (load32 s.mem a)
  := by
  unfold memoryTaskBase at h
  apply Kernel.readWord_eq (by omega)
  intro j hj
  rw [u32_of_lt (by omega), Kernel.readByte, Kernel.kernelAddr,
    if_pos (by unfold memoryTaskBase; omega)]
  rfl

/-! ### Stacks of the user -/

namespace Kernel.Window

variable {s : Kernel} {dir lo span k : Nat} {m : Memory}

/-- The address behind an address of the window. -/
theorem kernelAddr_eq (hw : Window s dir lo span) (hm : s.Agrees dir lo span m) (hdir : s.cr3 = dir)
    (hk : k < span) :
  (s.setMem m).kernelAddr (lo + k) = some (s.physAt dir lo k)
  := by
  have hv := inWindow lo hk
  have huser := hw.user
  have hself : s.setMem m = (s.setMem m).mmuSetPageDir dir := by rw [← hdir]; rfl
  rw [kernelAddr, if_neg (by omega), hself, translate_eq hw.aligned]
  change (if Present (pteAt m dir ((lo + k) / 4096)) then
    some (ptePaddr (pteAt m dir ((lo + k) / 4096)) + (lo + k) % 4096) else none) = _
  rw [hw.pteAt_eq hm hv, if_pos (hw.present _ hv)]
  rfl

theorem writeByte_eq (hw : Window s dir lo span) (hm : s.Agrees dir lo span m) (hdir : s.cr3 = dir)
    (hk : k < span) (b : UInt8) :
  (s.setMem m).writeByte (lo + k) b = some (s.setMem (store8 m (s.physAt dir lo k) b))
  := by
  rw [writeByte, hw.kernelAddr_eq hm hdir hk]
  rfl

theorem agrees_store8 (hm : s.Agrees dir lo span m) (hk : k < span) (b : UInt8) :
  s.Agrees dir lo span (store8 m (s.physAt dir lo k) b)
  := by
  intro x hx
  rw [store8_of_ne, hm x hx]
  rintro rfl
  exact hx (inFrames s dir hk)

/-- A word written through the window. -/
theorem writeWord_eq (hw : Window s dir lo span) (hm : s.Agrees dir lo span m) (hdir : s.cr3 = dir)
    (hk : k + 4 ≤ span) (v : Nat) :
  ∃ m', (s.setMem m).writeWord (lo + k) v = some (s.setMem m') ∧ s.Agrees dir lo span m'
    ∧ ∀ l < span, s.view dir lo m' l = store32 (s.view dir lo m) k v l
  := by
  have hend := hw.end_le
  have hnext (j : Nat) (hj : j < 4) : u32 (lo + k + j) = lo + (k + j) := by
    rw [u32_of_lt (by omega), Nat.add_assoc]
  have h₁ := agrees_store8 hm (show k < span by omega) (.ofNat v)
  have h₂ := agrees_store8 h₁ (show k + 1 < span by omega) (.ofNat (v / 256))
  have h₃ := agrees_store8 h₂ (show k + 2 < span by omega) (.ofNat (v / 65536))
  refine ⟨_, ?_, agrees_store8 h₃ (show k + 3 < span by omega) (.ofNat (v / 16777216)), ?_⟩
  · rw [writeWord, hw.writeByte_eq hm hdir (by omega), Option.bind_eq_bind, Option.bind_some,
      hnext 1 (by decide), hw.writeByte_eq h₁ hdir (by omega), Option.bind_some,
      hnext 2 (by decide), hw.writeByte_eq h₂ hdir (by omega), Option.bind_some,
      hnext 3 (by decide), hw.writeByte_eq h₃ hdir (by omega)]
  · intro l hl
    rw [hw.view_store8 _ (by omega) hl, store32]
    simp only [store8, hw.view_store8 _ (show k + 2 < span by omega) hl,
      hw.view_store8 _ (show k + 1 < span by omega) hl, hw.view_store8 _ (show k < span by omega) hl]

end Kernel.Window
/-! ### Words on a stack -/

namespace Cpu

variable {c : Cpu} {v : Nat} {ws : List Nat}

@[simp]
theorem setStack_regs (c : Cpu) (esp : Nat) (m : Memory) :
  (c.setStack esp m).regs = { c.regs with esp := esp }
  := rfl

@[simp]
theorem setStack_mem (c : Cpu) (esp : Nat) (m : Memory) :
  (c.setStack esp m).mem = m
  := rfl

/-- A word is pushed to the kernel. -/
theorem push_setStack {esp : Nat} {m : Memory} (v : Nat) (hlow : 4 ≤ esp)
    (hhigh : esp ≤ memoryTaskBase) :
  (c.setStack esp m).push v = some (c.setStack (esp - 4) (store32 m (esp - 4) v))
  := by
  have hsub : u32Sub esp 4 = esp - 4 := by
    unfold memoryTaskBase at hhigh
    rw [u32Sub_of_le hlow (by omega)]
  rw [push, setStack_regs]
  dsimp only
  rw [hsub, Kernel.writeWord_identity (by omega)]
  rfl

/-- A word of the stack is popped. -/
theorem pop_setEsp {esp w : Nat} (h : WordsAt c.mem esp (w :: ws))
    (hhigh : esp + 4 ≤ memoryTaskBase) :
  (c.setEsp esp).pop = some (w, c.setEsp (esp + 4))
  := by
  rw [pop, show (c.setEsp esp).regs.esp = esp from rfl,
    show (c.setEsp esp).os = c.os from rfl, Kernel.readWord_identity _ hhigh, h.1]
  unfold memoryTaskBase at hhigh
  rw [u32_of_lt (by omega)]
  rfl

theorem pushAll_setStack {esp : Nat} {m : Memory} (ws : List Nat) (hlow : 4 * ws.length ≤ esp)
    (hhigh : esp ≤ memoryTaskBase) :
  (c.setStack esp m).pushAll ws = some (c.setStack (esp - 4 * ws.length) (pushWords m esp ws))
  := by
  induction ws generalizing esp m with
  | nil => rfl
  | cons w ws ih =>
      rw [List.length_cons] at hlow ⊢
      rw [pushAll, push_setStack w (by omega) hhigh, Option.bind_some, ih (by omega) (by omega),
        pushWords, show esp - 4 - 4 * ws.length = esp - 4 * (ws.length + 1) by omega]

/-- The words of `pusha`, the first one first. -/
def generalWords (r : Registers) (esp : Nat) : List Nat :=
  [r.eax, r.ecx, r.edx, r.ebx, esp, r.ebp, r.esi, r.edi]

theorem pusha_setStack {esp : Nat} {m : Memory} (hlow : 32 ≤ esp) (hhigh : esp ≤ memoryTaskBase) :
  (c.setStack esp m).pusha
    = some (c.setStack (esp - 32) (pushWords m esp (generalWords c.regs esp)))
  := pushAll_setStack (generalWords c.regs esp) hlow hhigh

theorem popAll_setEsp {esp : Nat} (h : WordsAt c.mem esp ws)
    (hhigh : esp + 4 * ws.length ≤ memoryTaskBase) :
  (c.setEsp esp).popAll ws.length = some (ws, c.setEsp (esp + 4 * ws.length))
  := by
  induction ws generalizing esp with
  | nil => rfl
  | cons w ws ih =>
      rw [List.length_cons] at hhigh ⊢
      rw [popAll, pop_setEsp h (by omega)]
      simp only [Option.bind_eq_bind, Option.bind_some]
      rw [ih h.2 (by omega), Option.bind_some,
        show esp + 4 + 4 * ws.length = esp + 4 * (ws.length + 1) by omega]

theorem popa_setEsp {esp edi esi ebp dummy ebx edx ecx eax : Nat}
    (h : WordsAt c.mem esp [edi, esi, ebp, dummy, ebx, edx, ecx, eax])
    (hhigh : esp + 32 ≤ memoryTaskBase) :
  (c.setEsp esp).popa = some { c with
    regs := { c.regs with
      edi := edi
      esi := esi
      ebp := ebp
      ebx := ebx
      edx := edx
      ecx := ecx
      eax := eax
      esp := esp + 32 } }
  := by
  have hall := popAll_setEsp h hhigh
  change (c.setEsp esp).popAll 8 = _ at hall
  rw [popa, hall]
  rfl

/-- Words pushed through a window. -/
theorem pushAll_window {lo span k : Nat} {m : Memory} (ws : List Nat)
    (hw : Kernel.Window c.os.kernel c.os.kernel.cr3 lo span)
    (hm : c.os.kernel.Agrees c.os.kernel.cr3 lo span m) (hlow : 4 * ws.length ≤ k)
    (hk : k ≤ span) :
  ∃ m', (c.setStack (lo + k) m).pushAll ws = some (c.setStack (lo + (k - 4 * ws.length)) m')
    ∧ c.os.kernel.Agrees c.os.kernel.cr3 lo span m'
    ∧ ∀ l < span, c.os.kernel.view c.os.kernel.cr3 lo m' l
      = pushWords (c.os.kernel.view c.os.kernel.cr3 lo m) k ws l
  := by
  induction ws generalizing k m with
  | nil => exact ⟨m, rfl, hm, fun _ _ => rfl⟩
  | cons w ws ih =>
      have hend := hw.end_le
      have huser := hw.user
      rw [List.length_cons] at hlow
      have hsub : u32Sub (lo + k) 4 = lo + (k - 4) := by
        rcases Nat.lt_or_ge (lo + k) (2 ^ 32) with h | h
        · rw [u32Sub_of_le (by omega) h]
          omega
        · unfold u32Sub
          omega
      obtain ⟨m₁, hwrite, hm₁, hview₁⟩ := hw.writeWord_eq (k := k - 4) hm rfl (by omega) w
      obtain ⟨m', hpush, hm', hview⟩ := ih hm₁ (k := k - 4) (by omega) (by omega)
      have hfirst : (c.setStack (lo + k) m).push w = some (c.setStack (lo + (k - 4)) m₁) := by
        rw [push, setStack_regs]
        dsimp only
        rw [hsub]
        change ((c.os.kernel.setMem m).writeWord (lo + (k - 4)) w).map _ = _
        rw [hwrite]
        rfl
      refine ⟨m', ?_, hm', ?_⟩
      · rw [pushAll, hfirst, Option.bind_some, hpush, List.length_cons,
          show k - 4 - 4 * ws.length = k - 4 * (ws.length + 1) by omega]
      · intro l hl
        rw [hview l hl, pushWords, pushWords_congr (hview₁ l hl)]

/-- Words read through a window. -/
theorem readWords_window {s : Kernel} {lo span k : Nat} {m : Memory}
    (hw : Kernel.Window s s.cr3 lo span) (hm : s.Agrees s.cr3 lo span m)
    (h : WordsAt (s.view s.cr3 lo m) k ws) (hk : k + 4 * ws.length ≤ span)
    (hlt : lo + span < 2 ^ 32) :
  (s.setMem m).readWords (lo + k) ws.length = some ws
  := by
  induction ws generalizing k with
  | nil => rfl
  | cons w ws ih =>
      rw [List.length_cons] at hk ⊢
      have hself : (s.setMem m).mmuSetPageDir s.cr3 = s.setMem m := rfl
      rw [Kernel.readWords, ← hself, hw.readWord_eq hm (by omega), hself, u32_of_lt (by omega),
        Option.bind_eq_bind, Option.bind_some, h.1, Nat.add_assoc, ih h.2 (by omega)]
      rfl

/-- A far return to code with fewer privileges. -/
theorem farReturn_setEsp {eip cs esp esp' ss : Nat} {params : List Nat}
    (h : WordsAt c.mem esp ([eip, cs] ++ params ++ [esp', ss]))
    (hhigh : esp + 4 * params.length + 16 ≤ memoryTaskBase) (hcpl : c.cpl < cs % 4) :
  (c.setEsp esp).farReturn (4 * params.length) = some { c with
    regs := { c.regs with
      eip := eip
      cs := cs
      esp := u32 (esp' + 4 * params.length)
      ss := ss } }
  := by
  obtain ⟨hfirst, hlast⟩ := wordsAt_append.mp h
  obtain ⟨hfirst, -⟩ := wordsAt_append.mp hfirst
  rw [List.length_append, show [eip, cs].length = 2 from rfl,
    show esp + 4 * (2 + params.length) = esp + 4 + 4 + 4 * params.length by omega] at hlast
  have hesp : esp + 4 + 4 + 4 * params.length < 2 ^ 32 := by
    unfold memoryTaskBase at hhigh
    omega
  rw [farReturn, pop_setEsp hfirst (by omega)]
  simp only [Option.bind_eq_bind, Option.bind_some]
  rw [pop_setEsp hfirst.2 (by omega)]
  simp only [Option.bind_some]
  let d : Cpu := { c with regs := { c.regs with eip := eip, cs := cs } }
  have hd : WordsAt d.mem (esp + 4 + 4 + 4 * params.length) [esp', ss] := hlast
  rw [show (c.setEsp esp).cpl = c.cpl from rfl, if_pos hcpl,
    show (c.setEsp (esp + 4 + 4)).regs.esp = esp + 4 + 4 from rfl, u32_of_lt hesp]
  change (d.setEsp (esp + 4 + 4 + 4 * params.length)).pop.bind _ = _
  rw [pop_setEsp hd (by omega)]
  simp only [Option.bind_some]
  rw [pop_setEsp hd.2 (by omega)]
  rfl

end Cpu

end Dmos
