import Dmos.Kernel.UserPages

/-!
# The frames of a range

`frameFor` says before a range is mapped which frame each of its pages will have: the one at
its place in the free list, or the one it has already when the list is too short or the page is
not counted.  The frame still holds what it held before (`sameFrame_page`).
-/

open ByteMemory AddressSpace

namespace Dmos

namespace Kernel

variable {s t : Kernel} {live : Set Nat} {d perm vaddr size f g : Nat} {rest : List Nat}
  {r : Option Request}

/-- The frame behind page `v` of a directory, if it is present. -/
def presentFrame (m : Memory) (d v : Nat) : Option Nat :=
  if Present (pteAt m d v) then some (frameAt m d v) else none

/-- The frame that page `i` of the range has once the range has been mapped. -/
def frameFor (s : Kernel) (d vaddr size i : Nat) : Option Nat :=
  let pages := allocPages vaddr size
  if i < pages.length ∧ (s.asks 512 d (pages.take (i + 1))).length ≤ s.free.length then
    s.free[(s.asks 512 d (pages.take i)).length]?
  else presentFrame s.mem d (vaddr / 4096 + i)

/-- A byte of a user address, as the directory maps it. -/
theorem readByte_user {a : Nat} (haligned : d % 4096 = 0) (huser : memoryTaskBase ≤ a) :
  (t.mmuSetPageDir d).readByte a
    = (presentFrame t.mem d (a / 4096)).map fun f => t.mem (f + a % 4096)
  := by
  rw [readByte, kernelAddr, if_neg (by omega), translate_eq haligned, presentFrame]
  change Option.map t.mem (if Present (pteAt t.mem d (a / 4096)) then _ else _) = _
  split_ifs <;> rfl

theorem getElem_allocPages {i : Nat} (hi : i < (allocPages vaddr size).length)
    (hv : vaddr / 4096 + i < 2 ^ 20) :
  (allocPages vaddr size)[i]? = some (vaddr / 4096 + i)
  := by
  rw [allocPages, length_pagesFrom] at hi
  rw [allocPages, getElem_pagesFrom (by omega) hi, Nat.mod_eq_of_lt hv]

section Mapped

variable (hb : Built 512 live s t d (mapsWith perm (allocPages vaddr size)) r) (hf : Frames s live)
  (hperm : perm < 4096) (hbase : memoryTaskBase ≤ vaddr) (hend : vaddr + size ≤ 2 ^ 32)

include hb hf hperm hbase hend

theorem presentFrame_eq {i : Nat} (hv : vaddr / 4096 + i < 2 ^ 20) :
  presentFrame t.mem d (vaddr / 4096 + i) = s.frameFor d vaddr size i
  := by
  have hlt : vaddr < 2 ^ 32 := by omega
  have hlo : 512 ≤ (vaddr / 4096 + i) / 1024 := by
    unfold memoryTaskBase at hbase
    omega
  have hnodup := nodup_allocPages hbase hend hlt
  rw [frameFor]
  by_cases hi : i < (allocPages vaddr size).length
  · have hpage := getElem_allocPages hi hv
    by_cases hserved : (s.asks 512 d ((allocPages vaddr size).take (i + 1))).length ≤ s.free.length
    · rw [if_pos ⟨hi, hserved⟩]
      obtain ⟨f, hfree, hword⟩ := hb.pteAt_of_served hnodup hpage hlo hv hserved
      have hbounds := hf.range.free_bounds (List.mem_of_getElem? hfree)
      rw [hfree, presentFrame, frameAt, hword, if_pos (mapWord_present hbounds.1 hperm),
        ptePaddr_mapWord hbounds.1 hperm]
    · rw [if_neg (fun hand => hserved hand.2), presentFrame, presentFrame, frameAt, frameAt,
        hb.pteAt_of_unserved hnodup hpage hlo hv (by omega)]
  · have hmem : vaddr / 4096 + i ∉ (mapsWith perm (allocPages vaddr size)).map Prod.fst := by
      rw [mapsWith_fst, allocPages, mem_pagesFrom hlt]
      rintro ⟨k, hk, heq⟩
      rw [allocPages, length_pagesFrom] at hi
      omega
    rw [if_neg (fun hand => hi hand.1), presentFrame, presentFrame, frameAt, frameAt,
      hb.pteAt_of_not_mem hlo hv hmem]

end Mapped

/-- Without a table, the first page has the first free frame, and the table the second. -/
theorem frameFor_first (hpos : 0 < (allocPages vaddr size).length)
    (htable : tableAt s.mem d (vaddr / 4096 / 1024) = none)
    (hfree : s.free = f :: g :: rest) (hlo : 512 ≤ vaddr / 4096 / 1024) (hlt : vaddr < 2 ^ 32) :
  s.frameFor d vaddr size 0 = some f
  := by
  have hpages : (allocPages vaddr size).take 1 = [vaddr / 4096] := by
    rw [allocPages, length_pagesFrom] at hpos
    obtain ⟨n, hn⟩ := Nat.exists_eq_succ_of_ne_zero hpos.ne'
    rw [allocPages, hn, pagesFrom, List.take_succ_cons, List.take_zero]
  have hnone : ((s.space 512 d).table (tableIndex (vaddr / 4096))).isSome = false := by
    rw [space_table hlo (show tableIndex (vaddr / 4096) < 1024 by unfold tableIndex; omega)]
    apply Option.isSome_eq_false_iff.mpr
    apply Option.isNone_iff_eq_none.mpr htable
  have hasks : s.asks 512 d [vaddr / 4096] = [.page, .table] := by
    rw [asks, requests, hnone]
    rfl
  rw [frameFor, hpages, hasks, hfree, List.take_zero, if_pos ⟨hpos, by simp⟩]
  rfl

/-- A page that is present in the end has a frame that was not written. -/
theorem sameFrame_page (hf : Frames t live) (hd : d ∈ live) (huntouched : Untouched 512 s t d)
    {v f : Nat} (hlo : 512 ≤ v / 1024) (hv : v < 2 ^ 20)
    (hpresent : presentFrame t.mem d v = some f) :
  SameFrame s.mem t.mem f
  := by
  rw [presentFrame] at hpresent
  split_ifs at hpresent with hpte
  obtain rfl := Option.some.inj hpresent
  have hown : Owns 512 t.mem live (.page d v) (frameAt t.mem d v) := ⟨hd, hlo, hv, hpte, rfl⟩
  apply huntouched
  · apply Window.frameAt_aligned
  · intro heq
    have hdir : Owns 512 t.mem live (.dir d) d := ⟨hd, rfl⟩
    cases hf.exclusive.unique hdir (heq ▸ hown)
  · intro i hlo' hi ht
    have htable : OwnsNode 512 t.mem live (.table d i) (frameAt t.mem d v) := ⟨hd, hlo', hi, ht⟩
    cases hf.exclusive.unique htable.owns hown

theorem presentFrame_eq_some_iff {m : Memory} {v f : Nat} :
  presentFrame m d v = some f ↔ Present (pteAt m d v) ∧ frameAt m d v = f
  := by
  rw [presentFrame]
  split_ifs with hpresent
  · rw [Option.some_inj]
    exact (and_iff_right hpresent).symm
  · exact iff_of_false nofun (fun hand => hpresent hand.1)

/-- Present pages of a directory have different frames. -/
theorem frameAt_injective (hf : Frames s live) (hd : d ∈ live) {v w : Nat} (hlo : 512 ≤ v / 1024)
    (hv : v < 2 ^ 20) (hlo' : 512 ≤ w / 1024) (hw : w < 2 ^ 20) (hpresent : Present (pteAt s.mem d v))
    (hpresent' : Present (pteAt s.mem d w)) (heq : frameAt s.mem d v = frameAt s.mem d w) :
  v = w
  := by
  have hown : Owns 512 s.mem live (.page d v) (frameAt s.mem d v) := ⟨hd, hlo, hv, hpresent, rfl⟩
  have hown' : Owns 512 s.mem live (.page d w) (frameAt s.mem d w) := ⟨hd, hlo', hw, hpresent', rfl⟩
  cases hf.exclusive.unique hown (heq ▸ hown')
  rfl

/-- An entry is as it was, or present. -/
theorem pteAt_built (hb : Built 512 live s t d (mapsWith perm (allocPages vaddr size)) r)
    (hf : Frames s live) (hperm : perm < 4096) {v : Nat} (hlo : 512 ≤ v / 1024) (hv : v < 2 ^ 20) :
  pteAt t.mem d v = pteAt s.mem d v ∨ Present (pteAt t.mem d v)
  := by
  rw [hb.pteAt_eq hlo hv]
  rcases (s.space 512 d).mapAll_entry tableIndex (mapsWith perm (allocPages vaddr size)) v with
    hold | ⟨w, g, hmem, hg, hword⟩
  · left
    rw [hold, space_entry hlo hv]
  · right
    obtain ⟨u, -, heq⟩ := List.mem_map.mp hmem
    cases heq
    rw [hword]
    apply mapWord_present (hf.range.free_bounds hg).1 hperm

/-! ### Writing a free frame -/

section Write

variable {m : Memory} (hf : Frames s live) (hfree : g ∈ s.free)
  (hm : ∀ x, ¬ (g ≤ x ∧ x < g + 4096) → m x = s.mem x)

include hf hfree hm

/-- A free frame is no part of a directory. -/
theorem sameFrame_of_free {p : Place} (hp : Owns 512 s.mem live p f) :
  SameFrame s.mem m f
  := by
  have hmarked := hf.exclusive.used_of_owns hp
  have hbounds := hf.range.marked_bounds hmarked
  have hbounds' := hf.range.free_bounds hfree
  have hne : f ≠ g := by
    rintro rfl
    apply hmarked.not_free hf.range hfree
  intro x hx hx'
  apply hm
  omega

theorem frames_of_free :
  Frames (s.setMem m) live
  := by
  apply hf.setMem
  · intro p f hp
    apply sameFrame_of_free hf hfree hm hp.owns
  · intro x hx hx'
    apply hm
    have hbounds := hf.range.free_bounds hfree
    have hend := s.layout.gKernelPageDir_end
    omega

theorem tableAt_of_free (hd : d ∈ live) {i : Nat} (hi : i < 1024) :
  tableAt m d i = tableAt s.mem d i
  := tableAt_congr (sameFrame_of_free hf hfree hm (p := .dir d) ⟨hd, rfl⟩) hi

theorem pteAt_of_free (hd : d ∈ live) {v : Nat} (hlo : 512 ≤ v / 1024) (hv : v < 2 ^ 20) :
  pteAt m d v = pteAt s.mem d v
  := by
  apply pteAt_congr (sameFrame_of_free hf hfree hm (p := .dir d) ⟨hd, rfl⟩) hv
  intro t ht
  apply sameFrame_of_free hf hfree hm (p := .table d (v / 1024))
  exact ⟨hd, hlo, by omega, ht⟩

end Write

end Kernel

end Dmos
