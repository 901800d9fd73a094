import Dmos.Task.Fork
import Dmos.Library.FirstFree
import Mathlib.Data.List.FinRange

/-!
# Names of tasks

An entry of `g_task_table` is free when its name is empty.  `k_strncpy` copies a name that is
not empty to one that is not empty, and `alloc_task` returns the first entry without a name.
-/

open FirstFree

namespace Dmos

/-! ### Copies -/

theorem kStrncpy.loop_eq (src : List UInt8) (n : Nat) :
  kStrncpy.loop src n
    = (src.take n, if src.length < n then (n : Int) - src.length - 1 else -1)
  := by
  induction src generalizing n with
  | nil =>
      rw [kStrncpy.loop, List.take_nil, List.length_nil]
      split_ifs with h
      · simp
      · obtain rfl : n = 0 := by omega
        rfl
  | cons c src ih =>
      rw [kStrncpy.loop]
      cases n with
      | zero => simp
      | succ n =>
          have hsub : ((n + 1 : Nat) : Int) - 1 = (n : Nat) := by omega
          rw [if_pos (by omega), hsub, ih]
          dsimp only
          rw [List.take_succ_cons, List.length_cons]
          congr 1
          split_ifs <;> omega

/-- The string `k_strncpy` leaves is the source, cut to the size; it loses its last byte when
the source ends just before the size. -/
theorem kStrncpy_eq (src : List UInt8) (n : Nat) :
  kStrncpy src n = if src.length + 1 = n then src.dropLast else src.take n
  := by
  rw [kStrncpy, kStrncpy.loop_eq]
  dsimp only
  by_cases hlength : src.length + 1 = n
  · rw [if_pos (by rw [if_pos (by omega)]; omega), if_pos hlength,
      List.take_of_length_le (by omega)]
  · by_cases hlt : src.length < n
    · rw [if_neg (by rw [if_pos hlt]; omega), if_neg hlength]
    · rw [if_neg (by rw [if_neg hlt]; omega), if_neg hlength]

/-- A copy of a name is empty only when the name is. -/
theorem kStrncpy_taskName_eq_nil_iff (src : List UInt8) :
  kStrncpy src taskNameSize = [] ↔ src = []
  := by
  rw [show taskNameSize = ((32 : Nat) : Int) from rfl, kStrncpy_eq]
  split_ifs with hlength
  · constructor
    · intro h
      have hdrop : src.dropLast.length = src.length - 1 := List.length_dropLast
      rw [h, List.length_nil] at hdrop
      omega
    · rintro rfl
      rfl
  · simp

/-! ### Entries of the table -/

namespace TaskManager

variable {m : TaskManager} {i : Fin 128} {t : TaskRef}

@[simp]
theorem setName_name (name : List UInt8) :
  ((m.setName t name).task t).name = kStrncpy name taskNameSize
  := by simp [setName, setTask]

theorem setName_of_ne (name : List UInt8) {t' : TaskRef} (h : t' ≠ t) :
  (m.setName t name).task t' = m.task t'
  := by simp [setName, setTask, h]

/-- The entry has a name. -/
def named (m : TaskManager) (i : Fin 128) : Bool :=
  (m.task (.slot i)).name ≠ []

theorem named_eq_false_iff :
  m.named i = false ↔ (m.task (.slot i)).name = []
  := by simp [named]

/-- `alloc_task` returns the first entry without a name. -/
theorem allocTask_eq (m : TaskManager) :
  m.allocTask = (firstFree (List.finRange 128) m.named).map .slot
  := by
  rw [allocTask, firstFree]
  congr 2
  funext i
  simp [named]

theorem name_of_allocTask (h : m.allocTask = some t) :
  (m.task t).name = []
  := by
  rw [allocTask_eq, Option.map_eq_some_iff] at h
  obtain ⟨i, hi, rfl⟩ := h
  apply named_eq_false_iff.mp (marked_of_firstFree hi)

end TaskManager

end Dmos
