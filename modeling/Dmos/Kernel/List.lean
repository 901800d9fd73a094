import Dmos.Library.LinkedList

/-!
# Lists

The intrusive lists of `lib/list.c`.  A list is a head with pointers to the first and the
last node and a count; the links of the nodes are in a heap.  `IsList h l xs` says that the
head `l` and the heap `h` hold the nodes `xs`.
-/

open LinkedList

namespace Dmos

/-- The head of a list. -/
structure ListHead (α : Type) where
  first : Option α
  last : Option α
  count : Int
  deriving DecidableEq

variable {α : Type} [DecidableEq α]

def listInit : ListHead α :=
  { first := none, last := none, count := 0 }

def listNodeInit (h : Heap α) (node : α) : Heap α :=
  setNext (setPre h node none) node none

def listIsEmpty (l : ListHead α) : Bool :=
  l.count = 0

def listInsertFirst (h : Heap α) (l : ListHead α) (node : α) : Heap α × ListHead α :=
  let h := setNext h node l.first
  let h := setPre h node none
  if listIsEmpty l then
    (h, { first := some node, last := some node, count := l.count + 1 })
  else
    -- a null pointer to the first node is no node of the heap
    (relinkPre h l.first (some node), { l with first := some node, count := l.count + 1 })

def listInsertLast (h : Heap α) (l : ListHead α) (node : α) : Heap α × ListHead α :=
  let h := setPre h node l.last
  let h := setNext h node none
  if listIsEmpty l then
    (h, { first := some node, last := some node, count := l.count + 1 })
  else
    -- a null pointer to the last node is no node of the heap
    (relinkNext h l.last (some node), { l with last := some node, count := l.count + 1 })

def listDeleteFirst (h : Heap α) (l : ListHead α) : Option α × Heap α × ListHead α :=
  if listIsEmpty l then (none, h, l)
  else
    match l.first with
    | none => (none, h, l)
    | some node =>
        match (h node).next with
        | none =>
            (some node, listNodeInit h node, { first := none, last := none, count := l.count - 1 })
        | some x =>
            (some node, listNodeInit (setPre h x none) node,
              { l with first := some x, count := l.count - 1 })

def listDelete (h : Heap α) (l : ListHead α) (node : α) : Heap α × ListHead α :=
  let first := if some node = l.first then (h node).next else l.first
  let last := if some node = l.last then (h node).pre else l.last
  let h := relinkNext h (h node).pre (h node).next
  let h := relinkPre h (h node).next (h node).pre
  (listNodeInit h node, { first := first, last := last, count := l.count - 1 })

/-! ### What a list holds -/

/-- The head `l` and the links of `h` hold the nodes `xs`, in this order. -/
structure IsList (h : Heap α) (l : ListHead α) (xs : List α) : Prop where
  first : l.first = xs.head?
  last : l.last = xs.getLast?
  count : l.count = xs.length
  nodup : xs.Nodup
  chain : Chain h none xs none

/-- The nodes of a list, read off the links. -/
def listNodes (h : Heap α) (l : ListHead α) : List α :=
  follow h l.count.toNat l.first

omit [DecidableEq α] in
theorem IsList.nodes {h : Heap α} {l : ListHead α} {xs : List α} (hl : IsList h l xs) :
  listNodes h l = xs
  := by
  have hfollow := hl.chain.follow
  rw [Option.or_none] at hfollow
  rw [listNodes, hl.count, hl.first, Int.toNat_natCast, hfollow]

omit [DecidableEq α] in
/-- A list depends on the links of its nodes. -/
theorem IsList.congr {h h' : Heap α} {l : ListHead α} {xs : List α} (hl : IsList h l xs)
    (heq : ∀ x ∈ xs, h' x = h x) :
  IsList h' l xs
  := ⟨hl.first, hl.last, hl.count, hl.nodup, hl.chain.congr heq⟩

omit [DecidableEq α] in
theorem isList_init (h : Heap α) :
  IsList h listInit []
  := ⟨rfl, rfl, rfl, List.nodup_nil, trivial⟩

omit [DecidableEq α] in
theorem IsList.isEmpty {h : Heap α} {l : ListHead α} {xs : List α} (hl : IsList h l xs) :
  listIsEmpty l = true ↔ xs = []
  := by
  rw [listIsEmpty, hl.count, decide_eq_true_iff]
  simp

/-! ### Operations -/

section Operations

variable {h : Heap α} {l : ListHead α} {xs : List α} {x : α}

/-- Nodes outside the list, other than the one inserted, keep their links. -/
theorem listInsertFirst_of_not_mem (hl : IsList h l xs) {y : α} (hy : y ∉ xs) (hyx : y ≠ x) :
  (listInsertFirst h l x).1 y = h y
  := by
  simp only [listInsertFirst]
  split_ifs
  · dsimp only
    rw [setPre_of_ne _ _ hyx, setNext_of_ne _ _ hyx]
  · have hfirst : some y ≠ l.first := by
      rw [hl.first]
      intro heq
      apply hy (List.mem_of_head? heq.symm)
    dsimp only
    rw [relinkPre_of_ne _ _ hfirst, setPre_of_ne _ _ hyx, setNext_of_ne _ _ hyx]

/-- Inserting a new node at the front. -/
theorem IsList.insertFirst (hl : IsList h l xs) (hx : x ∉ xs) :
  IsList (listInsertFirst h l x).1 (listInsertFirst h l x).2 (x :: xs)
  := by
  have hnodup : (x :: xs).Nodup := List.nodup_cons.mpr ⟨hx, hl.nodup⟩
  cases xs with
  | nil =>
      have hempty := hl.isEmpty.mpr rfl
      simp only [listInsertFirst, hempty, if_true]
      constructor
      · rfl
      · rfl
      · rw [hl.count]
        rfl
      · apply hnodup
      · rw [hl.first]
        simp [Chain]
  | cons y ys =>
      have hempty : listIsEmpty l = false := by
        rw [Bool.eq_false_iff, ne_eq, hl.isEmpty]
        simp
      have hxy : x ≠ y := by
        rintro rfl
        apply hx List.mem_cons_self
      simp only [listInsertFirst, hempty, Bool.false_eq_true, if_false]
      constructor
      · rfl
      · rw [hl.last]
        rfl
      · rw [hl.count]
        simp only [List.length_cons]
        omega
      · apply hnodup
      · have hchain : Chain (setPre (setNext h x l.first) x none) none (y :: ys) none := by
          apply hl.chain.congr
          intro z hz
          have hzx : z ≠ x := by
            rintro rfl
            apply hx hz
          rw [setPre_of_ne _ _ hzx, setNext_of_ne _ _ hzx]
        have hrelinked := hchain.relinkPre hl.nodup (some x)
        rw [hl.first, List.head?_cons] at hrelinked ⊢
        unfold Chain
        refine ⟨?_, ?_, hrelinked⟩
        · rw [relinkPre, setPre_of_ne _ _ hxy, setPre_self]
        · rw [relinkPre, setPre_of_ne _ _ hxy, setPre_self, setNext_self]
          rfl

/-- Nodes outside the list, other than the one inserted, keep their links. -/
theorem listInsertLast_of_not_mem (hl : IsList h l xs) {y : α} (hy : y ∉ xs) (hyx : y ≠ x) :
  (listInsertLast h l x).1 y = h y
  := by
  simp only [listInsertLast]
  split_ifs
  · dsimp only
    rw [setNext_of_ne _ _ hyx, setPre_of_ne _ _ hyx]
  · have hlast : some y ≠ l.last := by
      rw [hl.last]
      intro heq
      apply hy (List.mem_of_getLast? heq.symm)
    dsimp only
    rw [relinkNext_of_ne _ _ hlast, setNext_of_ne _ _ hyx, setPre_of_ne _ _ hyx]

/-- Inserting a new node at the end. -/
theorem IsList.insertLast (hl : IsList h l xs) (hx : x ∉ xs) :
  IsList (listInsertLast h l x).1 (listInsertLast h l x).2 (xs ++ [x])
  := by
  have hnodup : (xs ++ [x]).Nodup := by
    rw [List.nodup_append]
    use hl.nodup, List.nodup_singleton x
    rintro y hy z hz rfl
    rw [List.mem_singleton] at hz
    apply hx (hz ▸ hy)
  rcases List.eq_nil_or_concat xs with rfl | ⟨ys, z, rfl⟩
  · have hempty := hl.isEmpty.mpr rfl
    simp only [listInsertLast, hempty, if_true]
    constructor
    · rfl
    · rfl
    · rw [hl.count]
      simp only [List.length_append, List.length_singleton]
      omega
    · apply hnodup
    · rw [hl.last]
      simp [Chain]
  · have hempty : listIsEmpty l = false := by
      rw [Bool.eq_false_iff, ne_eq, hl.isEmpty]
      simp
    have hlast : l.last = some z := by
      rw [hl.last]
      simp
    rw [List.concat_eq_append] at hx hl hnodup ⊢
    have hzx : z ≠ x := by
      rintro rfl
      apply hx
      simp
    have hys : ∀ y ∈ ys, y ≠ z ∧ y ≠ x := by
      intro y hy
      have hn := hl.nodup
      rw [List.nodup_append] at hn
      constructor
      · apply hn.2.2 y hy z (by simp)
      · rintro rfl
        apply hx
        simp [hy]
    simp only [listInsertLast, hempty, hlast, relinkNext, Bool.false_eq_true, if_false]
    constructor
    · rw [hl.first]
      simp
    · simp
    · rw [hl.count]
      simp only [List.length_append, List.length_singleton]
      omega
    · apply hnodup
    · obtain ⟨hchain, hz⟩ := chain_append.mp hl.chain
      rw [List.append_assoc, chain_append]
      constructor
      · apply hchain.congr
        intro y hy
        rw [setNext_of_ne _ _ (hys y hy).1, setNext_of_ne _ _ (hys y hy).2,
          setPre_of_ne _ _ (hys y hy).2]
      · obtain ⟨hpre, -, -⟩ := hz
        simp [Chain, hzx, Ne.symm hzx, hpre]

theorem listNodeInit_of_ne {y : α} (hyx : y ≠ x) :
  listNodeInit h x y = h y
  := by rw [listNodeInit, setNext_of_ne _ _ hyx, setPre_of_ne _ _ hyx]

omit [DecidableEq α] in
/-- The neighbours of a node in a list. -/
theorem IsList.links {as bs : List α} (hl : IsList h l (as ++ x :: bs)) :
  h x = ⟨as.getLast?, bs.head?⟩
  := by
  obtain ⟨-, hpre, hnext, -⟩ := chain_append.mp hl.chain
  rw [Option.or_none] at hpre hnext
  rw [← hpre, ← hnext]

/-- Deleting a node takes it out of the sequence. -/
theorem IsList.delete {as bs : List α} (hl : IsList h l (as ++ x :: bs)) :
  IsList (listDelete h l x).1 (listDelete h l x).2 (as ++ bs)
  := by
  have hnodup := hl.nodup
  rw [List.nodup_append, List.nodup_cons] at hnodup
  obtain ⟨has, ⟨hxbs, hbs⟩, hdisjoint⟩ := hnodup
  have hxas : x ∉ as := fun hx => hdisjoint x hx x List.mem_cons_self rfl
  obtain ⟨hchain, hrest⟩ := chain_append.mp hl.chain
  obtain ⟨-, -, hchain'⟩ := hrest
  have hxlast : some x ≠ as.getLast? := fun heq => hxas (List.mem_of_getLast? heq.symm)
  simp only [listDelete, hl.links]
  rw [relinkNext_of_ne h _ hxlast, hl.links]
  constructor
  · rw [hl.first]
    cases as with
    | nil => simp
    | cons a as =>
        have hne : x ≠ a := by
          rintro rfl
          apply hxas List.mem_cons_self
        simp [hne]
  · rw [hl.last, List.getLast?_append, List.getLast?_append, List.getLast?_cons]
    cases hb : bs.getLast? with
    | none => simp
    | some b =>
        have hne : x ≠ b := by
          rintro rfl
          apply hxbs (List.mem_of_getLast? hb)
        simp [hne]
  · rw [hl.count]
    simp only [List.length_append, List.length_cons]
    omega
  · rw [List.nodup_append]
    use has, hbs
    intro a ha b hb
    apply hdisjoint a ha b (List.mem_cons_of_mem _ hb)
  · rw [chain_append, Option.or_none, Option.or_none]
    have hleft := hchain.relinkNext has bs.head?
    have hmiddle : Chain (relinkNext h as.getLast? bs.head?) (some x) bs none := by
      apply hchain'.congr
      intro y hy
      apply relinkNext_of_ne
      intro heq
      apply hdisjoint y (List.mem_of_getLast? heq.symm) y (List.mem_cons_of_mem _ hy) rfl
    have hright := hmiddle.relinkPre hbs as.getLast?
    constructor
    · apply hleft.congr
      intro y hy
      rw [listNodeInit_of_ne (by rintro rfl; apply hxas hy), relinkPre_of_ne]
      intro heq
      apply hdisjoint y hy y (List.mem_cons_of_mem _ (List.mem_of_head? heq.symm)) rfl
    · apply hright.congr
      intro y hy
      apply listNodeInit_of_ne
      rintro rfl
      apply hxbs hy

/-- Nodes outside the list keep their links when a node is deleted. -/
theorem listDelete_of_not_mem (hl : IsList h l xs) (hx : x ∈ xs) {y : α} (hy : y ∉ xs) :
  (listDelete h l x).1 y = h y
  := by
  obtain ⟨as, bs, rfl⟩ := List.append_of_mem hx
  have hyx : y ≠ x := by
    rintro rfl
    apply hy hx
  simp only [List.mem_append, List.mem_cons, not_or] at hy
  have hnodup := hl.nodup
  rw [List.nodup_append] at hnodup
  have hxlast : some x ≠ as.getLast? := by
    intro heq
    apply hnodup.2.2 x (List.mem_of_getLast? heq.symm) x List.mem_cons_self rfl
  simp only [listDelete, hl.links]
  rw [relinkNext_of_ne h _ hxlast, hl.links, listNodeInit_of_ne hyx, relinkPre_of_ne, relinkNext_of_ne]
  · intro heq
    apply hy.1 (List.mem_of_getLast? heq.symm)
  · intro heq
    apply hy.2.2 (List.mem_of_head? heq.symm)

/-- Deleting the first node of a list. -/
theorem IsList.deleteFirst (hl : IsList h l (x :: xs)) :
  listDeleteFirst h l = (some x, listDelete h l x)
  := by
  have hempty : listIsEmpty l = false := by
    rw [Bool.eq_false_iff, ne_eq, hl.isEmpty]
    simp
  have hlinks : h x = ⟨none, xs.head?⟩ := by
    rw [← List.nil_append (x :: xs)] at hl
    apply hl.links
  have hx := hl.nodup
  rw [List.nodup_cons] at hx
  simp only [listDeleteFirst, hempty, Bool.false_eq_true, if_false, hl.first, List.head?_cons, hlinks,
    listDelete, if_true, relinkNext]
  cases xs with
  | nil => simp [hl.last, relinkPre]
  | cons y ys =>
      have hlast : some x ≠ (x :: y :: ys).getLast? := by
        rw [List.getLast?_cons_cons]
        intro heq
        apply hx.1 (List.mem_of_getLast? heq.symm)
      simp only [List.head?_cons, relinkPre, hl.last, if_neg hlast]

end Operations

end Dmos
