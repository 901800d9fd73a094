import Dmos.Library.Words
import Mathlib.Data.List.Range
import Mathlib.Data.List.TakeWhile
import Mathlib.Data.UInt

/-!
# The arguments of a shell command

The main loop of `shell.c` from `fgets` to the call of the command: the line is cut at its
first line feed and its first carriage return, and `strtok` splits it at spaces into tokens,
whose addresses go into the array `argv` one after the other.

A command with at most nine tokens leaves `argv` as its functions expect it; nothing bounds
the index, and all others leave it.
-/

open Words

namespace Dmos.Shell

/-- The size of `cli.curr_input`. -/
abbrev cliInputSize : Nat := 1024

/-- The length of `argv`. -/
abbrev argvSize : Nat := 10

/-! ### Strings in an array -/

/-- The array after `fgets` of a line. -/
def fgets (buf line : List UInt8) : List UInt8 :=
  line ++ 0 :: buf.drop (line.length + 1)

/-- The index of the first `c` in a string. -/
def strchr : List UInt8 → UInt8 → Option Nat
  | [], _ => none
  | b :: bs, c => if b = c then some 0 else if b = 0 then none else (strchr bs c).map (· + 1)

/-- `strtok` on strings in an array: the token, the array, and the saved position.  The
arguments of the C function are indices, `none` is the null pointer. -/
def strtok (buf : List UInt8) (str save : Option Nat) (delim : List UInt8) :
    Option Nat × List UInt8 × Option Nat :=
  match str.or save with
  | none => (none, buf, none)
  | some s =>
      let start := s + ((buf.drop s).takeWhile delim.contains).length
      if buf.getD start 0 = 0 then (none, buf, none)
      else
        let stop := start
          + ((buf.drop start).takeWhile (fun c => c ≠ 0 && !delim.contains c)).length
        if buf.getD stop 0 = 0 then (some start, buf, none)
        else (some start, buf.set stop 0, some (stop + 1))

/-! ### The main loop -/

/-- What the loop over the tokens works on: `cli.curr_input`, the position `strtok` has saved,
`argc`, and the stores to `argv`, index and token, the latest first. -/
structure Args where
  currInput : List UInt8
  save : Option Nat
  argc : Nat
  stores : List (Nat × Nat)

/-- The word at an index of `argv`, when `stack` are the words behind the array.  The array has
been filled with null pointers. -/
def Args.argv (r : Args) (stack : Nat → Option Nat) (i : Nat) : Option Nat :=
  match r.stores.find? (fun p => p.1 = i) with
  | some p => some p.2
  | none => if i < argvSize then none else stack i

/-- A string ends at its first `c`. -/
def main.cut (buf : List UInt8) (c : UInt8) : List UInt8 :=
  match strchr buf c with
  | some i => buf.set i 0
  | none => buf

/-- `" "` -/
def main.space : List UInt8 :=
  [32]

/-- A call of `strtok` on `cli.curr_input`, from its start or from where the last one ended. -/
def Args.nextToken (r : Args) (str : Option Nat) : Option Nat × Args :=
  match strtok r.currInput str r.save main.space with
  | (token, buf, save) => (token, { r with currInput := buf, save := save })

/-- The loop from a token on, for at most `fuel` of them. -/
def main.loop : Nat → Option Nat → Args → Option Args
  | _, none, r => some r
  | 0, some _, _ => none
  | fuel + 1, some token, r =>
      let next := Args.nextToken
        { r with argc := r.argc + 1, stores := (r.argc, token) :: r.stores } none
      loop fuel next.1 next.2

/-- The arguments of a line.  A token has at least one character, so the array holds fewer of
them than it has characters. -/
def main.args (buf line : List UInt8) (save : Option Nat) : Option Args :=
  -- '\n' and '\r'
  let first := Args.nextToken
    { currInput := cut (cut (fgets buf line) 10) 13, save := save, argc := 0, stores := [] }
    (some 0)
  loop cliInputSize first.1 first.2

/-- The command in a line: what stands before its end, a line feed and a carriage return. -/
def command (line : List UInt8) : List UInt8 :=
  line.takeWhile (fun c => c ≠ 0 && (c ≠ 10 && c ≠ 13))

/-- The tokens of a command, its maximal runs of characters other than spaces. -/
def tokens (cs : List UInt8) : List (List UInt8) :=
  words main.space.contains cs

/-- The arguments are inside `argv`, with a null pointer behind them. -/
structure Args.Inside (r : Args) (stack : Nat → Option Nat) : Prop where
  stores : ∀ p ∈ r.stores, p.1 < argvSize
  argc : r.argc = r.stores.length
  inside : r.argc < argvSize
  null : r.argv stack r.argc = none

/-! ### Cutting a line -/

variable {buf cs rest line w pre delim : List UInt8} {ws vs : List (List UInt8)} {c : UInt8}
  {str save : Option Nat} {o : Nat}

theorem strchr_append_cons (hc : c ∉ cs) (hzero : 0 ∉ cs) (rest : List UInt8) :
  strchr (cs ++ c :: rest) c = some cs.length
  := by
  induction cs with
  | nil => rw [List.nil_append, strchr, if_pos rfl, List.length_nil]
  | cons b cs ih =>
      rw [List.mem_cons, not_or] at hzero hc
      rw [List.cons_append, strchr, if_neg (Ne.symm hc.1), if_neg (Ne.symm hzero.1),
        ih hc.2 hzero.2]
      rfl

theorem strchr_of_not_mem (hc : c ∉ cs) (hzero : 0 ∉ cs) (hne : c ≠ 0) (rest : List UInt8) :
  strchr (cs ++ 0 :: rest) c = none
  := by
  induction cs with
  | nil => simp [strchr, Ne.symm hne]
  | cons b cs ih =>
      rw [List.mem_cons, not_or] at hzero hc
      rw [List.cons_append, strchr, if_neg (Ne.symm hc.1), if_neg (Ne.symm hzero.1),
        ih hc.2 hzero.2]
      rfl

theorem takeWhile_append_cons (hc : c ∉ cs) (rest : List UInt8) :
  (cs ++ c :: rest).takeWhile (· ≠ c) = cs
  := by
  rw [List.takeWhile_append_of_pos, List.takeWhile_cons_of_neg (by simp), List.append_nil]
  intro b hb
  rw [decide_eq_true_iff]
  rintro rfl
  apply hc hb

/-- A string in an array, cut. -/
theorem exists_cut (hzero : 0 ∉ cs) (hne : c ≠ 0) (rest : List UInt8) :
  ∃ rest', main.cut (cs ++ 0 :: rest) c = cs.takeWhile (· ≠ c) ++ 0 :: rest'
  := by
  rw [main.cut]
  by_cases hc : c ∈ cs
  · obtain ⟨as, bs, rfl, has⟩ := List.eq_append_cons_of_mem hc
    have hzero' : 0 ∉ as := fun h => hzero (List.mem_append_left _ h)
    use bs ++ 0 :: rest
    rw [takeWhile_append_cons has, List.append_assoc, List.cons_append,
      strchr_append_cons has hzero']
    dsimp only
    rw [List.set_append_right _ _ (Nat.le_refl _), Nat.sub_self, List.set_cons_zero]
  · rw [strchr_of_not_mem hc hzero hne]
    use rest
    dsimp only
    rw [List.takeWhile_eq_self_iff.mpr]
    intro b hb
    rw [decide_eq_true_iff]
    rintro rfl
    apply hc hb

theorem not_mem_takeWhile (h : 0 ∉ cs) (p : UInt8 → Bool) :
  0 ∉ cs.takeWhile p
  := fun hmem => h ((List.takeWhile_prefix p).subset hmem)

/-- The string in an array that starts with a line. -/
theorem exists_string (line rest : List UInt8) :
  ∃ rest', line ++ 0 :: rest = line.takeWhile (· ≠ 0) ++ 0 :: rest'
  := by
  by_cases hzero : 0 ∈ line
  · obtain ⟨as, bs, rfl, has⟩ := List.eq_append_cons_of_mem hzero
    use bs ++ 0 :: rest
    rw [takeWhile_append_cons has, List.append_assoc, List.cons_append]
  · use rest
    rw [List.takeWhile_eq_self_iff.mpr]
    intro b hb
    rw [decide_eq_true_iff]
    rintro rfl
    apply hzero hb

theorem zero_not_mem_command (line : List UInt8) :
  0 ∉ command line
  := by
  intro h
  have hzero := List.mem_takeWhile_imp h
  simp at hzero

/-- What `strtok` is called on. -/
theorem exists_command (buf line : List UInt8) :
  ∃ rest, main.cut (main.cut (fgets buf line) 10) 13 = command line ++ 0 :: rest
  := by
  obtain ⟨rest, hrest⟩ := exists_string line (buf.drop (line.length + 1))
  have hzero : 0 ∉ line.takeWhile (· ≠ 0) := by
    intro h
    have := List.mem_takeWhile_imp h
    simp at this
  obtain ⟨rest₁, hrest₁⟩ := exists_cut (c := 10) hzero (by decide) rest
  obtain ⟨rest₂, hrest₂⟩ := exists_cut (c := 13) (not_mem_takeWhile hzero (· ≠ 10)) (by decide)
    rest₁
  use rest₂
  rw [fgets, hrest, hrest₁, hrest₂, List.takeWhile_takeWhile, List.takeWhile_takeWhile, command]
  congr 2
  funext c
  simp [and_comm, Bool.decide_and]

theorem length_cut (buf : List UInt8) (c : UInt8) :
  (main.cut buf c).length = buf.length
  := by
  rw [main.cut]
  split
  · apply List.length_set
  · rfl

theorem length_fgets (h : line.length < buf.length) :
  (fgets buf line).length = buf.length
  := by
  rw [fgets, List.length_append, List.length_cons, List.length_drop]
  omega

/-! ### Tokens -/

theorem getD_append_cons (as bs : List UInt8) (c : UInt8) :
  (as ++ c :: bs).getD as.length 0 = c
  := by simp

/-- `strtok` from a position on, with the delimiters it skips. -/
theorem strtok_skip {sp : List UInt8} (hstr : str.or save = some pre.length)
    (hsp : ∀ c ∈ sp, delim.contains c) (hc : delim.contains c = false) (rest : List UInt8) :
  strtok (pre ++ (sp ++ c :: rest)) str save delim
    = if c = 0 then (none, pre ++ (sp ++ c :: rest), none)
      else
        let stop := (pre ++ sp).length
          + ((c :: rest).takeWhile (fun c => c ≠ 0 && !delim.contains c)).length
        if (pre ++ (sp ++ c :: rest)).getD stop 0 = 0 then
          (some (pre ++ sp).length, pre ++ (sp ++ c :: rest), none)
        else
          (some (pre ++ sp).length, (pre ++ (sp ++ c :: rest)).set stop 0, some (stop + 1))
  := by
  have hskip : ((pre ++ (sp ++ c :: rest)).drop pre.length).takeWhile delim.contains = sp := by
    rw [List.drop_left, List.takeWhile_append_of_pos hsp,
      List.takeWhile_cons_of_neg (by rw [hc]; simp), List.append_nil]
  have hget : (pre ++ (sp ++ c :: rest)).getD (pre ++ sp).length 0 = c := by
    rw [← List.append_assoc]
    apply getD_append_cons
  have hdrop : (pre ++ (sp ++ c :: rest)).drop (pre ++ sp).length = c :: rest := by
    rw [← List.append_assoc]
    apply List.drop_left
  rw [strtok, hstr]
  dsimp only
  rw [hskip, ← List.length_append, hget, hdrop]

/-- The array has the string `w` at `o`. -/
def Reads (buf : List UInt8) (o : Nat) (w : List UInt8) : Prop :=
  (buf.drop o).take (w.length + 1) = w ++ [0]

theorem reads_append (pre w rest : List UInt8) :
  Reads (pre ++ (w ++ 0 :: rest)) pre.length w
  := by
  rw [Reads, List.drop_left, List.take_append, List.take_of_length_le (Nat.le_succ _),
    Nat.add_sub_cancel_left, List.take_one]
  rfl

/-- A string in the first part of an array. -/
theorem reads_left_iff (h : o + w.length < pre.length) (rest : List UInt8) :
  Reads (pre ++ rest) o w ↔ Reads pre o w
  := by
  rw [Reads, List.drop_append_of_le_length (by omega), List.take_append_of_le_length, Reads]
  rw [List.length_drop]
  omega

/-- The string `w` at `o` is complete, and `strtok` goes on behind it. -/
structure Token (buf : List UInt8) (save : Option Nat) (o : Nat) (w : List UInt8) : Prop where
  reads : Reads buf o w
  behind : ∀ s, save = some s → o + w.length < s

/-- The words `strtok` has still to find from a position on. -/
def Pending (delim buf : List UInt8) (save : Option Nat) (ws : List (List UInt8)) : Prop :=
  (save = none ∧ ws = []) ∨ ∃ pre cs rest, save = some pre.length
    ∧ buf = pre ++ (cs ++ 0 :: rest) ∧ 0 ∉ cs ∧ words delim.contains cs = ws

theorem words_word {sp : List UInt8} (hsp : ∀ c ∈ sp, delim.contains c) (hne : w ≠ [])
    (hw : ∀ c ∈ w, delim.contains c = false) :
  words delim.contains (sp ++ w) = [w]
  := by rw [words_append hsp, words_of_forall hw, if_neg hne]

theorem words_word_cons {sp us : List UInt8} (hsp : ∀ c ∈ sp, delim.contains c) (hne : w ≠ [])
    (hw : ∀ c ∈ w, delim.contains c = false) (hc : delim.contains c) :
  words delim.contains (sp ++ (w ++ c :: us)) = w :: words delim.contains us
  := by
  rw [words_append hsp, words_append_cons w us hc, words_of_forall hw, if_neg hne]
  rfl

/-- No words are left. -/
theorem strtok_nil (hdelim : delim.contains 0 = false)
    (h : Pending delim buf (str.or save) []) :
  strtok buf str save delim = (none, buf, none)
  := by
  rcases h with ⟨hnone, -⟩ | ⟨pre, cs, rest, hstr, rfl, -, hwords⟩
  · rw [strtok, hnone]
  · rcases words_cases delim.contains cs with hsp | ⟨sp, w, hsp, hne, hw, rfl | ⟨c, us, hc, rfl⟩⟩
    · rw [strtok_skip hstr hsp hdelim, if_pos rfl]
    · rw [words_word hsp hne hw] at hwords
      cases hwords
    · rw [words_word_cons hsp hne hw hc] at hwords
      cases hwords

/-- The length of the word `strtok` finds. -/
theorem takeWhile_word {x : UInt8} (hw : ∀ c ∈ w, delim.contains c = false) (hzero : 0 ∉ w)
    (hx : x = 0 ∨ delim.contains x) (rest : List UInt8) :
  (w ++ x :: rest).takeWhile (fun c => c ≠ 0 && !delim.contains c) = w
  := by
  rw [List.takeWhile_append_of_pos, List.takeWhile_cons_of_neg, List.append_nil]
  · rcases hx with rfl | hx
    · simp
    · rw [hx]
      simp
  · intro c hc
    have hne : c ≠ 0 := by
      rintro rfl
      apply hzero hc
    rw [hw c hc]
    simp [hne]

/-- `strtok` at the last word of the string. -/
theorem strtok_last {sp : List UInt8} (hstr : str.or save = some pre.length)
    (hsp : ∀ c ∈ sp, delim.contains c) (hne : w ≠ []) (hw : ∀ c ∈ w, delim.contains c = false)
    (hzero : 0 ∉ w) (rest : List UInt8) :
  strtok (pre ++ (sp ++ (w ++ 0 :: rest))) str save delim
    = (some (pre ++ sp).length, pre ++ (sp ++ (w ++ 0 :: rest)), none)
  := by
  obtain ⟨c, w', rfl⟩ := List.exists_cons_of_ne_nil hne
  have hc : c ≠ 0 := by
    rintro rfl
    apply hzero List.mem_cons_self
  have hstop : (pre ++ (sp ++ (c :: w' ++ 0 :: rest))).getD
      ((pre ++ sp).length + (c :: w').length) 0 = 0 := by
    rw [← List.length_append, ← List.append_assoc, ← List.append_assoc]
    apply getD_append_cons
  have hword := takeWhile_word (x := 0) hw hzero (.inl rfl) rest
  rw [List.cons_append] at hword hstop ⊢
  rw [strtok_skip hstr hsp (hw c List.mem_cons_self), if_neg hc]
  dsimp only
  rw [hword, if_pos hstop]

/-- `strtok` at a word with a delimiter behind it. -/
theorem strtok_word {sp us : List UInt8} (hstr : str.or save = some pre.length)
    (hsp : ∀ c ∈ sp, delim.contains c) (hne : w ≠ []) (hw : ∀ c ∈ w, delim.contains c = false)
    (hzero : 0 ∉ w) (hc : delim.contains c) (hc' : c ≠ 0) :
  strtok (pre ++ (sp ++ (w ++ c :: us))) str save delim
    = (some (pre ++ sp).length, pre ++ (sp ++ (w ++ 0 :: us)),
      some ((pre ++ sp).length + w.length + 1))
  := by
  obtain ⟨b, w', rfl⟩ := List.exists_cons_of_ne_nil hne
  have hb : b ≠ 0 := by
    rintro rfl
    apply hzero List.mem_cons_self
  have hassoc (x : UInt8) : pre ++ (sp ++ (b :: w' ++ x :: us))
      = (pre ++ sp ++ b :: w') ++ x :: us := by
    rw [List.append_assoc, List.append_assoc]
  have hstop : (pre ++ (sp ++ (b :: w' ++ c :: us))).getD
      ((pre ++ sp).length + (b :: w').length) 0 = c := by
    rw [← List.length_append, hassoc]
    apply getD_append_cons
  have hset : (pre ++ (sp ++ (b :: w' ++ c :: us))).set
      ((pre ++ sp).length + (b :: w').length) 0 = pre ++ (sp ++ (b :: w' ++ 0 :: us)) := by
    rw [← List.length_append, hassoc, hassoc, List.set_append_right _ _ (Nat.le_refl _),
      Nat.sub_self, List.set_cons_zero]
  have hword := takeWhile_word hw hzero (.inr hc) us
  rw [List.cons_append] at hword hstop hset ⊢
  rw [strtok_skip hstr hsp (hw b List.mem_cons_self), if_neg hb]
  dsimp only
  rw [hword, hstop, if_neg hc', hset]

/-- `strtok` finds the next word; the words found before stay as they are. -/
theorem strtok_cons (hdelim : delim.contains 0 = false)
    (h : Pending delim buf (str.or save) (w :: ws)) :
  ∃ start buf' save', strtok buf str save delim = (some start, buf', save')
    ∧ Pending delim buf' save' ws ∧ Token buf' save' start w ∧ buf'.length = buf.length
    ∧ ∀ o v, Token buf (str.or save) o v → Token buf' save' o v
  := by
  rcases h with ⟨-, h⟩ | ⟨pre, cs, rest, hstr, rfl, hzero, hwords⟩
  · cases h
  rcases words_cases delim.contains cs with hsp | ⟨sp, v, hsp, hne, hw, rfl | ⟨c, us, hc, rfl⟩⟩
  · rw [← List.append_nil cs, words_append hsp, words_nil] at hwords
    cases hwords
  · rw [words_word hsp hne hw] at hwords
    cases hwords
    have hzero' : 0 ∉ w := fun h => hzero (List.mem_append_right _ h)
    rw [List.append_assoc, strtok_last hstr hsp hne hw hzero']
    refine ⟨_, _, _, rfl, .inl ⟨rfl, rfl⟩, ⟨?_, nofun⟩, rfl, ?_⟩
    · rw [← List.append_assoc]
      apply reads_append
    · intro o v hv
      exact ⟨hv.reads, nofun⟩
  · rw [words_word_cons hsp hne hw hc] at hwords
    cases hwords
    have hzero' : 0 ∉ w := fun h =>
      hzero (List.mem_append_right _ (List.mem_append_left _ h))
    have hzero'' : 0 ∉ us := fun h =>
      hzero (List.mem_append_right _ (List.mem_append_right _ (List.mem_cons_of_mem _ h)))
    have hc' : c ≠ 0 := by
      rintro rfl
      rw [hdelim] at hc
      cases hc
    rw [List.append_assoc, List.append_assoc, List.cons_append,
      strtok_word hstr hsp hne hw hzero' hc hc']
    refine ⟨_, _, _, rfl, .inr ⟨pre ++ sp ++ w ++ [0], us, rest, ?_, ?_, hzero'', rfl⟩,
      ⟨?_, ?_⟩, ?_, ?_⟩
    · simp [Nat.add_assoc]
    · simp
    · rw [← List.append_assoc]
      apply reads_append
    · rintro s ⟨⟩
      apply Nat.lt_succ_self
    · simp
    · intro o v hv
      have hbefore := hv.behind _ hstr
      constructor
      · rw [reads_left_iff hbefore, ← reads_left_iff hbefore]
        apply hv.reads
      · rintro s ⟨⟩
        rw [List.length_append]
        omega

/-! ### The loop over the tokens -/

/-- The tokens in `argv` are the words `vs`, the latest first, at the indices from 0 on;
`strtok` goes on from `save`. -/
structure Args.Stored (r : Args) (save : Option Nat) (vs : List (List UInt8)) : Prop where
  index : r.stores.map Prod.fst = (List.range r.argc).reverse
  tokens : List.Forall₂ (fun p v => Token r.currInput save p.2 v) r.stores vs

theorem Args.Stored.argc {r : Args} (h : r.Stored save vs) :
  r.argc = vs.length ∧ r.argc = r.stores.length
  := by
  have hlength := congrArg List.length h.index
  rw [List.length_map, List.length_reverse, List.length_range] at hlength
  exact ⟨hlength.symm.trans h.tokens.length_eq, hlength.symm⟩

theorem space_zero :
  main.space.contains 0 = false
  := rfl

/-- The loop ends, with a token for each of the words that are left. -/
theorem loop_stored (str : Option Nat) {r : Args} {fuel : Nat}
    (hstored : r.Stored (str.or r.save) vs)
    (hpending : Pending main.space r.currInput (str.or r.save) ws) (hfuel : ws.length ≤ fuel) :
  ∃ r' save', main.loop fuel (r.nextToken str).1 (r.nextToken str).2 = some r'
    ∧ r'.Stored save' (ws.reverse ++ vs) ∧ r'.currInput.length = r.currInput.length
  := by
  induction ws generalizing r vs fuel str with
  | nil =>
      have hnext : r.nextToken str = (none, { r with save := none }) := by
        rw [Args.nextToken, strtok_nil space_zero hpending]
      rw [hnext]
      refine ⟨{ r with save := none }, str.or r.save, by cases fuel <;> rfl, ?_, rfl⟩
      exact ⟨hstored.index, hstored.tokens⟩
  | cons w ws ih =>
      obtain ⟨start, buf', save', hstrtok, hpending', htoken, hlength, hkept⟩ :=
        strtok_cons space_zero hpending
      have hnext : r.nextToken str
          = (some start, { r with currInput := buf', save := save' }) := by
        rw [Args.nextToken, hstrtok]
      obtain ⟨fuel, rfl⟩ := Nat.exists_eq_add_of_le' (Nat.le_of_add_left_le hfuel)
      have hstored' : (⟨buf', save', r.argc + 1, (r.argc, start) :: r.stores⟩ : Args).Stored
          save' (w :: vs) := by
        constructor
        · rw [List.map_cons, hstored.index, List.range_succ, List.reverse_append]
          rfl
        · exact List.Forall₂.cons htoken (hstored.tokens.imp (fun _ _ => hkept _ _))
      obtain ⟨r', save'', hloop, hstored'', hlength'⟩ :=
        ih none hstored' hpending' (Nat.le_of_add_le_add_right hfuel)
      rw [hnext]
      refine ⟨r', save'', hloop, ?_, hlength'.trans hlength⟩
      rw [List.reverse_cons, List.append_assoc, List.singleton_append]
      apply hstored''

/-- The loop ends for every line, with a token for each word of the command. -/
theorem args_stored (hbuf : buf.length = cliInputSize)
    (hline : line.length ≤ cliInputSize - 1) (save : Option Nat) :
  ∃ r save', main.args buf line save = some r
    ∧ r.Stored save' (tokens (command line)).reverse ∧ r.currInput.length = cliInputSize
  := by
  have hlt : line.length < buf.length := by
    unfold cliInputSize at hbuf hline
    omega
  obtain ⟨rest, hcommand⟩ := exists_command buf line
  have hlength : (command line ++ 0 :: rest).length = cliInputSize := by
    rw [← hcommand, length_cut, length_cut, length_fgets hlt, hbuf]
  have hstored : (⟨command line ++ 0 :: rest, save, 0, []⟩ : Args).Stored
      ((some 0).or save) [] := ⟨rfl, .nil⟩
  have hpending : Pending main.space (command line ++ 0 :: rest) ((some 0).or save)
      (tokens (command line)) :=
    .inr ⟨[], command line, rest, rfl, rfl, zero_not_mem_command line, rfl⟩
  have hfuel : (tokens (command line)).length ≤ cliInputSize := by
    have hwords : (tokens (command line)).length ≤ (command line).length := length_words_le _
    rw [List.length_append] at hlength
    omega
  obtain ⟨r, save', hloop, hr, hr'⟩ := loop_stored (some 0) hstored hpending hfuel
  rw [List.append_nil] at hr
  rw [main.args, hcommand]
  exact ⟨r, save', hloop, hr, hr'.trans hlength⟩

theorem Args.Stored.mem {r : Args} (h : r.Stored save vs) {i : Nat} :
  (∃ p ∈ r.stores, p.1 = i) ↔ i < r.argc
  := by
  rw [← List.mem_range, ← List.mem_reverse, ← h.index, List.mem_map]

/-- The arguments stay inside `argv` exactly when there is a place behind them. -/
theorem Args.Stored.inside_iff {r : Args} (h : r.Stored save vs) (stack : Nat → Option Nat) :
  r.Inside stack ↔ vs.length < argvSize
  := by
  obtain ⟨hargc, hstores⟩ := h.argc
  constructor
  · intro hinside
    rw [← hargc]
    apply hinside.inside
  · intro hlt
    rw [← hargc] at hlt
    have hnone : r.stores.find? (fun p => p.1 = r.argc) = none := by
      rw [List.find?_eq_none]
      intro p hp heq
      rw [decide_eq_true_iff] at heq
      apply Nat.lt_irrefl r.argc (h.mem.mp ⟨p, hp, heq⟩)
    refine ⟨?_, hstores, hlt, ?_⟩
    · intro p hp
      have := h.mem.mp ⟨p, hp, rfl⟩
      omega
    · rw [Args.argv, hnone]
      dsimp only
      rw [if_pos hlt]

/-- For every line the loop ends with the words of the command as its tokens, and stays inside
`argv` exactly when there are at most nine of them. -/
theorem args_inside_iff (hbuf : buf.length = cliInputSize) (hline : line.length ≤ cliInputSize - 1)
    (save : Option Nat) (stack : Nat → Option Nat) :
  ∃ r, main.args buf line save = some r
    ∧ List.Forall₂ (fun p w => Reads r.currInput p.2 w) r.stores.reverse
      (tokens (command line))
    ∧ (r.Inside stack ↔ (tokens (command line)).length ≤ 9)
  := by
  obtain ⟨r, save', hargs, hstored, -⟩ := args_stored hbuf hline save
  refine ⟨r, hargs, ?_, ?_⟩
  · rw [← List.reverse_reverse (tokens (command line)), List.forall₂_reverse_iff]
    exact hstored.tokens.imp (fun _ _ h => h.reads)
  · rw [hstored.inside_iff, List.length_reverse, argvSize]
    omega

/-- `echo -n 2 hi` -/
theorem inside_echo :
  ∃ r, main.args (List.replicate cliInputSize 0)
      [101, 99, 104, 111, 32, 45, 110, 32, 50, 32, 104, 105, 10] none = some r
    ∧ r.Inside (fun _ => none)
  := by
  have hbuf : (List.replicate cliInputSize (0 : UInt8)).length = cliInputSize :=
    List.length_replicate
  obtain ⟨r, hargs, -, hiff⟩ := args_inside_iff hbuf
    (show [101, 99, 104, 111, 32, 45, 110, 32, 50, 32, 104, 105, 10].length
      ≤ cliInputSize - 1 by decide) none (fun _ => none)
  exact ⟨r, hargs, hiff.mpr (by decide)⟩

/-- The line `a b c d e f g h i j k`, with a line feed. -/
def elevenWords : List UInt8 :=
  [97, 32, 98, 32, 99, 32, 100, 32, 101, 32, 102, 32, 103, 32, 104, 32, 105, 32, 106, 32, 107, 10]

/-- The last of eleven words goes behind the array. -/
theorem not_inside_elevenWords :
  ∃ r, main.args (List.replicate cliInputSize 0) elevenWords none = some r
    ∧ (∃ p ∈ r.stores, p.1 = argvSize) ∧ ¬ r.Inside (fun _ => none)
  := by
  have hbuf : (List.replicate cliInputSize (0 : UInt8)).length = cliInputSize :=
    List.length_replicate
  have hline : elevenWords.length ≤ cliInputSize - 1 := by decide
  have hwords : (tokens (command elevenWords)).length = 11 := by decide
  obtain ⟨r, save, hargs, hstored, -⟩ := args_stored hbuf hline none
  refine ⟨r, hargs, hstored.mem.mpr ?_, ?_⟩
  · rw [hstored.argc.1, List.length_reverse, hwords]
    decide
  · rw [hstored.inside_iff, List.length_reverse, hwords]
    decide

end Dmos.Shell
