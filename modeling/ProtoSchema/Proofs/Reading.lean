import ProtoSchema.Text.Reader

/-!
# What readers take

Each reader accepts a text exactly when the text starts in a certain way, and what it leaves is then
settled. The lemmas below say so for the single readers and for two readers in a row, so that a
reader made of several is opened by rewriting.

Results:
* `bind_eq_some`, `pure_eq_some`, `lift_eq_some`: readers in a row;
* `blanks_eq_some`, `blanks1_eq_some`, `token_eq_some`, `run_eq_some`, `sign_eq_some`,
  `rest_eq_some`: single readers;
* `blanks_bind`, `blanks1_bind`, `token_bind`, `run_bind`: the same, for a text that is given in
  pieces;
* `trimEnd_append`, `trim_eq`, `trimStart_trimEnd`: what trimming leaves.
-/
namespace ProtoSchema.Text

/-- Nothing but blanks. -/
def AllBlank (cs : List Char) : Prop :=
  ∀ c ∈ cs, isBlank c = true

/-- The text does not start with a character of the class. -/
def NotAhead (cls : Char → Bool) (cs : List Char) : Prop :=
  ∀ c, cs.head? = some c → cls c = false

theorem allBlank_nil : AllBlank [] := by simp [AllBlank]

theorem allBlank_cons {c : Char} {cs : List Char} :
    AllBlank (c :: cs) ↔ isBlank c = true ∧ AllBlank cs := by
  simp [AllBlank]

theorem AllBlank.append {v w : List Char} (hv : AllBlank v) (hw : AllBlank w) :
    AllBlank (v ++ w) := by
  intro c hc
  rcases List.mem_append.1 hc with h | h
  · exact hv c h
  · exact hw c h

theorem AllBlank.of_append {v w : List Char} (h : AllBlank (v ++ w)) :
    AllBlank v ∧ AllBlank w :=
  ⟨fun c hc => h c (List.mem_append_left w hc), fun c hc => h c (List.mem_append_right v hc)⟩

theorem notAhead_nil (cls : Char → Bool) : NotAhead cls [] := by
  intro c h
  cases h

theorem notAhead_cons {cls : Char → Bool} {c : Char} {cs : List Char} :
    NotAhead cls (c :: cs) ↔ cls c = false := by
  simp [NotAhead]

theorem notAhead_append_of_ne_nil {cls : Char → Bool} {v w : List Char} (hv : NotAhead cls v)
    (hne : v ≠ []) : NotAhead cls (v ++ w) := by
  obtain ⟨c, cs, rfl⟩ := List.exists_cons_of_ne_nil hne
  exact notAhead_cons.2 (notAhead_cons.1 hv)

theorem notAhead_append {cls : Char → Bool} {v w : List Char} (hv : NotAhead cls v)
    (hw : NotAhead cls w) : NotAhead cls (v ++ w) := by
  cases v with
  | nil => exact hw
  | cons c cs => exact notAhead_append_of_ne_nil hv (List.cons_ne_nil c cs)

/-! ## Runs -/

theorem takeWhile_eq {cls : Char → Bool} {piece rest : List Char}
    (hpiece : ∀ c ∈ piece, cls c = true) (hrest : NotAhead cls rest) :
    (piece ++ rest).takeWhile cls = piece := by
  rw [List.takeWhile_append_of_pos hpiece]
  cases rest with
  | nil => simp
  | cons c cs => simp [notAhead_cons.1 hrest]

theorem dropWhile_eq {cls : Char → Bool} {piece rest : List Char}
    (hpiece : ∀ c ∈ piece, cls c = true) (hrest : NotAhead cls rest) :
    (piece ++ rest).dropWhile cls = rest := by
  rw [List.dropWhile_append_of_pos hpiece]
  cases rest with
  | nil => rfl
  | cons c cs => simp [notAhead_cons.1 hrest]

theorem notAhead_dropWhile (cls : Char → Bool) (cs : List Char) :
    NotAhead cls (cs.dropWhile cls) := by
  intro c hc
  simpa [hc] using List.head?_dropWhile_not cls cs

theorem getLast?_filter_eq_some {α : Type} {p : α → Bool} {xs : List α} {x : α} :
    (xs.filter p).getLast? = some x ↔
      ∃ before after, xs = before ++ x :: after ∧ p x = true ∧ ∀ y ∈ after, p y = false := by
  rw [← List.head?_reverse, ← List.filter_reverse, List.head?_filter,
    List.find?_eq_some_iff_append]
  refine ⟨fun ⟨hx, v, w, hxs, hv⟩ => ⟨w.reverse, v.reverse, ?_, hx, ?_⟩,
    fun ⟨before, after, hxs, hx, hafter⟩ => ⟨hx, after.reverse, before.reverse, ?_, ?_⟩⟩
  · rw [← List.reverse_reverse xs, hxs]; simp
  · intro y hy
    simpa using hv y (List.mem_reverse.1 hy)
  · simp [hxs]
  · intro y hy
    simp [hafter y (List.mem_reverse.1 hy)]

/-! ## Trimming -/

theorem trimStart_append {w rest : List Char} (hw : AllBlank w) (hrest : NotAhead isBlank rest) :
    trimStart (w ++ rest) = rest :=
  dropWhile_eq hw hrest

theorem exists_trimStart (cs : List Char) :
    ∃ w, AllBlank w ∧ cs = w ++ trimStart cs ∧ NotAhead isBlank (trimStart cs) :=
  ⟨cs.takeWhile isBlank, fun _ hc => List.all_eq_true.1 List.all_takeWhile _ hc,
    List.takeWhile_append_dropWhile.symm, notAhead_dropWhile isBlank cs⟩

theorem AllBlank.reverse {cs : List Char} (h : AllBlank cs) : AllBlank cs.reverse :=
  fun c hc => h c (List.mem_reverse.1 hc)

theorem trimEnd_append {cs w : List Char} (hw : AllBlank w) (hcs : NotAhead isBlank cs.reverse) :
    trimEnd (cs ++ w) = cs := by
  rw [trimEnd, List.reverse_append, trimStart_append hw.reverse hcs, List.reverse_reverse]

theorem exists_trimEnd (cs : List Char) :
    ∃ w, AllBlank w ∧ cs = trimEnd cs ++ w ∧ NotAhead isBlank (trimEnd cs).reverse := by
  obtain ⟨w, hw, hcs, hend⟩ := exists_trimStart cs.reverse
  refine ⟨w.reverse, hw.reverse, ?_, ?_⟩
  · rw [trimEnd, ← List.reverse_append, ← hcs, List.reverse_reverse]
  · rwa [trimEnd, List.reverse_reverse]

theorem trimEnd_of_notAhead {cs : List Char} (h : NotAhead isBlank cs.reverse) :
    trimEnd cs = cs := by
  simpa using trimEnd_append allBlank_nil h

theorem trimStart_append_allBlank {w : List Char} (hw : AllBlank w) (cs : List Char) :
    trimStart (w ++ cs) = trimStart cs :=
  List.dropWhile_append_of_pos hw

theorem trimEnd_append_allBlank {w : List Char} (hw : AllBlank w) (cs : List Char) :
    trimEnd (cs ++ w) = trimEnd cs := by
  rw [trimEnd, List.reverse_append, trimStart_append_allBlank hw.reverse, trimEnd]

theorem trimEnd_of_allBlank {w : List Char} (hw : AllBlank w) : trimEnd w = [] :=
  trimEnd_append_allBlank hw []

/-- A text between blanks, which neither starts nor ends with one, is what trimming leaves. -/
theorem trim_eq {v cs w : List Char} (hv : AllBlank v) (hw : AllBlank w)
    (hstart : NotAhead isBlank cs) (hend : NotAhead isBlank cs.reverse) :
    trim (v ++ cs ++ w) = cs := by
  cases cs with
  | nil =>
    have hall : AllBlank (v ++ [] ++ w) := (hv.append allBlank_nil).append hw
    have hnil : trimStart (v ++ [] ++ w) = [] := by
      simpa using trimStart_append hall (notAhead_nil isBlank)
    rw [trim, hnil]
    rfl
  | cons c cs =>
    rw [trim, List.append_assoc, trimStart_append hv (notAhead_append_of_ne_nil hstart (by simp)),
      trimEnd_append hw hend]

theorem exists_trim (cs : List Char) :
    ∃ v w, AllBlank v ∧ AllBlank w ∧ cs = v ++ trim cs ++ w ∧ NotAhead isBlank (trim cs) ∧
      NotAhead isBlank (trim cs).reverse := by
  obtain ⟨v, hv, hcs, hstart⟩ := exists_trimStart cs
  obtain ⟨w, hw, htail, hend⟩ := exists_trimEnd (trimStart cs)
  refine ⟨v, w, hv, hw, ?_, ?_, hend⟩
  · rw [List.append_assoc, trim, ← htail, ← hcs]
  · -- what is left starts where the text without its leading blanks starts
    intro c hc
    refine hstart c ?_
    rw [htail, List.head?_append]
    exact Option.or_eq_some_iff.2 (.inl hc)

/-- It does not matter which end is trimmed first. -/
theorem trimStart_trimEnd (cs : List Char) : trimStart (trimEnd cs) = trim cs := by
  obtain ⟨v, w, hv, hw, hcs, hstart, hend⟩ := exists_trim cs
  cases htrim : trim cs with
  | nil =>
    rw [htrim, List.append_nil] at hcs
    rw [hcs, trimEnd_of_allBlank (hv.append hw)]
    rfl
  | cons c ds =>
    rw [htrim] at hcs hstart hend
    have hvend : NotAhead isBlank (v ++ c :: ds).reverse := by
      rw [List.reverse_append]
      exact notAhead_append_of_ne_nil hend (by simp)
    rw [hcs, trimEnd_append hw hvend, trimStart_append hv hstart]

theorem allBlank_of_trim_eq_nil {cs : List Char} (h : trim cs = []) : AllBlank cs := by
  obtain ⟨v, w, hv, hw, hcs, -⟩ := exists_trim cs
  rw [hcs, h]
  exact (hv.append allBlank_nil).append hw

theorem trim_eq_nil {cs : List Char} (h : AllBlank cs) : trim cs = [] := by
  simpa using trim_eq h allBlank_nil (notAhead_nil isBlank) (notAhead_nil isBlank)

namespace Reader

variable {α β : Type}

/-! ## Readers in a row -/

theorem bind_eq_some {x : Reader α} {f : α → Reader β} {cs rest : List Char} {b : β} :
    (x >>= f) cs = some (b, rest) ↔
      ∃ a cs', x cs = some (a, cs') ∧ f a cs' = some (b, rest) := by
  simp [bind, StateT.bind, Option.bind_eq_some_iff]

theorem pure_eq_some {a b : α} {cs rest : List Char} :
    (pure a : Reader α) cs = some (b, rest) ↔ b = a ∧ rest = cs := by
  show some (a, cs) = some (b, rest) ↔ b = a ∧ rest = cs
  rw [Option.some.injEq, Prod.mk.injEq, eq_comm, @eq_comm _ cs]

theorem lift_eq_some {x : Option α} {cs rest : List Char} {a : α} :
    (liftM x : Reader α) cs = some (a, rest) ↔ x = some a ∧ rest = cs := by
  cases x <;> simp [liftM, monadLift, MonadLift.monadLift, StateT.lift, bind, pure, eq_comm]

theorem whole?_eq_some {x : Reader α} {cs : List Char} {a : α} :
    whole? x cs = some a ↔ x cs = some (a, []) := by
  unfold whole?
  split
  · next h => simp [h]
  · next h =>
    refine ⟨fun hn => ?_, fun hs => absurd hs (h a)⟩
    cases hn

/-! ## What single readers accept -/

theorem blanks_eq_some {cs rest : List Char} {u : Unit} :
    blanks cs = some (u, rest) ↔
      ∃ w, AllBlank w ∧ cs = w ++ rest ∧ NotAhead isBlank rest := by
  refine ⟨fun h => ?_, fun h => ?_⟩
  · obtain rfl : trimStart cs = rest := by simpa [blanks] using h
    exact exists_trimStart cs
  · obtain ⟨w, hw, rfl, hrest⟩ := h
    rw [blanks, trimStart_append hw hrest]

theorem blanks1_eq_some {cs rest : List Char} {u : Unit} :
    blanks1 cs = some (u, rest) ↔
      ∃ w, AllBlank w ∧ w ≠ [] ∧ cs = w ++ rest ∧ NotAhead isBlank rest := by
  refine ⟨fun h => ?_, fun h => ?_⟩
  · unfold blanks1 at h
    split at h
    · next hhead =>
      obtain rfl : trimStart cs = rest := by simpa using h
      obtain ⟨c, hc, hblank⟩ : ∃ c, cs.head? = some c ∧ isBlank c = true := by
        simpa [Option.any_eq_true] using hhead
      obtain ⟨w, hw, hcs, hrest⟩ := exists_trimStart cs
      refine ⟨w, hw, fun hnil => ?_, hcs, hrest⟩
      -- without leading blanks the trimmed text would start with the blank `c`
      rw [hcs, hnil, List.nil_append] at hc
      rw [hrest c hc] at hblank
      cases hblank
    · cases h
  · obtain ⟨w, hw, hne, rfl, hrest⟩ := h
    obtain ⟨c, v, rfl⟩ := List.exists_cons_of_ne_nil hne
    have hc := (allBlank_cons.1 hw).1
    rw [blanks1, if_pos (by simp [hc]), trimStart_append hw hrest]

theorem exactly_eq_some {text cs rest : List Char} {u : Unit} :
    exactly text cs = some (u, rest) ↔ cs = text ++ rest := by
  refine ⟨fun h => ?_, fun h => h ▸ exactly_append text rest⟩
  unfold exactly at h
  split at h
  · next hprefix =>
    obtain ⟨tail, rfl⟩ := List.isPrefixOf_iff_prefix.1 hprefix
    obtain rfl : tail = rest := by simpa using h
    rfl
  · cases h

theorem token_eq_some {text : String} {cs rest : List Char} {u : Unit} :
    token text cs = some (u, rest) ↔ cs = text.toList ++ rest :=
  exactly_eq_some

theorem run_eq_some {cls : Char → Bool} {ok : List Char → Bool} {cs piece rest : List Char} :
    run cls ok cs = some (piece, rest) ↔
      cs = piece ++ rest ∧ ok piece = true ∧ (∀ c ∈ piece, cls c = true) ∧ NotAhead cls rest := by
  refine ⟨fun h => ?_, fun h => ?_⟩
  · obtain ⟨hcs, hok, hcls⟩ := append_of_run h
    refine ⟨hcs.symm, hok, hcls, ?_⟩
    have hdrop : cs.dropWhile cls = rest := by
      unfold run at h
      split at h
      · simp_all
      · cases h
    rw [← hdrop]
    exact notAhead_dropWhile cls cs
  · obtain ⟨rfl, hok, hcls, hrest⟩ := h
    rw [run, takeWhile_eq hcls hrest, dropWhile_eq hcls hrest, if_pos hok]

theorem sign_eq_some {cs rest : List Char} {negative : Bool} :
    sign cs = some (negative, rest) ↔
      (negative = true ∧ cs = '-' :: rest) ∨
        (negative = false ∧ cs = rest ∧ cs.head? ≠ some '-') := by
  unfold sign
  split
  · next tail => cases negative <;> simp [eq_comm]
  · next hcs =>
    have hhead : cs.head? ≠ some '-' := by
      intro h
      obtain ⟨tail, rfl⟩ := List.head?_eq_some_iff.1 h
      exact hcs tail rfl
    cases negative
    · simp [hhead]
    · simp only [Option.some.injEq, Prod.mk.injEq, Bool.false_eq_true, false_and, true_and,
        reduceCtorEq, or_false, false_iff]
      exact fun heq => hcs rest heq

theorem rest_eq_some {cs piece left : List Char} :
    rest cs = some (piece, left) ↔ piece = cs ∧ left = [] := by
  simp [rest, eq_comm]

/-! ## Single readers at the head of a text -/

theorem bind_of_eq_some {x : Reader α} {f : α → Reader β} {cs rest : List Char} {a : α}
    (h : x cs = some (a, rest)) : (x >>= f) cs = f a rest := by
  simp [bind, StateT.bind, h]

variable {rest : List Char} {f : Unit → Reader β}

theorem blanks_bind {w : List Char} (hw : AllBlank w) (hrest : NotAhead isBlank rest) :
    (blanks >>= f) (w ++ rest) = f () rest :=
  bind_of_eq_some (blanks_eq_some.2 ⟨w, hw, rfl, hrest⟩)

theorem blanks1_bind {w : List Char} (hw : AllBlank w) (hne : w ≠ [])
    (hrest : NotAhead isBlank rest) : (blanks1 >>= f) (w ++ rest) = f () rest :=
  bind_of_eq_some (blanks1_eq_some.2 ⟨w, hw, hne, rfl, hrest⟩)

theorem token_bind {text : String} : (token text >>= f) (text.toList ++ rest) = f () rest :=
  bind_of_eq_some (token_eq_some.2 rfl)

theorem run_bind {cls : Char → Bool} {ok : List Char → Bool} {piece : List Char}
    {g : List Char → Reader β} (hok : ok piece = true) (hcls : ∀ c ∈ piece, cls c = true)
    (hrest : NotAhead cls rest) : (run cls ok >>= g) (piece ++ rest) = g piece rest :=
  bind_of_eq_some (run_eq_some.2 ⟨rfl, hok, hcls, hrest⟩)

end Reader

end ProtoSchema.Text
