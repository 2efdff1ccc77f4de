import ProtoSchema.FileTree

/-!
# Written files

Writing a file changes that file and nothing else, and the path that was written then names what was
written.

**Walks.** A walk along a path only looks for directories. A file is never written where a directory
is, so every walk that got through before a write gets through behind it (`approach_put`).

Results:
* `entry?_put`, `entry?_put_of_ne`: the one entry that changes, and all others;
* `target_eq_ok`: which file a path would write;
* `write_eq_ok`: what a write changes;
* `lookup_write`: what the written path names behind the write;
* `write_frame`: the written file and everything else behind the write.
-/
namespace ProtoSchema

theorem lookup_filter_of_key {α β : Type} [BEq α] [LawfulBEq α] {key : α} {keep : α × β → Bool}
    (h : ∀ pair, pair.1 = key → keep pair = true) (pairs : List (α × β)) :
    (pairs.filter keep).lookup key = pairs.lookup key := by
  induction pairs with
  | nil => rfl
  | cons pair pairs ih =>
    cases hkeep : keep pair with
    | true => rw [List.filter_cons_of_pos hkeep, List.lookup_cons, List.lookup_cons, ih]
    | false =>
      have hkey : (key == pair.1) = false := by
        refine beq_eq_false_iff_ne.2 fun hkey => ?_
        rw [h pair hkey.symm] at hkeep
        cases hkeep
      rw [List.filter_cons_of_neg (by rw [hkeep]; nofun), ih, List.lookup_cons, hkey]

theorem ite_error_eq_ok {ε α : Type} {guard : Prop} [Decidable guard] {fault : ε} {x : Except ε α}
    {a : α} : (if guard then .error fault else x) = .ok a ↔ ¬ guard ∧ x = .ok a := by
  by_cases h : guard <;> simp [h]

namespace FileTree

variable {tree : FileTree} {names other : List Name} {path : List Char} {content : ByteArray}

/-! ## Entries -/

theorem entry?_put (h : names ≠ []) (entry : Entry) :
    FileTree.entry? (tree.put names entry) names = some entry := by
  cases names with
  | nil => exact absurd rfl h
  | cons name names => exact List.lookup_cons_self

theorem entry?_put_of_ne (h : other ≠ names) (entry : Entry) :
    FileTree.entry? (tree.put names entry) other = tree.entry? other := by
  cases other with
  | nil => rfl
  | cons name other =>
    have hnames : (name :: other == names) = false := beq_eq_false_iff_ne.2 h
    have hkeep : ∀ pair : List Name × Entry,
        pair.1 = name :: other → decide (pair.1 ≠ names) = true :=
      fun pair hpair => decide_eq_true (hpair ▸ h)
    change List.lookup (name :: other) ((names, entry) :: _) = tree.entries.lookup (name :: other)
    rw [List.lookup_cons, hnames]
    exact lookup_filter_of_key hkeep tree.entries

/-! ## Walks -/

theorem enter_put (hnew : tree.entry? names ≠ some .directory) {front next : List Name}
    {step : PathStep} (h : tree.enter front step = .ok next) :
    (tree.put names (.file content)).enter front step = .ok next := by
  cases step with
  | stay | up => exact h
  | down name =>
    simp only [enter] at h ⊢
    split at h
    · cases h
    · next hname =>
      rw [if_neg hname]
      by_cases hnames : front ++ [name] = names
      · -- A file can only be written where no directory is.
        split at h
        · next hentry => exact absurd (hnames ▸ hentry) hnew
        · cases h
        · cases h
      · rw [entry?_put_of_ne hnames]
        exact h

theorem foldlM_enter_put (hnew : tree.entry? names ≠ some .directory) {steps : List PathStep}
    {front next : List Name} (h : steps.foldlM tree.enter front = .ok next) :
    steps.foldlM (tree.put names (.file content)).enter front = .ok next := by
  induction steps generalizing front with
  | nil => exact h
  | cons step steps ih =>
    rw [List.foldlM_cons] at h ⊢
    cases hstep : tree.enter front step with
    | error fault =>
      rw [hstep] at h
      cases h
    | ok middle =>
      rw [hstep] at h
      rw [enter_put hnew hstep]
      exact ih h

theorem approach_put (hnew : tree.entry? names ≠ some .directory) {front : List Name}
    {step : PathStep} (h : tree.approach path = .ok (front, step)) :
    (tree.put names (.file content)).approach path = .ok (front, step) := by
  unfold approach at h ⊢
  simp only at h ⊢
  cases hwalk : (pathSteps path).dropLast.foldlM tree.enter (tree.origin path) with
  | error fault =>
    rw [hwalk] at h
    cases h
  | ok middle =>
    have horigin : (tree.put names (.file content)).origin path = tree.origin path := rfl
    rw [hwalk] at h
    rw [horigin, foldlM_enter_put hnew hwalk]
    exact h

/-! ## Writes -/

/-- A path would write a file if it ends in a name behind a directory, and no directory has that
name already. -/
theorem target_eq_ok (h : tree.target path = .ok names) :
    path ≠ [] ∧ '\x00' ∉ path ∧ isTooLong pathLimit path = false ∧ path.getLast? ≠ some '/' ∧
      tree.entry? names ≠ some .directory ∧
      ∃ front name, names = front ++ [name] ∧ isTooLong nameLimit name = false ∧
        tree.approach (path.reverse.dropWhile (· = '/')).reverse = .ok (front, .down name) := by
  unfold target at h
  obtain ⟨hpath, h⟩ := ite_error_eq_ok.1 h
  obtain ⟨hnul, h⟩ := ite_error_eq_ok.1 h
  obtain ⟨hlong, h⟩ := ite_error_eq_ok.1 h
  cases hwalk : tree.approach (path.reverse.dropWhile (· = '/')).reverse with
  | error fault =>
    rw [hwalk] at h
    cases h
  | ok found =>
    rw [hwalk] at h
    obtain ⟨front, step⟩ := found
    cases step with
    | stay | up => cases h
    | down name =>
      obtain ⟨hlast, h⟩ := ite_error_eq_ok.1 h
      obtain ⟨hname, h⟩ := ite_error_eq_ok.1 h
      obtain ⟨hentry, h⟩ := ite_error_eq_ok.1 h
      obtain rfl := Except.ok.inj h
      exact ⟨hpath, hnul, by simpa using hlong, hlast, hentry, front, name, rfl,
        by simpa using hname, rfl⟩

theorem write_eq_ok {after : FileTree} :
    tree.write path content = .ok after ↔
      ∃ names, tree.target path = .ok names ∧ after = tree.put names (.file content) := by
  unfold write
  cases tree.target path with
  | error fault => simp [bind, Except.bind]
  | ok names => simp [bind, Except.bind, pure, Except.pure, eq_comm]

theorem lookup_write {after : FileTree} (h : tree.write path content = .ok after) :
    after.lookup path = some (.file content) := by
  obtain ⟨names, htarget, rfl⟩ := write_eq_ok.1 h
  obtain ⟨hpath, hnul, hlong, hlast, hentry, front, name, rfl, hname, hwalk⟩ := target_eq_ok htarget
  -- No slash stands at the end of the path, so the walk is along all of it.
  have hwhole : (path.reverse.dropWhile (· = '/')).reverse = path := by
    rw [← List.head?_reverse] at hlast
    cases hreverse : path.reverse with
    | nil => exact absurd (List.reverse_eq_nil_iff.1 hreverse) hpath
    | cons c cs =>
      rw [hreverse] at hlast
      have hc : c ≠ '/' := fun hc => hlast (by rw [hc]; rfl)
      rw [List.dropWhile_cons_of_neg (by simpa using hc), ← hreverse, List.reverse_reverse]
  rw [hwhole] at hwalk
  rw [lookup, if_neg (by simp [hpath, hnul, hlong]), approach_put hentry hwalk]
  simp only [hname, Bool.false_eq_true, if_false]
  exact entry?_put (by simp) _

/-- A write changes the one file that it writes. -/
theorem write_frame {after : FileTree} (h : tree.write path content = .ok after) :
    ∃ names, tree.target path = .ok names ∧ after.entry? names = some (.file content) ∧
      (∀ others, others ≠ names → after.entry? others = tree.entry? others) ∧
      after.workingDirectory = tree.workingDirectory := by
  obtain ⟨names, htarget, rfl⟩ := write_eq_ok.1 h
  obtain ⟨-, -, -, -, -, front, name, rfl, -⟩ := target_eq_ok htarget
  exact ⟨front ++ [name], htarget, entry?_put (by simp) _, fun _ hne => entry?_put_of_ne hne _, rfl⟩

end FileTree

end ProtoSchema
