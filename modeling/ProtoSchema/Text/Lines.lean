/-!
# Lines

A text is cut into lines at every newline. One carriage return just before a newline belongs to the
line end; any other carriage return is part of its line. A last piece without newline is a line if
it is not empty. The cut is the same for characters and for bytes.
-/
namespace ProtoSchema.Text

/-- The lines of a sequence whose line ends are `newline`, or `ret` followed by `newline`. -/
def splitLines {α : Type} [DecidableEq α] (newline ret : α) : List α → List (List α)
  | [] => []
  | c :: cs =>
    if c = newline then [] :: splitLines newline ret cs
    else if c = ret ∧ cs.head? = some newline then splitLines newline ret cs
    else
      match splitLines newline ret cs with
      | [] => [[c]]
      | line :: lines => (c :: line) :: lines

theorem splitLines_append_newline {α : Type} [DecidableEq α] {newline ret : α} {line : List α}
    (hline : newline ∉ line) (hret : line.getLast? ≠ some ret) (rest : List α) :
    splitLines newline ret (line ++ newline :: rest) = line :: splitLines newline ret rest := by
  induction line with
  | nil => simp [splitLines]
  | cons c cs ih =>
    have hc : c ≠ newline := fun h => hline (h ▸ List.mem_cons_self)
    have hcs : newline ∉ cs := fun h => hline (List.mem_cons_of_mem c h)
    cases cs with
    | nil => simp_all [splitLines]
    | cons d ds =>
      have hd : d ≠ newline := fun h => hcs (h ▸ List.mem_cons_self)
      rw [List.cons_append, splitLines, if_neg hc, if_neg (by simp [hd]),
        ih hcs (by simpa using hret)]

/-- A carriage return in front of a newline belongs to the line end, whatever it stands behind. -/
theorem splitLines_append_ret_newline {α : Type} [DecidableEq α] {newline ret : α} {line : List α}
    (hne : ret ≠ newline) (hline : newline ∉ line) (rest : List α) :
    splitLines newline ret (line ++ ret :: newline :: rest) =
      line :: splitLines newline ret rest := by
  induction line with
  | nil => simp [splitLines, hne]
  | cons c cs ih =>
    have hc : c ≠ newline := fun h => hline (h ▸ List.mem_cons_self)
    have hcs : newline ∉ cs := fun h => hline (List.mem_cons_of_mem c h)
    have hhead : (cs ++ ret :: newline :: rest).head? ≠ some newline := by
      cases cs with
      | nil => simpa using hne
      | cons d ds => simpa using fun h : d = newline => hcs (h ▸ List.mem_cons_self)
    rw [List.cons_append, splitLines, if_neg hc, if_neg fun h => hhead h.2, ih hcs]

theorem splitLines_of_not_mem {α : Type} [DecidableEq α] {newline ret : α} {line : List α}
    (hline : newline ∉ line) (hne : line ≠ []) : splitLines newline ret line = [line] := by
  induction line with
  | nil => exact absurd rfl hne
  | cons c cs ih =>
    have hc : c ≠ newline := fun h => hline (h ▸ List.mem_cons_self)
    have hcs : newline ∉ cs := fun h => hline (List.mem_cons_of_mem c h)
    have hhead : cs.head? ≠ some newline := fun h => hcs (List.mem_of_head? h)
    rw [splitLines, if_neg hc, if_neg fun h => hhead h.2]
    by_cases hnil : cs = []
    · rw [hnil]
      rfl
    · rw [ih hcs hnil]

theorem splitLines_ne_nil {α : Type} [DecidableEq α] {newline ret : α} {cs : List α}
    (h : cs ≠ []) : splitLines newline ret cs ≠ [] := by
  induction cs with
  | nil => exact absurd rfl h
  | cons c cs ih =>
    rw [splitLines]
    split
    · nofun
    · split
      · next hret => exact ih (by rintro rfl; cases hret.2)
      · split <;> nofun

theorem splitLines_append {α : Type} [DecidableEq α] {newline ret : α} {front : List α}
    (h : front.getLast? = some newline) (rest : List α) :
    splitLines newline ret (front ++ rest) =
      splitLines newline ret front ++ splitLines newline ret rest := by
  induction front with
  | nil => cases h
  | cons c cs ih =>
    cases cs with
    | nil =>
      obtain rfl : c = newline := by simpa using h
      simp [splitLines]
    | cons d ds =>
      have hrest := ih (by simpa using h)
      rw [List.cons_append, splitLines, splitLines, hrest, List.cons_append, List.head?_cons,
        List.head?_cons]
      split
      · rfl
      · split
        · rfl
        · cases hlines : splitLines newline ret (d :: ds) with
          | nil => exact absurd hlines (splitLines_ne_nil nofun)
          | cons line lines => rfl

/-- The first lines are those of a first part of the sequence. -/
theorem exists_isPrefix_splitLines {α : Type} [DecidableEq α] (newline ret : α) (cs : List α)
    (k : Nat) :
    ∃ front, front <+: cs ∧ splitLines newline ret front = (splitLines newline ret cs).take k := by
  induction cs generalizing k with
  | nil => exact ⟨[], List.prefix_rfl, by simp [splitLines]⟩
  | cons c cs ih =>
    cases k with
    | zero => exact ⟨[], List.nil_prefix, rfl⟩
    | succ k =>
      by_cases hnewline : c = newline
      · obtain ⟨front, hfront, hlines⟩ := ih k
        refine ⟨c :: front, (List.prefix_cons_inj c).2 hfront, ?_⟩
        rw [splitLines, splitLines, if_pos hnewline, if_pos hnewline, hlines, List.take_succ_cons]
      · obtain ⟨front, hfront, hlines⟩ := ih (k + 1)
        refine ⟨c :: front, (List.prefix_cons_inj c).2 hfront, ?_⟩
        -- What follows the first character is the same in both.
        have hhead : front.head? = cs.head? := by
          cases front with
          | nil =>
            cases cs with
            | nil => rfl
            | cons d ds =>
              have hne : splitLines newline ret (d :: ds) ≠ [] := splitLines_ne_nil nofun
              exact absurd hlines.symm (by simpa [splitLines] using hne)
          | cons d ds =>
            obtain ⟨rest, rfl⟩ := hfront
            rfl
        rw [splitLines, splitLines, if_neg hnewline, if_neg hnewline, hhead, hlines]
        split
        · rfl
        · cases splitLines newline ret cs with
          | nil => simp
          | cons line lines => rfl

/-- The lines of a text. -/
def textLines (cs : List Char) : List (List Char) :=
  splitLines '\n' '\r' cs

/-- A text behind a text that is empty or ends with a newline begins with a line of its own. -/
theorem textLines_append {front : List Char} (h : front = [] ∨ front.getLast? = some '\n')
    (rest : List Char) : textLines (front ++ rest) = textLines front ++ textLines rest := by
  rcases h with rfl | h
  · rfl
  · exact splitLines_append h rest

/-- The lines of a byte sequence. -/
def byteLines (bytes : List UInt8) : List (List UInt8) :=
  splitLines 0x0A 0x0D bytes

end ProtoSchema.Text
