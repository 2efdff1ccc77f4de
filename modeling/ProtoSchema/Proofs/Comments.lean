import ProtoSchema.Proofs.Reading
import ProtoSchema.Text.Comment

/-!
# Code without comments

A text has no comment when `beforeComment` leaves all of it. Such a text may be cut anywhere, and
texts without quotes and slashes never matter to the scan.

Results:
* `beforeComment_plain_append`: a plain text in front of another one changes nothing in it;
* `beforeComment_of_append`, `beforeComment_append_eq`, `beforeComment_append_of_ne`: the start of a
  text without comment has none, the scan goes on behind it, and a comment goes on to the end;
* `beforeComment_code`, `code_eq`: what `code` leaves has no comment, and a text without comment and
  trailing blanks is its own code.
-/
namespace ProtoSchema.Text

/-- A text without quotes and slashes. -/
def Plain (cs : List Char) : Prop :=
  ∀ c ∈ cs, c ≠ '"' ∧ c ≠ '\'' ∧ c ≠ '/'

theorem plain_append {cs ds : List Char} : Plain (cs ++ ds) ↔ Plain cs ∧ Plain ds := by
  refine ⟨fun h => ⟨fun c hc => h c (List.mem_append_left ds hc),
    fun c hc => h c (List.mem_append_right cs hc)⟩, fun h c hc => ?_⟩
  rcases List.mem_append.1 hc with hc | hc
  · exact h.1 c hc
  · exact h.2 c hc

theorem plain_of_forall {cls : Char → Bool} {cs : List Char} (h : ∀ c ∈ cs, cls c = true)
    (hcls : (cls '"' || cls '\'' || cls '/') = false) : Plain cs := by
  simp only [Bool.or_eq_false_iff] at hcls
  intro c hc
  refine ⟨?_, ?_, ?_⟩ <;> intro heq <;> subst heq <;> simp_all

theorem plain_of_all {cs : List Char}
    (h : cs.all (fun c => c != '"' && c != '\'' && c != '/') = true) : Plain cs := by
  intro c hc
  have hplain := List.all_eq_true.1 h c hc
  simp only [Bool.and_eq_true, bne_iff_ne, ne_eq] at hplain
  exact ⟨hplain.1.1, hplain.1.2, hplain.2⟩

theorem AllBlank.plain {cs : List Char} (h : AllBlank cs) : Plain cs :=
  plain_of_forall h (by decide)

theorem isPrefixOf_commentMarker {c : Char} {cs : List Char} :
    commentMarker.isPrefixOf (c :: cs) = true ↔ c = '/' ∧ cs.head? = some '/' := by
  cases cs <;> simp [commentMarker, List.isPrefixOf, eq_comm (a := '/')]

theorem beforeComment_plain_append {cs : List Char} (h : Plain cs) (ds : List Char) :
    beforeComment .outside (cs ++ ds) = cs ++ beforeComment .outside ds := by
  induction cs with
  | nil => rfl
  | cons c cs ih =>
    obtain ⟨hdouble, hsingle, hslash⟩ := h c List.mem_cons_self
    have hnext : Scan.outside.next c = .outside := by simp [Scan.next, hdouble, hsingle]
    have hcs : Plain cs := fun d hd => h d (List.mem_cons_of_mem c hd)
    rw [List.cons_append, beforeComment, hnext, ih hcs]
    exact if_neg fun hmarker => hslash (isPrefixOf_commentMarker.1 hmarker.2).1

theorem beforeComment_of_not_mem {cs : List Char} (h : '/' ∉ cs) (scan : Scan) :
    beforeComment scan cs = cs := by
  induction cs generalizing scan with
  | nil => rfl
  | cons c cs ih =>
    have hslash : c ≠ '/' := fun hc => h (hc ▸ List.mem_cons_self)
    have hcs : '/' ∉ cs := fun hmem => h (List.mem_cons_of_mem c hmem)
    rw [beforeComment, ih hcs]
    exact if_neg fun hmarker => hslash (isPrefixOf_commentMarker.1 hmarker.2).1

theorem beforeComment_cons_eq {scan : Scan} {c : Char} {cs : List Char} :
    beforeComment scan (c :: cs) = c :: cs ↔
      ¬ (scan = .outside ∧ c = '/' ∧ cs.head? = some '/') ∧
        beforeComment (scan.next c) cs = cs := by
  simp only [beforeComment, isPrefixOf_commentMarker]
  split
  · next hmarker =>
    refine ⟨fun h => ?_, fun h => absurd hmarker h.1⟩
    cases h
  · next hmarker =>
    exact ⟨fun h => ⟨hmarker, (List.cons.inj h).2⟩, fun h => by rw [h.2]⟩

theorem beforeComment_of_append {scan : Scan} {cs ds : List Char}
    (h : beforeComment scan (cs ++ ds) = cs ++ ds) : beforeComment scan cs = cs := by
  induction cs generalizing scan with
  | nil => rfl
  | cons c cs ih =>
    rw [List.cons_append] at h
    obtain ⟨hmarker, hrest⟩ := beforeComment_cons_eq.1 h
    refine beforeComment_cons_eq.2 ⟨fun ⟨hscan, hc, hcs⟩ => hmarker ⟨hscan, hc, ?_⟩, ih hrest⟩
    rw [List.head?_append, hcs]
    rfl

/-- Behind a text without comment the scan goes on, unless a marker stands across the seam. -/
theorem beforeComment_append_eq {scan : Scan} {cs ds : List Char} (h : beforeComment scan cs = cs)
    (hseam : ds.head? ≠ some '/' ∨ cs.getLast? ≠ some '/') :
    beforeComment scan (cs ++ ds) = cs ++ beforeComment (cs.foldl Scan.next scan) ds := by
  induction cs generalizing scan with
  | nil => rfl
  | cons c cs ih =>
    obtain ⟨hmarker, hrest⟩ := beforeComment_cons_eq.1 h
    have hnone : ¬ (scan = .outside ∧ commentMarker.isPrefixOf (c :: (cs ++ ds)) = true) := by
      rintro ⟨hscan, hprefix⟩
      obtain ⟨rfl, hhead⟩ := isPrefixOf_commentMarker.1 hprefix
      cases cs with
      | nil => exact hseam.elim (absurd hhead) (absurd rfl)
      | cons d cs => exact hmarker ⟨hscan, rfl, hhead⟩
    have hseam' : ds.head? ≠ some '/' ∨ cs.getLast? ≠ some '/' := by
      cases cs with
      | nil => exact .inr nofun
      | cons d cs => rwa [List.getLast?_cons_cons] at hseam
    rw [List.cons_append, beforeComment, if_neg hnone, ih hrest hseam']
    rfl

theorem beforeComment_append {scan : Scan} {cs ds : List Char} (h : beforeComment scan cs = cs)
    (hds : '/' ∉ ds) : beforeComment scan (cs ++ ds) = cs ++ ds := by
  rw [beforeComment_append_eq h (.inl fun hhead => hds (List.mem_of_head? hhead)),
    beforeComment_of_not_mem hds]

/-- What stands behind a comment belongs to it. -/
theorem beforeComment_append_of_ne {scan : Scan} {cs : List Char} (h : beforeComment scan cs ≠ cs)
    (ds : List Char) : beforeComment scan (cs ++ ds) = beforeComment scan cs := by
  induction cs generalizing scan with
  | nil => exact absurd rfl h
  | cons c cs ih =>
    simp only [List.cons_append, beforeComment, isPrefixOf_commentMarker] at h ⊢
    by_cases hmarker : scan = .outside ∧ c = '/' ∧ cs.head? = some '/'
    · have hlonger : scan = .outside ∧ c = '/' ∧ (cs ++ ds).head? = some '/' := by
        rw [List.head?_append, hmarker.2.2]
        exact ⟨hmarker.1, hmarker.2.1, rfl⟩
      rw [if_pos hmarker, if_pos hlonger]
    · rw [if_neg hmarker] at h ⊢
      have hcs : beforeComment (scan.next c) cs ≠ cs := fun heq => h (by rw [heq])
      -- The rest has a comment, so it has a first character, which stays the next one.
      obtain ⟨d, cs, rfl⟩ : ∃ d ds, cs = d :: ds :=
        List.exists_cons_of_ne_nil fun hnil => hcs (by rw [hnil]; rfl)
      rw [ih hcs]
      exact if_neg hmarker

theorem beforeComment_beforeComment (scan : Scan) (cs : List Char) :
    beforeComment scan (beforeComment scan cs) = beforeComment scan cs := by
  induction cs generalizing scan with
  | nil => rfl
  | cons c cs ih =>
    simp only [beforeComment, isPrefixOf_commentMarker]
    split
    · rfl
    · next hmarker =>
      refine beforeComment_cons_eq.2 ⟨fun h => ?_, ih _⟩
      obtain ⟨hscan, hc, hcs⟩ := h
      obtain ⟨comment, hsplit⟩ := beforeComment_isPrefix (scan.next c) cs
      have hhead : cs.head? = some '/' := by
        rw [← hsplit, List.head?_append, hcs]
        rfl
      exact hmarker ⟨hscan, hc, hhead⟩

theorem beforeComment_code (line : List Char) : beforeComment .outside (code line) = code line := by
  have hsplit := trimEnd_append_blanks (beforeComment .outside line)
  have hcode := beforeComment_beforeComment .outside line
  rw [← hsplit] at hcode
  exact beforeComment_of_append hcode

theorem code_eq {line : List Char} (h : beforeComment .outside line = line)
    (hend : NotAhead isBlank line.reverse) : code line = line := by
  rw [code, h, trimEnd_of_notAhead hend]

end ProtoSchema.Text
