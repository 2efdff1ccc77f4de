import ProtoSchema.Proofs.LineEffects
import ProtoSchema.Proofs.Printing

/-!
# Reprinted fields

A line declares a field in any layout, with leading zeros in its id and, outside a schema text, with
a comment. The declaration that is printed for the field declares it again, so that printing brings
all these lines to one form, and a line without comment to a line without comment.

Results:
* `says_field_of_apply`: a field joins the message only by a line that declares it;
* `apply_declaration`: what the printed declaration does in an open message;
* `apply_reprinted`: both together, for every line that declares a field.
-/
namespace ProtoSchema

open Text

section Reprinting

variable {nesting : Nesting} {line : List Char} {n : Nat} {m : Message} {f : Field}

theorem says_field_of_apply
    (h : (grammar.apply nesting line n m).current.fields = m.fields ++ [f]) :
    Says (n, line) (.field f) := by
  rcases (apply_frame nesting line n m).fields with hfields | ⟨g, hg, hfields⟩
  · rw [h, List.append_right_eq_self] at hfields
    cases hfields
  · rw [h, List.append_cancel_left_eq, List.singleton_inj] at hfields
    exact hfields ▸ hg

/-- The declaration of a field adds the field, with the line on which it stands now. -/
theorem apply_declaration (h : f.Declarable) (n : Nat) (m : Message) :
    grammar.apply .inMessage f.declaration.toList n m =
      { state := .inMessage
        current := { m with fields := m.fields ++ [{ f with line := n }] }
        result := .ok {} } :=
  apply_of_takes (says_fieldLine n h) .field

/-- A declaration has no comment if the line that the field comes from has none. -/
theorem code_declaration (h : Says (n, line) (.field f)) (hline : code line = line) :
    code f.declaration.toList = f.declaration.toList := by
  have hcomment : beforeComment .outside line = line := hline ▸ beforeComment_code line
  have hf : f.WellFormed := h.wellFormed hcomment
  exact (isCode_fieldLine hf).code_eq

/-- Of every line that adds a field to an open message, the declaration of that field adds the same
field to any open message, save for the number of the line. It is its own code if the line was, and
reprinting it changes nothing. -/
theorem apply_reprinted (line : List Char) (n : Nat) (m : Message) (f : Field)
    (h : (grammar.apply .inMessage line n m).current.fields = m.fields ++ [f]) :
    (∀ n' m', grammar.apply .inMessage f.declaration.toList n' m' =
      { state := .inMessage
        current := { m' with fields := m'.fields ++ [{ f with line := n' }] }
        result := .ok {} }) ∧
    (code line = line → code f.declaration.toList = f.declaration.toList) ∧
    ∀ n' m' g, (grammar.apply .inMessage f.declaration.toList n' m').current.fields =
      m'.fields ++ [g] → g.declaration = f.declaration := by
  have hsaid := says_field_of_apply h
  have hagain := apply_declaration hsaid.declarable
  refine ⟨hagain, code_declaration hsaid, fun n' m' g hg => ?_⟩
  rw [hagain, List.append_cancel_left_eq, List.singleton_inj] at hg
  rw [← hg]
  rfl

/-- Leading zeros, no blank where none is needed, and a default that looks like the end of the line
and holds a comment marker. -/
theorem apply_reprinted_runs :
    let line := "\trepeated .A.b\tx=007[default='];\\'//  ]  ;".toList
    let f : Field :=
      { id := 7, name := "x", type := .reference ".A.b", scope := .repeated
        default? := some "'];\\'//", line := 4 }
    (grammar.apply .inMessage line 4 {}).current.fields = ({} : Message).fields ++ [f] ∧
    f.declaration = "repeated .A.b x = 7 [default = '];\\'//];" ∧
    (grammar.apply .inMessage f.declaration.toList 9 {}).current.fields = [{ f with line := 9 }] ∧
    code f.declaration.toList = f.declaration.toList := by
  intro line f
  have hadds : (grammar.apply .inMessage line 4 {}).current.fields =
      ({} : Message).fields ++ [f] := by decide +kernel
  obtain ⟨hagain, hcode, -⟩ := apply_reprinted line 4 {} f hadds
  refine ⟨hadds, by decide, ?_, hcode (by decide)⟩
  rw [hagain]
  rfl

end Reprinting

end ProtoSchema
